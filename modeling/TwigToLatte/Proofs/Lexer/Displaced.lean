import TwigToLatte.Proofs.Lexer.Termination

/-!
# The same text at another place

Offsets and columns are only written down. Two states that have the same text ahead and differ in
nothing else that a step asks for go on in the same way.

* `Cursor.Displaced`, `Scan.Displaced` — such positions, and such states.
* `Scan.Corresponds` — the same fault, or again such states.
* `Scan.Displaced.step` — **steps correspond**, whether they succeed or not.
* `Scan.Displaced.ends` — so do whole runs.
* `kindsOf_tokenize_eq` — so the tokens of whole templates are of the same kinds.
-/

namespace TwigToLatte

open Text Pattern

namespace Cursor

/-- Another position with the same text ahead, on the same line, where a name is due in both or in
neither. -/
structure Displaced (cursor moved : Cursor) : Prop where
  rest_eq : moved.rest = cursor.rest
  line_eq : moved.line = cursor.line
  previous_eq : moved.previous.any (fun c => c == '.' || c == '|') =
    cursor.previous.any (fun c => c == '.' || c == '|')

variable {cursor moved : Cursor}

theorem Displaced.step (h : cursor.Displaced moved) : cursor.step.Displaced moved.step := by
  unfold Cursor.step
  rw [h.rest_eq]
  cases hrest : cursor.rest with
  | nil => exact h
  | cons c rest =>
    by_cases hc : c = '\n'
    · simp only [hc, if_true]
      exact ⟨rfl, by simp [h.line_eq], rfl⟩
    · simp only [hc, if_false]
      exact ⟨rfl, h.line_eq, rfl⟩

theorem Displaced.advance (h : cursor.Displaced moved) (n : Nat) :
    (cursor.advance n).Displaced (moved.advance n) := by
  induction n generalizing cursor moved with
  | zero => exact h
  | succ n ih => exact ih h.step

end Cursor

theorem Pattern.operator?_congr {previous previous' : Option Char}
    (h : previous'.any (fun c => c == '.' || c == '|') =
      previous.any (fun c => c == '.' || c == '|')) (symbols : List (List Char))
    (text : List Char) : operator? symbols previous' text = operator? symbols previous text := by
  unfold operator? operatorAt?
  simp only [h]

namespace Lexer

variable {symbols : List (List Char)}

namespace Scan

/-- Another state that goes on in the same way: the kinds of the tokens so far are the same, and
only their spans may differ. -/
structure Displaced (scan moved : Scan) : Prop where
  cursor : scan.cursor.Displaced moved.cursor
  modes_eq : moved.modes = scan.modes
  brackets_eq : moved.brackets = scan.brackets
  tagLine_eq : moved.tagLine = scan.tagLine
  kinds_eq : moved.kinds = scan.kinds

/-- The same fault, or states that go on in the same way. -/
inductive Corresponds : Except Fault Scan → Except Fault Scan → Prop
  | ok {scan moved : Scan} (h : scan.Displaced moved) : Corresponds (.ok scan) (.ok moved)
  | error (fault : Fault) : Corresponds (.error fault) (.error fault)

theorem Corresponds.ite {p : Prop} [Decidable p] {a b a' b' : Except Fault Scan}
    (hthen : p → Corresponds a a') (helse : ¬p → Corresponds b b') :
    Corresponds (if p then a else b) (if p then a' else b') := by
  by_cases hp : p
  · rw [if_pos hp, if_pos hp]
    exact hthen hp
  · rw [if_neg hp, if_neg hp]
    exact helse hp

namespace Displaced

variable {scan moved : Scan} (h : scan.Displaced moved)

include h

theorem rest_eq : moved.rest = scan.rest := h.cursor.rest_eq

theorem skip (n : Nat) : (scan.skip n).Displaced (moved.skip n) :=
  ⟨h.cursor.advance n, h.modes_eq, h.brackets_eq, h.tagLine_eq, h.kinds_eq⟩

theorem take (n : Nat) (kind : Token.Kind) : (scan.take n kind).Displaced (moved.take n kind) where
  cursor := h.cursor.advance n
  modes_eq := h.modes_eq
  brackets_eq := h.brackets_eq
  tagLine_eq := h.tagLine_eq
  kinds_eq := by simp [h.kinds_eq]

theorem setStacks (modes : List Mode) (brackets : List (Bracket × Nat)) :
    Displaced { scan with modes, brackets } { moved with modes, brackets } :=
  ⟨h.cursor, rfl, rfl, h.tagLine_eq, h.kinds_eq⟩

theorem setModes (modes : List Mode) : Displaced { scan with modes } { moved with modes } :=
  ⟨h.cursor, rfl, h.brackets_eq, h.tagLine_eq, h.kinds_eq⟩

theorem setBrackets (brackets : List (Bracket × Nat)) :
    Displaced { scan with brackets } { moved with brackets } :=
  ⟨h.cursor, h.modes_eq, rfl, h.tagLine_eq, h.kinds_eq⟩

theorem fail (cause : Cause) : Corresponds (scan.fail cause) (moved.fail cause) := by
  unfold Scan.fail
  rw [h.cursor.line_eq]
  exact .error _

theorem openTag (kind : Token.Kind) (mode : Mode) :
    (scan.openTag kind mode).Displaced (moved.openTag kind mode) := by
  unfold Scan.openTag
  rw [h.rest_eq, h.modes_eq, h.cursor.line_eq]
  have htaken := h.take (2 + marker (scan.rest.drop 2)) kind
  exact ⟨htaken.cursor, rfl, htaken.brackets_eq, rfl, htaken.kinds_eq⟩

theorem stepComment : Corresponds scan.stepComment moved.stepComment := by
  unfold Scan.stepComment
  rw [h.rest_eq]
  cases pair? '#' '}' (scan.rest.drop 2) with
  | none => exact h.fail _
  | some length => exact .ok (h.take _ _)

theorem stepVerbatim (opened : Nat) :
    Corresponds (scan.stepVerbatim opened) (moved.stepVerbatim opened) := by
  unfold Scan.stepVerbatim
  simp only [h.rest_eq]
  cases verbatimEnd? (scan.rest.drop opened) with
  | none => exact h.fail _
  | some found => exact .ok (h.take _ _)

theorem stepText : Corresponds scan.stepText moved.stepText := by
  unfold Scan.stepText
  simp only [h.rest_eq]
  refine .ite (fun _ => .ok (h.take _ _)) fun _ => ?_
  refine .ite (fun _ => h.stepComment) fun _ => ?_
  refine .ite (fun _ => ?_) fun _ => .ok (h.openTag _ _)
  cases namedTag? "verbatim".toList scan.rest with
  | none => exact .ok (h.openTag _ _)
  | some opened => exact h.stepVerbatim opened

theorem closeBracket (mark : Char) (bracket : Bracket) :
    Corresponds (scan.closeBracket mark bracket) (moved.closeBracket mark bracket) := by
  unfold Scan.closeBracket
  rw [h.brackets_eq]
  cases scan.brackets with
  | nil => exact h.fail _
  | cons opened brackets =>
    exact .ite (fun _ => .ok ((h.take 1 _).setBrackets brackets)) fun _ => .error _

theorem openBracket (mark : Char) (bracket : Bracket) :
    (scan.openBracket mark bracket).Displaced (moved.openBracket mark bracket) := by
  unfold Scan.openBracket
  rw [h.brackets_eq, h.cursor.line_eq]
  exact (h.take 1 _).setBrackets _

theorem stepSingleQuoted : Corresponds scan.stepSingleQuoted moved.stepSingleQuoted := by
  unfold Scan.stepSingleQuoted
  rw [h.rest_eq]
  cases quotedLength? '\'' (fun _ => false) scan.rest.tail with
  | none => exact h.fail _
  | some length => exact .ok (h.take _ _)

theorem stepDoubleQuoted : scan.stepDoubleQuoted.Displaced moved.stepDoubleQuoted := by
  unfold Scan.stepDoubleQuoted Scan.enterString
  rw [h.rest_eq, h.modes_eq, h.brackets_eq, h.cursor.line_eq]
  cases quotedLength? '"' (· == '#') scan.rest.tail with
  | some length => exact h.take _ _
  | none => exact (h.skip 1).setStacks _ _

theorem stepToken (c : Char) :
    Corresponds (scan.stepToken symbols c) (moved.stepToken symbols c) := by
  unfold Scan.stepToken
  rw [h.rest_eq, operator?_congr h.cursor.previous_eq]
  refine .ite (fun _ => .ok (h.take _ _)) fun _ => ?_
  cases operator? symbols scan.cursor.previous scan.rest with
  | some found => exact .ok (h.take _ _)
  | none =>
    refine .ite (fun _ => .ok (h.take _ _)) fun _ => ?_
    refine .ite (fun _ => .ok (h.take _ _)) fun _ => ?_
    cases Bracket.ofOpener? c with
    | some bracket => exact .ok (h.openBracket c bracket)
    | none =>
      cases Bracket.ofCloser? c with
      | some bracket => exact h.closeBracket c bracket
      | none =>
        refine .ite (fun _ => .ok (h.take _ _)) fun _ => ?_
        refine .ite (fun _ => h.stepSingleQuoted) fun _ => ?_
        exact .ite (fun _ => .ok h.stepDoubleQuoted) fun _ => h.fail _

theorem stepExpression :
    Corresponds (scan.stepExpression symbols) (moved.stepExpression symbols) := by
  unfold Scan.stepExpression
  simp only [h.rest_eq, rest_skip]
  have hskip := h.skip (blanks scan.rest)
  cases scan.rest.drop (blanks scan.rest) with
  | nil => exact .ok hskip
  | cons c text => exact hskip.stepToken c

theorem stepTag (closer : Char) (kind : Token.Kind) :
    Corresponds (scan.stepTag symbols closer kind) (moved.stepTag symbols closer kind) := by
  unfold Scan.stepTag
  rw [h.rest_eq, h.brackets_eq, h.modes_eq]
  cases scan.brackets with
  | cons bracket brackets => exact h.stepExpression
  | nil =>
    cases tagEnd? closer scan.rest with
    | none => exact h.stepExpression
    | some length => exact .ok ((h.take _ _).setModes _)

theorem stepString : Corresponds (.ok scan.stepString) (.ok moved.stepString) := by
  unfold Scan.stepString
  rw [h.rest_eq, h.brackets_eq, h.modes_eq, h.cursor.line_eq, apply_ite Except.ok,
    apply_ite Except.ok, apply_ite Except.ok, apply_ite Except.ok]
  refine .ite (fun _ => .ok ((h.take _ _).setStacks _ _)) fun _ => ?_
  exact .ite (fun _ => .ok ((h.skip 1).setStacks _ _)) fun _ => .ok (h.take _ _)

theorem stepInterpolation :
    Corresponds (scan.stepInterpolation symbols) (moved.stepInterpolation symbols) := by
  unfold Scan.stepInterpolation
  simp only [h.rest_eq, h.brackets_eq, h.modes_eq]
  cases scan.brackets with
  | nil => exact h.stepExpression
  | cons opened brackets =>
    obtain ⟨bracket, line⟩ := opened
    cases bracket with
    | interpolation =>
      exact .ite (fun _ => .ok (((h.skip _).take 1 _).setStacks _ _)) fun _ => h.stepExpression
    | _ => exact h.stepExpression

/-- **Steps correspond**, whether they succeed or not. -/
theorem step : Corresponds (scan.step symbols) (moved.step symbols) := by
  unfold Scan.step
  rw [h.modes_eq]
  cases scan.modes with
  | nil => exact h.stepText
  | cons mode outer =>
    cases mode with
    | block => exact h.stepTag _ _
    | «variable» => exact h.stepTag _ _
    | string => exact h.stepString
    | interpolation => exact h.stepInterpolation

omit h in
theorem ends {outcome : Except Fault Scan} (h : scan.Displaced moved)
    (hends : Ends symbols scan outcome) :
    ∃ outcome', Ends symbols moved outcome' ∧ Corresponds outcome outcome' := by
  induction hends generalizing moved with
  | finished hrest => exact ⟨.ok moved, .finished (h.rest_eq.trans hrest), .ok h⟩
  | failed hrest hstep =>
    have hcorresponds := @step symbols _ _ h
    rw [hstep] at hcorresponds
    generalize hmoved : moved.step symbols = outcome at hcorresponds
    cases hcorresponds with
    | error => exact ⟨_, .failed (h.rest_eq ▸ hrest) hmoved, .error _⟩
  | step hrest hstep _ ih =>
    have hcorresponds := @step symbols _ _ h
    rw [hstep] at hcorresponds
    generalize hmoved : moved.step symbols = outcome at hcorresponds
    cases hcorresponds with
    | ok hnext =>
      obtain ⟨outcome', hends', houtcome⟩ := ih hnext
      exact ⟨outcome', .step (h.rest_eq ▸ hrest) hmoved hends', houtcome⟩

end Displaced

end Scan

/-! ## Whole templates -/

/-- The kinds of the tokens, with their values, or the fault. -/
def kindsOf (outcome : Except Fault (Array Token)) : Except Fault (List Token.Kind) :=
  outcome.map fun tokens => tokens.toList.map (·.kind)

variable {scan moved : Scan}

/-- At the end, the kinds of the tokens are the same, or the fault is. -/
theorem Scan.Displaced.kindsOf_finish (h : scan.Displaced moved) :
    kindsOf moved.finish = kindsOf scan.finish := by
  unfold Scan.finish
  rw [h.modes_eq, h.tagLine_eq, h.brackets_eq, h.cursor.line_eq]
  cases scan.modes with
  | nil => exact congrArg Except.ok (h.take 0 .eof).kinds_eq
  | cons mode outer => cases mode <;> rfl

/-- Templates whose first steps lead to states whose next steps correspond have the same kinds of
tokens, or the same fault. -/
theorem kindsOf_tokenize_eq {symbols : List String} {text text' : String}
    (hscan : Scan.Reaches (orderSymbols symbols) (Scan.start text) scan)
    (hmoved : Scan.Reaches (orderSymbols symbols) (Scan.start text') moved)
    (hrest : scan.rest ≠ []) (hrest' : moved.rest ≠ [])
    (h : Scan.Corresponds (scan.step (orderSymbols symbols)) (moved.step (orderSymbols symbols))) :
    kindsOf (tokenize text' symbols) = kindsOf (tokenize text symbols) := by
  generalize hstep : scan.step (orderSymbols symbols) = outcome at h
  generalize hstep' : moved.step (orderSymbols symbols) = outcome' at h
  cases h with
  | error fault =>
    rw [tokenize_eq_of_ends (.of_reaches hscan (.failed hrest hstep)),
      tokenize_eq_of_ends (.of_reaches hmoved (.failed hrest' hstep'))]
  | @ok next next' hnext =>
    have hends := Scan.ends_run (orderSymbols_ne_nil symbols) (Nat.le_refl next.rest.length)
    generalize Scan.run (orderSymbols symbols) next.rest.length next = last at hends
    obtain ⟨last', hends', hlast⟩ := hnext.ends hends
    rw [tokenize_eq_of_ends (.of_reaches hscan (.step hrest hstep hends)),
      tokenize_eq_of_ends (.of_reaches hmoved (.step hrest' hstep' hends'))]
    cases hlast with
    | ok hlast => exact hlast.kindsOf_finish
    | error => rfl

end Lexer

end TwigToLatte
