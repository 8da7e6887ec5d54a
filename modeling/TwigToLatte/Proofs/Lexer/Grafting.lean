import TwigToLatte.Proofs.Lexer.Lookahead

/-!
# The same steps before another text

Steps that end before a delimiter of a tag do not depend on what follows there, beyond what a seam
keeps.

* `Scan.onText` — a state with another text ahead.
* `Scan.Carries` — a step that ends before the seam is taken before the other text, too.
* `Scan.carries_step` — **every step carries over**.
* `Scan.reaches_onText` — so do steps in a row.
-/

namespace TwigToLatte

open List

open Text Pattern

/-! ## Positions -/

namespace Cursor

/-- A position with another text ahead. -/
def onText (text : List Char) (cursor : Cursor) : Cursor := { cursor with rest := text }

variable {cursor : Cursor} {ahead : List Char}

theorem step_onText {c : Char} (h : cursor.rest = c :: ahead) (ahead' : List Char) :
    (cursor.onText (c :: ahead')).step = cursor.step.onText ahead' := by
  unfold step
  rw [h]
  simp only [onText]
  split <;> rfl

theorem advance_onText {follow : List Char} {n : Nat} (h : cursor.rest = ahead ++ follow)
    (hn : n ≤ ahead.length) (follow' : List Char) :
    (cursor.onText (ahead ++ follow')).advance n =
      (cursor.advance n).onText (ahead.drop n ++ follow') := by
  induction n generalizing cursor ahead with
  | zero => rfl
  | succ n ih =>
    obtain ⟨c, ahead, rfl⟩ := exists_cons_of_length_pos (Nat.zero_lt_of_lt hn)
    have hstep : cursor.step.rest = ahead ++ follow := by rw [rest_step, h]; rfl
    rw [advance, advance, cons_append, step_onText h, ih hstep (Nat.le_of_succ_le_succ hn),
      drop_succ_cons]

end Cursor

namespace Lexer

variable {symbols : List (List Char)} {B B' : List Char}

namespace Scan

/-- A state with another text ahead. -/
def onText (text : List Char) (scan : Scan) : Scan :=
  { scan with cursor := scan.cursor.onText text }

@[simp] theorem rest_onText (text : List Char) (scan : Scan) : (scan.onText text).rest = text := rfl

section

variable {scan : Scan} {ahead : List Char} (hrest : scan.rest = ahead ++ B)

include hrest

variable {n : Nat}

theorem skip_onText (hn : n ≤ ahead.length) (B' : List Char) :
    (scan.onText (ahead ++ B')).skip n = (scan.skip n).onText (ahead.drop n ++ B') := by
  unfold skip onText
  simp only [Cursor.advance_onText hrest hn]

theorem take_onText (hn : n ≤ ahead.length) (B' : List Char) (kind : Token.Kind) :
    (scan.onText (ahead ++ B')).take n kind = (scan.take n kind).onText (ahead.drop n ++ B') := by
  unfold take onText
  simp only [Cursor.advance_onText hrest hn]
  rfl

end

variable {ahead ahead' : List Char} {scan next last : Scan}

/-- What leaves the text from the seam on was read before it. -/
theorem le_of_drop_append (hB : B ≠ []) {n : Nat} (h : (ahead ++ B).drop n = ahead' ++ B) :
    n ≤ ahead.length := by
  have hlength := congrArg List.length h
  have hpos := length_pos_iff.mpr hB
  simp only [length_drop, length_append] at hlength
  omega

/-- If a step ends before the seam, in a state from which a string does not run beyond it, then the
other step ends in the same state with the other text ahead. -/
def Carries (B B' : List Char) (outcome outcome' : Except Fault Scan) : Prop :=
  ∀ next ahead, outcome = .ok next → next.rest = ahead ++ B →
    (next.modes.head? = some .string → stringRun next.rest ≤ ahead.length) →
    outcome' = .ok (next.onText (ahead ++ B'))

namespace Carries

theorem error (fault : Fault) (outcome' : Except Fault Scan) :
    Carries B B' (.error fault) outcome' := by
  intro next ahead hok
  cases hok

theorem ite {p : Prop} [Decidable p] {a b a' b' : Except Fault Scan} (hthen : p → Carries B B' a a')
    (helse : ¬p → Carries B B' b b') :
    Carries B B' (if p then a else b) (if p then a' else b') := by
  by_cases hp : p
  · rw [if_pos hp, if_pos hp]
    exact hthen hp
  · rw [if_neg hp, if_neg hp]
    exact helse hp

variable {scan : Scan}

/-- A step that reads `n` characters ends before the seam if they stand there. -/
theorem within (hB : B ≠ []) {next : Scan} {ahead : List Char} {n : Nat}
    {outcome' : Except Fault Scan} (hrest : scan.rest = ahead ++ B)
    (hnext : next.rest = scan.rest.drop n) (h : n ≤ ahead.length →
      (next.modes.head? = some .string → stringRun next.rest ≤ (ahead.drop n).length) →
      outcome' = .ok (next.onText (ahead.drop n ++ B'))) : Carries B B' (.ok next) outcome' := by
  rintro _ ahead' ⟨⟩ hnext' hstring
  have hdrop : (ahead ++ B).drop n = ahead' ++ B := by rw [← hrest, ← hnext, hnext']
  have hn := le_of_drop_append hB hdrop
  rw [drop_append_of_le_length hn] at hdrop
  obtain rfl := append_cancel_right hdrop
  exact h hn hstring

theorem of_effect (hB : B ≠ []) {outcome : Except Fault Scan} (hrest : scan.rest = B)
    (h : ∀ next, outcome = .ok next → Effect scan next) (outcome' : Except Fault Scan) :
    Carries B B' outcome outcome' := by
  intro next ahead hok hnext
  obtain ⟨made, -, hmoves⟩ := h next hok
  have hlt := hmoves.length_lt (hrest ▸ hB)
  rw [hrest, hnext, length_append] at hlt
  omega

end Carries

/-! ## Tokens of expressions -/

section

variable (h : Seam B B') {scan : Scan} {c : Char} {ahead : List Char}

include h

theorem carries_take (hrest : scan.rest = ahead ++ B) (n : Nat) (kind : Token.Kind) :
    Carries B B' (.ok (scan.take n kind)) (.ok ((scan.onText (ahead ++ B')).take n kind)) :=
  .within h.left.ne_nil hrest (rest_take n kind scan) fun hn _ => by rw [take_onText hrest hn]

theorem carries_closeBracket (hrest : scan.rest = ahead ++ B) (mark : Char) (bracket : Bracket) :
    Carries B B' (scan.closeBracket mark bracket)
      ((scan.onText (ahead ++ B')).closeBracket mark bracket) := by
  have hbrackets : (scan.onText (ahead ++ B')).brackets = scan.brackets := rfl
  unfold closeBracket
  rw [hbrackets]
  cases scan.brackets with
  | nil => exact .error _ _
  | cons opened brackets =>
    refine .ite (fun _ => ?_) fun _ => .error _ _
    refine .within h.left.ne_nil hrest (rest_take 1 (.punctuation mark) scan) fun hn _ => ?_
    rw [take_onText hrest hn]
    rfl

theorem carries_openBracket (hrest : scan.rest = ahead ++ B) (mark : Char) (bracket : Bracket) :
    Carries B B' (.ok (scan.openBracket mark bracket))
      (.ok ((scan.onText (ahead ++ B')).openBracket mark bracket)) := by
  unfold openBracket
  refine .within h.left.ne_nil hrest (rest_take 1 (.punctuation mark) scan) fun hn _ => ?_
  rw [take_onText hrest hn]
  rfl

theorem carries_quoted {quote : Char} {stop : Char → Bool} {length : Nat}
    {outcome' : Except Fault Scan} (hrest : scan.rest = c :: ahead ++ B)
    (hlength : quotedLength? quote stop (ahead ++ B) = some length)
    (houtcome : quotedLength? quote stop (ahead ++ B') = some length →
      outcome' = .ok ((scan.onText (c :: ahead ++ B')).take (length + 2)
        (.string (String.ofList (unescapeChars ((ahead ++ B').take length)))))) :
    Carries B B' (.ok (scan.take (length + 2)
      (.string (String.ofList (unescapeChars ((ahead ++ B).take length)))))) outcome' := by
  refine .within h.left.ne_nil hrest (rest_take _ _ scan) fun hn _ => ?_
  have hle : length < ahead.length := by
    rw [length_cons] at hn
    omega
  have htake : ∀ follow, (ahead ++ follow).take length = ahead.take length :=
    fun _ => take_append_of_le_length (Nat.le_of_lt hle)
  rw [houtcome (quotedLength?_of_append hlength hle B'), take_onText hrest hn, htake, htake]

theorem carries_stepSingleQuoted (hrest : scan.rest = c :: ahead ++ B) :
    Carries B B' scan.stepSingleQuoted (scan.onText (c :: ahead ++ B')).stepSingleQuoted := by
  unfold stepSingleQuoted
  simp only [rest_onText, hrest, cons_append, tail_cons]
  cases hlength : quotedLength? '\'' (fun _ => false) (ahead ++ B) with
  | none => exact .error _ _
  | some length => exact carries_quoted h hrest hlength fun hlength' => by rw [hlength']; rfl

/-- Whether a string is one token depends on text further ahead, but a string that is entered is
read up to its end or to an interpolation before the seam. -/
theorem carries_stepDoubleQuoted (hrest : scan.rest = c :: ahead ++ B) :
    Carries B B' (.ok scan.stepDoubleQuoted)
      (.ok (scan.onText (c :: ahead ++ B')).stepDoubleQuoted) := by
  unfold stepDoubleQuoted enterString
  simp only [rest_onText, hrest, cons_append, tail_cons]
  cases hlength : quotedLength? '"' (· == '#') (ahead ++ B) with
  | some length => exact carries_quoted h hrest hlength fun hlength' => by rw [hlength']; rfl
  | none =>
    refine .within h.left.ne_nil hrest (rest_skip 1 scan) fun hn hstring => ?_
    have hskipped : (scan.skip 1).rest = ahead ++ B := by rw [rest_skip, hrest]; rfl
    have hin : stringRun (ahead ++ B) ≤ ahead.length := hskipped ▸ hstring rfl
    rw [(string_seam h hin).2, hlength, ← cons_append]
    simp only [skip_onText hrest hn]
    rfl

theorem carries_stepToken (hs : ∀ s ∈ symbols, continuesInside s.tail = true)
    (hrest : scan.rest = c :: ahead ++ B) :
    Carries B B' (scan.stepToken symbols c)
      ((scan.onText (c :: ahead ++ B')).stepToken symbols c) := by
  have hprevious : (scan.onText (c :: ahead ++ B')).cursor.previous = scan.cursor.previous := rfl
  unfold stepToken
  rw [rest_onText, hprevious, hrest, operator?_seam hs h, startsWith_arrow_stops h.left,
    startsWith_arrow_stops h.right, takeWhile_stops (by decide) h.left,
    takeWhile_stops (by decide) h.right, numeral_stops h.left, numeral_stops h.right]
  refine .ite (fun _ => carries_take h hrest _ _) fun _ => ?_
  cases operator? symbols scan.cursor.previous (c :: ahead ++ B) with
  | some found => exact carries_take h hrest _ _
  | none =>
    refine .ite (fun _ => carries_take h hrest _ _) fun _ => ?_
    refine .ite (fun _ => carries_take h hrest _ _) fun _ => ?_
    cases Bracket.ofOpener? c with
    | some bracket => exact carries_openBracket h hrest c bracket
    | none =>
      cases Bracket.ofCloser? c with
      | some bracket => exact carries_closeBracket h hrest c bracket
      | none =>
        refine .ite (fun _ => carries_take h hrest _ _) fun _ => ?_
        refine .ite (fun _ => carries_stepSingleQuoted h hrest) fun _ => ?_
        exact .ite (fun _ => carries_stepDoubleQuoted h hrest) fun _ => .error _ _

end

/-! ## Steps inside tags -/

theorem rest_skip_blanks (hrest : scan.rest = ahead ++ B) :
    (scan.skip (blanks ahead)).rest = ahead.drop (blanks ahead) ++ B := by
  rw [rest_skip, hrest, drop_append_of_le_length (blanks_le ahead)]

theorem rest_skip_take (scan : Scan) (m n : Nat) (kind : Token.Kind) :
    ((scan.skip m).take n kind).rest = scan.rest.drop (m + n) := by
  rw [rest_take, rest_skip, drop_drop]

section

variable (h : Seam B B') (hs : ∀ s ∈ symbols, s ≠ [] ∧ continuesInside s.tail = true)
  {scan : Scan} {ahead : List Char} (hrest : scan.rest = ahead ++ B)

include h hs hrest

variable {mode : Mode} {outer : List Mode}

theorem carries_stepExpression (hmodes : scan.modes = mode :: outer)
    (he : mode.isExpression = true) :
    Carries B B' (scan.stepExpression symbols)
      ((scan.onText (ahead ++ B')).stepExpression symbols) := by
  have hskipped := rest_skip_blanks hrest
  unfold stepExpression
  simp only [rest_onText, hrest, blanks_stops h.left, blanks_stops h.right,
    skip_onText hrest (blanks_le ahead), hskipped]
  cases hdrop : ahead.drop (blanks ahead) with
  | cons c rest =>
    rw [hdrop] at hskipped
    exact carries_stepToken h (fun s hmem => (hs s hmem).2) hskipped
  | nil =>
    -- A token would be read that begins at the seam.
    rw [hdrop, nil_append] at hskipped
    have hblanks : blanks (scan.skip (blanks ahead)).rest = 0 := by
      rw [hskipped]
      exact blanks_stops h.left []
    obtain ⟨c, more, rfl, -⟩ := h.left.exists_cons
    have hcons : (scan.skip (blanks ahead)).rest.drop (blanks (scan.skip (blanks ahead)).rest) =
        c :: more := by rw [hblanks, drop_zero, hskipped]
    refine .of_effect h.left.ne_nil hskipped (fun next hstep => ?_) _
    refine stepToken_effect (fun s hmem => (hs s hmem).1) hmodes he hcons ?_
    rw [hblanks]
    exact hstep

theorem carries_stepTag (hmodes : scan.modes = mode :: outer) (he : mode.isExpression = true)
    {closer : Char} (hcloser : closer = '%' ∨ closer = '}') (kind : Token.Kind) :
    Carries B B' (scan.stepTag symbols closer kind)
      ((scan.onText (ahead ++ B')).stepTag symbols closer kind) := by
  have hbrackets : (scan.onText (ahead ++ B')).brackets = scan.brackets := rfl
  have hexpression := carries_stepExpression h hs hrest hmodes he
  unfold stepTag
  rw [hbrackets, rest_onText, hrest]
  cases scan.brackets with
  | cons bracket brackets => exact hexpression
  | nil =>
    cases hend : tagEnd? closer (ahead ++ B) with
    | none =>
      rw [tagEnd?_seam h hcloser (within_none hend _), hend]
      exact hexpression
    | some length =>
      refine .within h.left.ne_nil hrest (rest_take length kind scan) fun hn _ => ?_
      rw [tagEnd?_seam h hcloser (within_some hend hn), hend]
      simp only [take_onText hrest hn]
      rfl

theorem carries_stepInterpolation (hmodes : scan.modes = .interpolation :: outer) :
    Carries B B' (scan.stepInterpolation symbols)
      ((scan.onText (ahead ++ B')).stepInterpolation symbols) := by
  have hbrackets : (scan.onText (ahead ++ B')).brackets = scan.brackets := rfl
  have hexpression := carries_stepExpression h hs hrest hmodes rfl
  have hskipped := rest_skip_blanks hrest
  unfold stepInterpolation
  simp only [hbrackets, rest_onText, hrest, blanks_stops h.left, blanks_stops h.right,
    drop_append_of_le_length (blanks_le ahead)]
  cases scan.brackets with
  | nil => exact hexpression
  | cons opened brackets =>
    obtain ⟨bracket, line⟩ := opened
    cases bracket with
    | interpolation =>
      simp only
      by_cases hend : ((ahead.drop (blanks ahead) ++ B).head? == some '}') = true
      · rw [if_pos hend]
        refine .within h.left.ne_nil hrest (rest_skip_take scan _ 1 .interpolationEnd)
          fun hn _ => ?_
        have hne : ahead.drop (blanks ahead) ≠ [] := by
          rw [Ne, drop_eq_nil_iff]
          omega
        have hend' : ((ahead.drop (blanks ahead) ++ B').head? == some '}') = true := by
          obtain ⟨c, rest, hdrop⟩ := exists_cons_of_ne_nil hne
          rw [hdrop] at hend ⊢
          exact hend
        rw [if_pos hend', skip_onText hrest (blanks_le ahead), take_onText hskipped, drop_drop]
        · rfl
        · rw [length_drop]
          omega
      · have hend' : ¬ ((ahead.drop (blanks ahead) ++ B').head? == some '}') = true := by
          cases hdrop : ahead.drop (blanks ahead) with
          | nil => simpa using (h.startsWith_right (.inl rfl)).2
          | cons c rest =>
            rw [hdrop] at hend
            exact hend
        rw [if_neg hend, if_neg hend']
        exact hexpression
    | _ => exact hexpression

omit hs in
theorem carries_stepString (hmodes : scan.modes = .string :: outer) :
    Carries B B' (.ok scan.stepString) (.ok (scan.onText (ahead ++ B')).stepString) := by
  cases ahead with
  | nil =>
    refine .of_effect h.left.ne_nil hrest (fun next hstep => ?_) _
    cases hstep
    exact stepString_effect hmodes (hrest ▸ h.left.ne_nil)
  | cons c ahead =>
    have hinterpolation : startsWith '#' '{' (c :: ahead ++ B') =
        startsWith '#' '{' (c :: ahead ++ B) := by
      cases ahead with
      | cons d ahead => rfl
      | nil =>
        have hbrace : (B'.head? == some '{') = (B.head? == some '{') := by
          rw [Bool.eq_iff_iff, beq_iff_eq, beq_iff_eq]
          exact h.head?_eq_brace_iff
        simp [startsWith, hbrace]
    have hhead : (c :: ahead ++ B').head? = (c :: ahead ++ B).head? := rfl
    unfold stepString
    rw [rest_onText, hinterpolation, hhead, hrest, apply_ite Except.ok, apply_ite Except.ok,
      apply_ite Except.ok, apply_ite Except.ok]
    refine .ite (fun hstart => ?_) fun _ => .ite (fun _ => ?_) fun _ => ?_
    · refine .within h.left.ne_nil hrest (rest_take _ .interpolationStart scan) fun hn _ => ?_
      have hlong : 2 ≤ (c :: ahead).length := by omega
      simp only [drop_append_of_le_length hlong, blanks_stops h.left,
        blanks_stops h.right] at hn ⊢
      simp only [take_onText hrest hn]
      rfl
    · refine .within h.left.ne_nil hrest (rest_skip 1 scan) fun hn _ => ?_
      simp only [skip_onText hrest hn]
      rfl
    · refine .within h.left.ne_nil hrest (rest_take _ _ scan) fun hn _ => ?_
      simp only [(string_seam h hn).1, take_append_of_le_length hn, take_onText hrest hn]

end

/-! ## Steps outside tags -/

section

variable (h : Seam B B') (hbrace : B.head? = some '{') {scan : Scan} {ahead : List Char}
  (hrest : scan.rest = ahead ++ B)

include h hbrace hrest

theorem carries_openTag (kind : Token.Kind) (mode : Mode) :
    Carries B B' (.ok (scan.openTag kind mode))
      (.ok ((scan.onText (ahead ++ B')).openTag kind mode)) := by
  unfold openTag
  refine .within h.left.ne_nil hrest (rest_take _ kind scan) fun hn _ => ?_
  have hmarker : marker (ahead.drop 2 ++ B') = marker (ahead.drop 2 ++ B) := by
    cases ahead.drop 2 with
    | cons c rest => rfl
    | nil =>
      unfold marker
      rw [nil_append, nil_append, hbrace, h.head?_eq_brace_iff.mpr hbrace]
  rw [hrest] at hn ⊢
  simp only [rest_onText, drop_append_of_le_length (show 2 ≤ ahead.length by omega)] at hn ⊢
  rw [hmarker]
  simp only [take_onText hrest hn]
  rfl

omit hbrace in
theorem carries_stepComment :
    Carries B B' scan.stepComment (scan.onText (ahead ++ B')).stepComment := by
  unfold stepComment
  rw [rest_onText, hrest]
  cases hend : pair? '#' '}' ((ahead ++ B).drop 2) with
  | none => exact .error _ _
  | some length =>
    refine .within h.left.ne_nil hrest (rest_take _ _ scan) fun hn _ => ?_
    have hlong : 2 ≤ ahead.length := by omega
    have hlength : length + 2 ≤ (ahead.drop 2).length := by
      rw [length_drop]
      omega
    simp only [drop_append_of_le_length hlong] at hend ⊢
    simp only [pair?_append hend hlength,
      take_append_of_le_length (Nat.le_of_add_right_le hlength), take_onText hrest hn]

theorem carries_stepVerbatim {opened : Nat} {outcome' : Except Fault Scan}
    (htag : opened ≤ ahead.length →
      outcome' = (scan.onText (ahead ++ B')).stepVerbatim opened) :
    Carries B B' (scan.stepVerbatim opened) outcome' := by
  unfold stepVerbatim at htag ⊢
  simp only [rest_onText, hrest] at htag ⊢
  cases hend : verbatimEnd? ((ahead ++ B).drop opened) with
  | none => exact .error _ _
  | some found =>
    obtain ⟨length, closed⟩ := found
    refine .within h.left.ne_nil hrest (rest_take _ _ scan) fun hn _ => ?_
    have hopened : opened ≤ ahead.length := by omega
    have hin : length + closed ≤ (ahead.drop opened).length := by
      rw [length_drop]
      omega
    rw [htag hopened]
    simp only [drop_append_of_le_length hopened] at hend ⊢
    simp only [verbatimEnd?_within h hbrace hend hin,
      take_append_of_le_length (Nat.le_of_add_right_le hin), take_onText hrest hn]

theorem carries_stepText (hmodes : scan.modes = []) :
    Carries B B' scan.stepText (scan.onText (ahead ++ B')).stepText := by
  cases ahead with
  | nil =>
    exact .of_effect h.left.ne_nil hrest
      (fun _ => stepText_effect hmodes (hrest ▸ h.left.ne_nil)) _
  | cons c ahead =>
    have hstarts : ∀ b, startsWith '{' b (c :: ahead ++ B') =
        startsWith '{' b (c :: ahead ++ B) := by
      intro b
      cases ahead with
      | cons d ahead => rfl
      | nil => simp [startsWith, hbrace, h.head?_eq_brace_iff.mpr hbrace]
    unfold stepText
    simp only [rest_onText, hrest, textLength_seam h hbrace, hstarts]
    refine .ite (fun _ => ?_) fun _ => .ite (fun _ => carries_stepComment h hrest) fun _ => ?_
    · refine .within h.left.ne_nil hrest (rest_take _ _ scan) fun hn _ => ?_
      rw [take_append_of_le_length hn, take_append_of_le_length hn, take_onText hrest hn]
    · refine .ite (fun _ => ?_) fun _ => carries_openTag h hbrace hrest _ _
      cases htag : namedTag? "verbatim".toList (c :: ahead ++ B) with
      | none =>
        rw [namedTag?_seam (by decide) h hbrace c (within_none htag _), htag]
        exact carries_openTag h hbrace hrest _ _
      | some opened =>
        refine carries_stepVerbatim h hbrace hrest fun hopened => ?_
        rw [namedTag?_seam (by decide) h hbrace c (within_some htag hopened), htag]

end

/-! ## Steps and runs -/

/-- **Every step carries over**, outside tags if the seam is an opening delimiter. -/
theorem carries_step (h : Seam B B') (hs : ∀ s ∈ symbols, s ≠ [] ∧ continuesInside s.tail = true)
    (hrest : scan.rest = ahead ++ B) (htext : scan.modes = [] → B.head? = some '{') :
    Carries B B' (scan.step symbols) ((scan.onText (ahead ++ B')).step symbols) := by
  have hmodes' : (scan.onText (ahead ++ B')).modes = scan.modes := rfl
  unfold step
  rw [hmodes']
  cases hmodes : scan.modes with
  | nil => exact carries_stepText h (htext hmodes) hrest hmodes
  | cons mode outer =>
    cases mode with
    | block => exact carries_stepTag h hs hrest hmodes rfl (.inl rfl) _
    | «variable» => exact carries_stepTag h hs hrest hmodes rfl (.inr rfl) _
    | string => exact carries_stepString h hrest hmodes
    | interpolation => exact carries_stepInterpolation h hs hrest hmodes

theorem rest_suffix_of_step (hs : ∀ s ∈ symbols, s ≠ []) (hrest : scan.rest ≠ [])
    (h : scan.step symbols = .ok next) : next.rest <:+ scan.rest := by
  obtain ⟨made, -, hmoves⟩ := step_effect hs hrest h
  cases hmoves with
  | @skip n _ hm hn gap cursor tokens =>
    rw [rest, cursor]
    simp only [skip, Cursor.rest_advance]
    exact drop_suffix _ _
  | @take k n kind _ hm hn hrest gap text cursor tokens =>
    rw [rest, cursor]
    simp only [take, skip, Cursor.rest_advance, drop_drop]
    exact drop_suffix _ _

theorem exists_append_of_reaches (hs : ∀ s ∈ symbols, s ≠ []) (h : Reaches symbols scan last)
    (hlast : last.rest = ahead ++ B) : ∃ ahead, scan.rest = ahead ++ B := by
  induction h using Relation.ReflTransGen.head_induction_on with
  | refl => exact ⟨ahead, hlast⟩
  | head hstep _ ih =>
    obtain ⟨middle, hmiddle⟩ := ih
    obtain ⟨read, hread⟩ := rest_suffix_of_step hs hstep.1 hstep.2
    exact ⟨read ++ middle, by rw [← hread, hmiddle, List.append_assoc]⟩

/-- A string that ends, or in which an interpolation begins, before the seam. -/
theorem stringRun_le_of_step (hB : B ≠ []) (hmodes : scan.modes.head? = some .string)
    (hrest : scan.rest = ahead ++ B) (hnext : next.rest = ahead' ++ B)
    (h : scan.step symbols = .ok next) : stringRun scan.rest ≤ ahead.length := by
  obtain ⟨outer, hmodes⟩ := head?_eq_some_iff.mp hmodes
  unfold step at h
  simp only [hmodes] at h
  obtain rfl := Except.ok.inj h
  unfold stepString at hnext
  by_cases hstart : startsWith '#' '{' scan.rest = true
  · have hrun : stringRun scan.rest = 0 := by
      cases hcons : scan.rest with
      | nil => rfl
      | cons c rest =>
        simp only [hcons, startsWith, head?_cons, tail_cons, Bool.and_eq_true, beq_iff_eq,
          Option.some.injEq] at hstart
        rw [stringRun.eq_def]
        simp [hstart]
    omega
  · rw [if_neg hstart] at hnext
    by_cases hquote : (scan.rest.head? == some '"') = true
    · have hrun : stringRun scan.rest = 0 := by
        rw [beq_iff_eq] at hquote
        obtain ⟨rest, hcons⟩ := head?_eq_some_iff.mp hquote
        rw [hcons, stringRun.eq_def]
        rfl
      omega
    · rw [if_neg hquote, rest_take, hrest] at hnext
      rw [hrest]
      exact le_of_drop_append hB hnext

/-- **Steps in a row carry over**, to a state that is not in the middle of a string. -/
theorem reaches_onText (h : Seam B B') (hs : ∀ s ∈ symbols, s ≠ [] ∧ continuesInside s.tail = true)
    {r : Scan → Scan → Prop}
    (hr : ∀ scan next, r scan next → scan.rest ≠ [] ∧ scan.step symbols = .ok next ∧
      (scan.modes = [] → B.head? = some '{')) (hreaches : Relation.ReflTransGen r scan last)
    (hrest : scan.rest = ahead ++ B) (hlast : last.rest = ahead' ++ B)
    (hmodes : last.modes.head? ≠ some .string) :
    Reaches symbols (scan.onText (ahead ++ B')) (last.onText (ahead' ++ B')) := by
  have hsuffix : ∀ {middle}, Relation.ReflTransGen r middle last →
      ∃ mid, middle.rest = mid ++ B := by
    intro middle hmiddle
    have hsteps : Reaches symbols middle last :=
      hmiddle.lift id fun scan next hstep => ⟨(hr _ _ hstep).1, (hr _ _ hstep).2.1⟩
    exact exists_append_of_reaches (fun s hmem => (hs s hmem).1) hsteps hlast
  induction hreaches using Relation.ReflTransGen.head_induction_on generalizing ahead with
  | refl =>
    rw [hrest] at hlast
    obtain rfl := append_cancel_right hlast
    exact .refl
  | @head scan middle hstep hmiddle ih =>
    obtain ⟨mid, hmid⟩ := hsuffix hmiddle
    obtain ⟨hne, hstep, htext⟩ := hr _ _ hstep
    have hne' : (scan.onText (ahead ++ B')).rest ≠ [] :=
      append_ne_nil_of_right_ne_nil _ h.right.ne_nil
    refine (Reaches.single hne' (carries_step h hs hrest htext _ _ hstep hmid ?_)).trans (ih hmid)
    intro hstring
    cases hmiddle using Relation.ReflTransGen.head_induction_on with
    | refl => exact absurd hstring hmodes
    | head hnext hlater =>
      obtain ⟨later, hlater⟩ := hsuffix hlater
      exact stringRun_le_of_step h.left.ne_nil hstring hmid hlater (hr _ _ hnext).2.1

end Scan

end Lexer

end TwigToLatte
