import TwigToLatte.Expr.Grammar
import TwigToLatte.Proofs.Lexer.Coverage

/-!
# Lines and words of tokens

Every line that the lexer writes down is the line of a position that it has reached: those of tokens
and of faults, and those that it remembers for the tag and for the brackets that are open. What it
takes for a name is one, and what it takes for an operator is one of the symbols.

* `Text.Line` — a line of a text: at least one, and at most one more than there are line feeds.
* `Token.Kind.Spelled` — a name, or one of the symbols.
* `Scan.Lined` — a state all of whose lines and tokens are as wanted.
* `lined_step`, `lined_run` — **one step of the lexer, and hence a run, keeps to them**, whether it
  succeeds or not.
* `line_tokenize` — tokens and faults of a template are on its lines, and its words are spelled so.
-/

namespace TwigToLatte

open List

namespace Text

/-- The number is that of a line of the text. -/
def Line (text : List Char) (line : Nat) : Prop := 1 ≤ line ∧ line ≤ 1 + text.count '\n'

theorem line_lineAt (text : List Char) (offset : Nat) : Line text (lineAt text offset) :=
  ⟨Nat.le_add_right .., Nat.add_le_add_left ((text.take_sublist offset).count_le _) 1⟩

end Text

/-- What a token holds as a name is one, and an operator is one of the symbols. -/
def Token.Kind.Spelled (symbols : List (List Char)) : Token.Kind → Prop
  | .name word => Grammar.isName word = true
  | .operator word => word.toList ∈ symbols
  | _ => True

namespace Lexer

open Text Pattern

namespace Scan

/-- The lines of a state: those of the positions it has reached or can reach, and those it holds. Its
tokens are spelled with the symbols. -/
structure Lined (L : Nat → Prop) (symbols : List (List Char)) (scan : Scan) : Prop where
  cursor : ∀ n, L (scan.cursor.advance n).line
  tagLine : L scan.tagLine
  brackets : ∀ bracket ∈ scan.brackets, L bracket.2
  tokens : ∀ token ∈ scan.tokens, L token.line ∧ token.kind.Spelled symbols

/-- A step that ends in a state as wanted, or with a fault on such a line. -/
def Keeps (L : Nat → Prop) (symbols : List (List Char)) : Except Fault Scan → Prop
  | .ok next => next.Lined L symbols
  | .error fault => L fault.line

theorem lined_start (text : String) (symbols : List (List Char)) :
    ({ cursor := Cursor.start text } : Scan).Lined (Line text.toList) symbols where
  cursor n := ((Cursor.at_start text).advance n).line_eq ▸ line_lineAt _ _
  tagLine := line_lineAt text.toList 0
  brackets := forall_mem_nil _
  tokens token h := absurd h (Array.not_mem_empty token)

variable {L : Nat → Prop} {symbols : List (List Char)} {scan : Scan} (h : scan.Lined L symbols)

include h

namespace Lined

theorem line : L scan.cursor.line := h.cursor 0

theorem skip (n : Nat) : (scan.skip n).Lined L symbols where
  cursor m := Cursor.advance_add n m scan.cursor ▸ h.cursor (n + m)
  tagLine := h.tagLine
  brackets := h.brackets
  tokens := h.tokens

theorem take (n : Nat) (kind : Token.Kind) (hkind : kind.Spelled symbols) :
    (scan.take n kind).Lined L symbols where
  cursor := (h.skip n).cursor
  tagLine := h.tagLine
  brackets := h.brackets
  tokens token htoken := by
    rcases Array.mem_push.mp htoken with hold | rfl
    · exact h.tokens token hold
    · exact ⟨h.line, hkind⟩

theorem setModes (modes : List Mode) : Lined L symbols { scan with modes } :=
  ⟨h.cursor, h.tagLine, h.brackets, h.tokens⟩

theorem setBrackets {brackets : List (Bracket × Nat)} (hb : ∀ bracket ∈ brackets, L bracket.2) :
    Lined L symbols { scan with brackets } :=
  ⟨h.cursor, h.tagLine, hb, h.tokens⟩

/-- The lines of the open brackets, with one more that opens here. -/
theorem opened (bracket : Bracket) : ∀ b ∈ (bracket, scan.cursor.line) :: scan.brackets, L b.2 :=
  forall_mem_cons.mpr ⟨h.line, h.brackets⟩

theorem openTag (kind : Token.Kind) (mode : Mode) (hkind : kind.Spelled symbols) :
    (scan.openTag kind mode).Lined L symbols :=
  have htaken := h.take (2 + marker (scan.rest.drop 2)) kind hkind
  ⟨htaken.cursor, h.line, htaken.brackets, htaken.tokens⟩

end Lined

theorem lined_stepText : Keeps L symbols scan.stepText := by
  unfold stepText stepComment stepVerbatim
  dsimp only
  split
  · exact h.take _ _ trivial
  split
  · split
    · exact h.line
    · exact h.take _ _ trivial
  split
  · split
    · split
      · exact h.line
      · exact h.take _ _ trivial
    · exact h.openTag _ _ trivial
  · exact h.openTag _ _ trivial

theorem lined_closeBracket (mark : Char) (bracket : Bracket) :
    Keeps L symbols (scan.closeBracket mark bracket) := by
  unfold closeBracket
  split
  · exact h.line
  · rename_i opened line brackets hopen
    have hb := forall_mem_cons.mp (hopen ▸ h.brackets)
    split
    · exact (h.take 1 (.punctuation mark) trivial).setBrackets hb.2
    · -- A bracket of another kind is reported where it was opened.
      exact hb.1

theorem lined_stepDoubleQuoted : scan.stepDoubleQuoted.Lined L symbols := by
  unfold stepDoubleQuoted
  split
  · exact h.take _ _ trivial
  · exact ((h.skip 1).setBrackets (h.opened .quote)).setModes _

theorem lined_stepToken {c : Char} {rest : List Char} (hrest : scan.rest = c :: rest) :
    Keeps L symbols (scan.stepToken symbols c) := by
  unfold stepToken stepSingleQuoted
  split
  · exact h.take _ _ trivial
  split
  · rename_i symbol length hsymbol
    obtain ⟨found, hmem, hat⟩ := exists_of_findSome?_eq_some hsymbol
    obtain ⟨n, -, heq⟩ := Option.map_eq_some_iff.mp hat
    cases heq
    exact h.take _ _ (by rwa [Token.Kind.Spelled, String.toList_ofList])
  split
  · rename_i hstart
    refine h.take _ _ ?_
    rw [Token.Kind.Spelled, hrest, takeWhile_cons_of_pos (isNameChar_of_isNameStart hstart),
      Grammar.isName, String.toList_ofList, Bool.and_eq_true]
    exact ⟨hstart, all_takeWhile⟩
  split
  · exact h.take _ _ trivial
  split
  · exact (h.take 1 (.punctuation c) trivial).setBrackets (h.opened _)
  · exact lined_closeBracket h _ _
  · split
    · exact h.take _ _ trivial
    split
    · split
      · exact h.line
      · exact h.take _ _ trivial
    split
    · exact lined_stepDoubleQuoted h
    · exact h.line

theorem lined_stepExpression : Keeps L symbols (scan.stepExpression symbols) := by
  unfold stepExpression
  dsimp only
  split
  · exact h.skip _
  · rename_i hrest
    exact lined_stepToken (h.skip _) hrest

theorem lined_stepTag (closer : Char) (kind : Token.Kind) (hkind : kind.Spelled symbols) :
    Keeps L symbols (scan.stepTag symbols closer kind) := by
  unfold stepTag
  split
  · exact (h.take _ kind hkind).setModes _
  · exact lined_stepExpression h

theorem lined_stepString : scan.stepString.Lined L symbols := by
  unfold stepString
  split
  · exact ((h.take _ .interpolationStart trivial).setBrackets (h.opened .interpolation)).setModes _
  split
  · have htail : ∀ bracket ∈ scan.brackets.tail, L bracket.2 :=
      fun bracket hmem => h.brackets bracket (mem_of_mem_tail hmem)
    exact ((h.skip 1).setBrackets htail).setModes _
  · exact h.take _ _ trivial

theorem lined_stepInterpolation : Keeps L symbols (scan.stepInterpolation symbols) := by
  unfold stepInterpolation
  dsimp only
  split
  · rename_i line brackets hopen
    have hb := forall_mem_cons.mp (hopen ▸ h.brackets)
    split
    · exact (((h.skip _).take 1 .interpolationEnd trivial).setBrackets hb.2).setModes _
    · exact lined_stepExpression h
  · exact lined_stepExpression h

/-- **One step keeps to the lines and to the symbols**, in every region. -/
theorem lined_step : Keeps L symbols (scan.step symbols) := by
  unfold step
  split
  · exact lined_stepText h
  · exact lined_stepTag h _ _ trivial
  · exact lined_stepTag h _ _ trivial
  · exact lined_stepString h
  · exact lined_stepInterpolation h

omit h in
theorem lined_run (limit : Nat) (h : scan.Lined L symbols) :
    Keeps L symbols (scan.run symbols limit) := by
  induction limit generalizing scan with
  | zero => exact h
  | succ limit ih =>
    have hstep := lined_step h
    unfold run
    split
    · exact h
    split
    · rename_i fault hfault
      rw [hfault] at hstep
      exact hstep
    · rename_i next hnext
      rw [hnext] at hstep
      exact ih hstep

/-- At the end of the text a region that is open is reported where it was opened. -/
theorem lined_finish :
    match scan.finish with
    | .ok tokens => ∀ token ∈ tokens, L token.line ∧ token.kind.Spelled symbols
    | .error fault => L fault.line := by
  have hbracket : L ((scan.brackets.head?.map (·.2)).getD scan.cursor.line) := by
    cases hb : scan.brackets with
    | nil => exact h.line
    | cons bracket brackets => exact h.brackets bracket (hb ▸ mem_cons_self)
  unfold finish
  -- Only outside of all regions the text may end.
  rcases scan.modes with - | ⟨mode, outer⟩
  · exact (h.take 0 .eof trivial).tokens
  · cases mode
    · exact h.tagLine
    · exact h.tagLine
    · exact hbracket
    · exact hbracket

end Scan

/-- The tokens of a template are on its lines, and so is what stops the lexer; they are spelled with
the symbols. -/
theorem line_tokenize (text : String) (symbols : List String) :
    match tokenize text symbols with
    | .ok tokens => ∀ token ∈ tokens,
      Line text.toList token.line ∧ token.kind.Spelled (orderSymbols symbols)
    | .error fault => Line text.toList fault.line := by
  have hrun := Scan.lined_run text.length (Scan.lined_start text (orderSymbols symbols))
  unfold tokenize
  dsimp only
  cases hlast : Scan.run (orderSymbols symbols) text.length { cursor := Cursor.start text } with
  | error fault =>
    rw [hlast] at hrun
    exact hrun
  | ok last =>
    rw [hlast] at hrun
    exact Scan.lined_finish hrun

end Lexer

end TwigToLatte
