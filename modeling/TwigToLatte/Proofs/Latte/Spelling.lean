import TwigToLatte.Expr.Grammar
import TwigToLatte.Latte.Expression
import TwigToLatte.Proofs.Lexer.Step
import TwigToLatte.Proofs.Pass.Stateless

/-!
# Spelling of expressions

What it takes to read the text of an expression back: which characters a text consists of, and where
a name or a number in it ends.

* `Expr.unlined` — an expression without its line numbers.
* `Rendered.Spells` — the characters of a text that was rendered to its end.
* `PlainName` — a name that is written as it is, in every scope.
* `EndsWord` — a text that does not go on with a word, so that a name or a number before it is
  complete.
* `takeText?` — takes an expected text.
-/

namespace TwigToLatte

open List

/-! ## Line numbers -/

/-- A pass that forgets the lines of expressions. -/
def forgetLines : Pass Unit where
  name := "forget lines"
  leaveExpr e := pure { e with line := 0 }

/-- The expression without the numbers of its lines. -/
def Expr.unlined (e : Expr) : Expr := forgetLines.onExpr e

namespace Latte

/-! ## Rendered text -/

/-- The rendering succeeds, with these characters. -/
structure Rendered.Spells (r : Rendered) (chars : List Char) : Prop where
  error : r.error = none
  toList : r.text.toList = chars

namespace Rendered.Spells

variable {r s : Rendered} {chars chars' : List Char}

theorem text (t : String) : Spells (t : Rendered) t.toList := ⟨rfl, rfl⟩

theorem append (hr : r.Spells chars) (hs : s.Spells chars') :
    (r ++ s).Spells (chars ++ chars') := by
  rw [append_eq hr.error]
  exact ⟨hs.error, by rw [String.toList_append, hr.toList, hs.toList]⟩

theorem parenthesize (hr : r.Spells chars) : r.parenthesize.Spells ('(' :: chars ++ [')']) :=
  ((text "(").append hr).append (text ")")

theorem unique (hr : r.Spells chars) (hs : s.Spells chars') (h : r.text = s.text) :
    chars = chars' := by
  rw [← hr.toList, ← hs.toList, h]

end Rendered.Spells

theorem operand_eq_expression {scope : Scope} {e : Expr} (h : needsParentheses e.kind = false) :
    operand scope e = expression scope e := by
  obtain ⟨kind, line, topmost⟩ := e
  rw [operand, expression, if_neg (by rw [h]; decide)]

/-! ## Words -/

/-- The text goes on with something that belongs to no word. -/
def EndsWord (rest : List Char) : Prop := ∀ c ∈ rest.head?, Pattern.isNameChar c = false

theorem endsWord_nil : EndsWord [] := by
  intro c hc
  cases hc

theorem endsWord_cons {c : Char} (h : Pattern.isNameChar c = false) (rest : List Char) :
    EndsWord (c :: rest) := by
  intro d hd
  cases hd
  exact h

theorem endsWord_text {text : String} (h : text.toList.head?.any (!Pattern.isNameChar ·) = true)
    (rest : List Char) : EndsWord (text.toList ++ rest) := by
  cases htext : text.toList with
  | nil =>
    rw [htext] at h
    cases h
  | cons c more =>
    rw [htext] at h
    exact endsWord_cons (Bool.not_eq_true' _ ▸ h) _

variable {rest : List Char} {name : String}

theorem takeWhile_word {p : Char → Bool} {word : List Char} (hword : ∀ c ∈ word, p c = true)
    (hrest : ∀ c ∈ rest.head?, p c = false) :
    (word ++ rest).takeWhile p = word ∧ (word ++ rest).dropWhile p = rest := by
  rw [takeWhile_append_of_pos hword, dropWhile_append_of_pos hword]
  cases rest with
  | nil => exact ⟨append_nil _, rfl⟩
  | cons c rest =>
    have hc : p c = false := hrest c rfl
    rw [takeWhile_cons, dropWhile_cons, hc]
    exact ⟨append_nil _, rfl⟩

/-! ### Names -/

theorem isNameChar_of_isName (h : Grammar.isName name = true) :
    ∀ c ∈ name.toList, Pattern.isNameChar c = true := by
  unfold Grammar.isName at h
  split at h
  · cases h
  · rename_i first rest htext
    rw [Bool.and_eq_true, all_eq_true] at h
    rw [htext]
    intro c hc
    rcases mem_cons.mp hc with rfl | hc
    · exact Lexer.Scan.isNameChar_of_isNameStart h.1
    · exact h.2 c hc

/-- Only the name of the loop variable has a meaning of its own, and only where no loop assigns
it. -/
theorem specialName?_eq_none_iff {bound : List String} :
    specialName? bound name = none ↔ name ≠ "loop" ∨ "loop" ∈ bound := by
  rw [specialName?]
  by_cases hname : name = "loop"
  · subst hname
    simp
  · simp [hname]

/-- A name of templates that is neither the loop variable nor the iterator that it is written as. -/
structure PlainName (name : String) : Prop where
  isName : Grammar.isName name = true
  ne_loop : name ≠ "loop"
  ne_iterator : name ≠ "iterator"

theorem PlainName.takeWhile (h : PlainName name) (hrest : EndsWord rest) :
    (name.toList ++ rest).takeWhile Pattern.isNameChar = name.toList ∧
      (name.toList ++ rest).dropWhile Pattern.isNameChar = rest :=
  takeWhile_word (isNameChar_of_isName h.isName) hrest

theorem PlainName.spells (h : PlainName name) (scope : Scope) (line : Nat) :
    (expression scope ⟨.name name false, line, false⟩).Spells ('$' :: name.toList) := by
  rw [expression, expressionKind, variableText.eq_def,
    specialName?_eq_none_iff.mpr (.inl h.ne_loop)]
  exact ⟨rfl, String.toList_append⟩

/-! ### Numbers -/

/-- A number in decimal notation. -/
def number (digits : List Char) : Int64 := .ofInt (Nat.ofDigitChars 10 digits 0)

/-- The digits of a number that is not negative give it back. -/
theorem exists_digits {value : Int64} (h : 0 ≤ value) :
    ∃ first rest, (toString value.toInt).toList = first :: rest ∧
      (∀ c ∈ first :: rest, c.isDigit = true) ∧ number (first :: rest) = value := by
  have hpos : 0 ≤ value.toInt := Int64.le_iff_toInt_le.mp h
  obtain ⟨n, hn⟩ := Int.eq_ofNat_of_zero_le hpos
  have htext : (toString value.toInt).toList = Nat.toDigits 10 n := by
    rw [hn]
    show (toString n).toList = _
    rw [Nat.toString_eq_ofList_toDigits, String.toList_ofList]
  have hvalue : number (Nat.toDigits 10 n) = value := by
    rw [number, Nat.ofDigitChars_ten_toDigits, ← hn, Int64.ofInt_toInt]
  have hdigits : ∀ c ∈ Nat.toDigits 10 n, c.isDigit = true :=
    fun c hc => Nat.isDigit_of_mem_toDigits (by decide) (by decide) hc
  cases hcases : Nat.toDigits 10 n with
  | nil => exact absurd hcases Nat.toDigits_ne_nil
  | cons first rest =>
    rw [hcases] at htext hvalue hdigits
    exact ⟨first, rest, htext, hdigits, hvalue⟩

theorem EndsWord.isDigit (h : EndsWord rest) : ∀ c ∈ rest.head?, c.isDigit = false := by
  intro c hc
  have hname := h c hc
  simp only [Pattern.isNameChar, Char.isAlphanum, Bool.or_eq_false_iff] at hname
  exact hname.1.1.2

/-! ### Expected texts -/

/-- The rest after an expected text. -/
def takeText? (expected : String) (text : List Char) : Option (List Char) :=
  expected.toList.isPrefixOf? text

theorem takeText?_append (expected : String) (rest : List Char) :
    takeText? expected (expected.toList ++ rest) = some rest :=
  isPrefixOf?_eq_some_iff_append_eq.mpr rfl

end Latte

end TwigToLatte
