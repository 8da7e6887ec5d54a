import TwigToLatte.Latte.Literal
import TwigToLatte.Token.Pattern

/-!
# Operators in text

Which operator the lexer finds at a position depends on all symbols of a dialect. For symbols of a
common shape the first characters decide.

* `isRegular` — the shape: words, signs, or a minus sign alone.
* `operator?_eq_none` — no operator starts with a digit, a quote or a bracket.
* `operator?_word` — **no operator is found in a word but that word**, where a word may end.
* `operator?_minus` — a minus sign is always an operator.
-/

namespace TwigToLatte.Pattern

open List

open Text

variable {symbols : List (List Char)}

/-! ## Symbols -/

/-- The signs that operators start with, apart from the minus sign. -/
def isSign (c : Char) : Bool := ['+', '=', '!', '<', '>', '~', '*', '/', '%', '.', '?'].contains c

/-- What may follow the first word of a symbol: a hyphen, or a blank and another word. -/
def continuesSymbol : List Char → Bool
  | [] => true
  | c :: more => c == '-' || c == ' ' && more.head?.any Char.isAlpha

/-- The common shape of operator symbols: words, signs, or a minus sign alone. -/
def isRegular : List Char → Bool
  | [] => false
  | c :: more =>
    if c.isAlpha then continuesSymbol (more.dropWhile Char.isAlpha)
    else isSign c || c == '-' && more.isEmpty

variable {c : Char} {previous : Option Char} {text symbol letters follow word : List Char}
  {n : Nat}

theorem not_isWordChar_of_isSign (h : isSign c = true) : Latte.isWordChar c = false := by
  have hsigns : ['+', '=', '!', '<', '>', '~', '*', '/', '%', '.', '?'].all
      (!Latte.isWordChar ·) = true := by decide
  exact Bool.not_eq_true' _ ▸ all_eq_true.mp hsigns c (contains_iff_mem.mp h)

theorem symbol?_of_operatorAt? (h : operatorAt? previous text symbol = some n) :
    symbol? symbol text = some n ∧
      (symbol.getLast?.any Char.isAlpha = true → endsWord (text.drop n) = true) := by
  rw [operatorAt?] at h
  split at h
  · cases h
  cases hsymbol : symbol? symbol text with
  | none => rw [hsymbol] at h; cases h
  | some length =>
    rw [hsymbol] at h
    dsimp only at h
    split at h
    · cases h
    rename_i hends
    cases h
    refine ⟨rfl, fun hlast => ?_⟩
    rw [hlast, Bool.true_and, Bool.not_eq_true'] at hends
    exact Bool.not_eq_false _ ▸ hends

/-- A character of a symbol that is no blank stands in the text. -/
theorem cons_of_symbol? (hspace : c ≠ ' ') (hend : c ≠ '\x00')
    (h : symbol? (c :: symbol) text = some n) :
    ∃ rest m, text = c :: rest ∧ symbol? symbol rest = some m ∧ n = 1 + m := by
  rw [symbol?, if_neg hspace] at h
  split at h
  · rename_i hhead
    obtain ⟨m, hm, rfl⟩ := Option.map_eq_some_iff.mp h
    cases text with
    | nil => exact absurd hhead.symm hend
    | cons d rest => exact ⟨rest, m, by rw [← hhead]; rfl, hm, rfl⟩
  · cases h

/-- Regular symbols start with a character that stands in the text. -/
theorem cons_of_isRegular (hregular : isRegular (c :: symbol) = true)
    (h : symbol? (c :: symbol) text = some n) : ∃ rest, text = c :: rest := by
  obtain ⟨rest, -, heq, -⟩ := cons_of_symbol? (by rintro rfl; cases hregular)
    (by rintro rfl; cases hregular) h
  exact ⟨rest, heq⟩

theorem symbol?_blank (hc : isBlank c = false) (symbol rest : List Char) :
    symbol? (' ' :: symbol) (c :: rest) = none := by
  rw [symbol?, if_pos rfl]
  dsimp only
  rw [blanks, takeWhile_cons, hc]
  rfl

theorem letters_of_symbol? (hletters : ∀ c ∈ letters, c.isAlpha = true)
    (h : symbol? (letters ++ symbol) text = some n) :
    ∃ rest m, text = letters ++ rest ∧ symbol? symbol rest = some m ∧ n = letters.length + m := by
  induction letters generalizing text n with
  | nil => exact ⟨text, n, rfl, h, (Nat.zero_add n).symm⟩
  | cons c letters ih =>
    obtain ⟨hc, hletters⟩ := forall_mem_cons.mp hletters
    have hspace : c ≠ ' ' := by rintro rfl; cases hc
    have hend : c ≠ '\x00' := by rintro rfl; cases hc
    obtain ⟨rest, m, rfl, hm, rfl⟩ := cons_of_symbol? hspace hend h
    obtain ⟨rest, k, rfl, hk, rfl⟩ := ih hletters hm
    exact ⟨rest, k, rfl, hk, by rw [length_cons]; omega⟩

/-- No symbol starts with a character that is neither a letter nor a sign. -/
theorem operator?_eq_none (hs : ∀ s ∈ symbols, isRegular s = true) (halpha : c.isAlpha = false)
    (hsign : isSign c = false) (hminus : c ≠ '-') (previous : Option Char) (text : List Char) :
    operator? symbols previous (c :: text) = none := by
  refine findSome?_eq_none_iff.mpr fun symbol hmem => ?_
  have hregular := hs symbol hmem
  rw [Option.map_eq_none_iff]
  cases hat : operatorAt? previous (c :: text) symbol with
  | none => rfl
  | some n =>
    cases symbol with
    | nil => cases hregular
    | cons d more =>
      obtain ⟨rest, heq⟩ := cons_of_isRegular hregular (symbol?_of_operatorAt? hat).1
      rw [← (List.cons.inj heq).1, isRegular, halpha, hsign, beq_false_of_ne hminus] at hregular
      cases hregular

/-! ## Words -/

/-- The texts that come after a word in a literal: a comma, a closing bracket, or the end of the
print statement. -/
inductive Follows : List Char → Prop
  | comma (rest : List Char) : Follows (',' :: rest)
  | bracket (rest : List Char) : Follows (']' :: rest)
  | closing (rest : List Char) : Follows (' ' :: '}' :: rest)

theorem Follows.head (h : Follows follow) :
    ∃ c rest, follow = c :: rest ∧ Latte.isWordChar c = false ∧ c ≠ '-' := by
  cases h with
  | comma rest => exact ⟨_, rest, rfl, rfl, by decide⟩
  | bracket rest => exact ⟨_, rest, rfl, rfl, by decide⟩
  | closing rest => exact ⟨_, _, rfl, rfl, by decide⟩

theorem toNat_of_isAlpha (h : c.isAlpha = true) :
    65 ≤ c.toNat ∧ c.toNat ≤ 90 ∨ 97 ≤ c.toNat ∧ c.toNat ≤ 122 := by
  rcases Bool.or_eq_true_iff.mp h with hupper | hlower
  · exact .inl (of_decide_eq_true hupper)
  · obtain ⟨hleast, hmost⟩ := Bool.and_eq_true_iff.mp hlower
    exact .inr ⟨of_decide_eq_true hleast, of_decide_eq_true hmost⟩

theorem toNat_of_isDigit (h : c.isDigit = true) : 48 ≤ c.toNat ∧ c.toNat ≤ 57 :=
  Char.isDigit_iff_toNat.mp h

theorem not_isNameStart_of_isDigit (h : c.isDigit = true) : isNameStart c = false := by
  have hcode := toNat_of_isDigit h
  have halpha : c.isAlpha = false := by
    cases halpha : c.isAlpha with
    | false => rfl
    | true =>
      have := toNat_of_isAlpha halpha
      omega
  have hlow : c ≠ '_' := by rintro rfl; cases h
  have hascii : ¬ 128 ≤ c.toNat := by omega
  rw [isNameStart, halpha, beq_false_of_ne hlow, decide_eq_false hascii]
  rfl

theorem not_isBlank_of_isWordChar (h : Latte.isWordChar c = true) : isBlank c = false := by
  have hrange : 48 ≤ c.toNat ∧ c.toNat ≤ 122 := by
    rw [Latte.isWordChar, Char.isAlphanum, Bool.or_eq_true, Bool.or_eq_true, beq_iff_eq] at h
    rcases h with (h | h) | rfl
    · have := toNat_of_isAlpha h
      omega
    · have := toNat_of_isDigit h
      omega
    · decide
  have hranges : blankRanges.all (fun range => range.2 < 48 || 122 < range.1) = true := by decide
  rw [isBlank, inRanges, any_eq_false]
  intro range hmem
  have hout := all_eq_true.mp hranges range hmem
  simp only [Bool.or_eq_true, Bool.and_eq_true, decide_eq_true_eq] at hout ⊢
  omega

theorem isNameStart_of_isWordChar (h : Latte.isWordChar c = true) (hdigit : c.isDigit = false) :
    isNameStart c = true := by
  rw [Latte.isWordChar, Char.isAlphanum, hdigit, Bool.or_false] at h
  rw [isNameStart, h, Bool.true_or]

theorem isNameChar_of_isWordChar (h : Latte.isWordChar c = true) : isNameChar c = true := by
  rw [isNameChar, ← Latte.isWordChar, h, Bool.true_or]

theorem Follows.takeWhile (h : Follows follow) (hword : ∀ c ∈ word, Latte.isWordChar c = true) :
    (word ++ follow).takeWhile isNameChar = word := by
  rw [takeWhile_append_of_pos fun c hc => isNameChar_of_isWordChar (hword c hc)]
  cases h <;> exact append_nil _

/-- What comes after the letters of a symbol, in a word and the text that follows it: the rest of
the word and that text. -/
theorem exists_rest_of_letters {rest : List Char} (hfollow : Follows follow)
    (hletters : ∀ c ∈ letters, c.isAlpha = true) (h : word ++ follow = letters ++ rest) :
    ∃ more, word = letters ++ more ∧ rest = more ++ follow := by
  rcases append_eq_append_iff.mp h with ⟨extra, hextra, hrest⟩ | hmore
  · cases extra with
    | nil => exact ⟨[], by rw [hextra, append_nil, append_nil], hrest.symm⟩
    | cons c extra =>
      -- A letter would come after the word.
      obtain ⟨d, tail, rfl, hd, -⟩ := hfollow.head
      obtain ⟨rfl, -⟩ := List.cons.inj hrest
      have hc : d.isAlpha = true := hletters d (by rw [hextra]; simp)
      rw [Latte.isWordChar, Char.isAlphanum, hc] at hd
      cases hd
  · exact hmore

/-- Nothing but a word matches the end of a symbol after its first word. -/
theorem eq_nil_of_continues {more : List Char} (hsymbol : continuesSymbol symbol = true)
    (hmore : ∀ c ∈ more, Latte.isWordChar c = true) (hfollow : Follows follow)
    (h : symbol? symbol (more ++ follow) = some n) : symbol = [] := by
  cases symbol with
  | nil => rfl
  | cons c symbol =>
    rw [continuesSymbol, Bool.or_eq_true, Bool.and_eq_true, beq_iff_eq, beq_iff_eq] at hsymbol
    obtain ⟨d, rest, hrest, hd, hblank⟩ : ∃ d rest, more ++ follow = d :: rest ∧ d ≠ '-' ∧
        (isBlank d = true → ∃ tail, rest = '}' :: tail) := by
      cases more with
      | nil =>
        cases hfollow with
        | comma rest | bracket rest => exact ⟨_, rest, rfl, by decide, fun h => absurd h (by decide)⟩
        | closing rest => exact ⟨_, _, rfl, by decide, fun _ => ⟨rest, rfl⟩⟩
      | cons d more =>
        have hd := hmore d mem_cons_self
        have hhyphen : d ≠ '-' := by rintro rfl; cases hd
        refine ⟨d, more ++ follow, rfl, hhyphen, fun h => ?_⟩
        rw [not_isBlank_of_isWordChar hd] at h
        cases h
    rw [hrest] at h
    rcases hsymbol with rfl | ⟨rfl, hnext⟩
    · obtain ⟨_, _, heq, -⟩ := cons_of_symbol? (by decide) (by decide) h
      exact absurd (List.cons.inj heq).1 hd
    · cases hisBlank : isBlank d with
      | false => rw [symbol?_blank hisBlank] at h; cases h
      | true =>
        obtain ⟨tail, rfl⟩ := hblank hisBlank
        cases symbol with
        | nil => cases hnext
        | cons e symbol =>
          have he : e.isAlpha = true := hnext
          have hbrace : isBlank '}' = false := by decide
          rw [symbol?, if_pos rfl] at h
          simp only [blanks, takeWhile_cons, hisBlank, hbrace, if_true, length_singleton,
            Bool.false_eq_true, if_false, drop_succ_cons, drop_zero, Nat.one_ne_zero] at h
          obtain ⟨_, hm, -⟩ := Option.map_eq_some_iff.mp h
          obtain ⟨_, _, heq, -⟩ := cons_of_symbol? (by rintro rfl; cases he)
            (by rintro rfl; cases he) hm
          rw [← (List.cons.inj heq).1] at he
          cases he

/-- The only operator in a word is the word itself, and only where a word may end. -/
theorem eq_of_operatorAt?_word (hregular : isRegular symbol = true) (hne : word ≠ [])
    (hword : ∀ c ∈ word, Latte.isWordChar c = true) (hfollow : Follows follow)
    (h : operatorAt? previous (word ++ follow) symbol = some n) :
    symbol = word ∧ n = word.length ∧ endsWord follow = true := by
  obtain ⟨hsymbol, hends⟩ := symbol?_of_operatorAt? h
  cases symbol with
  | nil => cases hregular
  | cons c symbol =>
    cases halpha : c.isAlpha with
    | false =>
      -- A sign stands in no word.
      obtain ⟨rest, htext⟩ := cons_of_isRegular hregular hsymbol
      rw [isRegular, halpha, if_neg Bool.false_ne_true, Bool.or_eq_true, Bool.and_eq_true,
        beq_iff_eq] at hregular
      have hsign : Latte.isWordChar c = false := by
        rcases hregular with hsign | ⟨rfl, -⟩
        · exact not_isWordChar_of_isSign hsign
        · decide
      cases word with
      | nil => exact absurd rfl hne
      | cons d word =>
        have hd := hword d mem_cons_self
        rw [(List.cons.inj htext).1, hsign] at hd
        cases hd
    | true =>
      have hletters : ∀ d ∈ c :: symbol.takeWhile Char.isAlpha, d.isAlpha = true :=
        forall_mem_cons.mpr ⟨halpha, fun d hd => all_eq_true.mp
          all_takeWhile d hd⟩
      have hsplit : c :: symbol = (c :: symbol.takeWhile Char.isAlpha) ++
          symbol.dropWhile Char.isAlpha := by rw [cons_append, takeWhile_append_dropWhile]
      rw [hsplit] at hsymbol
      obtain ⟨rest, m, htext, hm, rfl⟩ := letters_of_symbol? hletters hsymbol
      obtain ⟨more, rfl, rfl⟩ := exists_rest_of_letters hfollow hletters htext
      rw [isRegular, halpha, if_pos rfl] at hregular
      have hnil := eq_nil_of_continues hregular
        (fun d hd => hword d (mem_append_right _ hd)) hfollow hm
      rw [hnil, append_nil] at hsplit
      rw [hnil] at hm
      cases hm
      have hlast : (c :: symbol).getLast?.any Char.isAlpha = true := by
        rw [hsplit, getLast?_eq_some_getLast (cons_ne_nil _ _), Option.any_some]
        exact hletters _ (getLast_mem _)
      have hfinish := hends hlast
      rw [Nat.add_zero, List.append_assoc, drop_left] at hfinish
      cases more with
      | nil =>
        rw [append_nil]
        exact ⟨hsplit, Nat.add_zero _, hfinish⟩
      | cons d more =>
        -- The word goes on, so the symbol ends inside it.
        have hd : Latte.isWordChar d = true := hword d (by simp)
        rw [endsWord, cons_append, head?_cons, Option.any_some,
          not_isBlank_of_isWordChar hd] at hfinish
        simp only [Bool.false_or, Bool.or_eq_true, beq_iff_eq] at hfinish
        rcases hfinish with ((rfl | rfl) | rfl) | rfl <;> cases hd

/-- **No operator is found in a word but that word**, and only where a word may end. -/
theorem operator?_word (hs : ∀ s ∈ symbols, isRegular s = true) (hne : word ≠ [])
    (hword : ∀ c ∈ word, Latte.isWordChar c = true) (hfollow : Follows follow)
    (previous : Option Char) :
    operator? symbols previous (word ++ follow) = none ∨
      operator? symbols previous (word ++ follow) = some (word, word.length) ∧
        word ∈ symbols ∧ endsWord follow = true := by
  cases hfound : operator? symbols previous (word ++ follow) with
  | none => exact .inl rfl
  | some found =>
    obtain ⟨symbol, hmem, hat⟩ := exists_of_findSome?_eq_some hfound
    obtain ⟨n, hn, rfl⟩ := Option.map_eq_some_iff.mp hat
    obtain ⟨rfl, rfl, hends⟩ := eq_of_operatorAt?_word (hs symbol hmem) hne hword hfollow hn
    exact .inr ⟨rfl, hmem, hends⟩

theorem operator?_minus (hs : ∀ s ∈ symbols, isRegular s = true) (hmem : ['-'] ∈ symbols)
    (previous : Option Char) (text : List Char) :
    operator? symbols previous ('-' :: text) = some (['-'], 1) := by
  cases hfound : operator? symbols previous ('-' :: text) with
  | none => cases findSome?_eq_none_iff.mp hfound ['-'] hmem
  | some found =>
    obtain ⟨symbol, hmem, hat⟩ := exists_of_findSome?_eq_some hfound
    obtain ⟨n, hn, rfl⟩ := Option.map_eq_some_iff.mp hat
    have hregular := hs symbol hmem
    cases symbol with
    | nil => cases hregular
    | cons c more =>
      obtain ⟨rest, heq⟩ := cons_of_isRegular hregular (symbol?_of_operatorAt? hn).1
      obtain ⟨rfl, -⟩ := List.cons.inj heq
      have hmore : more = [] := List.isEmpty_iff.mp hregular
      rw [hmore] at hn ⊢
      cases hn
      rfl

end TwigToLatte.Pattern
