import TwigToLatte.Dialect.Core
import TwigToLatte.Proofs.Lexer.Reads

/-!
# Tokens of literals

A literal stands in a template too, between the delimiters of a print statement, and the lexer reads
it as the tokens of a constant.

* `Value.isReadable` — the constants whose literals can be read back.
* `Value.tokens` — the tokens of a constant.
* `Separable` — operator symbols that are found in no literal. Those of the core dialect are such.
* `reads_literal` — **a literal is read as the tokens of its constant**.
* `tokenize_literal` — **the tokens of a literal in a print statement**, where a bare word may be an
  operator.
-/

namespace TwigToLatte

open List

open Text Pattern Lexer

mutual

/-- Whether the literal of a constant reads back as that constant. The least integer has no positive
counterpart, a bare word with a hyphen is a difference, and a string in double quotes may not begin
an interpolation. The keys of an array are its positions. -/
def Value.isReadable : Value → Bool
  | .null => true
  | .bool _ => true
  | .int value => value != Int64.minValue
  | .float _ => false
  | .string value =>
    if Latte.isSymbol value then !value.toList.contains '-'
    else !value.toList.any Latte.isControl || (pair? '#' '{' value.toList).isNone
  | .array items => areReadable 0 items

/-- Whether the elements of an array read back, the first of them having the given position. -/
def areReadable (position : Nat) : List (Value × Value) → Bool
  | [] => true
  | (key, value) :: rest =>
    key.isInt position && value.isReadable && areReadable (position + 1) rest

end

mutual

def Value.tokens : Value → List Token.Kind
  | .null => [.name "null"]
  | .bool value => [.name (if value then "true" else "false")]
  | .int value =>
    if value < 0 then [.operator "-", .number (.int (-value))] else [.number (.int value)]
  | .float value => [.number (.float value)]
  | .string value => [if Latte.isSymbol value then .name value else .string value]
  | .array items => .punctuation '[' :: (elementTokens items ++ [.punctuation ']'])

/-- The tokens of the elements of an array. -/
def elementTokens : List (Value × Value) → List Token.Kind
  | [] => []
  | (_, value) :: rest => value.tokens ++ moreTokens rest

/-- The tokens of further elements, each after a comma. -/
def moreTokens : List (Value × Value) → List Token.Kind
  | [] => []
  | (_, value) :: rest => .punctuation ',' :: (value.tokens ++ moreTokens rest)

end

/-! ## Operator symbols beside literals -/

/-- Operator symbols that are found in no literal, apart from the sign of a negative number. -/
structure Separable (symbols : List (List Char)) : Prop where
  regular : ∀ s ∈ symbols, isRegular s = true
  minus : ['-'] ∈ symbols
  constants : ∀ word ∈ ["null", "true", "false"], word.toList ∉ symbols

theorem separable_core : Separable (orderSymbols Dialect.core.operatorSymbols) where
  regular := by
    intro s hs
    have hall : (Dialect.core.operatorSymbols.map String.toList).all isRegular = true := by
      decide +kernel
    exact all_eq_true.mp hall s (mem_orderSymbols.mp hs).1
  minus := mem_orderSymbols.mpr ⟨by decide +kernel, cons_ne_nil _ _⟩
  constants := by
    intro word hword hmem
    have hall : ["null", "true", "false"].all
        (fun word => !(Dialect.core.operatorSymbols.map String.toList).contains word.toList) =
          true := by decide +kernel
    have hnot := all_eq_true.mp hall word hword
    rw [Bool.not_eq_true', ← Bool.not_eq_true, contains_iff_mem] at hnot
    exact hnot (mem_orderSymbols.mp hmem).1

/-! ## Literals of single values -/

variable {symbols : List (List Char)}

theorem head?_digits (n : Nat) (follow : List Char) :
    ((toString n).toList ++ follow).head? ≠ some '}' := by
  rw [Nat.toString_eq_ofList_toDigits, String.toList_ofList]
  cases hdigits : Nat.toDigits 10 n with
  | nil => exact absurd hdigits Nat.toDigits_ne_nil
  | cons c more =>
    have hmem : c ∈ Nat.toDigits 10 n := by
      rw [hdigits]
      exact mem_cons_self
    have hc := Nat.isDigit_of_mem_toDigits (by decide) (by decide) hmem
    rintro ⟨⟩
    cases hc

/-- A symbol without hyphens is a word that starts with no digit. -/
theorem exists_word_of_isSymbol {value : String} (h : Latte.isSymbol value = true)
    (hhyphen : value.toList.contains '-' = false) :
    ∃ c more, value.toList = c :: more ∧ (∀ d ∈ c :: more, Latte.isWordChar d = true) ∧
      c.isDigit = false := by
  rw [Latte.isSymbol] at h
  cases htext : value.toList with
  | nil => rw [htext] at h; cases h
  | cons c more =>
    rw [htext] at h hhyphen
    simp only [Latte.isSymbolChars, Bool.and_eq_true, all_eq_true, Bool.or_eq_true,
      beq_iff_eq, head?_cons, Option.any_some, Bool.not_eq_true'] at h
    refine ⟨c, more, rfl, fun d hd => ?_, h.1.2⟩
    rcases h.1.1.1.1.2 d hd with hword | rfl
    · exact hword
    · rw [contains_iff_mem.mpr hd] at hhyphen
      cases hhyphen

section

variable (hsymbols : Separable symbols) {gap : List Char} (hgap : ∀ b ∈ gap, isBlank b = true)
  {follow : List Char} (hfollow : Follows follow)

include hsymbols hgap hfollow

/-- An integer is its digits, with a sign before them if it is negative. -/
theorem reads_int {value : Int64} (hvalue : value ≠ Int64.minValue) :
    Reads symbols (gap ++ (toString value.toInt).toList) (Value.int value).tokens follow := by
  have hlower := Int64.le_toInt value
  have hupper := Int64.toInt_lt value
  have hmin : value.toInt ≠ Int64.minValue.toInt := fun h => hvalue (Int64.toInt_inj.mp h)
  rw [Int64.toInt_minValue] at hmin
  have hzero : value < 0 ↔ value.toInt < 0 := Int64.lt_iff_toInt_lt
  have hnumber : ∀ {n : Nat}, n < Decimal.signBit → ∀ {gap : List Char},
      (∀ b ∈ gap, isBlank b = true) →
      Reads symbols (gap ++ (toString n).toList) [.number (.int (Int64.ofNat n))] follow := by
    intro n hn gap hgap
    rw [Nat.toString_eq_ofList_toDigits, String.toList_ofList]
    exact Reads.number hsymbols.regular hgap hfollow hn
  rw [Value.tokens]
  cases hint : value.toInt with
  | ofNat n =>
    rw [hint, Int.ofNat_eq_natCast] at hzero hupper
    have hn : n < Decimal.signBit := by
      rw [Decimal.signBit]
      omega
    have hpos : ¬ value < 0 := by
      rw [hzero]
      exact Int.not_lt.mpr (Int.natCast_nonneg n)
    have heq : Int64.ofNat n = value := by
      rw [← Int64.ofInt_eq_ofNat, ← Int64.ofInt_toInt value, hint]
      rfl
    rw [if_neg hpos, ← heq]
    exact hnumber hn hgap
  | negSucc m =>
    rw [hint] at hzero hlower hmin
    have hn : m + 1 < Decimal.signBit := by
      rw [Decimal.signBit]
      omega
    have heq : Int64.ofNat (m + 1) = -value := by
      rw [← Int64.ofInt_eq_ofNat, ← Int64.ofInt_toInt value, hint, ← Int64.ofInt_neg]
      rfl
    rw [if_pos (hzero.mpr (Int.negSucc_lt_zero m)), ← heq]
    have htext : (toString (Int.negSucc m)).toList = ['-'] ++ (toString (m + 1)).toList :=
      String.toList_append
    rw [htext, ← List.append_assoc]
    exact (Reads.minus hsymbols.regular hgap hsymbols.minus (head?_digits (m + 1) follow)).append
      (hnumber hn (forall_mem_nil _))

variable {value : String}

theorem reads_symbol (hvalue : Latte.isSymbol value = true)
    (hhyphen : value.toList.contains '-' = false)
    (hname : endsWord follow = false ∨ value.toList ∉ symbols) :
    Reads symbols (gap ++ value.toList) [.name value] follow := by
  obtain ⟨c, more, htext, hword, hdigit⟩ := exists_word_of_isSymbol hvalue hhyphen
  rw [htext] at hname
  have hread := Reads.word hsymbols.regular hgap hfollow hword hdigit hname
  rwa [← htext, String.ofList_toList] at hread

theorem reads_string (hvalue : (Value.string value).isReadable = true)
    (hname : Latte.isSymbol value = true → endsWord follow = false ∨ value.toList ∉ symbols) :
    Reads symbols (gap ++ (Latte.string value).toList) (Value.string value).tokens follow := by
  rw [Value.isReadable] at hvalue
  rw [Latte.string, Value.tokens]
  cases hsymbol : Latte.isSymbol value with
  | true =>
    rw [hsymbol, if_pos rfl, Bool.not_eq_true'] at hvalue
    rw [if_pos rfl, if_pos rfl]
    exact reads_symbol hsymbols hgap hfollow hsymbol hvalue (hname hsymbol)
  | false =>
    rw [hsymbol, if_neg Bool.false_ne_true, Bool.or_eq_true, Bool.not_eq_true',
      Option.isNone_iff_eq_none] at hvalue
    rw [if_neg Bool.false_ne_true, if_neg Bool.false_ne_true, String.toList_ofList]
    have hread : Reads symbols (gap ++ Latte.quotedChars value.toList)
        [.string (String.ofList value.toList)] follow := by
      refine Reads.quoted hsymbols.regular hgap fun hcontrol => hvalue.resolve_left ?_
      rw [hcontrol]
      decide
    rwa [String.ofList_toList] at hread

theorem reads_constant {word : String} (hmem : word ∈ ["null", "true", "false"]) :
    Reads symbols (gap ++ word.toList) [.name word] follow := by
  have hwords : ["null", "true", "false"].all (fun word =>
      word.toList.all Latte.isWordChar && word.toList.head?.any (!·.isDigit)) = true := by decide
  have hword := all_eq_true.mp hwords word hmem
  have hname := hsymbols.constants word hmem
  rw [Bool.and_eq_true, all_eq_true] at hword
  obtain ⟨c, more, htext⟩ : ∃ c more, word.toList = c :: more := by
    refine exists_cons_of_ne_nil fun hnil => ?_
    rw [hnil] at hword
    cases hword.2
  rw [htext] at hword hname
  have hread := Reads.word hsymbols.regular hgap hfollow hword.1 (Bool.not_eq_true' _ ▸ hword.2)
    (.inr hname)
  rwa [← htext, String.ofList_toList] at hread

end

/-! ## Literals of arrays -/

theorem Reads.nil (follow : List Char) : Reads symbols [] [] follow :=
  fun scan _ hrest => ⟨scan, .refl, hrest, rfl, rfl, (append_nil _).symm⟩

theorem follows_more (position : Nat) (items : List (Value × Value)) (follow : List Char) :
    Follows ((Latte.literalItems position items).toList ++ ']' :: follow) ∧
      endsWord ((Latte.literalItems position items).toList ++ ']' :: follow) = false := by
  cases items with
  | nil =>
    rw [Latte.literalItems]
    exact ⟨.bracket _, rfl⟩
  | cons item rest =>
    rw [Latte.literalItems, String.append_assoc, String.toList_append]
    exact ⟨.comma _, rfl⟩

mutual

/-- **A literal is read as the tokens of its constant**, where it is no bare word that is an
operator. -/
theorem reads_literal (hsymbols : Separable symbols) {follow : List Char} (hfollow : Follows follow)
    {gap : List Char} (hgap : ∀ b ∈ gap, isBlank b = true) :
    ∀ value : Value, value.isReadable = true →
      (∀ word, value.string? = some word → Latte.isSymbol word = true →
        endsWord follow = false ∨ word.toList ∉ symbols) →
      Reads symbols (gap ++ (Latte.literal value).toList) value.tokens follow
  | .null, _, _ => by
    rw [Latte.literal, Value.tokens]
    exact reads_constant hsymbols hgap hfollow (by decide)
  | .bool value, _, _ => by
    rw [Latte.literal, Value.tokens]
    exact reads_constant hsymbols hgap hfollow (by cases value <;> decide)
  | .int value, hvalue, _ => by
    rw [Value.isReadable, bne_iff_ne] at hvalue
    rw [Latte.literal]
    exact reads_int hsymbols hgap hfollow hvalue
  | .float _, hvalue, _ => by
    rw [Value.isReadable] at hvalue
    cases hvalue
  | .string value, hvalue, hname => by
    rw [Latte.literal]
    exact reads_string hsymbols hgap hfollow hvalue (hname value rfl)
  | .array [], _, _ => by
    rw [Latte.literal, Value.tokens, elementTokens]
    exact Reads.brackets hsymbols.regular hgap (Reads.nil _)
  | .array ((key, value) :: rest), hvalue, _ => by
    rw [Value.isReadable, areReadable, Bool.and_eq_true, Bool.and_eq_true] at hvalue
    obtain ⟨⟨hkey, hvalue⟩, hrest⟩ := hvalue
    obtain ⟨hfollows, hends⟩ := follows_more 1 rest follow
    have htext : (Latte.literal (.array ((key, value) :: rest))).toList =
        '[' :: ((Latte.literal value).toList ++ (Latte.literalItems 1 rest).toList ++ [']']) := by
      simp only [Latte.literal, Latte.literalItem, hkey, if_true, String.toList_append]
      simp
    rw [htext, Value.tokens, elementTokens]
    exact Reads.brackets hsymbols.regular hgap
      ((reads_literal hsymbols hfollows (forall_mem_nil _) value hvalue
        fun _ _ _ => .inl hends).append (reads_more hsymbols rest hrest))

theorem reads_more (hsymbols : Separable symbols) {follow : List Char} {position : Nat} :
    ∀ items : List (Value × Value), areReadable position items = true →
      Reads symbols (Latte.literalItems position items).toList (moreTokens items) (']' :: follow)
  | [], _ => by
    rw [Latte.literalItems, moreTokens]
    exact Reads.nil _
  | (key, value) :: rest, hitems => by
    rw [areReadable, Bool.and_eq_true, Bool.and_eq_true] at hitems
    obtain ⟨⟨hkey, hvalue⟩, hrest⟩ := hitems
    obtain ⟨hfollows, hends⟩ := follows_more (position + 1) rest follow
    have htext : (Latte.literalItems position ((key, value) :: rest)).toList =
        [','] ++ (([' '] ++ (Latte.literal value).toList) ++
          (Latte.literalItems (position + 1) rest).toList) := by
      simp only [Latte.literalItems, Latte.literalItem, hkey, if_true, String.toList_append]
      simp
    rw [htext, moreTokens]
    exact (Reads.comma hsymbols.regular (forall_mem_nil _)).append
      ((reads_literal hsymbols hfollows isBlank_of_mem_gap value hvalue
        fun _ _ _ => .inl hends).append (reads_more hsymbols rest hrest))

end

/-! ## Print statements -/

/-- At the end of a print statement, a bare word may be read as an operator. -/
theorem exists_advances_symbol (hsymbols : Separable symbols) {word : String}
    (hword : Latte.isSymbol word = true) (hhyphen : word.toList.contains '-' = false) {scan : Scan}
    (hmode : scan.modes.head? = some .variable) {closing : List Char}
    (hrest : scan.rest = ' ' :: (word.toList ++ ' ' :: '}' :: closing)) :
    ∃ kind next, (kind = .name word ∨ kind = .operator word) ∧
      scan.Advances symbols next [kind] (' ' :: '}' :: closing) := by
  obtain ⟨c, more, htext, hchars, hdigit⟩ := exists_word_of_isSymbol hword hhyphen
  have hrest : scan.rest = [' '] ++ c :: (more ++ ' ' :: '}' :: closing) := by
    rw [hrest, htext]
    rfl
  have hskip : (scan.skip 1).rest = c :: (more ++ ' ' :: '}' :: closing) := by
    rw [Scan.rest_skip, hrest]
    rfl
  obtain ⟨kind, hkind, htoken⟩ := exists_stepToken_word hsymbols.regular (.closing closing) hchars
    hdigit hskip
  obtain ⟨next, hnext⟩ := Scan.exists_advances hmode hrest isBlank_of_mem_gap
    (startsToken_of_isWordChar (hchars c mem_cons_self) _) htoken
  rw [← htext, String.ofList_toList] at hkind
  exact ⟨kind, next, hkind.imp_right And.left, hnext⟩

/-- **The tokens of a literal in a print statement** of the core dialect. -/
theorem tokenize_literal {value : Value} (hvalue : value.isReadable = true) :
    ∃ tokens kinds,
      tokenize ("\x7b\x7b " ++ Latte.literal value ++ " \x7d\x7d") Dialect.core.operatorSymbols =
        .ok tokens ∧
      tokens.toList.map (·.kind) = .varStart :: (kinds ++ [.varEnd, .eof]) ∧
      (kinds = value.tokens ∨ ∃ word, value = .string word ∧ Latte.isSymbol word = true ∧
        kinds = [.operator word]) := by
  have htext : "\x7b\x7b " ++ Latte.literal value ++ " \x7d\x7d" = String.ofList
      ('{' :: '{' :: ' ' :: ((Latte.literal value).toList ++ [' ', '}', '}'])) := by
    rw [← String.toList_inj, String.toList_ofList, String.toList_append, String.toList_append]
    rfl
  have hrest := Scan.rest_insidePrint ((Latte.literal value).toList ++ [' ', '}', '}'])
  rw [htext]
  by_cases hword : ∃ word, value = .string word ∧ Latte.isSymbol word = true
  · obtain ⟨word, rfl, hsymbol⟩ := hword
    rw [Value.isReadable, if_pos hsymbol, Bool.not_eq_true'] at hvalue
    rw [Latte.literal, Latte.string, if_pos hsymbol] at hrest ⊢
    obtain ⟨kind, next, hkind, hnext⟩ :=
      exists_advances_symbol separable_core hsymbol hvalue rfl hrest
    obtain ⟨tokens, htokens, hkinds⟩ := tokenize_print hnext
    refine ⟨tokens, [kind], htokens, hkinds, ?_⟩
    rcases hkind with rfl | rfl
    · rw [Value.tokens, if_pos hsymbol]
      exact .inl rfl
    · exact .inr ⟨word, rfl, hsymbol, rfl⟩
  · have hname : ∀ word, value.string? = some word → Latte.isSymbol word = true →
        endsWord [' ', '}', '}'] = false ∨
          word.toList ∉ orderSymbols Dialect.core.operatorSymbols := by
      intro word hvalue hsymbol
      cases value <;> cases hvalue
      exact absurd ⟨word, rfl, hsymbol⟩ hword
    obtain ⟨next, hnext⟩ := reads_literal separable_core (.closing ['}'])
      isBlank_of_mem_gap value hvalue hname _ rfl hrest
    obtain ⟨tokens, htokens, hkinds⟩ := tokenize_print hnext
    exact ⟨tokens, value.tokens, htokens, hkinds, .inl rfl⟩

end TwigToLatte
