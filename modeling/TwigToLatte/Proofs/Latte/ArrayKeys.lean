import Mathlib.Data.List.Induction
import TwigToLatte.Proofs.Latte.Quoting
import TwigToLatte.Proofs.Latte.Spelling

/-!
# Keys of written arrays

An element of an array is written with its key or without it. Without one its key follows the
largest integer key before it, or is zero if there is none.

* `Key.implied`, `readKeys` — the keys that a list of elements has.
* `Listing.chars` — the text of a list of elements, each with or without its key.
* `Listing.chars_injective` — **the text tells which keys are written**, if it is known what the
  elements are.
* `readKeys_omitted_iff` — where each key that equals its position is left out, **the keys are those
  of the array if and only if each such key is the one that follows the largest before it**.
* `array_reads_keys_iff` — so it is with the elements of arrays and with constant arrays.
-/

namespace TwigToLatte.Latte

open List

/-! ## Keys -/

inductive Key where
  | int (value : Int)
  | string (text : String)
  deriving DecidableEq, Repr

namespace Key

def ofValue? : Value → Option Key
  | .int value => some (.int value.toInt)
  | .string text => some (.string text)
  | _ => none

def int? : Key → Option Int
  | .int value => some value
  | .string _ => none

/-- The key of an element that is written without one. -/
def implied (before : List Key) : Int :=
  match (before.filterMap int?).max? with
  | none => 0
  | some largest => largest + 1

def chars : Key → List Char
  | .int value => (toString value).toList
  | .string text => (Latte.string text).toList

end Key

/-- The keys of elements in order, of which some are written without a key. -/
def readKeys (written : List (Option Key)) : List Key :=
  written.foldl (fun before key => before ++ [key.getD (.int (Key.implied before))]) []

theorem readKeys_append (written : List (Option Key)) (key : Option Key) :
    readKeys (written ++ [key]) =
      readKeys written ++ [key.getD (.int (Key.implied (readKeys written)))] :=
  foldl_concat ..

/-- The keys that are written from a position on: those that do not equal their position. -/
def omitted (position : Nat) : List Key → List (Option Key)
  | [] => []
  | key :: rest => (if key = .int position then none else some key) :: omitted (position + 1) rest

theorem omitted_append (position : Nat) (keys : List Key) (key : Key) :
    omitted position (keys ++ [key]) = omitted position keys ++
      [if key = .int (position + keys.length : Nat) then none else some key] := by
  induction keys generalizing position with
  | nil => rfl
  | cons first rest ih =>
    rw [cons_append, omitted, omitted, ih, length_cons, Nat.add_right_comm, ← Nat.add_assoc]
    rfl

theorem length_omitted (position : Nat) (keys : List Key) :
    (omitted position keys).length = keys.length := by
  induction keys generalizing position with
  | nil => rfl
  | cons first rest ih => exact congrArg (· + 1) (ih (position + 1))

/-- Each key that equals its position is the one that an element without a key would have there. -/
def PositionsImplied (keys : List Key) : Prop :=
  ∀ i : Nat, keys[i]? = some (.int i) → Key.implied (keys.take i) = i

/-- The last key is read right if it is written, or if it is the one that is implied. -/
theorem getD_omitted_iff (before : List Key) (key : Key) (position : Nat) :
    (if key = .int position then none else some key).getD (.int (Key.implied before)) = key ↔
      (key = .int position → Key.implied before = position) := by
  by_cases hkey : key = .int position
  · rw [if_pos hkey, hkey, Option.getD_none, Key.int.injEq]
    exact ⟨fun h _ => h, fun h => h rfl⟩
  · rw [if_neg hkey]
    exact iff_of_true rfl fun h => absurd h hkey

/-- **The keys that are read are those of the array if and only if each key that equals its position
follows the largest before it.** -/
theorem readKeys_omitted_iff (keys : List Key) :
    readKeys (omitted 0 keys) = keys ↔ PositionsImplied keys := by
  induction keys using List.reverseRecOn with
  | nil => exact iff_of_true rfl nofun
  | append_singleton keys key ih =>
    have hbefore : ∀ i < keys.length, (keys ++ [key])[i]? = keys[i]? ∧
        (keys ++ [key]).take i = keys.take i := fun i hi =>
      ⟨getElem?_append_left hi, take_append_of_le_length (Nat.le_of_lt hi)⟩
    have hlast : (keys ++ [key])[keys.length]? = some key ∧
        (keys ++ [key]).take keys.length = keys := ⟨getElem?_concat_length, take_left⟩
    rw [omitted_append, Nat.zero_add, readKeys_append, ← concat_eq_append, ← concat_eq_append,
      concat_inj, concat_eq_append]
    constructor
    · rintro ⟨hread, hkey⟩ i hi
      rw [hread, getD_omitted_iff] at hkey
      rcases Nat.lt_or_ge i keys.length with hlt | hge
      · rw [(hbefore i hlt).1] at hi
        rw [(hbefore i hlt).2]
        exact ih.mp hread i hi
      · obtain rfl : i = keys.length := by
          have hlt := (List.getElem?_eq_some_iff.mp hi).1
          rw [length_append, length_singleton] at hlt
          omega
        rw [hlast.1, Option.some.injEq] at hi
        rw [hlast.2]
        exact hkey hi
    · intro h
      have hread : readKeys (omitted 0 keys) = keys := by
        refine ih.mpr fun i hi => ?_
        have hlt := (List.getElem?_eq_some_iff.mp hi).1
        rw [← (hbefore i hlt).2]
        exact h i ((hbefore i hlt).1.trans hi)
      rw [hread, getD_omitted_iff]
      refine ⟨rfl, fun hkey => ?_⟩
      have himplied := h keys.length (hlast.1.trans (congrArg some hkey))
      rwa [hlast.2] at himplied

/-! ## The text of a key -/

/-- Every quote in the text stands behind a backslash. -/
def Guarded (quote : Char) (text : List Char) : Prop :=
  ∀ before after, text = before ++ quote :: after → before.getLast? = some '\\'

variable {quote c : Char} {text : String} {n : Nat}

theorem Guarded.append {text more : List Char} (htext : Guarded quote text)
    (hmore : Guarded quote more) : Guarded quote (text ++ more) := by
  intro before after h
  rcases append_eq_append_iff.mp h with ⟨inner, rfl, hinner⟩ | ⟨inner, htext', hinner⟩
  · rw [getLast?_append, hmore inner after hinner]
    rfl
  · cases inner with
    | nil =>
      have hnil : more = [] ++ quote :: after := hinner.symm
      cases hmore [] after hnil
    | cons c rest =>
      obtain ⟨rfl, rfl⟩ := List.cons.inj hinner
      exact htext before rest htext'

theorem Escape.guarded {written : List Char} (h : Escape quote c written) (hquote : quote ≠ '\\') :
    Guarded quote written := by
  intro before after heq
  cases h with
  | plain _ hc =>
    cases before with
    | nil => exact absurd (List.cons.inj heq).1 hc
    | cons _ rest => cases rest <;> cases (List.cons.inj heq).2
  | escaped x more hmore =>
    cases before with
    | nil => exact absurd (List.cons.inj heq).1.symm hquote
    | cons d rest =>
      obtain ⟨rfl, hrest⟩ := List.cons.inj heq
      cases rest with
      | nil => rfl
      | cons _ rest =>
        have hmem : quote ∈ more := by
          rw [(List.cons.inj hrest).2]
          exact mem_append_right _ mem_cons_self
        exact absurd rfl (hmore quote hmem).2.1

theorem guarded_flatMap {write : Char → List Char} (hwrite : ∀ c, Escape quote c (write c))
    (hquote : quote ≠ '\\') (cs : List Char) : Guarded quote (cs.flatMap write) := by
  induction cs with
  | nil =>
    intro before after h
    cases before <;> cases h
  | cons c cs ih =>
    rw [flatMap_cons]
    exact ((hwrite c).guarded hquote).append ih

/-- A string literal is the string itself, or escapes between quotes. -/
theorem toList_string_cases (text : String) :
    (isSymbol text = true ∧ (string text).toList = text.toList) ∨
      ∃ quote write, quote ∈ ['"', '\''] ∧ (∀ c, Escape quote c (write c)) ∧
        (string text).toList = quote :: (text.toList.flatMap write ++ [quote]) := by
  rw [string]
  cases isSymbol text with
  | true => exact .inl ⟨rfl, rfl⟩
  | false =>
    rw [if_neg Bool.false_ne_true, String.toList_ofList, quotedChars]
    cases text.toList.any isControl with
    | true => exact .inr ⟨'"', escapeDouble, by decide, escape_double, rfl⟩
    | false => exact .inr ⟨'\'', escapeSingle, by decide, escape_single, rfl⟩

/-- A character of a word or a hyphen. -/
def isPlainChar (c : Char) : Bool := isWordChar c || c == '-'

theorem isPlainChar_of_isSymbol (h : isSymbol text = true) :
    ∀ c ∈ text.toList, isPlainChar c = true := by
  simp only [isSymbol, isSymbolChars, Bool.and_eq_true, all_eq_true] at h
  exact h.1.1.1.1.2

/-- An integer is written with digits, the first of which may follow a minus. -/
theorem toList_int_cases (value : Int) :
    (∃ n : Nat, value = n ∧ (toString value).toList = Nat.toDigits 10 n) ∨
      ∃ n : Nat, value = Int.negSucc n ∧ (toString value).toList = '-' :: Nat.toDigits 10 (n + 1) := by
  cases value with
  | ofNat n =>
    refine .inl ⟨n, rfl, ?_⟩
    show (toString n).toList = _
    rw [Nat.toString_eq_ofList_toDigits, String.toList_ofList]
  | negSucc n =>
    refine .inr ⟨n, rfl, ?_⟩
    have htext : (toString (Int.negSucc n)).toList = ['-'] ++ (toString (n + 1)).toList :=
      String.toList_append
    rw [htext, Nat.toString_eq_ofList_toDigits, String.toList_ofList]
    rfl

theorem isDigit_of_mem_toDigits (h : c ∈ Nat.toDigits 10 n) : c.isDigit = true :=
  Nat.isDigit_of_mem_toDigits (by decide) (by decide) h

theorem toDigits_injective {m : Nat} (h : Nat.toDigits 10 m = Nat.toDigits 10 n) : m = n := by
  have hread := congrArg (Nat.ofDigitChars 10 · 0) h
  rwa [Nat.ofDigitChars_ten_toDigits, Nat.ofDigitChars_ten_toDigits] at hread

theorem isPlainChar_of_isDigit (h : c.isDigit = true) : isPlainChar c = true := by
  rw [isPlainChar, isWordChar, Char.isAlphanum, h, Bool.or_true]
  rfl

theorem isPlainChar_int (value : Int) : ∀ c ∈ (toString value).toList, isPlainChar c = true := by
  rcases toList_int_cases value with ⟨n, -, htext⟩ | ⟨n, -, htext⟩ <;> rw [htext]
  · exact fun c hc => isPlainChar_of_isDigit (isDigit_of_mem_toDigits hc)
  · exact forall_mem_cons.mpr ⟨rfl, fun c hc =>
      isPlainChar_of_isDigit (isDigit_of_mem_toDigits hc)⟩

/-- The first character of an integer begins no symbol. -/
theorem head?_int (value : Int) :
    ∃ c ∈ (toString value).toList.head?, c = '-' ∨ c.isDigit = true := by
  rcases toList_int_cases value with ⟨n, -, htext⟩ | ⟨n, -, htext⟩ <;> rw [htext]
  · cases hdigits : Nat.toDigits 10 n with
    | nil => exact absurd hdigits Nat.toDigits_ne_nil
    | cons c rest =>
      have hmem : c ∈ Nat.toDigits 10 n := hdigits ▸ mem_cons_self
      exact ⟨c, rfl, .inr (isDigit_of_mem_toDigits hmem)⟩
  · exact ⟨'-', rfl, .inl rfl⟩

theorem head?_symbol (h : isSymbol text = true) (hc : c ∈ text.toList.head?) :
    c ≠ '-' ∧ c.isDigit = false := by
  simp only [isSymbol, isSymbolChars, Bool.and_eq_true, bne_iff_ne, Bool.not_eq_true'] at h
  rw [Option.mem_def.mp hc] at h
  exact ⟨fun h' => h.1.1.1.2 (congrArg some h'), h.1.2⟩

namespace Key

/-- The text of a key is plain or stands between quotes. -/
theorem chars_cases (key : Key) :
    (∀ c ∈ key.chars, isPlainChar c = true) ∨
      ∃ quote body, quote ∈ ['"', '\''] ∧ key.chars = quote :: (body ++ [quote]) ∧
        Guarded quote body := by
  cases key with
  | int value => exact .inl (isPlainChar_int value)
  | string text =>
    rcases toList_string_cases text with ⟨hsymbol, htext⟩ | ⟨quote, write, hquote, hwrite, htext⟩
    · refine .inl fun c hc => isPlainChar_of_isSymbol hsymbol c ?_
      rwa [chars, htext] at hc
    · refine .inr ⟨quote, _, hquote, htext, guarded_flatMap hwrite ?_ _⟩
      rintro rfl
      revert hquote
      decide

theorem isPlainChar_quote : ∀ quote ∈ ['"', '\''], isPlainChar quote = false :=
  forall_mem_cons.mpr ⟨rfl, forall_mem_singleton.mpr rfl⟩

theorem chars_int_injective {m n : Int} (h : (int m).chars = (int n).chars) : m = n := by
  have hdigit : ∀ k rest, Nat.toDigits 10 k ≠ '-' :: rest := by
    intro k rest hk
    have hmem : '-' ∈ Nat.toDigits 10 k := hk ▸ mem_cons_self
    cases isDigit_of_mem_toDigits hmem
  rw [chars, chars] at h
  rcases toList_int_cases m with ⟨a, rfl, ha⟩ | ⟨a, rfl, ha⟩ <;>
    rcases toList_int_cases n with ⟨b, rfl, hb⟩ | ⟨b, rfl, hb⟩ <;> rw [ha, hb] at h
  · rw [toDigits_injective h]
  · exact absurd h (hdigit a _)
  · exact absurd h.symm (hdigit b _)
  · rw [Nat.succ.inj (toDigits_injective (List.cons.inj h).2)]

theorem chars_int_ne_string (value : Int) (text : String) :
    (int value).chars ≠ (string text).chars := by
  intro h
  rw [chars, chars] at h
  obtain ⟨c, hc, hint⟩ := head?_int value
  rcases toList_string_cases text with ⟨hsymbol, htext⟩ | ⟨quote, write, hquote, -, htext⟩ <;>
    rw [htext] at h
  · rw [h] at hc
    obtain ⟨hhyphen, hdigit⟩ := head?_symbol hsymbol hc
    rcases hint with rfl | hint
    · exact hhyphen rfl
    · cases hdigit.symm.trans hint
  · have hplain := isPlainChar_int value quote (h ▸ mem_cons_self)
    cases (isPlainChar_quote quote hquote).symm.trans hplain

theorem chars_string_injective {text text' : String}
    (h : (string text).chars = (string text').chars) : text = text' := by
  -- a symbol has no quote
  have hplain : ∀ {symbol : String} {quote rest}, isSymbol symbol = true → quote ∈ ['"', '\''] →
      symbol.toList ≠ quote :: rest := by
    intro symbol quote rest hsymbol hquote heq
    have hplain := isPlainChar_of_isSymbol hsymbol quote (heq ▸ mem_cons_self)
    cases (isPlainChar_quote quote hquote).symm.trans hplain
  rw [chars, chars] at h
  rcases toList_string_cases text with ⟨hsymbol, htext⟩ | ⟨quote, write, hquote, hwrite, htext⟩ <;>
    rcases toList_string_cases text' with ⟨hsymbol', htext'⟩ |
      ⟨quote', write', hquote', hwrite', htext'⟩ <;> rw [htext, htext'] at h
  · exact String.toList_inj.mp h
  · exact absurd h (hplain hsymbol hquote')
  · exact absurd h.symm (hplain hsymbol' hquote)
  · obtain ⟨rfl, h⟩ := List.cons.inj h
    have hread := congrArg Text.unescapeChars (append_cancel_right h)
    rw [unescapeChars_flatMap hwrite, unescapeChars_flatMap hwrite'] at hread
    exact String.toList_inj.mp hread

theorem chars_injective : Function.Injective chars := by
  rintro (m | text) (n | text') h
  · exact congrArg int (chars_int_injective h)
  · exact absurd h (chars_int_ne_string m text')
  · exact absurd h.symm (chars_int_ne_string n text)
  · exact congrArg string (chars_string_injective h)

/-- No key ends with a blank and a key: a quote behind a blank would end a string. -/
theorem chars_ne_append (key key' : Key) (before : List Char) :
    key.chars ≠ before ++ ' ' :: key'.chars := by
  intro h
  rcases key.chars_cases with hplain | ⟨quote, body, hquote, hchars, hguarded⟩
  · have hblank := hplain ' ' (h ▸ mem_append_right _ mem_cons_self)
    cases hblank
  have hne : quote ≠ ' ' := by
    rintro rfl
    revert hquote
    decide
  rw [hchars] at h
  have hlast : (' ' :: key'.chars).getLast? = some quote := by
    have hends := congrArg List.getLast? h
    rw [← cons_append, getLast?_concat, getLast?_append_cons] at hends
    exact hends.symm
  rcases key'.chars_cases with hplain | ⟨quote', body', -, hchars', -⟩
  · rcases mem_cons.mp (mem_of_getLast? hlast) with hblank | hmem
    · exact hne hblank
    · cases (isPlainChar_quote quote hquote).symm.trans (hplain quote hmem)
  · rw [hchars'] at hlast h
    obtain rfl : quote' = quote := by
      rw [← cons_append, ← cons_append, getLast?_concat] at hlast
      exact Option.some.inj hlast
    cases before with
    | nil => exact hne (List.cons.inj h).1
    | cons _ rest =>
      have hbody : body ++ [quote'] = (rest ++ [' ']) ++ quote' :: body' ++ [quote'] := by
        rw [List.append_assoc, List.append_assoc]
        exact (List.cons.inj h).2
      have hblank := hguarded _ _ (append_cancel_right hbody)
      rw [getLast?_concat] at hblank
      cases hblank

theorem append_chars_injective {key key' : Key} {before before' : List Char}
    (h : before ++ ' ' :: key.chars = before' ++ ' ' :: key'.chars) :
    before = before' ∧ key = key' := by
  -- if one key were longer, it would end with a blank and the other one
  have hinner : ∀ {inner : List Char} {key key' : Key},
      ' ' :: key.chars = inner ++ ' ' :: key'.chars → inner = [] ∧ key = key' := by
    intro inner key key' h
    cases inner with
    | nil => exact ⟨rfl, chars_injective (List.cons.inj h).2⟩
    | cons _ rest => exact absurd (List.cons.inj h).2 (chars_ne_append key key' rest)
  rcases append_eq_append_iff.mp h with ⟨inner, rfl, hrest⟩ | ⟨inner, rfl, hrest⟩
  · obtain ⟨rfl, hkey⟩ := hinner hrest
    exact ⟨(append_nil _).symm, hkey⟩
  · obtain ⟨rfl, hkey⟩ := hinner hrest
    exact ⟨append_nil _, hkey.symm⟩

end Key

/-! ## The text of elements -/

namespace Listing

variable {arrow : Key → List Char}

/-- A key with its arrow, or nothing. -/
def lead (arrow : Key → List Char) (key : Option Key) : List Char :=
  key.elim [] fun key => key.chars ++ arrow key

/-- An element with its key or without it. -/
def element (arrow : Key → List Char) (e : Option Key × List Char) : List Char :=
  lead arrow e.1 ++ e.2

/-- Elements with commas between them. -/
def chars (arrow : Key → List Char) : List (Option Key × List Char) → List Char
  | [] => []
  | first :: rest => element arrow first ++ rest.flatMap fun e => ',' :: ' ' :: element arrow e

/-- What stands between elements and the next one. -/
def gap (before : List (Option Key × List Char)) : List Char :=
  if before.isEmpty then [] else [',', ' ']

theorem chars_append (before : List (Option Key × List Char)) (e : Option Key × List Char) :
    chars arrow (before ++ [e]) = chars arrow before ++ gap before ++ lead arrow e.1 ++ e.2 := by
  cases before with
  | nil => exact append_nil _
  | cons first rest =>
    rw [cons_append, chars, chars, flatMap_append]
    show _ ++ (_ ++ (',' :: ' ' :: (lead arrow e.1 ++ e.2) ++ [])) = _ ++ _ ++ [',', ' '] ++ _ ++ _
    simp only [List.append_assoc, append_nil, cons_append, nil_append]

/-- The marks between a key and its element. -/
def IsArrow (arrow : Key → List Char) : Prop :=
  ∀ key, arrow key = " => ".toList ∨ arrow key = ": ".toList

/-- The text before an element and its key. -/
def IsStart (first : Bool) (text : List Char) : Prop :=
  if first then text = [] else ∃ before, text = before ++ [',', ' ']

theorem isStart_gap (text : List Char) (before : List (Option Key × List Char))
    (htext : before = [] → text = []) : IsStart before.isEmpty (text ++ gap before) := by
  cases before with
  | nil => exact (append_nil text).trans (htext rfl)
  | cons => exact ⟨text, rfl⟩

variable {first : Bool} {text text' : List Char} {values : List (List Char)}

theorem IsStart.ne_append_arrow (harrow : IsArrow arrow) (htext : IsStart first text)
    (before : List Char) (key : Key) : text ≠ before ++ arrow key := by
  intro h
  have hends := congrArg List.reverse h
  cases first with
  | true =>
    obtain rfl : text = [] := htext
    rcases harrow key with hkey | hkey <;> rw [hkey] at hends <;> simp at hends
  | false =>
    obtain ⟨rest, rfl⟩ : ∃ rest, text = rest ++ [',', ' '] := htext
    rcases harrow key with hkey | hkey <;> rw [hkey] at hends <;> simp at hends

theorem arrow_eq_of_append (harrow : IsArrow arrow) {key key' : Key}
    (h : text ++ arrow key = text' ++ arrow key') : arrow key = arrow key' := by
  have hends := congrArg List.reverse h
  rcases harrow key with hkey | hkey <;> rcases harrow key' with hkey' | hkey' <;>
    rw [hkey, hkey'] at hends ⊢ <;> simp at hends

/-- Before an element stands a key, or nothing but the comma after the elements before. -/
theorem lead_injective (harrow : IsArrow arrow) (htext : IsStart first text)
    (htext' : IsStart first text') {key key' : Option Key}
    (h : text ++ lead arrow key = text' ++ lead arrow key') : text = text' ∧ key = key' := by
  cases key with
  | none =>
    rw [lead, Option.elim_none, append_nil] at h
    cases key' with
    | none => exact ⟨h.trans (append_nil _), rfl⟩
    | some key' =>
      rw [lead, Option.elim_some, ← List.append_assoc] at h
      exact absurd h (htext.ne_append_arrow harrow _ key')
  | some key =>
    rw [lead, Option.elim_some, ← List.append_assoc] at h
    cases key' with
    | none =>
      rw [lead, Option.elim_none, append_nil] at h
      exact absurd h.symm (htext'.ne_append_arrow harrow _ key)
    | some key' =>
      rw [lead, Option.elim_some, ← List.append_assoc] at h
      rw [arrow_eq_of_append harrow h] at h
      replace h := append_cancel_right h
      cases first with
      | true =>
        obtain rfl : text = [] := htext
        obtain rfl : text' = [] := htext'
        exact ⟨rfl, congrArg some (Key.chars_injective h)⟩
      | false =>
        obtain ⟨before, rfl⟩ : ∃ before, text = before ++ [',', ' '] := htext
        obtain ⟨before', rfl⟩ : ∃ before', text' = before' ++ [',', ' '] := htext'
        have hcomma : (before ++ [',']) ++ ' ' :: key.chars =
            (before' ++ [',']) ++ ' ' :: key'.chars := by
          simpa only [List.append_assoc, cons_append, nil_append] using h
        obtain ⟨hbefore, rfl⟩ := Key.append_chars_injective hcomma
        rw [append_cancel_right hbefore]
        exact ⟨rfl, rfl⟩

/-- **The text tells which keys are written**, if it is known what the elements are. -/
theorem chars_injective (harrow : IsArrow arrow) {es es' : List (Option Key × List Char)}
    (hvalues : es.map (·.2) = es'.map (·.2)) (h : chars arrow es = chars arrow es') : es = es' := by
  induction es using List.reverseRecOn generalizing es' with
  | nil => exact (map_eq_nil_iff.mp hvalues.symm).symm
  | append_singleton before e ih =>
    induction es' using List.reverseRecOn with
    | nil =>
      rw [map_append] at hvalues
      exact absurd (append_eq_nil_iff.mp hvalues).2 (cons_ne_nil _ _)
    | append_singleton before' e' _ =>
      rw [map_append, map_append] at hvalues
      obtain ⟨hbefore, hvalue⟩ := append_inj' hvalues rfl
      obtain ⟨key, value⟩ := e
      obtain ⟨key', value'⟩ := e'
      obtain rfl : value = value' := (List.cons.inj hvalue).1
      have hempty : before.isEmpty = before'.isEmpty := by
        rw [← isEmpty_map (f := (·.2)), hbefore, isEmpty_map]
      rw [chars_append, chars_append] at h
      have hstart := isStart_gap (chars arrow before) before fun h => h ▸ rfl
      have hstart' := isStart_gap (chars arrow before') before' fun h => h ▸ rfl
      rw [← hempty] at hstart'
      obtain ⟨htext, rfl⟩ := lead_injective harrow hstart hstart' (append_cancel_right h)
      rw [gap, gap, hempty] at htext
      rw [ih hbefore (append_cancel_right htext)]

/-- The keys that a text has, if it is known what its elements are. -/
def Reads (arrow : Key → List Char) (values : List (List Char)) (text : List Char)
    (keys : List Key) : Prop :=
  ∃ written : List (Option Key), written.length = values.length ∧
    text = chars arrow (written.zip values) ∧ readKeys written = keys

theorem reads_iff (harrow : IsArrow arrow) {written : List (Option Key)}
    (hlength : written.length = values.length) (keys : List Key) :
    Reads arrow values (chars arrow (written.zip values)) keys ↔ readKeys written = keys := by
  refine ⟨?_, fun h => ⟨written, hlength, rfl, h⟩⟩
  rintro ⟨written', hlength', htext, hread⟩
  have hzip : written.zip values = written'.zip values := by
    refine chars_injective harrow ?_ htext
    rw [map_snd_zip (Nat.le_of_eq hlength.symm), map_snd_zip (Nat.le_of_eq hlength'.symm)]
  have hwritten := congrArg (List.map Prod.fst) hzip
  rw [map_fst_zip (Nat.le_of_eq hlength), map_fst_zip (Nat.le_of_eq hlength')] at hwritten
  rwa [hwritten]

/-- The text of an array has one list of keys. It is that of the array if and only if each key that
equals its position is implied there. -/
theorem reads_omitted (harrow : IsArrow arrow) {keys : List Key}
    (hlength : keys.length = values.length) :
    (∃! read, Reads arrow values (chars arrow ((omitted 0 keys).zip values)) read) ∧
      (Reads arrow values (chars arrow ((omitted 0 keys).zip values)) keys ↔
        PositionsImplied keys) := by
  have hiff := reads_iff harrow ((length_omitted 0 keys).trans hlength)
  refine ⟨⟨_, (hiff _).mpr rfl, fun read hread => ((hiff read).mp hread).symm⟩, ?_⟩
  rw [hiff, readKeys_omitted_iff]

end Listing

/-! ## Arrays -/

namespace Key

/-- The mark after a key of a constant array. -/
def arrow : Key → List Char
  | .int _ => " => ".toList
  | .string text => if isSymbol text then ": ".toList else " => ".toList

theorem isArrow_arrow : Listing.IsArrow arrow := by
  rintro (value | text)
  · exact .inl rfl
  · rw [arrow]
    cases isSymbol text with
    | true => exact .inr rfl
    | false => exact .inl rfl

variable {value : Value} {key : Key}

theorem toList_literal (h : ofValue? value = some key) : (literal value).toList = key.chars := by
  cases value <;> cases h
  · rw [literal, chars]
  · rw [literal, chars]

theorem isInt_iff (h : ofValue? value = some key) (n : Nat) :
    value.isInt n = true ↔ key = .int n := by
  cases value <;> cases h
  · rw [Value.isInt, beq_iff_eq, Key.int.injEq]
  · exact iff_of_false Bool.false_ne_true nofun

theorem toList_keyArrow (h : ofValue? value = some key) : (keyArrow value).toList = key.arrow := by
  cases value <;> cases h
  · rfl
  · rename_i text
    rw [keyArrow, arrow, Value.string?, Option.any_some]
    cases isSymbol text <;> rfl

end Key

section

variable {scope : Scope} {e : Expr} {key : Key}

def Key.ofExpr? (e : Expr) : Option Key := e.constant?.bind Key.ofValue?

theorem exists_constant (h : Key.ofExpr? e = some key) :
    ∃ value line topmost, e = ⟨.constant value, line, topmost⟩ ∧ Key.ofValue? value = some key := by
  obtain ⟨value, hvalue, hkey⟩ := Option.bind_eq_some_iff.mp h
  obtain ⟨kind, line, topmost⟩ := e
  cases kind <;> cases hvalue
  exact ⟨value, line, topmost, rfl, hkey⟩

/-- The mark after a key of an array. -/
def longArrow (_ : Key) : List Char := " => ".toList

theorem isArrow_longArrow : Listing.IsArrow longArrow := fun _ => .inl rfl

variable {count position : Nat} {items : List (Expr × Expr)} {keys : List Key}

theorem spells_element {value : Expr} (hkey : Key.ofExpr? e = some key)
    (hvalue : (expression scope value).error = none) :
    (element scope count (e, value)).Spells (Listing.element longArrow
      (if key = .int count then none else some key, (expression scope value).text.toList)) := by
  obtain ⟨constant, line, topmost, rfl, hconstant⟩ := exists_constant hkey
  have hspells : (expression scope value).Spells (expression scope value).text.toList := ⟨hvalue, rfl⟩
  have himplied : isImpliedKey count ⟨.constant constant, line, topmost⟩ = true ↔ key = .int count :=
    Key.isInt_iff hconstant count
  rw [element]
  by_cases hcount : key = .int count
  · rw [if_pos hcount, if_pos (himplied.mpr hcount)]
    exact hspells
  · rw [if_neg hcount, if_neg (hcount ∘ himplied.mp), expression, expressionKind, Listing.element,
      Listing.lead, Option.elim_some, ← Key.toList_literal hconstant]
    exact ((Rendered.Spells.text _).append (.text _)).append hspells

theorem countKey_eq (h : Key.ofExpr? e = some key) (count : Nat) : countKey count e = count + 1 := by
  obtain ⟨constant, line, topmost, rfl, -⟩ := exists_constant h
  rfl

theorem spells_moreElements (hkeys : items.map (Key.ofExpr? ·.1) = keys.map some)
    (hvalues : ∀ item ∈ items, (expression scope item.2).error = none) :
    (moreElements scope count items).Spells
      (((omitted count keys).zip (items.map fun item => (expression scope item.2).text.toList)).flatMap
        fun e => ',' :: ' ' :: Listing.element longArrow e) := by
  induction items generalizing keys count with
  | nil =>
    cases map_eq_nil_iff.mp hkeys.symm
    exact .text ""
  | cons item rest ih =>
    obtain ⟨key, keys, rfl, hkey, hkeys⟩ := map_eq_cons_iff.mp hkeys.symm
    obtain ⟨hvalue, hvalues⟩ := forall_mem_cons.mp hvalues
    rw [moreElements, countKey_eq hkey.symm]
    exact ((Rendered.Spells.text ", ").append (spells_element hkey.symm hvalue)).append
      (ih hkeys.symm hvalues)

theorem spells_elements (hkeys : items.map (Key.ofExpr? ·.1) = keys.map some)
    (hvalues : ∀ item ∈ items, (expression scope item.2).error = none) :
    (elements scope items).Spells (Listing.chars longArrow
      ((omitted 0 keys).zip (items.map fun item => (expression scope item.2).text.toList))) := by
  cases items with
  | nil =>
    cases map_eq_nil_iff.mp hkeys.symm
    exact .text ""
  | cons item rest =>
    obtain ⟨key, keys, rfl, hkey, hkeys⟩ := map_eq_cons_iff.mp hkeys.symm
    obtain ⟨hvalue, hvalues⟩ := forall_mem_cons.mp hvalues
    rw [elements, countKey_eq hkey.symm]
    exact (spells_element hkey.symm hvalue).append (spells_moreElements hkeys.symm hvalues)

theorem toList_literalItem {item : Value × Value} (hkey : Key.ofValue? item.1 = some key) :
    (literalItem position item).toList = Listing.element Key.arrow
      (if key = .int position then none else some key, (literal item.2).toList) := by
  obtain ⟨constant, value⟩ := item
  rw [literalItem, String.toList_append, Listing.element]
  congr 1
  by_cases hposition : key = .int position
  · rw [if_pos hposition, if_pos ((Key.isInt_iff hkey position).mpr hposition)]
    rfl
  · rw [if_neg hposition, if_neg (hposition ∘ (Key.isInt_iff hkey position).mp),
      String.toList_append, Key.toList_literal hkey, Key.toList_keyArrow hkey]
    rfl

theorem toList_literalItems {items : List (Value × Value)}
    (hkeys : items.map (Key.ofValue? ·.1) = keys.map some) :
    (literalItems position items).toList =
      ((omitted position keys).zip (items.map fun item => (literal item.2).toList)).flatMap
        fun e => ',' :: ' ' :: Listing.element Key.arrow e := by
  induction items generalizing keys position with
  | nil =>
    cases map_eq_nil_iff.mp hkeys.symm
    rfl
  | cons item rest ih =>
    obtain ⟨key, keys, rfl, hkey, hkeys⟩ := map_eq_cons_iff.mp hkeys.symm
    rw [literalItems, String.toList_append, String.toList_append, toList_literalItem hkey.symm,
      ih hkeys.symm]
    rfl

theorem toList_literal_array {items : List (Value × Value)}
    (hkeys : items.map (Key.ofValue? ·.1) = keys.map some) :
    (literal (.array items)).toList = '[' :: (Listing.chars Key.arrow
      ((omitted 0 keys).zip (items.map fun item => (literal item.2).toList)) ++ [']']) := by
  cases items with
  | nil =>
    cases map_eq_nil_iff.mp hkeys.symm
    rfl
  | cons item rest =>
    obtain ⟨key, keys, rfl, hkey, hkeys⟩ := map_eq_cons_iff.mp hkeys.symm
    rw [literal, String.toList_append, String.toList_append, String.toList_append,
      toList_literalItem hkey.symm, toList_literalItems hkeys.symm]
    rfl

end

/-- **The keys of a written array.** What is written for an array whose keys are constant integers and
strings has one list of keys, and these are the keys of the array if and only if each of them that
equals its position is implied there. So it is for the elements of an array and for a constant
array. -/
theorem array_reads_keys_iff (scope : Scope) (keys : List Key) :
    (∀ items : List (Expr × Expr), items.map (Key.ofExpr? ·.1) = keys.map some →
      (∀ item ∈ items, (expression scope item.2).error = none) →
      ∃ text values, (elements scope items).Spells text ∧
        List.Forall₂ (fun item value => (expression scope item.2).Spells value) items values ∧
        (∃! read, Listing.Reads longArrow values text read) ∧
        (Listing.Reads longArrow values text keys ↔ PositionsImplied keys)) ∧
    ∀ items : List (Value × Value), items.map (Key.ofValue? ·.1) = keys.map some →
      ∃ text, (literal (.array items)).toList = '[' :: (text ++ [']']) ∧
        (∃! read, Listing.Reads Key.arrow (items.map fun item => (literal item.2).toList) text read) ∧
        (Listing.Reads Key.arrow (items.map fun item => (literal item.2).toList) text keys ↔
          PositionsImplied keys) := by
  constructor
  · intro items hkeys hvalues
    refine ⟨_, _, spells_elements hkeys hvalues, ?_, Listing.reads_omitted isArrow_longArrow ?_⟩
    · rw [forall₂_map_right_iff]
      exact forall₂_same.mpr fun item hitem => ⟨hvalues item hitem, rfl⟩
    · have hlength := congrArg List.length hkeys
      rw [length_map, length_map] at hlength
      rw [length_map, hlength]
  · intro items hkeys
    refine ⟨_, toList_literal_array hkeys, Listing.reads_omitted Key.isArrow_arrow ?_⟩
    have hlength := congrArg List.length hkeys
    rw [length_map, length_map] at hlength
    rw [length_map, hlength]

/-- Integer keys in a row, then one out of the row and a string: the first two are left out. -/
theorem array_reads_keys_iff_row :
    (∃ values, Listing.Reads longArrow values "1, 2, 5 => 3, 'a b' => 4".toList
      [.int 0, .int 1, .int 5, .string "a b"]) ∧
    Listing.Reads Key.arrow [['1'], ['2'], ['3'], ['4']] "1, 2, 5 => 3, 'a b' => 4".toList
      [.int 0, .int 1, .int 5, .string "a b"] := by
  obtain ⟨helements, hliteral⟩ := array_reads_keys_iff ⟨{}, "page", []⟩
    [.int 0, .int 1, .int 5, .string "a b"]
  have himplied : PositionsImplied [.int 0, .int 1, .int 5, .string "a b"] := by
    rintro (_ | _ | _ | _ | _) hkey
    · decide
    · decide
    · exact absurd hkey (by decide)
    · exact absurd hkey (by decide)
    · cases hkey
  obtain ⟨text, values, hspells, -, -, hreads⟩ := helements
    [(.constant (.int 0) 1, .constant (.int 1) 1), (.constant (.int 1) 1, .constant (.int 2) 1),
      (.constant (.int 5) 1, .constant (.int 3) 1), (.string "a b" 1, .constant (.int 4) 1)]
    (by decide) (by simp only [forall_mem_cons]; decide +kernel)
  obtain ⟨text', hchars, -, hreads'⟩ := hliteral [(.int 0, .int 1), (.int 1, .int 2), (.int 5, .int 3),
      (.string "a b", .int 4)] (by decide)
  have htext : text = "1, 2, 5 => 3, 'a b' => 4".toList := by
    rw [← hspells.toList]
    decide +kernel
  have htext' : text' = "1, 2, 5 => 3, 'a b' => 4".toList := by
    have hbrackets : '[' :: ("1, 2, 5 => 3, 'a b' => 4".toList ++ [']']) = '[' :: (text' ++ [']']) := by
      rw [← hchars]
      decide +kernel
    exact (append_cancel_right (List.cons.inj hbrackets).2).symm
  rw [← htext]
  refine ⟨⟨values, hreads.mpr himplied⟩, ?_⟩
  rw [htext, ← htext']
  exact hreads'.mpr himplied

/-- A string key before an integer that equals its position: the integer is left out, and read as
zero. -/
theorem array_loses_key :
    (elements ⟨{}, "page", []⟩ [(.string "a" 1, .constant (.int 1) 1),
      (.constant (.int 1) 1, .constant (.int 2) 1)]).Spells "a => 1, 2".toList ∧
    Listing.Reads longArrow [['1'], ['2']] "a => 1, 2".toList [.string "a", .int 0] ∧
    ¬ Listing.Reads longArrow [['1'], ['2']] "a => 1, 2".toList [.string "a", .int 1] ∧
    (literal (.array [(.string "a", .int 1), (.int 1, .int 2)])).toList = "[a: 1, 2]".toList ∧
    ¬ Listing.Reads Key.arrow [['1'], ['2']] "a: 1, 2".toList [.string "a", .int 1] := by
  have hlong : "a => 1, 2".toList = Listing.chars longArrow
      ([some (.string "a"), none].zip [['1'], ['2']]) := by decide +kernel
  have hshort : "a: 1, 2".toList = Listing.chars Key.arrow
      ([some (.string "a"), none].zip [['1'], ['2']]) := by decide +kernel
  have hread : readKeys [some (.string "a"), none] = [.string "a", .int 0] := by decide
  refine ⟨⟨?_, ?_⟩, ?_, ?_, ?_, ?_⟩
  · decide +kernel
  · decide +kernel
  · rw [hlong, Listing.reads_iff isArrow_longArrow rfl]
    exact hread
  · rw [hlong, Listing.reads_iff isArrow_longArrow rfl, hread]
    decide
  · decide +kernel
  · rw [hshort, Listing.reads_iff Key.isArrow_arrow rfl, hread]
    decide

end TwigToLatte.Latte
