import TwigToLatte.Latte.ClassAttribute

/-!
# What the class attributes take from their line

A call that collects classes ends, in the code, with a parenthesis and a brace. `classAttributes`
takes the call to reach to the last such end of the line, not to its own.

* `closing` — the end of a call.
* `callStart?` — the beginning of a class attribute with a call, up to its parenthesis.
* `replaceClasses_call` — what becomes of a line: everything up to the last end of a call counts as
  arguments, and that end is dropped.
* `classAttributes_eq_iff` — **exactly when the text after the call is left alone**: if no further
  call ends in it, but for ends that follow the call at once.
-/

namespace TwigToLatte.Latte

open List

open Text

/-- The end of a call in code. -/
def closing : List Char := [')', '}']

/-! ## The last end of a call -/

variable {text before after rest expected front back : List Char} {quote : Char}

theorem splitLastClose_eq_none (h : ¬ closing <:+: text) : splitLastClose text = none := by
  induction text with
  | nil => rfl
  | cons c text ih =>
    have hrest := ih (fun hi => h (hi.trans (suffix_cons c text).isInfix))
    unfold splitLastClose
    rw [hrest]
    split
    · rfl
    · simp only
      split
      · exact absurd (prefix_append closing _).isInfix h
      · rfl

theorem splitLastClose_append (hb : '\n' ∉ before) (ha : ¬ closing <:+: after) :
    splitLastClose (before ++ closing ++ after) = some (before, after) := by
  induction before with
  | nil =>
    have hbrace : ¬ closing <:+: '}' :: after := by
      rw [infix_cons_iff]
      rintro (hpre | hinfix)
      · cases (cons_prefix_cons.mp hpre).1
      · exact ha hinfix
    show splitLastClose (')' :: '}' :: after) = some ([], after)
    unfold splitLastClose
    rw [splitLastClose_eq_none hbrace]
    rfl
  | cons c before ih =>
    rw [mem_cons, not_or] at hb
    rw [cons_append, cons_append]
    unfold splitLastClose
    rw [if_neg (Ne.symm hb.1), ih hb.2]

/-- A text in which a call ends has a last end of a call. -/
theorem exists_last_closing (h : closing <:+: text) :
    ∃ before after, text = before ++ closing ++ after ∧ ¬ closing <:+: after := by
  induction text with
  | nil => exact absurd (infix_nil.mp h) (by decide)
  | cons c text ih =>
    by_cases hrest : closing <:+: text
    · obtain ⟨before, after, rfl, hfree⟩ := ih hrest
      exact ⟨c :: before, after, rfl, hfree⟩
    · rcases infix_cons_iff.mp h with ⟨after, hafter⟩ | hinfix
      · refine ⟨[], after, hafter.symm, fun hi => hrest (hi.trans ?_)⟩
        have htail : text = '}' :: after := (List.cons.inj hafter).2.symm
        rw [htail]
        exact (suffix_cons _ after).isInfix
      · exact absurd hinfix hrest

/-! ## The beginning of a call -/

/-- A class attribute that begins with a call, up to the parenthesis of the call: the quote, and
the text after the parenthesis. -/
def callStart? (text : List Char) : Option (Char × List Char) := do
  let text ← dropCaseless? "class=".toList text
  let (quote, text) ← takeQuote? text
  let text ← dropChar? '{' text
  let text ← dropCaseless? "html_classes(".toList (dropEquals text)
  return (quote, text)

theorem takeQuote?_eq_some_iff :
    takeQuote? text = some (quote, rest) ↔
      text = quote :: rest ∧ (quote = '"' ∨ quote = '\'') := by
  cases text with
  | nil => simp [takeQuote?]
  | cons c text =>
    by_cases hc : c = '"' ∨ c = '\''
    · simp only [takeQuote?, Bool.or_eq_true, decide_eq_true_eq, hc, if_true, Option.some.injEq,
        Prod.mk.injEq, List.cons.injEq]
      constructor
      · rintro ⟨rfl, rfl⟩
        exact ⟨⟨rfl, rfl⟩, hc⟩
      · rintro ⟨⟨rfl, rfl⟩, _⟩
        exact ⟨rfl, rfl⟩
    · simp only [takeQuote?, Bool.or_eq_true, decide_eq_true_eq, hc, if_false]
      constructor
      · intro h
        cases h
      · rintro ⟨heq, hq⟩
        cases heq
        exact absurd hq hc

theorem dropChar?_eq_some_iff {expected : Char} :
    dropChar? expected text = some rest ↔ text = expected :: rest := by
  cases text with
  | nil => simp [dropChar?]
  | cons c text =>
    by_cases hc : c = expected
    · simp [dropChar?, hc]
    · simp [dropChar?, hc]

theorem callStart?_eq_some_iff :
    callStart? text = some (quote, rest) ↔
      ∃ braced, dropCaseless? "class=".toList text = some (quote :: '{' :: braced) ∧
        (quote = '"' ∨ quote = '\'') ∧
        dropCaseless? "html_classes(".toList (dropEquals braced) = some rest := by
  simp only [callStart?, Option.bind_eq_bind, Option.bind_eq_some_iff, Option.pure_def,
    Option.some.injEq, Prod.exists, Prod.mk.injEq, takeQuote?_eq_some_iff, dropChar?_eq_some_iff]
  constructor
  · rintro ⟨_, hnamed, _, _, ⟨rfl, hquote⟩, braced, rfl, _, hrest, rfl, rfl⟩
    exact ⟨braced, hnamed, hquote, hrest⟩
  · rintro ⟨braced, hnamed, hquote, hrest⟩
    exact ⟨_, hnamed, quote, _, ⟨rfl, hquote⟩, braced, rfl, rest, hrest, rfl, rfl⟩

/-- Whether a class attribute with a call begins somewhere in the text. -/
def holdsCallStart : List Char → Bool
  | [] => false
  | c :: text => (callStart? (c :: text)).isSome || holdsCallStart text

theorem callStart?_eq_none_of_suffix {s : List Char} (h : holdsCallStart text = false)
    (hs : s <:+ text) : callStart? s = none := by
  induction text with
  | nil =>
    obtain rfl := suffix_nil.mp hs
    rfl
  | cons c text ih =>
    rw [holdsCallStart, Bool.or_eq_false_iff] at h
    rcases suffix_cons_iff.mp hs with rfl | hs
    · exact Option.not_isSome_iff_eq_none.mp (by rw [h.1]; exact Bool.false_ne_true)
    · exact ih h.2 hs

/-- A call is its beginning and the rest of its line up to the last end of a call. -/
theorem classCall?_eq (text : List Char) :
    classCall? text = (callStart? text).bind fun found =>
      (splitLastClose found.2).map fun split => (found.1, split.1, split.2) := by
  simp only [classCall?, callStart?, Option.bind_eq_bind, Option.bind_assoc, Option.pure_def,
    Option.bind_some, Option.map_eq_bind]
  rfl

theorem dropCaseless?_suffix (h : dropCaseless? expected text = some rest) : rest <:+ text := by
  induction expected generalizing text with
  | nil =>
    cases h
    exact suffix_rfl
  | cons e expected ih =>
    cases text with
    | nil => cases h
    | cons c text =>
      rw [dropCaseless?] at h
      split at h
      · exact (ih h).trans (suffix_cons c text)
      · cases h

theorem dropEquals_suffix (text : List Char) : dropEquals text <:+ text := by
  unfold dropEquals
  split
  · exact suffix_cons _ _
  · exact suffix_rfl

theorem callStart?_suffix (h : callStart? text = some (quote, rest)) : rest <:+ text := by
  obtain ⟨braced, hnamed, _, hrest⟩ := callStart?_eq_some_iff.mp h
  have hbraced : rest <:+ braced := (dropCaseless?_suffix hrest).trans (dropEquals_suffix braced)
  have hquoted : braced <:+ quote :: '{' :: braced :=
    (suffix_cons _ _).trans (suffix_cons _ _)
  exact hbraced.trans (hquoted.trans (dropCaseless?_suffix hnamed))

theorem classCall?_eq_none (h : ¬ closing <:+: text) : classCall? text = none := by
  rw [classCall?_eq]
  cases hstart : callStart? text with
  | none => rfl
  | some found =>
    have hfree : ¬ closing <:+: found.2 :=
      fun hi => h (hi.trans (callStart?_suffix hstart).isInfix)
    rw [Option.bind_some, splitLastClose_eq_none hfree]
    rfl

/-! ## Beginnings that would reach into an attribute -/

/-- A beginning that ends in the second part of a text begins there or goes on there. -/
theorem dropCaseless?_append (h : dropCaseless? expected (front ++ back) = some rest) :
    (∃ left, dropCaseless? expected front = some left ∧ rest = left ++ back) ∨
      (front.length < expected.length ∧
        dropCaseless? (expected.drop front.length) back = some rest) := by
  induction expected generalizing front with
  | nil =>
    cases h
    exact .inl ⟨front, rfl, rfl⟩
  | cons e expected ih =>
    cases front with
    | nil => exact .inr ⟨by simp, h⟩
    | cons c front =>
      rw [cons_append, dropCaseless?] at h
      split at h
      · rename_i hc
        rcases ih h with ⟨left, hleft, rfl⟩ | ⟨hlen, hdrop⟩
        · exact .inl ⟨left, by rw [dropCaseless?, if_pos hc, hleft], rfl⟩
        · exact .inr ⟨by simpa using hlen, by simpa using hdrop⟩
      · cases h

/-- The name of the attribute does not go on with the name of an attribute. -/
theorem dropCaseless?_attribute {n : Nat} (hn : 0 < n) (hlen : n < "class=".toList.length)
    (more : List Char) :
    dropCaseless? ("class=".toList.drop n) ("class=".toList ++ more) = none := by
  have hsix : n < 6 := hlen
  rcases (by omega : n = 1 ∨ n = 2 ∨ n = 3 ∨ n = 4 ∨ n = 5) with rfl | rfl | rfl | rfl | rfl <;> rfl

theorem dropCaseless?_function {n : Nat} (hlen : n < "html_classes(".toList.length)
    (more : List Char) :
    dropCaseless? ("html_classes(".toList.drop n) ("class=".toList ++ more) = none := by
  have hthirteen : n < 13 := hlen
  rcases (by omega : n = 0 ∨ n = 1 ∨ n = 2 ∨ n = 3 ∨ n = 4 ∨ n = 5 ∨ n = 6 ∨ n = 7 ∨ n = 8 ∨
    n = 9 ∨ n = 10 ∨ n = 11 ∨ n = 12) with rfl | rfl | rfl | rfl | rfl | rfl | rfl | rfl | rfl | rfl
    | rfl | rfl | rfl <;> rfl

theorem dropEquals_append (front more : List Char) :
    dropEquals (front ++ ("class=".toList ++ more)) =
      dropEquals front ++ ("class=".toList ++ more) := by
  cases front with
  | nil => rfl
  | cons c front =>
    by_cases hc : c = '='
    · subst hc
      rfl
    · simp [dropEquals, hc]

/-- A text in which no call begins stays one before the name of an attribute. -/
theorem callStart?_append (hne : front ≠ []) (h : callStart? front = none) (more : List Char) :
    callStart? (front ++ ("class=".toList ++ more)) = none := by
  cases hstart : callStart? (front ++ ("class=".toList ++ more)) with
  | none => rfl
  | some found =>
    obtain ⟨quote, rest⟩ := found
    obtain ⟨braced, hnamed, hquote, hrest⟩ := callStart?_eq_some_iff.mp hstart
    have hpos := length_pos_iff.mpr hne
    -- Each part of the beginning lies in `front`, or the name that follows contradicts it.
    rcases dropCaseless?_append hnamed with ⟨left, hleft, heq⟩ | ⟨hlen, hdrop⟩
    · match left, heq with
      | [], heq => cases heq
      | [_], heq => cases heq
      | q :: c :: left, heq =>
        simp only [cons_append, List.cons.injEq] at heq
        obtain ⟨rfl, rfl, rfl⟩ := heq
        rw [dropEquals_append] at hrest
        rcases dropCaseless?_append hrest with ⟨last, hlast, _⟩ | ⟨hlen, hdrop⟩
        · have hsome : callStart? front = some (quote, last) :=
            callStart?_eq_some_iff.mpr ⟨left, hleft, hquote, hlast⟩
          rw [hsome] at h
          cases h
        · rw [dropCaseless?_function hlen] at hdrop
          cases hdrop
    · rw [dropCaseless?_attribute hpos hlen] at hdrop
      cases hdrop

/-! ## Replacing -/

/-- Text in front in which no call is found is copied. -/
theorem replaceClasses_append (h : ∀ s, s <:+ front → s ≠ [] → classCall? (s ++ back) = none)
    (previous : Option Char) :
    replaceClasses previous 0 (front ++ back) =
      front ++ replaceClasses (front.getLast?.or previous) 0 back := by
  induction front generalizing previous with
  | nil => rfl
  | cons c front ih =>
    have hcall : classCall? (c :: (front ++ back)) = none :=
      h (c :: front) suffix_rfl (cons_ne_nil c front)
    rw [cons_append, replaceClasses]
    simp only [hcall, ite_self]
    rw [ih (fun s hs => h s (hs.trans (suffix_cons c front))), cons_append]
    congr 3
    cases hlast : front.getLast? with
    | none => simp [getLast?_cons, hlast]
    | some d => simp [getLast?_cons, hlast]

theorem replaceClasses_of_not_infix (h : ¬ closing <:+: text) (previous : Option Char) :
    replaceClasses previous 0 text = text := by
  have hcall : ∀ s, s <:+ text → s ≠ [] → classCall? (s ++ []) = none := by
    intro s hs _
    rw [append_nil]
    exact classCall?_eq_none (fun hi => h (hi.trans hs.isInfix))
  have hcopy := replaceClasses_append hcall previous
  simpa [replaceClasses] using hcopy

theorem replaceClasses_skip (front back : List Char) (previous : Option Char) :
    ∃ p, replaceClasses previous front.length (front ++ back) = replaceClasses p 0 back := by
  induction front generalizing previous with
  | nil => exact ⟨previous, rfl⟩
  | cons c front ih =>
    rw [cons_append, length_cons, replaceClasses]
    exact ih (some c)

/-- A class attribute that begins with a call, up to the parenthesis of the call. -/
def callOpening (quote : Char) : List Char :=
  "class=".toList ++ quote :: "\x7b=html_classes(".toList

theorem callOpening_append (quote : Char) (rest : List Char) : callOpening quote ++ rest =
    "class=".toList ++ (quote :: "\x7b=html_classes(".toList ++ rest) :=
  List.append_assoc ..

theorem callStart?_callOpening (hq : quote = '"' ∨ quote = '\'') (rest : List Char) :
    callStart? (callOpening quote ++ rest) = some (quote, rest) := by
  rcases hq with rfl | rfl <;> rfl

/-- **What becomes of a line with a call**: all up to the last end of a call counts as its
arguments. -/
theorem replaceClasses_call (hq : quote = '"' ∨ quote = '\'')
    (hword : atWordStart front.getLast? = true) (hfront : holdsCallStart front = false)
    (hb : '\n' ∉ before) (ha : ¬ closing <:+: after) :
    replaceClasses none 0 (front ++ (callOpening quote ++ (before ++ closing ++ after))) =
      front ++ ("n:class=".toList ++ quote :: before ++ after) := by
  have hcopied : ∀ s, s <:+ front → s ≠ [] →
      classCall? (s ++ (callOpening quote ++ (before ++ closing ++ after))) = none := by
    intro s hs hne
    rw [classCall?_eq, callOpening_append,
      callStart?_append hne (callStart?_eq_none_of_suffix hfront hs)]
    rfl
  -- The first character of the attribute has been read when the rest of it is left out.
  obtain ⟨opening, hopening⟩ :
      ∃ opening, ∀ more, callOpening quote ++ more = 'c' :: (opening ++ more) :=
    ⟨_, fun _ => rfl⟩
  have hcall : classCall? ('c' :: (opening ++ (before ++ closing ++ after))) =
      some (quote, before, after) := by
    rw [← hopening, classCall?_eq, callStart?_callOpening hq, Option.bind_some,
      splitLastClose_append hb ha]
    rfl
  rw [replaceClasses_append hcopied, Option.or_none, hopening, replaceClasses, hword]
  simp only [if_true, hcall]
  have hlength : (opening ++ (before ++ closing ++ after)).length - after.length =
      (opening ++ (before ++ closing)).length := by
    simp only [length_append]
    omega
  obtain ⟨p, hskip⟩ := replaceClasses_skip (opening ++ (before ++ closing)) after (some 'c')
  rw [hlength, ← List.append_assoc opening (before ++ closing) after, hskip,
    replaceClasses_of_not_infix ha]

/-! ## Text that is left alone -/

/-- Ends of calls that stand one behind the other. -/
def closings (k : Nat) : List Char := (List.replicate k closing).flatten

theorem closings_succ (k : Nat) : closings (k + 1) = closing ++ closings k := by
  simp [closings, replicate_succ]

theorem closing_append_closings (k : Nat) : closing ++ closings k = closings k ++ closing := by
  induction k with
  | zero => rfl
  | succ k ih => rw [closings_succ, List.append_assoc, ← ih]

/-- Only ends of calls can change places with an end of a call. -/
theorem eq_closings_of_comm : ∀ {text : List Char}, closing ++ text = text ++ closing →
    ∃ k, text = closings k
  | [], _ => ⟨0, rfl⟩
  | [c], h => by
    simp only [closing, cons_append, nil_append, List.cons.injEq] at h
    obtain ⟨rfl, h, _⟩ := h
    cases h
  | c :: d :: text, h => by
    simp only [closing, cons_append, nil_append, List.cons.injEq] at h
    obtain ⟨rfl, rfl, h⟩ := h
    obtain ⟨k, rfl⟩ := eq_closings_of_comm h
    exact ⟨k + 1, by rw [closings_succ]; rfl⟩

theorem newline_notMem_closings (k : Nat) : '\n' ∉ closings k := by
  induction k with
  | zero => exact not_mem_nil
  | succ k ih =>
    rw [closings_succ, mem_append, not_or]
    exact ⟨by decide, ih⟩

/-- **Exactly when only the call itself is taken.** For a line that holds one class attribute with a
call and goes on with `rest`, the text after the end of the call is left alone if and only if no
call ends in it, but for ends that follow at once: there it does not matter which one is dropped. -/
theorem classAttributes_eq_iff {front arguments rest : String} {quote : Char}
    (hq : quote = '"' ∨ quote = '\'') (hword : atWordStart front.toList.getLast? = true)
    (hfront : holdsCallStart front.toList = false) (hline : '\n' ∉ arguments.toList)
    (hrest : '\n' ∉ rest.toList) :
    classAttributes (front ++ "class=" ++ String.singleton quote ++ "\x7b=html_classes("
        ++ arguments ++ ")\x7d" ++ rest)
      = front ++ "n:class=" ++ String.singleton quote ++ arguments ++ rest ↔
    ∃ k more, rest.toList = closings k ++ more ∧ ¬ closing <:+: more := by
  have hcode : (front ++ "class=" ++ String.singleton quote ++ "\x7b=html_classes(" ++ arguments
      ++ ")\x7d" ++ rest).toList =
      front.toList ++ (callOpening quote ++ (arguments.toList ++ closing ++ rest.toList)) := by
    simp [callOpening_append, closing]
  have hwanted : (front ++ "n:class=" ++ String.singleton quote ++ arguments ++ rest).toList =
      front.toList ++ ("n:class=".toList ++ quote :: arguments.toList ++ rest.toList) := by
    simp
  unfold classAttributes
  rw [← String.toList_inj, String.toList_ofList, hcode, hwanted]
  have hgreedy : ∀ {middle after : List Char}, '\n' ∉ middle → ¬ closing <:+: after →
      replaceClasses none 0 (front.toList ++ (callOpening quote ++
        (arguments.toList ++ closing ++ (middle ++ closing ++ after)))) =
      front.toList ++ ("n:class=".toList ++ quote :: arguments.toList ++
        (closing ++ middle ++ after)) := by
    intro middle after hmiddle hfree
    have hbefore : '\n' ∉ arguments.toList ++ closing ++ middle := by
      simp only [mem_append, not_or]
      exact ⟨⟨hline, by decide⟩, hmiddle⟩
    have hcall := replaceClasses_call hq hword hfront hbefore hfree
    simpa only [List.append_assoc, cons_append] using hcall
  constructor
  · intro heq
    by_cases hcloses : closing <:+: rest.toList
    · obtain ⟨middle, after, hsplit, hfree⟩ := exists_last_closing hcloses
      rw [hsplit] at heq hrest
      have hmiddle : '\n' ∉ middle := fun hm =>
        hrest (mem_append_left _ (mem_append_left _ hm))
      rw [hgreedy hmiddle hfree] at heq
      have hcomm : closing ++ middle = middle ++ closing :=
        append_cancel_right (append_cancel_left (append_cancel_left heq))
      obtain ⟨k, rfl⟩ := eq_closings_of_comm hcomm
      exact ⟨k + 1, after, by rw [hsplit, closings_succ, closing_append_closings], hfree⟩
    · exact ⟨0, rest.toList, rfl, hcloses⟩
  · rintro ⟨k, more, hsplit, hfree⟩
    rw [hsplit]
    cases k with
    | zero => exact replaceClasses_call hq hword hfront hline hfree
    | succ k =>
      rw [closings_succ, closing_append_closings, hgreedy (newline_notMem_closings k) hfree,
        closing_append_closings]

/-- An end of a call that follows at once does no harm. -/
theorem classAttributes_closing_follows :
    holdsCallStart "<a ".toList = false ∧
    (classAttributes ("<a " ++ "class=" ++ String.singleton '"' ++ "\x7b=html_classes(" ++ "f($a)"
        ++ ")\x7d" ++ ")\x7d\">")
      = "<a " ++ "n:class=" ++ String.singleton '"' ++ "f($a)" ++ ")\x7d\">" ↔
    ∃ k more, ")\x7d\">".toList = closings k ++ more ∧ ¬ closing <:+: more) :=
  ⟨by decide, classAttributes_eq_iff (.inl rfl) (by decide +kernel) (by decide) (by decide)
    (by decide)⟩

/-- A call in a second attribute loses its end: the first call is taken to reach that far. -/
theorem classAttributes_second_attribute :
    holdsCallStart "<a ".toList = false ∧ atWordStart "<a ".toList.getLast? = true ∧
    holdsCallStart "$a".toList = false ∧ ¬ closing <:+: "$a".toList ∧
    holdsCallStart "\" title=\"\x7b=max($b, 1)\x7d\">".toList = false ∧
    classAttributes ("<a " ++ "class=" ++ String.singleton '"' ++ "\x7b=html_classes(" ++ "$a"
        ++ ")\x7d" ++ "\" title=\"\x7b=max($b, 1)\x7d\">")
      = "<a n:class=\"$a)\x7d\" title=\"\x7b=max($b, 1\">" ∧
    "<a n:class=\"$a)\x7d\" title=\"\x7b=max($b, 1\">"
      ≠ "<a " ++ "n:class=" ++ String.singleton '"' ++ "$a"
        ++ "\" title=\"\x7b=max($b, 1)\x7d\">" := by
  decide +kernel

end TwigToLatte.Latte
