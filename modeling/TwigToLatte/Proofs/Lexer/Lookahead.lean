import TwigToLatte.Proofs.Latte.Quoting
import TwigToLatte.Proofs.Lexer.Termination

/-!
# How far the patterns look

A pattern may look beyond the characters that it covers. At a delimiter of a tag, and at a trim
marker in front of one, it looks no further than that.

* `Stops` — such text: every word, number and symbol has ended before it.
* `numeral_stops`, `symbol?_stops` — what stands before such text is read as if nothing followed.
* `Seam` — two such texts, one of which may follow in place of the other.
* `operator?_seam`, `tagEnd?_seam`, `namedTag?_seam`, `verbatimEnd?_within` — **what ends before a
  seam is found on both sides**, and nothing else is.
-/

namespace TwigToLatte.Pattern

open Text

/-! ## Text before which everything has ended -/

/-- The characters of delimiters and the trim markers. -/
def edges : List Char := ['{', '}', '%', '-', '~']

/-- A delimiter of a tag, or a trim marker in front of one that closes a tag. -/
inductive Stops : List Char → Prop
  | delimiter {c : Char} (hc : c = '{' ∨ c = '}' ∨ c = '%') (text : List Char) :
      Stops (c :: text)
  | marked {m c : Char} (hm : isMarker m = true) (hc : c = '}' ∨ c = '%') (text : List Char) :
      Stops (m :: c :: text)

variable {m c d closer : Char} {p : Char → Bool} {symbol text name : List Char}
  {n length closed : Nat} {found : Option Nat}

theorem eq_of_isMarker (h : isMarker m = true) : m = '-' ∨ m = '~' := by
  simpa [isMarker] using h

variable {B : List Char}

theorem Stops.exists_cons (h : Stops B) : ∃ c text, B = c :: text ∧ c ∈ edges := by
  cases h with
  | delimiter hc text => exact ⟨_, _, rfl, by rcases hc with rfl | rfl | rfl <;> decide⟩
  | marked hm hc text => exact ⟨_, _, rfl, by rcases eq_of_isMarker hm with rfl | rfl <;> decide⟩

theorem Stops.ne_nil (h : Stops B) : B ≠ [] := by
  cases h <;> exact List.cons_ne_nil _ _

theorem eq_false_of_mem_edges (hp : edges.any p = false) (hc : c ∈ edges) : p c = false :=
  Bool.eq_false_iff.mpr (List.any_eq_false.mp hp c hc)

theorem takeWhile_stops (hp : edges.any p = false) (h : Stops B) (text : List Char) :
    (text ++ B).takeWhile p = text.takeWhile p := by
  obtain ⟨c, more, rfl, hc⟩ := h.exists_cons
  induction text with
  | nil => simp [eq_false_of_mem_edges hp hc]
  | cons d text ih => simp only [List.cons_append, List.takeWhile_cons, ih]

theorem blanks_stops (h : Stops B) (text : List Char) : blanks (text ++ B) = blanks text := by
  unfold blanks
  rw [takeWhile_stops (by decide) h]

theorem blanks_le (text : List Char) : blanks text ≤ text.length :=
  (List.takeWhile_prefix _).length_le

theorem drop_blanks_stops (h : Stops B) (text : List Char) :
    (text ++ B).drop (blanks (text ++ B)) = text.drop (blanks text) ++ B := by
  rw [blanks_stops h, List.drop_append_of_le_length (blanks_le text)]

theorem startsWith_arrow_stops (h : Stops B) (c : Char) (text : List Char) :
    startsWith '=' '>' (c :: text ++ B) = startsWith '=' '>' (c :: text) := by
  cases text with
  | cons d text => rfl
  | nil =>
    obtain ⟨d, more, rfl, hd⟩ := h.exists_cons
    have hne : d ≠ '>' := by
      rintro rfl
      exact absurd hd (by decide)
    simp [startsWith, hne]

/-! ## Numbers -/

theorem digits_stops (h : Stops B) (text : List Char) : digits (text ++ B) = digits text :=
  takeWhile_stops (by decide) h text

theorem fraction_stops (h : Stops B) (text : List Char) : fraction (text ++ B) = fraction text := by
  unfold fraction
  cases text with
  | nil =>
    obtain ⟨c, more, rfl, hc⟩ := h.exists_cons
    have hpoint : c ≠ '.' := by
      rintro rfl
      exact absurd hc (by decide)
    simp [hpoint]
  | cons d text => simp [digits_stops h]

theorem length_fraction (text : List Char) :
    (if (fraction text).isEmpty then 0 else (fraction text).length + 1) ≤ text.length := by
  unfold fraction
  cases text with
  | nil => simp
  | cons d text =>
    have hle : (digits text).length ≤ text.length := (List.takeWhile_prefix _).length_le
    by_cases hd : d = '.'
    · simp only [hd, List.head?_cons, List.tail_cons, beq_self_eq_true, if_true, List.length_cons]
      split <;> omega
    · simp [hd]

/-- A letter and a trim marker are not yet an exponent. -/
theorem exponent_singleton_stops (h : Stops B) (c : Char) : exponent (c :: B) = (0, 0) := by
  have hpower : digits (if B.head?.any (fun c => c == '+' || c == '-') = true then B.tail else B) =
      [] := by
    cases h with
    | delimiter hc text => rcases hc with rfl | rfl | rfl <;> simp [digits]
    | marked hm hc text =>
      rcases eq_of_isMarker hm with rfl | rfl <;> rcases hc with rfl | rfl <;> simp [digits]
  unfold exponent
  simp only [List.tail_cons, List.drop_succ_cons, List.drop_one, hpower, List.isEmpty_nil, if_true,
    ite_self]

theorem exponent_stops (h : Stops B) (text : List Char) : exponent (text ++ B) = exponent text := by
  cases text with
  | nil =>
    obtain ⟨c, more, rfl, hc⟩ := h.exists_cons
    have hletter : (c == 'e' || c == 'E') = false :=
      eq_false_of_mem_edges (p := fun c => c == 'e' || c == 'E') rfl hc
    simp [exponent, hletter]
  | cons c text =>
    cases text with
    | nil =>
      rw [List.singleton_append, exponent_singleton_stops h]
      simp [exponent, digits]
    | cons d text =>
      have hlong := digits_stops h (d :: text)
      simp only [List.cons_append] at hlong
      unfold exponent
      simp only [List.cons_append, List.head?_cons, List.tail_cons, List.drop_succ_cons,
        List.drop_zero, apply_ite digits, digits_stops h, hlong]
      rfl

/-- **A number ends** where the text stops. -/
theorem numeral_stops (h : Stops B) (text : List Char) : numeral (text ++ B) = numeral text := by
  have hwhole : (digits text).length ≤ text.length := (List.takeWhile_prefix _).length_le
  have hdecimals := length_fraction (text.drop (digits text).length)
  unfold numeral
  simp only [digits_stops h, List.drop_append_of_le_length hwhole, fraction_stops h,
    List.drop_append_of_le_length hdecimals, exponent_stops h]

/-! ## Operators -/

/-- Whether a symbol can go on in this way without a trim marker or a delimiter of a tag being part
of it: none of their characters occurs, but for a hyphen in front of a letter. -/
def continuesInside : List Char → Bool
  | [] => true
  | c :: more =>
    !(['\x00', '{', '}', '%', '~'].contains c) && (c != '-' || more.head?.any Char.isAlpha) &&
      continuesInside more

theorem symbol?_space (symbol text : List Char) :
    symbol? (' ' :: symbol) text =
      if blanks text = 0 then none
      else (symbol? symbol (text.drop (blanks text))).map (blanks text + ·) := by
  rw [symbol?, if_pos rfl]

theorem symbol?_cons (hc : c ≠ ' ') (symbol text : List Char) :
    symbol? (c :: symbol) text =
      if text.headD '\x00' = c then (symbol? symbol text.tail).map (1 + ·) else none := by
  rw [symbol?, if_neg hc]

/-- Of a symbol that goes on, nothing is found where the text stops. -/
theorem symbol?_eq_none_of_stops (hs : continuesInside (c :: symbol) = true) (h : Stops B) :
    symbol? (c :: symbol) B = none := by
  by_cases hspace : c = ' '
  · subst hspace
    have hblanks : blanks B = 0 := by simpa [blanks] using blanks_stops h []
    rw [symbol?_space, if_pos hblanks]
  · simp only [continuesInside, Bool.and_eq_true, Bool.not_eq_true'] at hs
    obtain ⟨⟨hc, hhyphen⟩, -⟩ := hs
    rw [symbol?_cons hspace]
    cases h with
    | @delimiter d hd text =>
      have hne : d ≠ c := by
        rintro rfl
        rcases hd with rfl | rfl | rfl <;> cases hc
      rw [List.headD_cons, if_neg hne]
    | @marked m d hm hd text =>
      rw [List.headD_cons, List.tail_cons]
      by_cases hmc : m = c
      · -- The marker is taken for the hyphen of the symbol, but no letter follows.
        subst hmc
        have hm : m = '-' := by
          rcases eq_of_isMarker hm with rfl | rfl
          · rfl
          · cases hc
        subst hm
        cases symbol with
        | nil => cases hhyphen
        | cons e symbol =>
          have he : e.isAlpha = true := by simpa using hhyphen
          have hde : d ≠ e := by
            rintro rfl
            rcases hd with rfl | rfl <;> cases he
          have hspace : e ≠ ' ' := by
            rintro rfl
            cases he
          rw [if_pos rfl, symbol?_cons hspace, List.headD_cons, if_neg hde]
          rfl
      · rw [if_neg hmc]

theorem symbol?_nil_eq_none (hs : continuesInside (c :: symbol) = true) :
    symbol? (c :: symbol) [] = none := by
  by_cases hspace : c = ' '
  · subst hspace
    rfl
  · have hnul : '\x00' ≠ c := by
      rintro rfl
      cases hs
    rw [symbol?_cons hspace, List.headD_nil, if_neg hnul]

/-- One more character in front, which is there to be read. -/
theorem symbol?_cons_stops (h : Stops B)
    (ih : ∀ text, symbol? symbol (text ++ B) = symbol? symbol text) (c d : Char) (text : List Char) :
    symbol? (c :: symbol) (d :: text ++ B) = symbol? (c :: symbol) (d :: text) := by
  by_cases hspace : c = ' '
  · subst hspace
    rw [symbol?_space, symbol?_space, drop_blanks_stops h, blanks_stops h, ih]
  · rw [symbol?_cons hspace, symbol?_cons hspace, List.cons_append, List.tail_cons, ih]
    rfl

theorem symbol?_cons_le (ih : ∀ text n, symbol? symbol text = some n → n ≤ text.length)
    (h : symbol? (c :: symbol) (d :: text) = some n) : n ≤ (d :: text).length := by
  by_cases hspace : c = ' '
  · subst hspace
    rw [symbol?_space] at h
    split at h
    · cases h
    · obtain ⟨m, hm, rfl⟩ := Option.map_eq_some_iff.mp h
      have hle := ih _ _ hm
      have hblanks := blanks_le (d :: text)
      rw [List.length_drop] at hle
      omega
  · rw [symbol?_cons hspace] at h
    split at h
    · obtain ⟨m, hm, rfl⟩ := Option.map_eq_some_iff.mp h
      have hle := ih _ _ hm
      rw [List.tail_cons] at hle
      rw [List.length_cons]
      omega
    · cases h

theorem continuesInside_of_cons (h : continuesInside (c :: symbol) = true) :
    continuesInside symbol = true := by
  simp only [continuesInside, Bool.and_eq_true] at h
  exact h.2

theorem symbol?_continues_stops (hs : continuesInside symbol = true) (h : Stops B)
    (text : List Char) : symbol? symbol (text ++ B) = symbol? symbol text := by
  induction symbol generalizing text with
  | nil => rfl
  | cons c symbol ih =>
    cases text with
    | nil => rw [List.nil_append, symbol?_eq_none_of_stops hs h, symbol?_nil_eq_none hs]
    | cons d text => exact symbol?_cons_stops h (ih (continuesInside_of_cons hs)) c d text

theorem symbol?_continues_le (hs : continuesInside symbol = true) (text : List Char) (n : Nat)
    (h : symbol? symbol text = some n) : n ≤ text.length := by
  induction symbol generalizing text n with
  | nil =>
    cases h
    exact Nat.zero_le _
  | cons c symbol ih =>
    cases text with
    | nil =>
      rw [symbol?_nil_eq_none hs] at h
      cases h
    | cons d text => exact symbol?_cons_le (ih (continuesInside_of_cons hs)) h

/-- **A symbol ends** where the text stops, if something stands before. -/
theorem symbol?_stops (hs : continuesInside symbol.tail = true) (h : Stops B) (d : Char)
    (text : List Char) : symbol? symbol (d :: text ++ B) = symbol? symbol (d :: text) := by
  cases symbol with
  | nil => rfl
  | cons c symbol => exact symbol?_cons_stops h (symbol?_continues_stops hs h) c d text

theorem symbol?_le (hs : continuesInside symbol.tail = true)
    (h : symbol? symbol (d :: text) = some n) : n ≤ (d :: text).length := by
  cases symbol with
  | nil =>
    cases h
    exact Nat.zero_le _
  | cons c symbol => exact symbol?_cons_le (symbol?_continues_le hs) h

/-! ## Seams -/

/-- Two texts of which one may follow in place of the other: an opening delimiter, whatever comes
after it, or a closing delimiter without and with a trim marker. -/
inductive Seam : List Char → List Char → Prop
  | opening {d : Char} (hd : d = '{' ∨ d = '%') (text text' : List Char) :
      Seam ('{' :: d :: text) ('{' :: d :: text')
  | closing {c m : Char} (hc : c = '}' ∨ c = '%') (hm : isMarker m = true) (text : List Char) :
      Seam (c :: '}' :: text) (m :: c :: '}' :: text)

namespace Seam

variable {B' : List Char} (h : Seam B B')

include h

theorem left : Stops B := by
  cases h with
  | opening => exact .delimiter (.inl rfl) _
  | closing hc => exact .delimiter (.inr hc) _

theorem right : Stops B' := by
  cases h with
  | opening => exact .delimiter (.inl rfl) _
  | closing hc hm => exact .marked hm hc _

theorem head?_eq_brace_iff : B'.head? = some '{' ↔ B.head? = some '{' := by
  cases h with
  | opening => exact Iff.rfl
  | closing hc hm =>
    rcases hc with rfl | rfl <;> rcases eq_of_isMarker hm with rfl | rfl <;> simp

/-- No delimiter that closes a tag follows in place of another text. -/
theorem startsWith_right {closer : Char} (hcloser : closer = '%' ∨ closer = '}') :
    startsWith closer '}' B' = false ∧ B'.head? ≠ some '}' := by
  cases h with
  | opening => rcases hcloser with rfl | rfl <;> simp [startsWith]
  | closing _ hm =>
    rcases hcloser with rfl | rfl <;> rcases eq_of_isMarker hm with rfl | rfl <;> simp [startsWith]

theorem endsWord_eq (text : List Char) : endsWord (text ++ B') = endsWord (text ++ B) := by
  cases text with
  | cons d text => rfl
  | nil =>
    cases h with
    | opening => rfl
    | closing hc hm =>
      rcases hc with rfl | rfl <;> rcases eq_of_isMarker hm with rfl | rfl <;> rfl

end Seam

variable {B' : List Char}

/-- **The same operator is found**, if something stands before the seam. -/
theorem operator?_seam {symbols : List (List Char)}
    (hs : ∀ s ∈ symbols, continuesInside s.tail = true) (h : Seam B B') (previous : Option Char)
    (d : Char) (text : List Char) :
    operator? symbols previous (d :: text ++ B') = operator? symbols previous (d :: text ++ B) := by
  have hat : ∀ s ∈ symbols,
      operatorAt? previous (d :: text ++ B') s = operatorAt? previous (d :: text ++ B) s := by
    intro s hmem
    unfold operatorAt?
    rw [symbol?_stops (hs s hmem) h.left, symbol?_stops (hs s hmem) h.right]
    cases hfound : symbol? s (d :: text) with
    | none => rfl
    | some n =>
      have hle := symbol?_le (hs s hmem) hfound
      simp only [List.drop_append_of_le_length hle, h.endsWord_eq]
  induction symbols with
  | nil => rfl
  | cons s symbols ih =>
    obtain ⟨hhead, htail⟩ := List.forall_mem_cons.mp hat
    have hrest := ih (fun s hs' => hs s (List.mem_cons_of_mem _ hs')) htail
    unfold operator? at hrest ⊢
    rw [List.findSome?_cons, List.findSome?_cons, hhead, hrest]

/-! ## Ends of tags and whole tags -/

/-- What is found, if anything, ends after `limit` characters at most. -/
def Within (found : Option Nat) (limit : Nat) : Prop := ∀ n, found = some n → n ≤ limit

theorem within_none (h : found = none) (limit : Nat) : Within found limit := by
  intro n hn
  rw [h] at hn
  cases hn

theorem within_some {limit : Nat} (h : found = some n) (hn : n ≤ limit) : Within found limit := by
  intro k hk
  rw [h] at hk
  cases hk
  exact hn

theorem startsWith_seam (h : Seam B B') (hcloser : closer = '%' ∨ closer = '}')
    (hin : startsWith closer '}' (text ++ B) = true → 2 ≤ text.length) :
    startsWith closer '}' (text ++ B') = startsWith closer '}' (text ++ B) := by
  obtain ⟨hright, hbrace⟩ := h.startsWith_right hcloser
  cases text with
  | nil =>
    cases hleft : startsWith closer '}' ([] ++ B) with
    | false => exact hright
    | true => exact absurd (hin hleft) (by simp)
  | cons d text =>
    cases text with
    | cons e text => rfl
    | nil =>
      cases hleft : startsWith closer '}' ([d] ++ B) with
      | false => simp [startsWith, hbrace]
      | true => exact absurd (hin hleft) (by simp)

theorem marker_le_one (text : List Char) : marker text ≤ 1 := by
  unfold marker
  split <;> omega

/-- **The end of a tag is found on both sides** of the text, if it is found before the seam. -/
theorem tagEnd?_seam (h : Seam B B') (hcloser : closer = '%' ∨ closer = '}')
    (hin : Within (tagEnd? closer (text ++ B)) text.length) :
    tagEnd? closer (text ++ B') = tagEnd? closer (text ++ B) := by
  have hblanks := blanks_le text
  unfold tagEnd? at hin ⊢
  simp only [blanks_stops h.left, blanks_stops h.right,
    List.drop_append_of_le_length hblanks] at hin ⊢
  cases hdrop : text.drop (blanks text) with
  | nil =>
    -- The delimiter itself closes a tag of another kind.
    have hall : text.length ≤ blanks text := List.drop_eq_nil_iff.mp hdrop
    rw [hdrop] at hin
    have hleft : startsWith closer '}' (([] ++ B).drop (marker ([] ++ B))) = false := by
      refine Bool.eq_false_iff.mpr fun hstarts => ?_
      have hle := hin _ (if_pos hstarts)
      omega
    have hright : startsWith closer '}' (([] ++ B').drop (marker ([] ++ B'))) = false := by
      cases h with
      | opening => rcases hcloser with rfl | rfl <;> simp [marker, isMarker, startsWith]
      | @closing c m hc hm text =>
        have hmarker : isMarker c = false := by rcases hc with rfl | rfl <;> rfl
        simpa [marker, hm, hmarker] using hleft
    rw [hleft, hright]
    rfl
  | cons d rest =>
    have hlength : text.length = blanks text + (rest.length + 1) := by
      rw [← List.length_cons, ← hdrop, List.length_drop]
      omega
    have hmarker : marker (d :: rest ++ B') = marker (d :: rest ++ B) := rfl
    have hle := marker_le_one (d :: rest ++ B)
    rw [hdrop] at hin
    rw [hmarker]
    generalize marker (d :: rest ++ B) = marked at *
    rw [List.drop_append_of_le_length (by simp; omega)] at hin
    rw [List.drop_append_of_le_length (by simp; omega),
      List.drop_append_of_le_length (by simp; omega), startsWith_seam h hcloser]
    intro hstarts
    have hle := hin _ (if_pos hstarts)
    rw [List.length_drop, List.length_cons]
    omega

theorem namedTag?_open (name text : List Char) :
    namedTag? name ('{' :: '%' :: text) =
      (tagBody? name (text.drop (marker text))).map (2 + marker text + ·) := by
  have hopened : ('{' :: '%' :: text).drop (2 + marker text) = text.drop (marker text) := by
    rw [Nat.add_comm, List.drop_succ_cons, List.drop_succ_cons]
  rw [← hopened]
  rfl

theorem isPrefixOf_stops (hname : name.any edges.contains = false) (h : Stops B) (text : List Char) :
    name.isPrefixOf (text ++ B) = name.isPrefixOf text := by
  induction name generalizing text with
  | nil => rfl
  | cons c name ih =>
    rw [List.any_cons, Bool.or_eq_false_iff] at hname
    obtain ⟨hc, hname⟩ := hname
    cases text with
    | cons d text => simp only [List.cons_append, List.isPrefixOf_cons_cons, ih hname]
    | nil =>
      obtain ⟨d, more, rfl, hd⟩ := h.exists_cons
      have hne : c ≠ d := by
        rintro rfl
        rw [List.contains_iff_mem.mpr hd] at hc
        cases hc
      simp [List.isPrefixOf, hne]

theorem head?_any_stops (hp : edges.any p = false) (h : Stops B) (text : List Char) :
    (text ++ B).head?.any p = text.head?.any p := by
  cases text with
  | cons d text => rfl
  | nil =>
    obtain ⟨c, more, rfl, hc⟩ := h.exists_cons
    simp [eq_false_of_mem_edges hp hc]

theorem tagBody?_seam (hname : name.any edges.contains = false) (h : Seam B B')
    (hin : Within (tagBody? name (text ++ B)) text.length) :
    tagBody? name (text ++ B') = tagBody? name (text ++ B) := by
  have hblanks := blanks_le text
  unfold tagBody? at hin ⊢
  simp only [blanks_stops h.left, blanks_stops h.right, List.drop_append_of_le_length hblanks,
    isPrefixOf_stops hname h.left, isPrefixOf_stops hname h.right] at hin ⊢
  cases hstarts : name.isPrefixOf (text.drop (blanks text)) with
  | false => rfl
  | true =>
    have hlength : blanks text + name.length ≤ text.length := by
      have hle := (List.isPrefixOf_iff_prefix.mp hstarts).length_le
      rw [List.length_drop] at hle
      omega
    simp only [hstarts, List.drop_append_of_le_length hlength, Bool.true_and,
      head?_any_stops (p := isNameChar) (by decide) h.left,
      head?_any_stops (p := isNameChar) (by decide) h.right] at hin ⊢
    split
    · rename_i hword
      rw [tagEnd?_seam h (.inl rfl)]
      intro n hn
      have hle := hin (blanks text + name.length + n) (by rw [if_pos hword, hn]; rfl)
      rw [List.length_drop]
      omega
    · rfl

/-- A trim marker makes a tag longer and changes nothing else. -/
theorem namedTag?_mark (name : List Char) (hm : isMarker m = true) (htext : marker text = 0) :
    namedTag? name ('{' :: '%' :: m :: text) =
      (namedTag? name ('{' :: '%' :: text)).map (· + 1) := by
  have hmarked : marker (m :: text) = 1 := by simp [marker, hm]
  rw [namedTag?_open, namedTag?_open, hmarked, htext, Option.map_map]
  congr 1
  funext n
  simp only [Function.comp_apply]
  omega

/-- A tag whose trim marker, if it has one, stands before the seam. -/
theorem namedTag?_open_seam (hname : name.any edges.contains = false) (h : Seam B B')
    (hmarker : marker (text ++ B) = marker text) (hmarker' : marker (text ++ B') = marker text)
    (hin : Within (namedTag? name ('{' :: '%' :: text ++ B)) (text.length + 2)) :
    namedTag? name ('{' :: '%' :: text ++ B') = namedTag? name ('{' :: '%' :: text ++ B) := by
  have hle : marker text ≤ text.length := by
    cases text with
    | nil => exact Nat.zero_le _
    | cons c text => exact Nat.le_trans (marker_le_one _) (by simp)
  simp only [List.cons_append, namedTag?_open, hmarker, hmarker',
    List.drop_append_of_le_length hle] at hin ⊢
  rw [tagBody?_seam hname h]
  intro n hn
  have hn := hin (2 + marker text + n) (by rw [hn]; rfl)
  rw [List.length_drop]
  omega

/-- **A whole tag is found on both sides** of the text, if it is found before the opening delimiter
of another tag. -/
theorem namedTag?_seam (hname : name.any edges.contains = false) (h : Seam B B')
    (hbrace : B.head? = some '{') (c : Char)
    (hin : Within (namedTag? name (c :: text ++ B)) (text.length + 1)) :
    namedTag? name (c :: text ++ B') = namedTag? name (c :: text ++ B) := by
  have hbrace' := h.head?_eq_brace_iff.mpr hbrace
  by_cases hopen : (c == '{' && (text ++ B).head? == some '%') = true
  · simp only [Bool.and_eq_true, beq_iff_eq] at hopen
    obtain ⟨rfl, hpercent⟩ := hopen
    cases text with
    | nil =>
      rw [List.nil_append, hbrace] at hpercent
      cases hpercent
    | cons d text =>
      obtain rfl : d = '%' := by simpa using hpercent
      have hmarker : ∀ {follow : List Char}, follow.head? = some '{' →
          marker (text ++ follow) = marker text := by
        intro follow hfollow
        unfold marker
        cases text with
        | nil =>
          rw [List.nil_append, hfollow]
          rfl
        | cons e text => rfl
      exact namedTag?_open_seam hname h (hmarker hbrace) (hmarker hbrace') hin
  · have hopen' : ¬ (c == '{' && (text ++ B').head? == some '%') = true := by
      cases text with
      | nil => simp [hbrace']
      | cons d text => exact hopen
    rw [List.cons_append, List.cons_append, namedTag?_eq_none hopen, namedTag?_eq_none hopen']

/-- A search that ends at a tag before the seam, or right at it, passes over the same characters. -/
theorem verbatimEnd?_seam (h : Seam B B') (hbrace : B.head? = some '{') {closed' : Nat}
    (hend : verbatimEnd? (text ++ B) = some (length, closed)) (hlength : length ≤ text.length)
    (hclosed : namedTag? "endverbatim".toList ((text ++ B').drop length) = some closed') :
    verbatimEnd? (text ++ B') = some (length, closed') := by
  induction text generalizing length with
  | nil =>
    obtain rfl : length = 0 := by simpa using hlength
    obtain ⟨c, more, rfl, -⟩ := h.right.exists_cons
    simp only [List.nil_append, List.drop_zero] at hclosed ⊢
    rw [verbatimEnd?, hclosed]
  | cons c text ih =>
    rw [List.cons_append, verbatimEnd?] at hend
    cases length with
    | zero =>
      rw [List.drop_zero] at hclosed
      rw [List.cons_append, verbatimEnd?, ← List.cons_append, hclosed]
    | succ length =>
      cases htag : namedTag? "endverbatim".toList (c :: (text ++ B)) with
      | some n =>
        rw [htag] at hend
        cases hend
      | none =>
        rw [htag] at hend
        have hnone := namedTag?_seam (by decide) h hbrace c (within_none htag _)
        rw [List.cons_append, List.cons_append, htag] at hnone
        obtain ⟨found, hfound, heq⟩ := Option.map_eq_some_iff.mp hend
        obtain ⟨hnext, rfl⟩ := Prod.mk.inj heq
        rw [List.length_cons, Nat.succ_le_succ_iff] at hlength
        have hrest : verbatimEnd? (text ++ B) = some (length, found.2) := by
          rw [hfound, ← Nat.succ.inj hnext]
        rw [List.cons_append, verbatimEnd?, hnone, ih hrest hlength hclosed]
        rfl

theorem namedTag?_of_verbatimEnd? (h : verbatimEnd? text = some (length, closed)) :
    namedTag? "endverbatim".toList (text.drop length) = some closed := by
  induction text generalizing length with
  | nil => cases h
  | cons c text ih =>
    rw [verbatimEnd?] at h
    cases htag : namedTag? "endverbatim".toList (c :: text) with
    | some n =>
      rw [htag] at h
      cases h
      exact htag
    | none =>
      rw [htag] at h
      obtain ⟨found, hfound, heq⟩ := Option.map_eq_some_iff.mp h
      cases heq
      exact ih hfound

/-- **The end of a verbatim region is found on both sides** of the text, if it is found before the
opening delimiter of another tag. -/
theorem verbatimEnd?_within (h : Seam B B') (hbrace : B.head? = some '{')
    (hend : verbatimEnd? (text ++ B) = some (length, closed)) (hin : length + closed ≤ text.length) :
    verbatimEnd? (text ++ B') = some (length, closed) := by
  have hclosed := namedTag?_of_verbatimEnd? hend
  have hpos := Lexer.Scan.namedTag?_pos hclosed
  refine verbatimEnd?_seam h hbrace hend (by omega) ?_
  rw [List.drop_append_of_le_length (by omega)] at hclosed ⊢
  obtain ⟨c, rest, hdrop⟩ := List.exists_cons_of_length_pos (l := text.drop length)
    (by rw [List.length_drop]; omega)
  have hrest : text.length = length + (rest.length + 1) := by
    rw [← List.length_cons, ← hdrop, List.length_drop]
    omega
  rw [hdrop] at hclosed ⊢
  rw [namedTag?_seam (by decide) h hbrace c (within_some hclosed (by omega)), hclosed]

/-! ## Literal text and comments -/

theorem textLength_seam (h : Seam B B') (hbrace : B.head? = some '{') (text : List Char) :
    textLength (text ++ B') = textLength (text ++ B) := by
  induction text with
  | nil =>
    cases h with
    | @opening d hd text text' => rcases hd with rfl | rfl <;> rfl
    | closing hc =>
      rcases hc with rfl | rfl <;> simp at hbrace
  | cons c text ih =>
    have hhead : (text ++ B').head? = (text ++ B).head? := by
      cases text with
      | nil => rw [List.nil_append, List.nil_append, hbrace, h.head?_eq_brace_iff.mpr hbrace]
      | cons d text => rfl
    rw [List.cons_append, List.cons_append, textLength, textLength, hhead, ih]

theorem pair?_append {a b : Char} {follow : List Char} (h : pair? a b (text ++ follow) = some n)
    (hn : n + 2 ≤ text.length) (follow' : List Char) : pair? a b (text ++ follow') = some n := by
  induction text generalizing n with
  | nil => simp at hn
  | cons c text ih =>
    have hhead : ∀ more : List Char, text ≠ [] → (text ++ more).head? = text.head? := by
      intro more htext
      obtain ⟨d, text, rfl⟩ := List.exists_cons_of_ne_nil htext
      rfl
    have htext : text ≠ [] := by
      rintro rfl
      simp at hn
    rw [List.cons_append, pair?, hhead _ htext] at h ⊢
    split at h
    · rename_i hpair
      rw [if_pos hpair, h]
    · rename_i hpair
      obtain ⟨m, hm, rfl⟩ := Option.map_eq_some_iff.mp h
      rw [List.length_cons] at hn
      rw [if_neg hpair, ih hm (by omega)]
      rfl

end TwigToLatte.Pattern

/-! ## Strings -/

namespace TwigToLatte.Lexer

open Text Pattern Latte

theorem quotedLength?_backslash (quote : Char) (stop : Char → Bool) (rest : List Char) :
    quotedLength? quote stop ('\\' :: rest) = (quotedLength? quote stop rest.tail).map (· + 2) := by
  rw [quotedLength?.eq_def]
  cases rest <;> rfl

theorem stringRun_backslash (c : Char) (rest : List Char) :
    Scan.stringRun ('\\' :: c :: rest) = Scan.stringRun rest + 2 := by
  rw [Scan.stringRun.eq_def]
  rfl

variable {text : List Char}

/-- A quoted text that ends is read alike, whatever follows. -/
theorem quotedLength?_of_append {quote : Char} {stop : Char → Bool} {follow : List Char} {n : Nat}
    (h : quotedLength? quote stop (text ++ follow) = some n) (hn : n < text.length)
    (follow' : List Char) : quotedLength? quote stop (text ++ follow') = some n := by
  induction n using Nat.strongRecOn generalizing text with
  | ind n ih =>
    obtain ⟨c, text, rfl⟩ := List.exists_cons_of_length_pos (Nat.zero_lt_of_lt hn)
    rw [List.cons_append] at h ⊢
    rw [List.length_cons] at hn
    by_cases hc : c = '\\'
    · subst hc
      rw [quotedLength?_backslash] at h ⊢
      obtain ⟨m, hm, rfl⟩ := Option.map_eq_some_iff.mp h
      obtain ⟨d, text, rfl⟩ := List.exists_cons_of_length_pos (l := text) (by omega)
      rw [List.length_cons] at hn
      rw [List.cons_append, List.tail_cons] at hm ⊢
      rw [ih m (by omega) hm (by omega)]
      rfl
    · rw [quotedLength?_cons hc] at h ⊢
      by_cases hstop : stop c = true
      · rw [if_pos hstop] at h
        cases h
      · rw [if_neg hstop] at h ⊢
        by_cases hquote : c = quote
        · rw [if_pos hquote] at h ⊢
          exact h
        · rw [if_neg hquote] at h ⊢
          obtain ⟨m, hm, rfl⟩ := Option.map_eq_some_iff.mp h
          rw [ih m (by omega) hm (by omega)]
          rfl

/-- **A part of a string that ends before the seam** ends there on both sides. So the search for the
end of the whole string, which gives up at a hash, comes to the same. -/
theorem string_seam {B B' : List Char} (h : Seam B B')
    (hin : Scan.stringRun (text ++ B) ≤ text.length) :
    Scan.stringRun (text ++ B') = Scan.stringRun (text ++ B) ∧
      quotedLength? '"' (· == '#') (text ++ B') = quotedLength? '"' (· == '#') (text ++ B) := by
  generalize hlength : text.length = length at hin
  induction length using Nat.strongRecOn generalizing text with
  | ind length ih =>
    obtain ⟨b, more, rfl, hb⟩ := h.left.exists_cons
    cases text with
    | nil =>
      have hplain : (b == '"' || b == '\\' || b == '#') = false :=
        eq_false_of_mem_edges (p := fun c => c == '"' || c == '\\' || c == '#') rfl hb
      simp only [Bool.or_eq_false_iff, beq_eq_false_iff_ne] at hplain
      obtain ⟨⟨hquote, hslash⟩, hhash⟩ := hplain
      subst hlength
      rw [List.nil_append, stringRun_cons hquote hslash (fun hc => absurd hc hhash)] at hin
      exact absurd hin (Nat.not_succ_le_zero _)
    | cons c text =>
      rw [List.length_cons] at hlength
      simp only [List.cons_append] at hin ⊢
      by_cases hslash : c = '\\'
      · subst hslash
        cases text with
        | nil =>
          rw [List.nil_append, stringRun_backslash] at hin
          simp at hlength
          omega
        | cons d text =>
          rw [List.length_cons] at hlength
          simp only [List.cons_append, stringRun_backslash, quotedLength?_backslash,
            List.tail_cons] at hin ⊢
          obtain ⟨hrun, hquoted⟩ := ih text.length (by omega) rfl (by omega)
          rw [hrun, hquoted]
          exact ⟨rfl, rfl⟩
      · rw [quotedLength?_cons hslash, quotedLength?_cons hslash]
        by_cases hquote : c = '"'
        · subst hquote
          rw [Scan.stringRun.eq_def, Scan.stringRun.eq_def]
          exact ⟨rfl, rfl⟩
        have hbrace : (text ++ B').head? = some '{' ↔
            (text ++ b :: more).head? = some '{' := by
          cases text with
          | nil => exact h.head?_eq_brace_iff
          | cons d text => exact Iff.rfl
        by_cases hnext : c = '#' ∧ (text ++ b :: more).head? = some '{'
        · obtain ⟨rfl, hnext⟩ := hnext
          rw [Scan.stringRun.eq_def, Scan.stringRun.eq_def]
          simp [hnext, hbrace.mpr hnext]
        · have hnext' : ¬ (c = '#' ∧ (text ++ B').head? = some '{') := by rwa [hbrace]
          rw [not_and] at hnext hnext'
          rw [stringRun_cons hquote hslash hnext] at hin ⊢
          rw [stringRun_cons hquote hslash hnext']
          obtain ⟨hrun, hquoted⟩ := ih text.length (by omega) rfl (by omega)
          rw [hrun, hquoted]
          exact ⟨rfl, rfl⟩

end TwigToLatte.Lexer
