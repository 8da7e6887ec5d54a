import TwigToLatte.Proofs.Lexer.Displaced
import TwigToLatte.Proofs.Lexer.DoubleQuoted
import TwigToLatte.Proofs.Lexer.Grafting

/-!
# Trim markers leave the tokens as they are

A trim marker is part of a delimiter, and tokens do not say whether a delimiter has one. A marker
that is added to a tag only moves what follows.

* `insertAt`, `MarkerSpot` — a text with one more character, and the places at which a tag takes one
  more marker.
* `Scan.corresponds_opening`, `Scan.corresponds_verbatim`, `Scan.corresponds_closing` — the step
  over the marker and the step without it correspond.
* `Scan.exists_opening` — a step inside a tag comes after the one that opens the tag.
* `Scan.step_into_tag` — that one does not depend on how the tag is closed.

Principal result: `tokenize_insert_marker`.
-/

namespace TwigToLatte

open List

open Text Pattern

/-! ## Positions on both sides of a marker -/

namespace Cursor

variable {cursor : Cursor} {m : Char} {after : List Char}

theorem displaced_opening {d : Char} (hrest : cursor.rest = '{' :: d :: after)
    (hd : d = '{' ∨ d = '%') (hm : isMarker m = true) :
    (cursor.advance 2).Displaced ((cursor.onText ('{' :: d :: m :: after)).advance 3) := by
  obtain ⟨rest, previous, offset, line, column⟩ := cursor
  obtain rfl : rest = '{' :: d :: after := hrest
  rcases hd with rfl | rfl <;> rcases eq_of_isMarker hm with rfl | rfl <;> exact ⟨rfl, rfl, rfl⟩

theorem displaced_closing {c : Char} (hrest : cursor.rest = c :: '}' :: after)
    (hc : c = '%' ∨ c = '}') (hm : isMarker m = true) :
    (cursor.advance 2).Displaced ((cursor.onText (m :: c :: '}' :: after)).advance 3) := by
  obtain ⟨rest, previous, offset, line, column⟩ := cursor
  obtain rfl : rest = c :: '}' :: after := hrest
  rcases hc with rfl | rfl <;> rcases eq_of_isMarker hm with rfl | rfl <;> exact ⟨rfl, rfl, rfl⟩

theorem displaced_append {ahead B B' : List Char} {j k : Nat} (hrest : cursor.rest = ahead ++ B)
    (h : ((cursor.advance ahead.length).advance j).Displaced
      (((cursor.advance ahead.length).onText B').advance k)) :
    (cursor.advance (ahead.length + j)).Displaced
      ((cursor.onText (ahead ++ B')).advance (ahead.length + k)) := by
  have hcursor := advance_onText hrest (Nat.le_refl _) B'
  rw [drop_length, nil_append] at hcursor
  rw [advance_add, advance_add, hcursor]
  exact h

end Cursor

namespace Lexer

variable {symbols : List (List Char)}

namespace Scan

variable {scan opened : Scan} {text body name : List Char} {n : Nat}

theorem Displaced.of_advance {j k : Nat}
    (h : (scan.cursor.advance j).Displaced ((scan.onText text).cursor.advance k)) (n : Nat)
    (kind : Token.Kind) :
    (scan.take (j + n) kind).Displaced ((scan.onText text).take (k + n) kind) where
  cursor := by
    have hadvance := h.advance n
    rw [← Cursor.advance_add, ← Cursor.advance_add] at hadvance
    exact hadvance
  modes_eq := rfl
  brackets_eq := rfl
  tagLine_eq := rfl
  kinds_eq := by rw [kinds_take, kinds_take]; rfl

/-! ## Steps over a marker -/

theorem step_block (hmodes : scan.modes = []) (hrest : scan.rest = '{' :: '%' :: body)
    (h : namedTag? "verbatim".toList scan.rest = none) :
    scan.step symbols = .ok (scan.openTag .blockStart .block) := by
  unfold step stepText
  simp only [hmodes]
  rw [hrest] at h ⊢
  simp only [h]
  rfl

theorem step_print (hmodes : scan.modes = []) (hrest : scan.rest = '{' :: '{' :: body) :
    scan.step symbols = .ok (scan.openTag .varStart .variable) := by
  unfold step stepText
  simp only [hmodes]
  rw [hrest]
  rfl

theorem cons_of_namedTag? (h : namedTag? name text = some n) :
    ∃ body, text = '{' :: '%' :: body := by
  cases text with
  | nil => cases h
  | cons c text =>
    by_cases hopen : (c == '{' && text.head? == some '%') = true
    · simp only [Bool.and_eq_true, beq_iff_eq] at hopen
      obtain ⟨rfl, hhead⟩ := hopen
      obtain ⟨body, rfl⟩ := head?_eq_some_iff.mp hhead
      exact ⟨body, rfl⟩
    · rw [namedTag?_eq_none hopen] at h
      cases h

theorem two_le_of_namedTag? (h : namedTag? name text = some n) : 2 ≤ n := by
  obtain ⟨body, rfl⟩ := cons_of_namedTag? h
  rw [namedTag?_open] at h
  obtain ⟨k, -, rfl⟩ := Option.map_eq_some_iff.mp h
  omega

theorem step_verbatim {opened : Nat} (hmodes : scan.modes = [])
    (h : namedTag? "verbatim".toList scan.rest = some opened) :
    scan.step symbols = scan.stepVerbatim opened := by
  obtain ⟨body, hrest⟩ := cons_of_namedTag? h
  unfold step stepText
  simp only [hmodes]
  rw [hrest] at h ⊢
  simp only [h]
  rfl

section

variable {scan : Scan} {m : Char} {after : List Char} (hmodes : scan.modes = [])
  (hafter : marker after = 0) (hm : isMarker m = true)

include hafter hm

variable {d : Char}

theorem displaced_openTag (hrest : scan.rest = '{' :: d :: after) (hd : d = '{' ∨ d = '%')
    (kind : Token.Kind) (mode : Mode) :
    (scan.openTag kind mode).Displaced
      ((scan.onText ('{' :: d :: m :: after)).openTag kind mode) := by
  have hmarked : marker (m :: after) = 1 := by simp [marker, hm]
  have htaken := Displaced.of_advance (Cursor.displaced_opening hrest hd hm) 0 kind
  unfold openTag
  simp only [rest_onText, hrest, drop_succ_cons, drop_zero, hafter, hmarked]
  exact ⟨htaken.cursor, rfl, htaken.brackets_eq, rfl, htaken.kinds_eq⟩

include hmodes

/-- **A tag is opened** with a marker and without. -/
theorem corresponds_opening (hrest : scan.rest = '{' :: d :: after) (hd : d = '{' ∨ d = '%') :
    Corresponds (scan.step symbols) ((scan.onText ('{' :: d :: m :: after)).step symbols) := by
  have hmodes' : (scan.onText ('{' :: d :: m :: after)).modes = [] := hmodes
  have hopen := displaced_openTag hafter hm hrest hd
  rcases hd with rfl | rfl
  · rw [step_print hmodes hrest, step_print hmodes' rfl]
    exact .ok (hopen _ _)
  · have htag' := namedTag?_mark "verbatim".toList hm hafter
    cases htag : namedTag? "verbatim".toList ('{' :: '%' :: after) with
    | none =>
      rw [htag] at htag'
      rw [step_block hmodes hrest (hrest ▸ htag), step_block hmodes' rfl htag']
      exact .ok (hopen _ _)
    | some opened =>
      rw [htag] at htag'
      rw [step_verbatim hmodes (hrest ▸ htag), step_verbatim hmodes' htag']
      obtain ⟨k, rfl⟩ := Nat.exists_eq_add_of_le (two_le_of_namedTag? htag)
      have hcontent : ('{' :: '%' :: after).drop (2 + k) = after.drop k := by
        rw [Nat.add_comm, drop_succ_cons, drop_succ_cons]
      have hcontent' : ('{' :: '%' :: m :: after).drop (2 + k + 1) = after.drop k := by
        rw [drop_succ_cons, Nat.add_comm, drop_succ_cons, drop_succ_cons]
      unfold stepVerbatim
      simp only [rest_onText, hrest, hcontent, hcontent']
      cases verbatimEnd? (after.drop k) with
      | none => exact .error _
      | some found =>
        have htaken := Displaced.of_advance (Cursor.displaced_opening hrest (.inr rfl) hm)
          (k + found.1 + found.2) (.verbatim (String.ofList ((after.drop k).take found.1)))
        rw [← Nat.add_assoc, ← Nat.add_assoc, ← Nat.add_assoc, ← Nat.add_assoc] at htaken
        rw [Nat.add_right_comm 2 k 1]
        exact .ok htaken

/-- **A verbatim region is read** whether the tag that ends it has a marker or not. -/
theorem corresponds_verbatim {opened length closed : Nat}
    (htag : namedTag? "verbatim".toList scan.rest = some opened)
    (hend : verbatimEnd? (scan.rest.drop opened) = some (length, closed)) {ahead : List Char}
    (hrest : scan.rest = ahead ++ '{' :: '%' :: after) (hlength : ahead.length = opened + length) :
    Corresponds (scan.step symbols)
      ((scan.onText (ahead ++ '{' :: '%' :: m :: after)).step symbols) := by
  have hseam : Seam ('{' :: '%' :: after) ('{' :: '%' :: m :: after) :=
    .opening (.inr rfl) _ _
  have hopened : opened ≤ ahead.length := by omega
  have hcontent : (ahead.drop opened).length = length := by
    rw [length_drop]
    omega
  have htag' : namedTag? "verbatim".toList (ahead ++ '{' :: '%' :: m :: after) =
      some opened := by
    obtain ⟨c, ahead, rfl⟩ := exists_cons_of_length_pos (l := ahead)
      (Nat.lt_of_lt_of_le (namedTag?_pos htag) hopened)
    rw [hrest] at htag
    rw [namedTag?_seam (by decide) hseam rfl c (within_some htag hopened), htag]
  have hmodes' : (scan.onText (ahead ++ '{' :: '%' :: m :: after)).modes = [] := hmodes
  rw [step_verbatim hmodes htag, step_verbatim hmodes' htag']
  rw [hrest, drop_append_of_le_length hopened] at hend
  have hclosed := namedTag?_of_verbatimEnd? hend
  rw [← hcontent, drop_left] at hclosed
  obtain ⟨k, rfl⟩ := Nat.exists_eq_add_of_le (two_le_of_namedTag? hclosed)
  have hclosed' := namedTag?_mark "endverbatim".toList hm hafter
  rw [hclosed, Option.map_some] at hclosed'
  have hend' := verbatimEnd?_seam hseam rfl hend (Nat.le_of_eq hcontent.symm)
    (by rw [← hcontent, drop_left]; exact hclosed')
  have hfront : (scan.cursor.advance ahead.length).rest = '{' :: '%' :: after := by
    rw [Cursor.rest_advance, ← rest, hrest, drop_left]
  have htaken := Displaced.of_advance (Cursor.displaced_append hrest
    (Cursor.displaced_opening hfront (.inr rfl) hm)) k
    (.verbatim (String.ofList ((ahead.drop opened).take length)))
  unfold stepVerbatim
  simp only [rest_onText, hrest, drop_append_of_le_length hopened, hend, hend',
    take_append_of_le_length (Nat.le_of_eq hcontent.symm)]
  have hleft : opened + length + (2 + k) = ahead.length + 2 + k := by omega
  have hright : opened + length + (2 + k + 1) = ahead.length + 3 + k := by omega
  rw [hleft, hright]
  exact .ok htaken

end

/-- **A tag is closed** with a marker and without. -/
theorem corresponds_closing {mode : Mode} {outer : List Mode} {c m : Char} {gap after : List Char}
    (hmodes : scan.modes = mode :: outer)
    (hclose : mode = .block ∧ c = '%' ∨ mode = .variable ∧ c = '}')
    (hbrackets : scan.brackets = []) (hgap : ∀ b ∈ gap, isBlank b = true)
    (hrest : scan.rest = gap ++ c :: '}' :: after) (hm : isMarker m = true) :
    Corresponds (scan.step symbols)
      ((scan.onText (gap ++ m :: c :: '}' :: after)).step symbols) := by
  have hc : c = '%' ∨ c = '}' := hclose.imp And.right And.right
  have hmarker : isMarker c = false := by rcases hc with rfl | rfl <;> rfl
  have hend : tagEnd? c (gap ++ c :: '}' :: after) = some (gap.length + 2) := by
    have hblank : isBlank c = false := by rcases hc with rfl | rfl <;> rfl
    unfold tagEnd?
    simp [blanks_append hgap hblank, marker, hmarker, startsWith]
  have hend' : tagEnd? c (gap ++ m :: c :: '}' :: after) = some (gap.length + 3) := by
    have hblank : isBlank m = false := by rcases eq_of_isMarker hm with rfl | rfl <;> rfl
    unfold tagEnd?
    simp [blanks_append hgap hblank, marker, hm, startsWith]
  have hfront : (scan.cursor.advance gap.length).rest = c :: '}' :: after := by
    rw [Cursor.rest_advance, ← rest, hrest, drop_left]
  have htaken := Displaced.of_advance (Cursor.displaced_append hrest
    (Cursor.displaced_closing hfront hc hm)) 0
  have htag : ∀ kind, Corresponds (scan.stepTag symbols c kind)
      ((scan.onText (gap ++ m :: c :: '}' :: after)).stepTag symbols c kind) := by
    intro kind
    have hbrackets' : (scan.onText (gap ++ m :: c :: '}' :: after)).brackets = [] := hbrackets
    unfold stepTag
    rw [hbrackets, hbrackets', rest_onText, hrest, hend, hend']
    exact .ok ((htaken kind).setModes _)
  have hmodes' : (scan.onText (gap ++ m :: c :: '}' :: after)).modes = mode :: outer := hmodes
  unfold step
  rw [hmodes, hmodes']
  rcases hclose with ⟨rfl, rfl⟩ | ⟨rfl, rfl⟩
  · exact htag _
  · exact htag _

/-! ## The way into a tag -/

/-- A step inside a tag. -/
def StepsInside (symbols : List (List Char)) (scan next : Scan) : Prop :=
  scan.modes ≠ [] ∧ scan.rest ≠ [] ∧ scan.step symbols = .ok next

/-- The steps to a state inside a tag open that tag and then stay inside. -/
theorem exists_opening {start : Scan} (h : Reaches symbols start scan) (hstart : start.modes = [])
    (hmodes : scan.modes ≠ []) :
    ∃ outside opened, Reaches symbols start outside ∧ outside.modes = [] ∧ outside.rest ≠ [] ∧
      outside.step symbols = .ok opened ∧ opened.modes ≠ [] ∧
      Relation.ReflTransGen (StepsInside symbols) opened scan := by
  induction h with
  | refl => exact absurd hstart hmodes
  | @tail before scan hbefore hstep ih =>
    by_cases houtside : before.modes = []
    · exact ⟨before, scan, hbefore, houtside, hstep.1, hstep.2, hmodes, .refl⟩
    · obtain ⟨outside, opened, hreaches, hnil, hrest, hopen, hopened, hinside⟩ := ih houtside
      exact ⟨outside, opened, hreaches, hnil, hrest, hopen, hopened, hinside.tail ⟨houtside, hstep⟩⟩

theorem marker_append (h : text ≠ []) (follow : List Char) :
    marker (text ++ follow) = marker text := by
  obtain ⟨c, text, rfl⟩ := exists_cons_of_ne_nil h
  rfl

theorem openTag_of_step (hmodes : scan.modes = []) (hrest : scan.rest ≠ [])
    (h : scan.step symbols = .ok opened) (hopened : opened.modes ≠ []) :
    (∃ body, scan.rest = '{' :: '%' :: body ∧ namedTag? "verbatim".toList scan.rest = none ∧
        opened = scan.openTag .blockStart .block) ∨
      ∃ body, scan.rest = '{' :: '{' :: body ∧ opened = scan.openTag .varStart .variable := by
  have htake : ∀ n kind, opened ≠ scan.take n kind := by
    rintro n kind rfl
    exact hopened hmodes
  have hstep : scan.stepText = .ok opened := by
    unfold step at h
    simpa only [hmodes] using h
  obtain ⟨c, rest, hcons⟩ := exists_cons_of_ne_nil hrest
  by_cases hdelimiter : (c == '{' && rest.head?.any isDelimiter) = true
  · simp only [Bool.and_eq_true, beq_iff_eq, Option.any_eq_true] at hdelimiter
    obtain ⟨rfl, d, hhead, hd⟩ := hdelimiter
    obtain ⟨body, rfl⟩ := head?_eq_some_iff.mp hhead
    simp only [isDelimiter, Bool.or_eq_true, beq_iff_eq] at hd
    rcases hd with (rfl | rfl) | rfl
    · rw [step_print hmodes hcons] at h
      exact .inr ⟨body, hcons, (Except.ok.inj h).symm⟩
    · cases htag : namedTag? "verbatim".toList scan.rest with
      | none =>
        rw [step_block hmodes hcons htag] at h
        exact .inl ⟨body, hcons, rfl, (Except.ok.inj h).symm⟩
      | some n =>
        rw [step_verbatim hmodes htag] at h
        unfold stepVerbatim at h
        simp only at h
        cases hend : verbatimEnd? (scan.rest.drop n) with
        | none =>
          rw [hend] at h
          cases h
        | some found =>
          rw [hend] at h
          exact absurd (Except.ok.inj h).symm (htake _ _)
    · have hcomment : scan.stepText = scan.stepComment := by
        unfold stepText
        rw [hcons]
        rfl
      rw [hcomment] at hstep
      unfold stepComment at hstep
      cases hend : pair? '#' '}' (scan.rest.drop 2) with
      | none =>
        rw [hend] at hstep
        cases hstep
      | some length =>
        rw [hend] at hstep
        exact absurd (Except.ok.inj hstep).symm (htake _ _)
  · have hlength : 0 < textLength scan.rest := by
      rw [hcons, textLength, if_neg hdelimiter]
      exact Nat.succ_pos _
    unfold stepText at hstep
    simp only [if_pos hlength] at hstep
    exact absurd (Except.ok.inj hstep).symm (htake _ _)

theorem delimiter_of_step (hmodes : scan.modes = []) (hrest : scan.rest ≠ [])
    (h : scan.step symbols = .ok opened) (hopened : opened.modes ≠ []) :
    ∃ d body, (d = '{' ∨ d = '%') ∧ scan.rest = '{' :: d :: body ∧ opened.rest <:+ body := by
  have hsuffix : ∀ {d : Char} {body : List Char} kind mode, scan.rest = '{' :: d :: body →
      (scan.openTag kind mode).rest <:+ body := by
    intro d body kind mode hcons
    have hdrop : (scan.openTag kind mode).rest = scan.rest.drop (2 + marker (scan.rest.drop 2)) :=
      rest_take _ kind scan
    rw [hdrop, hcons, Nat.add_comm, drop_succ_cons, drop_succ_cons]
    exact drop_suffix _ _
  rcases openTag_of_step hmodes hrest h hopened with ⟨body, hcons, -, rfl⟩ | ⟨body, hcons, rfl⟩
  · exact ⟨'%', body, .inr rfl, hcons, hsuffix _ _ hcons⟩
  · exact ⟨'{', body, .inl rfl, hcons, hsuffix _ _ hcons⟩

section

variable {B B' : List Char} (h : Seam B B') {scan opened : Scan} {d : Char} {body : List Char}
  (hbody : body ≠ []) (hrest : scan.rest = '{' :: d :: body ++ B)

include hbody hrest

theorem openTag_onText (B' : List Char) (kind : Token.Kind) (mode : Mode) :
    (scan.openTag kind mode).rest = body.drop (marker body) ++ B ∧
      (scan.onText ('{' :: d :: body ++ B')).openTag kind mode =
        (scan.openTag kind mode).onText (body.drop (marker body) ++ B') := by
  have hle : 2 + marker body ≤ ('{' :: d :: body).length := by
    have hone := marker_le_one body
    have hpos := length_pos_iff.mpr hbody
    simp only [length_cons]
    omega
  have hdrop : ('{' :: d :: body).drop (2 + marker body) = body.drop (marker body) := by
    rw [Nat.add_comm, drop_succ_cons, drop_succ_cons]
  have htake := take_onText hrest hle B' kind
  have hmarked : marker (scan.rest.drop 2) = marker body := by
    rw [hrest]
    exact marker_append hbody B
  have hmarked' : marker ((scan.onText ('{' :: d :: body ++ B')).rest.drop 2) = marker body :=
    marker_append hbody B'
  rw [hdrop] at htake
  unfold openTag
  rw [hmarked, hmarked']
  constructor
  · refine (rest_take _ kind scan).trans ?_
    rw [hrest, drop_append_of_le_length hle, hdrop]
  · simp only [htake]
    rfl

include h

/-- **The step into a tag carries over**, if something stands in the tag before the seam. -/
theorem step_into_tag (hmodes : scan.modes = []) (hstep : scan.step symbols = .ok opened)
    (hopened : opened.modes ≠ []) :
    opened.rest = body.drop (marker body) ++ B ∧
      (scan.onText ('{' :: d :: body ++ B')).step symbols =
        .ok (opened.onText (body.drop (marker body) ++ B')) := by
  have hmodes' : (scan.onText ('{' :: d :: body ++ B')).modes = [] := hmodes
  have hopen := openTag_onText hbody hrest B'
  rcases openTag_of_step hmodes (by simp [hrest]) hstep hopened with
    ⟨content, hcons, htag, rfl⟩ | ⟨content, hcons, rfl⟩
  · obtain rfl : d = '%' := (List.cons.inj (List.cons.inj (hrest.symm.trans hcons)).2).1
    rw [hrest] at htag
    have htag' : namedTag? "verbatim".toList ('{' :: '%' :: body ++ B') = none := by
      rw [namedTag?_open_seam (by decide) h (marker_append hbody B) (marker_append hbody B')
        (within_none htag _), htag]
    refine ⟨(hopen _ _).1, ?_⟩
    rw [step_block hmodes' rfl htag', (hopen _ _).2]
  · obtain rfl : d = '{' := (List.cons.inj (List.cons.inj (hrest.symm.trans hcons)).2).1
    refine ⟨(hopen _ _).1, ?_⟩
    rw [step_print hmodes' rfl, (hopen _ _).2]

end

end Scan

/-! ## Templates -/

/-- A text with one more character, `n` characters from its start. -/
def insertAt (n : Nat) (c : Char) (text : String) : String :=
  String.ofList (text.toList.take n ++ c :: text.toList.drop n)

variable {text : String}

theorem toList_insertAt {before after : List Char} (h : text.toList = before ++ after) {n : Nat}
    (hn : n = before.length) (c : Char) : (insertAt n c text).toList = before ++ c :: after := by
  subst hn
  rw [insertAt, String.toList_ofList, h, take_left, drop_left]

/-- The places at which a tag takes one more trim marker. -/
inductive MarkerSpot (symbols : List (List Char)) (text : String) : Nat → Prop
  /-- Right after the delimiter that opens a tag, if no marker follows. -/
  | opening {scan : Scan} {d : Char} {after : List Char}
      (hreaches : Scan.Reaches symbols (Scan.start text) scan) (hmodes : scan.modes = [])
      (hrest : scan.rest = '{' :: d :: after) (hd : d = '{' ∨ d = '%')
      (hafter : marker after = 0) : MarkerSpot symbols text (scan.cursor.offset + 2)
  /-- Right after the delimiter of the tag that ends a verbatim region, if no marker follows. -/
  | endVerbatim {scan : Scan} {opened length closed : Nat} {after : List Char}
      (hreaches : Scan.Reaches symbols (Scan.start text) scan) (hmodes : scan.modes = [])
      (hopened : namedTag? "verbatim".toList scan.rest = some opened)
      (hend : verbatimEnd? (scan.rest.drop opened) = some (length, closed))
      (hrest : scan.rest.drop (opened + length) = '{' :: '%' :: after)
      (hafter : marker after = 0) :
      MarkerSpot symbols text (scan.cursor.offset + (opened + length) + 2)
  /-- Right before the delimiter that closes a tag, if no marker stands there. -/
  | closing {scan : Scan} {mode : Mode} {outer : List Mode} {c : Char} {gap after : List Char}
      (hreaches : Scan.Reaches symbols (Scan.start text) scan) (hmodes : scan.modes = mode :: outer)
      (hclose : mode = .block ∧ c = '%' ∨ mode = .variable ∧ c = '}')
      (hbrackets : scan.brackets = []) (hgap : ∀ b ∈ gap, isBlank b = true)
      (hrest : scan.rest = gap ++ c :: '}' :: after) :
      MarkerSpot symbols text (scan.cursor.offset + gap.length)

theorem Scan.Reaches.text_eq {operators : List String} {scan : Scan}
    (h : Scan.Reaches (orderSymbols operators) (Scan.start text) scan) :
    ∃ before, text.toList = before ++ scan.rest ∧ before.length = scan.cursor.offset := by
  have hplaced := Scan.at_of_reaches (orderSymbols_ne_nil operators) (Scan.placed_start text) h
  refine ⟨text.toList.take scan.cursor.offset, ?_, ?_⟩
  · rw [Scan.rest, hplaced.cursor.rest_eq, take_append_drop]
  · rw [length_take, Nat.min_eq_left hplaced.cursor.offset_le]

section

variable {operators : List String} {text text' : String} {before B B' : List Char}
  (hs : ∀ s ∈ orderSymbols operators, continuesInside s.tail = true)

include hs

variable {scan : Scan} {ahead after : List Char}

/-- A state that a template reaches before the seam, the other template reaches, too. -/
theorem Scan.Reaches.graft (h : Seam B B') (hbrace : B.head? = some '{')
    (htext : text.toList = before ++ B) (htext' : text'.toList = before ++ B')
    (hreaches : Scan.Reaches (orderSymbols operators) (Scan.start text) scan)
    (hrest : scan.rest = ahead ++ B) (hmodes : scan.modes = []) :
    Scan.Reaches (orderSymbols operators) (Scan.start text') (scan.onText (ahead ++ B')) := by
  have hstart : Scan.start text' = (Scan.start text).onText (before ++ B') := by
    rw [← htext']
    rfl
  rw [hstart]
  refine Scan.reaches_onText h (fun s hmem => ⟨orderSymbols_ne_nil operators s hmem, hs s hmem⟩) ?_
    hreaches htext hrest (by simp [hmodes])
  intro scan next hstep
  exact ⟨hstep.1, hstep.2, fun _ => hbrace⟩

variable {m : Char} (hm : isMarker m = true)

include hm

section

variable (hreaches : Scan.Reaches (orderSymbols operators) (Scan.start text) scan)

include hreaches

theorem kindsOf_opening {d : Char}
    (hmodes : scan.modes = []) (hrest : scan.rest = '{' :: d :: after)
    (hd : d = '{' ∨ d = '%') (hafter : marker after = 0)
    (htext : text.toList = before ++ '{' :: d :: after)
    (htext' : text'.toList = before ++ '{' :: d :: m :: after) :
    kindsOf (tokenize text' operators) = kindsOf (tokenize text operators) := by
  have hnil : scan.rest = [] ++ '{' :: d :: after := hrest
  have hreaches' := hreaches.graft hs (.opening hd after (m :: after)) rfl htext htext' hnil hmodes
  exact kindsOf_tokenize_eq hreaches hreaches' (by simp [hrest]) (by simp)
    (Scan.corresponds_opening hmodes hafter hm hrest hd)

theorem kindsOf_verbatim {opened length closed : Nat}
    (hmodes : scan.modes = []) (htag : namedTag? "verbatim".toList scan.rest = some opened)
    (hend : verbatimEnd? (scan.rest.drop opened) = some (length, closed))
    (hrest : scan.rest = ahead ++ '{' :: '%' :: after)
    (hlength : ahead.length = opened + length) (hafter : marker after = 0)
    (htext : text.toList = before ++ '{' :: '%' :: after)
    (htext' : text'.toList = before ++ '{' :: '%' :: m :: after) :
    kindsOf (tokenize text' operators) = kindsOf (tokenize text operators) := by
  have hreaches' :=
    hreaches.graft hs (.opening (.inr rfl) after (m :: after)) rfl htext htext' hrest hmodes
  exact kindsOf_tokenize_eq hreaches hreaches' (by simp [hrest]) (by simp)
    (Scan.corresponds_verbatim hmodes hafter hm htag hend hrest hlength)

theorem kindsOf_closing {mode : Mode} {outer : List Mode} {c : Char} {gap : List Char}
    (hmodes : scan.modes = mode :: outer)
    (hclose : mode = .block ∧ c = '%' ∨ mode = .variable ∧ c = '}')
    (hbrackets : scan.brackets = []) (hgap : ∀ b ∈ gap, isBlank b = true)
    (hrest : scan.rest = gap ++ c :: '}' :: after)
    (htext : text.toList = before ++ c :: '}' :: after)
    (htext' : text'.toList = before ++ m :: c :: '}' :: after) :
    kindsOf (tokenize text' operators) = kindsOf (tokenize text operators) := by
  have hs' : ∀ s ∈ orderSymbols operators, s ≠ [] ∧ continuesInside s.tail = true :=
    fun s hmem => ⟨orderSymbols_ne_nil operators s hmem, hs s hmem⟩
  have hc : c = '}' ∨ c = '%' := hclose.symm.imp And.right And.right
  have hseam : Seam (c :: '}' :: after) (m :: c :: '}' :: after) := .closing hc hm after
  obtain ⟨outside, opened, hbefore, houtside, hne, hstep, hopened, hinside⟩ :=
    Scan.exists_opening hreaches rfl (by simp [hmodes])
  have hsteps : Scan.Reaches (orderSymbols operators) opened scan :=
    hinside.lift id fun _ _ hstep => hstep.2
  obtain ⟨d, body, hd, hcons, hsuffix⟩ := Scan.delimiter_of_step houtside hne hstep hopened
  obtain ⟨front, hfront⟩ : ∃ front, body = front ++ c :: '}' :: after := by
    obtain ⟨ahead, hahead⟩ :=
      Scan.exists_append_of_reaches (orderSymbols_ne_nil operators) hsteps hrest
    obtain ⟨read, hread⟩ := hsuffix
    exact ⟨read ++ ahead, by rw [← hread, hahead, List.append_assoc]⟩
  subst hfront
  obtain ⟨start, hstart, -⟩ := hbefore.text_eq
  rw [hcons] at hstart
  have hcancel : before ++ c :: '}' :: after =
      (start ++ '{' :: d :: front) ++ c :: '}' :: after := by
    rw [← htext, hstart]
    simp
  obtain rfl := append_cancel_right hcancel
  rw [List.append_assoc] at htext htext'
  by_cases hempty : front = []
  · -- The tag is empty, and the marker stands right after the delimiter that opens it.
    subst hempty
    have hmarker : marker (c :: '}' :: after) = 0 := by rcases hc with rfl | rfl <;> rfl
    exact kindsOf_opening hs hm hbefore houtside hcons hd hmarker htext htext'
  · have hnil : outside.rest = [] ++ '{' :: d :: (front ++ c :: '}' :: after) := hcons
    have hgrafted := hbefore.graft hs (.opening hd _ _) rfl htext htext' hnil houtside
    obtain ⟨hopenedRest, hstep'⟩ := Scan.step_into_tag hseam hempty hcons houtside hstep hopened
    have hreaches' := Scan.reaches_onText hseam hs'
      (fun _ _ hstep => ⟨hstep.2.1, hstep.2.2, fun hnil => absurd hnil hstep.1⟩) hinside hopenedRest
      hrest (by rcases hclose with ⟨rfl, -⟩ | ⟨rfl, -⟩ <;> simp [hmodes])
    exact kindsOf_tokenize_eq hreaches ((hgrafted.trans (.single (by simp) hstep')).trans hreaches')
      (by simp [hrest]) (by simp)
      (Scan.corresponds_closing hmodes hclose hbrackets hgap hrest hm)

end

end

/-- **Trim markers leave the tokens as they are.** With the symbols of the core dialect, a template
in which a tag takes one more trim marker has tokens of the same kinds with the same values, or the
same fault on the same line. -/
theorem tokenize_insert_marker {text : String} {n : Nat} {m : Char}
    (hspot : MarkerSpot (orderSymbols Dialect.core.operatorSymbols) text n)
    (hm : isMarker m = true) :
    kindsOf (tokenize (insertAt n m text) Dialect.core.operatorSymbols) =
      kindsOf (tokenize text Dialect.core.operatorSymbols) := by
  have hall : (Dialect.core.operatorSymbols.map String.toList).all
      (continuesInside ·.tail) = true := by decide +kernel
  have hs : ∀ s ∈ orderSymbols Dialect.core.operatorSymbols, continuesInside s.tail = true :=
    fun s hmem => all_eq_true.mp hall s (mem_orderSymbols.mp hmem).1
  cases hspot with
  | @opening scan d after hreaches hmodes hrest hd hafter =>
    obtain ⟨before, htext, hlength⟩ := hreaches.text_eq
    rw [hrest] at htext
    have hsplit : text.toList = (before ++ ['{', d]) ++ after := by rw [htext]; simp
    have htext' := toList_insertAt hsplit (n := scan.cursor.offset + 2) (by simp [hlength]) m
    rw [List.append_assoc] at htext'
    exact kindsOf_opening hs hm hreaches hmodes hrest hd hafter htext htext'
  | @endVerbatim scan opened length closed after hreaches hmodes hopened hend hrest hafter =>
    obtain ⟨before, htext, hlength⟩ := hreaches.text_eq
    have hahead := take_append_drop (opened + length) scan.rest
    have htaken : (scan.rest.take (opened + length)).length = opened + length := by
      have hpos := congrArg List.length hrest
      simp only [length_drop, length_cons] at hpos
      rw [length_take]
      omega
    generalize scan.rest.take (opened + length) = ahead at hahead htaken
    rw [hrest] at hahead
    rw [← hahead, ← List.append_assoc] at htext
    have hsplit : text.toList = (before ++ ahead ++ ['{', '%']) ++ after := by rw [htext]; simp
    have htext' := toList_insertAt hsplit (n := scan.cursor.offset + (opened + length) + 2)
      (by simp [hlength, htaken]; omega) m
    rw [List.append_assoc] at htext'
    exact kindsOf_verbatim hs hm hreaches hmodes hopened hend hahead.symm htaken hafter htext htext'
  | @closing scan mode outer c gap after hreaches hmodes hclose hbrackets hgap hrest =>
    obtain ⟨before, htext, hlength⟩ := hreaches.text_eq
    rw [hrest, ← List.append_assoc] at htext
    have htext' := toList_insertAt htext (n := scan.cursor.offset + gap.length)
      (by simp [hlength]) m
    exact kindsOf_closing hs hm hreaches hmodes hclose hbrackets hgap hrest htext htext'

/-- A marker that might be taken for the sign of an exponent. -/
theorem tokenize_insert_marker_exponent :
    MarkerSpot (orderSymbols Dialect.core.operatorSymbols) "\x7b\x7b 1e\x7d\x7d" 5 ∧
      insertAt 5 '-' "\x7b\x7b 1e\x7d\x7d" = "\x7b\x7b 1e-\x7d\x7d" ∧
      kindsOf (tokenize (insertAt 5 '-' "\x7b\x7b 1e\x7d\x7d") Dialect.core.operatorSymbols) =
        kindsOf (tokenize "\x7b\x7b 1e\x7d\x7d" Dialect.core.operatorSymbols) := by
  have hstate : ((Scan.start "\x7b\x7b 1e\x7d\x7d").run
      (orderSymbols Dialect.core.operatorSymbols) 3).toOption.map
        (fun scan => (scan.modes, scan.brackets, scan.rest, scan.cursor.offset)) =
      some ([.variable], [], ['}', '}'], 5) := by
    rw [orderSymbols_eq]
    decide +kernel
  have hspot : MarkerSpot (orderSymbols Dialect.core.operatorSymbols) "\x7b\x7b 1e\x7d\x7d" 5 := by
    cases hrun : (Scan.start "\x7b\x7b 1e\x7d\x7d").run
        (orderSymbols Dialect.core.operatorSymbols) 3 with
    | error fault =>
      rw [hrun] at hstate
      cases hstate
    | ok scan =>
      rw [hrun] at hstate
      simp only [Except.toOption, Option.map_some, Option.some.injEq, Prod.mk.injEq] at hstate
      obtain ⟨hmodes, hbrackets, hrest, hoffset⟩ := hstate
      rw [← hoffset]
      exact .closing (.of_run hrun) hmodes (.inr ⟨rfl, rfl⟩) hbrackets (forall_mem_nil _) hrest
  exact ⟨hspot, by decide +kernel, tokenize_insert_marker hspot rfl⟩

end Lexer

end TwigToLatte
