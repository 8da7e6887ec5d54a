import TwigToLatte.Proofs.Lexer.Nesting

/-!
# Where tokens stand

No character of a template is lost or claimed twice: the spans of the tokens are disjoint and in
order, and what lies between them are blanks and quotes inside tags.

* `Text.lineAt`, `Text.columnAt` — the line and the column of an offset, counted from the text.
* `Cursor.At` — a position in a text with the right offset, line and column.
* `PlacedIn` — a token with the right span.
* `InsideTag` — an offset between the tokens that open and close one tag.
* `Covers` — tokens that account for every character of a text.

Principal results: `Scan.Placed.effect`, one step keeps every token in its place, and
`tokenize_covers`, the tokens of a template cover it.
-/

namespace TwigToLatte

open List

open Text Pattern

/-! ## Lines and columns -/

namespace Text

/-- The line of an offset: one more than the line feeds before it. -/
def lineAt (text : List Char) (offset : Nat) : Nat := 1 + (text.take offset).count '\n'

/-- The column of an offset: one more than the characters since the last line feed before it. -/
def columnAt (text : List Char) (offset : Nat) : Nat :=
  1 + ((text.take offset).reverse.takeWhile (· != '\n')).length

end Text

namespace Cursor

/-- A cursor that has read a text up to its offset. -/
structure At (text : List Char) (cursor : Cursor) : Prop where
  offset_le : cursor.offset ≤ text.length
  rest_eq : cursor.rest = text.drop cursor.offset
  line_eq : cursor.line = lineAt text cursor.offset
  column_eq : cursor.column = columnAt text cursor.offset

theorem at_start (text : String) : (start text).At text.toList where
  offset_le := Nat.zero_le _
  rest_eq := rfl
  line_eq := rfl
  column_eq := rfl

variable {text : List Char} {cursor : Cursor}

theorem At.step (h : cursor.At text) : cursor.step.At text := by
  unfold Cursor.step
  split
  · exact h
  · rename_i c rest hrest
    have hdrop : text.drop cursor.offset = c :: rest := by rw [← h.rest_eq, hrest]
    have hlt : cursor.offset < text.length := by
      have := congrArg List.length hdrop
      rw [length_drop, length_cons] at this
      omega
    have htake : text.take (cursor.offset + 1) = text.take cursor.offset ++ [c] := by
      rw [take_add, hdrop]
      rfl
    have hrest' : rest = text.drop (cursor.offset + 1) := by
      rw [← drop_drop, hdrop, drop_one, tail_cons]
    split
    · rename_i hc
      refine ⟨hlt, hrest', ?_, ?_⟩
      · simp [lineAt, htake, hc, h.line_eq, Nat.add_assoc]
      · simp [columnAt, htake, hc]
    · rename_i hc
      refine ⟨hlt, hrest', ?_, ?_⟩
      · simp [lineAt, htake, hc, h.line_eq]
      · simp [columnAt, htake, hc, h.column_eq, Nat.add_assoc]

theorem At.advance (h : cursor.At text) (n : Nat) : (cursor.advance n).At text := by
  induction n generalizing cursor with
  | zero => exact h
  | succ n ih => exact ih h.step

theorem offset_step (cursor : Cursor) :
    cursor.step.offset = cursor.offset + min 1 cursor.rest.length := by
  unfold step
  split
  · rename_i hrest
    simp [hrest]
  · rename_i hrest
    split <;> simp [hrest]

theorem offset_advance (n : Nat) (cursor : Cursor) :
    (cursor.advance n).offset = cursor.offset + min n cursor.rest.length := by
  induction n generalizing cursor with
  | zero => simp [advance]
  | succ n ih =>
    rw [advance, ih, offset_step, rest_step, length_tail]
    omega

end Cursor

/-! ## Single tokens -/

namespace Lexer

/-- A token whose span holds it: some characters of the text, with the right line and column. Of
literal text the value is those characters, and no tag opens in it. -/
structure PlacedIn (text : List Char) (token : Token) : Prop where
  start_lt : token.span.start < token.span.stop
  stop_le : token.span.stop ≤ text.length
  line_eq : token.span.line = lineAt text token.span.start
  column_eq : token.span.column = columnAt text token.span.start
  text_eq : ∀ value, token.kind = .text value →
    value.toList = (text.take token.span.stop).drop token.span.start
  text_open : ∀ value, token.kind = .text value →
    ∀ c, isDelimiter c = true → ¬ ['{', c] <:+: value.toList

theorem not_infix_take_textLength {c : Char} (hc : isDelimiter c = true) :
    ∀ text : List Char, ¬ ['{', c] <:+: text.take (textLength text)
  | [] => by simp [textLength]
  | d :: text => by
    unfold textLength
    split
    · simp
    · rename_i hopen
      rw [take_succ_cons, infix_cons_iff]
      rintro (hpre | hinfix)
      · -- A delimiter at the very start would have ended the text there.
        rw [cons_prefix_cons] at hpre
        obtain ⟨rfl, hpre⟩ := hpre
        obtain ⟨more, hmore⟩ := hpre.trans ( take_prefix _ _)
        rw [← hmore] at hopen
        simp [hc] at hopen
      · exact not_infix_take_textLength hc text hinfix

/-! ## Offsets inside tags -/

/-- The last tag among the tokens is `tag`, opened by `opener` and not closed. -/
def OpenTag (tag : Mode) (tokens : List Token) (opener : Token) : Prop :=
  ∃ before inside, tokens = before ++ opener :: inside ∧
    (∃ closer, Delimits tag opener.kind closer) ∧
    ∀ token ∈ inside, isExpressionToken token.kind = true

/-- The offset lies strictly inside a tag: behind the token that opens it and before the token that
closes it, with only tokens of an expression between the two. -/
def InsideTag (tokens : List Token) (i : Nat) : Prop :=
  ∃ before opener inside closer after, tokens = before ++ opener :: (inside ++ closer :: after) ∧
    (∃ tag, Delimits tag opener.kind closer.kind) ∧
    (∀ token ∈ inside, isExpressionToken token.kind = true) ∧
    opener.span.stop ≤ i ∧ i < closer.span.start

/-- The offset lies inside a closed tag, or inside the tag that is being read. -/
def Enclosed (modes : List Mode) (tokens : List Token) (i : Nat) : Prop :=
  InsideTag tokens i ∨
    ∃ tag opener, modes.getLast? = some tag ∧ OpenTag tag tokens opener ∧ opener.span.stop ≤ i

variable {tokens : List Token} {i : Nat} {modes : List Mode} {brackets : List Bracket}

theorem InsideTag.append (h : InsideTag tokens i) (more : List Token) :
    InsideTag (tokens ++ more) i := by
  obtain ⟨before, opener, inside, closer, after, rfl, hd, hinside, hstop, hstart⟩ := h
  exact ⟨before, opener, inside, closer, after ++ more, by simp, hd, hinside, hstop, hstart⟩

/-- The tag that the invariant of the lexer speaks of. -/
theorem Shape.openTag (hs : Shape modes brackets (tokens.map (·.kind))) (hm : modes ≠ []) :
    ∃ tag opener, modes.getLast? = some tag ∧ OpenTag tag tokens opener := by
  generalize hkinds : tokens.map (·.kind) = kinds at hs
  cases hs with
  | literal => exact absurd rfl hm
  | tag hd hbefore hp =>
    obtain ⟨before, more, rfl, _, hmore⟩ := map_eq_append_iff.mp hkinds
    obtain ⟨opener, inside, rfl, rfl, rfl⟩ := map_eq_cons_iff.mp hmore
    refine ⟨_, opener, hp.getLast?_modes, before, inside, rfl, ⟨_, hd⟩, ?_⟩
    intro token ht
    exact hp.isExpressionToken _ (mem_map_of_mem ht)

/-- A turn keeps an offset enclosed if the token that it makes stands behind the offset. -/
theorem Enclosed.turn {modes' : List Mode} {brackets' : List Bracket} {made : Option Token.Kind}
    {more : List Token} (h : Enclosed modes tokens i)
    (hs : Shape modes brackets (tokens.map (·.kind)))
    (ht : Turn modes brackets made modes' brackets') (hmore : more.map (·.kind) = made.toList)
    (hi : ∀ token ∈ more, i < token.span.start) : Enclosed modes' (tokens ++ more) i := by
  rcases h with h | ⟨tag, opener, hlast, ⟨before, inside, rfl, ⟨closer, hd⟩, hinside⟩, hstop⟩
  · exact .inl (h.append more)
  · generalize hkinds : (before ++ opener :: inside).map (·.kind) = kinds at hs
    cases hs with
    | literal => cases hlast
    | tag hd' _ hp =>
      have htag := hp.getLast?_modes
      rw [hlast] at htag
      obtain rfl := Option.some.inj htag
      obtain ⟨rfl, rfl⟩ := hd'.unique hd
      rcases hp.turn hd' ht with hp' | ⟨rfl, rfl, rfl, _⟩
      · -- The tag stays open, and a token that the turn makes belongs to its expression.
        refine .inr ⟨tag, opener, hp'.getLast?_modes, ?_, hstop⟩
        refine ⟨before, inside ++ more, by simp, ⟨_, hd⟩, ?_⟩
        intro token htoken
        rcases mem_append.mp htoken with htoken | htoken
        · exact hinside token htoken
        · apply hp'.isExpressionToken
          rw [← hmore]
          exact mem_append_right _ (mem_map_of_mem htoken)
      · -- The token that the turn makes closes the tag.
        obtain ⟨last, rest, rfl, hkind, hrest⟩ := map_eq_cons_iff.mp hmore
        obtain rfl := map_eq_nil_iff.mp hrest
        left
        refine ⟨before, opener, inside, last, [], by simp, ⟨tag, ?_⟩, hinside, hstop, hi last ?_⟩
        · rw [hkind]
          exact hd
        · exact mem_singleton.mpr rfl

/-! ## The invariant of the lexer -/

/-- The offset lies in no span. -/
def Uncovered (tokens : List Token) (i : Nat) : Prop :=
  ∀ token ∈ tokens, ¬(token.span.start ≤ i ∧ i < token.span.stop)

namespace Scan

/-- Every token so far is in its place, and what is not covered may be left out. -/
structure Placed (text : List Char) (scan : Scan) : Prop where
  cursor : scan.cursor.At text
  shaped : scan.WellShaped
  tokens : ∀ token ∈ scan.tokens.toList, PlacedIn text token
  before : ∀ token ∈ scan.tokens.toList, token.span.stop ≤ scan.cursor.offset
  ordered : scan.tokens.toList.Pairwise fun a b => a.span.stop ≤ b.span.start
  gaps : ∀ i c, text[i]? = some c → i < scan.cursor.offset → Uncovered scan.tokens.toList i →
    isGap c = true ∧ Enclosed scan.modes scan.tokens.toList i

theorem placed_start (text : String) :
    ({ cursor := Cursor.start text } : Scan).Placed text.toList where
  cursor := Cursor.at_start text
  shaped := wellShaped_start text
  tokens := fun _ h => by cases h
  before := fun _ h => by cases h
  ordered := .nil
  gaps := fun _ _ _ h => absurd h (Nat.not_lt_zero _)

variable {text : List Char} {scan : Scan} {n : Nat}

/-- Characters skipped inside a tag are gaps of that tag. -/
theorem Placed.gaps_skip (h : scan.Placed text) (hm : n = 0 ∨ scan.modes ≠ [])
    (hgap : ∀ c ∈ scan.rest.take n, isGap c = true) {i : Nat} {c : Char} (hc : text[i]? = some c)
    (hi : i < (scan.cursor.advance n).offset) (hu : Uncovered scan.tokens.toList i) :
    isGap c = true ∧ Enclosed scan.modes scan.tokens.toList i := by
  rw [Cursor.offset_advance] at hi
  by_cases hold : i < scan.cursor.offset
  · exact h.gaps i c hc hold hu
  · have hne : scan.modes ≠ [] := by
      rcases hm with rfl | hm
      · omega
      · exact hm
    constructor
    · apply hgap
      have hat : (scan.rest.take n)[i - scan.cursor.offset]? = some c := by
        rw [rest, h.cursor.rest_eq, getElem?_take_of_lt (by omega), getElem?_drop,
          Nat.add_sub_cancel' (by omega), hc]
      exact mem_of_getElem? hat
    · obtain ⟨tag, opener, hlast, hopen⟩ := Shape.openTag h.shaped hne
      have hmem : opener ∈ scan.tokens.toList := by
        obtain ⟨before, inside, heq, _⟩ := hopen
        simp [heq]
      have hstop := h.before opener hmem
      exact .inr ⟨tag, opener, hlast, hopen, by omega⟩

/-- The token that is read after skipping `k` characters. -/
theorem Placed.placedIn (h : scan.Placed text) {k : Nat} {kind : Token.Kind} (hn : 0 < n)
    (hrest : (scan.skip k).rest ≠ []) (htext : ∀ value, kind = .text value →
      k = 0 ∧ n = textLength scan.rest ∧ value = String.ofList (scan.rest.take n)) :
    PlacedIn text
      ⟨kind, ⟨(scan.skip k).cursor.offset, ((scan.skip k).cursor.advance n).offset,
        (scan.skip k).cursor.line, (scan.skip k).cursor.column⟩⟩ := by
  have hat : (scan.skip k).cursor.At text := h.cursor.advance k
  have hlen := length_pos_iff.mpr hrest
  refine ⟨?_, (hat.advance n).offset_le, hat.line_eq, hat.column_eq, ?_, ?_⟩
  · simp only [Cursor.offset_advance]
    unfold rest at hlen
    omega
  · intro value hv
    obtain ⟨rfl, _, rfl⟩ := htext value hv
    simp only [skip_zero, Cursor.offset_advance, String.toList_ofList, rest]
    rw [drop_take, Nat.add_sub_cancel_left, ← h.cursor.rest_eq, ← take_eq_take_min]
  · intro value hv c hc
    obtain ⟨_, hlength, rfl⟩ := htext value hv
    rw [String.toList_ofList, hlength]
    exact not_infix_take_textLength hc _

/-- **One step keeps every token in its place.** -/
theorem Placed.effect {next : Scan} (h : scan.Placed text) (he : Effect scan next) :
    next.Placed text := by
  have hshaped := Effect.wellShaped h.shaped he
  obtain ⟨made, hturn, hmove⟩ := he
  cases hmove with
  | @skip n _ hm hn gap cursor tokens =>
    refine ⟨?_, hshaped, ?_, ?_, ?_, ?_⟩
    · rw [cursor]
      exact h.cursor.advance n
    · rw [tokens]
      exact h.tokens
    · rw [tokens, cursor]
      intro token ht
      have := h.before token ht
      simp only [skip, Cursor.offset_advance]
      omega
    · rw [tokens]
      exact h.ordered
    · intro i c hc hi hu
      rw [cursor] at hi
      rw [tokens] at hu ⊢
      obtain ⟨hgap, henclosed⟩ := h.gaps_skip (.inr hm) gap hc hi hu
      refine ⟨hgap, ?_⟩
      have hturned : Enclosed next.modes (scan.tokens.toList ++ []) i :=
        henclosed.turn h.shaped hturn rfl (fun _ ht => by cases ht)
      rwa [append_nil] at hturned
  | @take k n kind _ hm hn hrest gap htext cursor tokens =>
    have hplaced := h.placedIn hn hrest htext
    have htokens : next.tokens.toList = scan.tokens.toList ++
        [⟨kind, ⟨(scan.skip k).cursor.offset, ((scan.skip k).cursor.advance n).offset,
          (scan.skip k).cursor.line, (scan.skip k).cursor.column⟩⟩] := by
      rw [tokens]
      simp [take, skip]
    have hstart : scan.cursor.offset ≤ (scan.skip k).cursor.offset := by
      simp only [skip, Cursor.offset_advance]
      omega
    have hstop : next.cursor.offset = ((scan.skip k).cursor.advance n).offset := by
      rw [cursor]
      rfl
    refine ⟨?_, hshaped, ?_, ?_, ?_, ?_⟩
    · rw [cursor]
      exact (h.cursor.advance k).advance n
    · intro token ht
      rw [htokens, mem_append, mem_singleton] at ht
      rcases ht with ht | rfl
      · exact h.tokens token ht
      · exact hplaced
    · intro token ht
      rw [htokens, mem_append, mem_singleton] at ht
      rw [hstop]
      rcases ht with ht | rfl
      · have := h.before token ht
        simp only [Cursor.offset_advance]
        omega
      · exact Nat.le_refl _
    · rw [htokens, pairwise_append]
      refine ⟨h.ordered, pairwise_singleton _ _, ?_⟩
      intro a ha b hb
      rw [mem_singleton] at hb
      subst hb
      exact Nat.le_trans (h.before a ha) hstart
    · intro i c hc hi hu
      rw [htokens] at hu ⊢
      -- Outside the span of the new token the offset lies before it.
      have hnew := hu _ (mem_append_right _ (mem_singleton.mpr rfl))
      have hlt : i < (scan.skip k).cursor.offset := by
        rw [hstop] at hi
        simp only at hnew
        omega
      obtain ⟨hgap, henclosed⟩ :=
        h.gaps_skip hm gap hc hlt (fun token ht => hu token (mem_append_left _ ht))
      refine ⟨hgap, henclosed.turn h.shaped hturn rfl ?_⟩
      intro token ht
      rw [mem_singleton] at ht
      subst ht
      exact hlt

end Scan

/-! ## Whole templates -/

/-- The tokens account for the text: their spans are in order and disjoint, lie within the text and
hold what their tokens say; only the end of the template is empty, at the end of the text; and a
character in no span is a blank or a double quote strictly inside a tag. -/
structure Covers (text : List Char) (tokens : List Token) : Prop where
  ordered : tokens.Pairwise fun a b => a.span.stop ≤ b.span.start
  stop_le : ∀ token ∈ tokens, token.span.start ≤ token.span.stop ∧ token.span.stop ≤ text.length
  start_lt : ∀ token ∈ tokens, token.kind ≠ .eof → token.span.start < token.span.stop
  eof_last : ∃ token, tokens.getLast? = some token ∧ token.kind = .eof
  eof_at_end : ∀ token ∈ tokens, token.kind = .eof →
    token.span.start = text.length ∧ token.span.stop = text.length
  gap : ∀ i c, text[i]? = some c → Uncovered tokens i →
    (isBlank c = true ∨ c = '"') ∧ InsideTag tokens i
  text_eq : ∀ token ∈ tokens, ∀ value, token.kind = .text value →
    value.toList = (text.take token.span.stop).drop token.span.start
  text_open : ∀ token ∈ tokens, ∀ value, token.kind = .text value →
    ∀ c, isDelimiter c = true → ¬ ['{', c] <:+: value.toList
  line_eq : ∀ token ∈ tokens, token.span.line = lineAt text token.span.start
  column_eq : ∀ token ∈ tokens, token.span.column = columnAt text token.span.start

/-- The token that marks the end of the template. -/
def Scan.endToken (scan : Scan) : Token :=
  ⟨.eof, ⟨scan.cursor.offset, scan.cursor.offset, scan.cursor.line, scan.cursor.column⟩⟩

theorem Scan.tokens_take_eof (scan : Scan) :
    (scan.take 0 .eof).tokens.toList = scan.tokens.toList ++ [scan.endToken] := by
  simp [take, endToken, Cursor.advance]

/-- Outside tags, a run that has read the whole text covers it once its end is marked. -/
theorem Scan.Placed.covers {text : List Char} {scan : Scan} (h : scan.Placed text)
    (hrest : scan.rest = []) (hm : scan.modes = []) :
    Covers text (scan.take 0 .eof).tokens.toList := by
  have hend : scan.cursor.offset = text.length := by
    have hle := h.cursor.offset_le
    have hdrop : text.drop scan.cursor.offset = [] := by rw [← h.cursor.rest_eq]; exact hrest
    have hge := drop_eq_nil_iff.mp hdrop
    omega
  have heof : ∀ token ∈ scan.tokens.toList, token.kind ≠ .eof := by
    intro token ht hk
    have hmem : Token.Kind.eof ∈ scan.kinds := by
      rw [← hk]
      exact mem_map_of_mem ht
    exact (h.shaped.items hm).eof_notMem hmem
  rw [Scan.tokens_take_eof]
  -- Every statement about tokens splits into those of the run and the end of the template.
  have hsplit : ∀ {P : Token → Prop}, (∀ token ∈ scan.tokens.toList, P token) →
      P scan.endToken → ∀ token ∈ scan.tokens.toList ++ [scan.endToken], P token :=
    fun hold hnew => forall_mem_append.mpr ⟨hold, forall_mem_singleton.mpr hnew⟩
  refine ⟨?_, ?_, ?_, ?_, ?_, ?_, ?_, ?_, ?_, ?_⟩
  · rw [pairwise_append]
    refine ⟨h.ordered, pairwise_singleton _ _, ?_⟩
    intro a ha b hb
    rw [mem_singleton] at hb
    subst hb
    exact h.before a ha
  · refine hsplit (fun token ht => ?_) ⟨Nat.le_refl _, h.cursor.offset_le⟩
    exact ⟨Nat.le_of_lt (h.tokens token ht).start_lt, (h.tokens token ht).stop_le⟩
  · exact hsplit (fun token ht _ => (h.tokens token ht).start_lt) (fun hk => absurd rfl hk)
  · exact ⟨_, getLast?_concat .., rfl⟩
  · exact hsplit (fun token ht hk => absurd hk (heof token ht)) (fun _ => ⟨hend, hend⟩)
  · intro i c hc hu
    have hi : i < scan.cursor.offset := by
      rw [hend]
      exact (List.getElem?_eq_some_iff.mp hc).1
    obtain ⟨hgap, henclosed⟩ :=
      h.gaps i c hc hi (fun token ht => hu token (mem_append_left _ ht))
    rw [hm] at henclosed
    rcases henclosed with hinside | ⟨_, _, hlast, _⟩
    · exact ⟨by simpa [isGap] using hgap, hinside.append _⟩
    · cases hlast
  · exact hsplit (fun token ht => (h.tokens token ht).text_eq) (fun _ hk => by cases hk)
  · exact hsplit (fun token ht => (h.tokens token ht).text_open) (fun _ hk => by cases hk)
  · exact hsplit (fun token ht => (h.tokens token ht).line_eq) h.cursor.line_eq
  · exact hsplit (fun token ht => (h.tokens token ht).column_eq) h.cursor.column_eq

/-- **The tokens of a template cover it**: no character is lost or claimed twice, and all positions
are right. -/
theorem tokenize_covers {text : String} {symbols : List String} {tokens : Array Token}
    (h : tokenize text symbols = .ok tokens) : Covers text.toList tokens.toList := by
  obtain ⟨last, hrun, hrest, hm, rfl⟩ := tokenize_eq_ok h
  have hplaced : last.Placed text.toList :=
    Scan.run_preserves (orderSymbols_ne_nil symbols) (fun _ _ => Scan.Placed.effect)
      (Scan.placed_start text) hrun
  exact hplaced.covers hrest hm

/-- Two lines, trim markers, blanks and a string with an interpolation. -/
theorem tokenize_covers_lines :
    ∃ tokens, tokenize "a\nb\x7b\x7b- \"c#\x7b d \x7d\" ~\x7d\x7d\n" ["~"] = .ok tokens ∧
      Covers "a\nb\x7b\x7b- \"c#\x7b d \x7d\" ~\x7d\x7d\n".toList tokens.toList := by
  have hok : (tokenize "a\nb\x7b\x7b- \"c#\x7b d \x7d\" ~\x7d\x7d\n" ["~"]).isOk = true := by
    decide +kernel
  cases h : tokenize "a\nb\x7b\x7b- \"c#\x7b d \x7d\" ~\x7d\x7d\n" ["~"] with
  | error fault => rw [h] at hok; cases hok
  | ok tokens => exact ⟨tokens, rfl, tokenize_covers h⟩

end Lexer

end TwigToLatte
