import TwigToLatte.Proofs.Lexer.Step

/-!
# The grammar of token sequences

The kinds of the tokens of a template form a word of a grammar: literal tokens and tags, and in each
tag an expression whose brackets and interpolations are balanced and nest in one another.

* `Balanced` — the expressions.
* `Items` — literal tokens and whole tags.
* `Pending` — an expression that is still being read. It ties the stack of regions and the stack of
  brackets to each other and to the tokens that the tag has so far.
* `Shape` — the invariant of the lexer: whole items, then maybe the beginning of a tag.

Principal results: `Shape.turn`, one turn of the stacks preserves the invariant, and
`tokenize_items`, the tokens of a template are items and then its end.
-/

namespace TwigToLatte.Lexer

open List

/-! ## Words -/

/-- Expressions: brackets and interpolations are closed in the order in which they were opened. -/
inductive Balanced : List Token.Kind → Prop
  | nil : Balanced []
  | plain {kind rest} (h : isPlain kind = true) (hrest : Balanced rest) : Balanced (kind :: rest)
  | nested {bracket opener closer inner rest} (h : Bracket.Marks bracket opener closer)
      (hinner : Balanced inner) (hrest : Balanced rest) :
      Balanced (opener :: (inner ++ closer :: rest))

/-- Literal tokens and whole tags. -/
inductive Items : List Token.Kind → Prop
  | nil : Items []
  | literal {kind rest} (h : isLiteral kind = true) (hrest : Items rest) : Items (kind :: rest)
  | tag {mode opener closer inside rest} (h : Delimits mode opener closer)
      (hinside : Balanced inside) (hrest : Items rest) :
      Items (opener :: (inside ++ closer :: rest))

variable {a b : List Token.Kind} {modes' : List Mode} {brackets' : List Bracket}
  {made : Option Token.Kind}

theorem Balanced.append (ha : Balanced a) (hb : Balanced b) : Balanced (a ++ b) := by
  induction ha with
  | nil => exact hb
  | plain h _ ih => exact .plain h ih
  | nested h hinner _ _ ih =>
    rw [cons_append, List.append_assoc, cons_append]
    exact .nested h hinner ih

theorem Items.append (ha : Items a) (hb : Items b) : Items (a ++ b) := by
  induction ha with
  | nil => exact hb
  | literal h _ ih => exact .literal h ih
  | tag h hinside _ ih =>
    rw [cons_append, List.append_assoc, cons_append]
    exact .tag h hinside ih

theorem Balanced.single {kind : Token.Kind} (h : isPlain kind = true) : Balanced [kind] :=
  .plain h .nil

theorem Balanced.enclose {bracket : Bracket} {opener closer : Token.Kind} {inner : List Token.Kind}
    (h : bracket.Marks opener closer) (hinner : Balanced inner) :
    Balanced (opener :: (inner ++ [closer])) :=
  .nested h hinner .nil

theorem Balanced.isExpressionToken {kinds : List Token.Kind} (h : Balanced kinds) :
    ∀ kind ∈ kinds, isExpressionToken kind = true := by
  induction h with
  | nil => intro kind hk; cases hk
  | plain h _ ih =>
    intro kind hk
    rcases mem_cons.mp hk with rfl | hk
    · exact isExpressionToken_of_isPlain h
    · exact ih kind hk
  | nested h _ _ ihinner ihrest =>
    intro kind hk
    simp only [mem_cons, mem_append] at hk
    rcases hk with rfl | hk | rfl | hk
    · exact h.isExpressionToken.1
    · exact ihinner kind hk
    · exact h.isExpressionToken.2
    · exact ihrest kind hk

theorem Items.eof_notMem {kinds : List Token.Kind} (h : Items kinds) : .eof ∉ kinds := by
  induction h with
  | nil => exact not_mem_nil
  | literal h _ ih =>
    intro hk
    rcases mem_cons.mp hk with rfl | hk
    · cases h
    · exact ih hk
  | tag h hinside _ ih =>
    intro hk
    simp only [mem_cons, mem_append] at hk
    rcases hk with hk | hk | hk | hk
    · subst hk; cases h
    · cases hinside.isExpressionToken _ hk
    · subst hk; cases h
    · exact ih hk

/-! ## Expressions that are being read -/

/-- What is read of a tag: `Pending tag modes brackets kinds` holds if the kinds, since the tag was
opened, leave these regions and brackets open. Each open bracket is followed by a balanced rest,
a string is open exactly above its quote, and only an interpolation opens inside a string. -/
inductive Pending (tag : Mode) : List Mode → List Bracket → List Token.Kind → Prop
  | tag {kinds} (h : Balanced kinds) : Pending tag [tag] [] kinds
  | bracket {mode outer brackets kinds bracket opener closer rest}
      (before : Pending tag (mode :: outer) brackets kinds) (hm : mode.isExpression = true)
      (h : Bracket.Marks bracket opener closer) (hb : bracket ≠ .interpolation)
      (hrest : Balanced rest) :
      Pending tag (mode :: outer) (bracket :: brackets) (kinds ++ opener :: rest)
  | quote {mode outer brackets kinds rest} (before : Pending tag (mode :: outer) brackets kinds)
      (hm : mode.isExpression = true) (hrest : Balanced rest) :
      Pending tag (.string :: mode :: outer) (.quote :: brackets) (kinds ++ rest)
  | interpolation {outer brackets kinds rest}
      (before : Pending tag (.string :: outer) brackets kinds) (hrest : Balanced rest) :
      Pending tag (.interpolation :: .string :: outer) (.interpolation :: brackets)
        (kinds ++ .interpolationStart :: rest)

namespace Pending

variable {tag : Mode} {modes outer : List Mode} {brackets : List Bracket} {kinds : List Token.Kind}

theorem append {more : List Token.Kind} (h : Pending tag modes brackets kinds)
    (hmore : Balanced more) : Pending tag modes brackets (kinds ++ more) := by
  cases h with
  | tag h => exact .tag (h.append hmore)
  | bracket before hm h hb hrest =>
    rw [List.append_assoc, cons_append]
    exact .bracket before hm h hb (hrest.append hmore)
  | quote before hm hrest =>
    rw [List.append_assoc]
    exact .quote before hm (hrest.append hmore)
  | interpolation before hrest =>
    rw [List.append_assoc, cons_append]
    exact .interpolation before (hrest.append hmore)

theorem closeBracket {bracket : Bracket} {opener closer : Token.Kind}
    (h : Pending tag modes (bracket :: brackets) kinds) (hm : bracket.Marks opener closer)
    (hb : bracket ≠ .interpolation) : Pending tag modes brackets (kinds ++ [closer]) := by
  cases h with
  | bracket before _ hmarks _ hrest =>
    obtain ⟨rfl, rfl⟩ := hmarks.unique hm
    rw [List.append_assoc, cons_append]
    exact before.append (.enclose hm hrest)
  | quote => cases hm
  | interpolation => exact absurd rfl hb

theorem closeQuote (h : Pending tag (.string :: outer) brackets kinds) (ht : tag ≠ .string) :
    Pending tag outer brackets.tail kinds := by
  cases h with
  | tag => exact absurd rfl ht
  | bracket _ hm => cases hm
  | quote before _ hrest => exact before.append hrest

theorem closeInterpolation
    (h : Pending tag (.interpolation :: outer) (.interpolation :: brackets) kinds) :
    Pending tag outer brackets (kinds ++ [.interpolationEnd]) := by
  cases h with
  | bracket _ _ _ hb => exact absurd rfl hb
  | interpolation before hrest =>
    rw [List.append_assoc, cons_append]
    exact before.append (.enclose .interpolation hrest)

/-- A tag ends where no bracket is open: then no other region is, and its content is balanced. -/
theorem eq_tag {mode : Mode} (h : Pending tag (mode :: outer) [] kinds) :
    mode = tag ∧ outer = [] ∧ Balanced kinds := by
  cases h with
  | tag h => exact ⟨rfl, rfl, h⟩

theorem getLast?_modes (h : Pending tag modes brackets kinds) : modes.getLast? = some tag := by
  induction h with
  | tag => rfl
  | bracket _ _ _ _ _ ih => exact ih
  | quote _ _ _ ih => rw [getLast?_cons_cons, ih]
  | interpolation _ _ ih => rw [getLast?_cons_cons, ih]

theorem isExpressionToken (h : Pending tag modes brackets kinds) :
    ∀ kind ∈ kinds, Lexer.isExpressionToken kind = true := by
  induction h with
  | tag h => exact h.isExpressionToken
  | bracket _ _ h _ hrest ih =>
    intro kind hk
    simp only [mem_append, mem_cons] at hk
    rcases hk with hk | rfl | hk
    · exact ih kind hk
    · exact h.isExpressionToken.1
    · exact hrest.isExpressionToken kind hk
  | quote _ _ hrest ih =>
    intro kind hk
    rcases mem_append.mp hk with hk | hk
    · exact ih kind hk
    · exact hrest.isExpressionToken kind hk
  | interpolation _ hrest ih =>
    intro kind hk
    simp only [mem_append, mem_cons] at hk
    rcases hk with hk | rfl | hk
    · exact ih kind hk
    · rfl
    · exact hrest.isExpressionToken kind hk

end Pending

/-! ## The invariant of the lexer -/

/-- Outside tags there are whole items; inside a tag, whole items, the token that opens the tag and
what is read of its content. -/
inductive Shape : List Mode → List Bracket → List Token.Kind → Prop
  | literal {kinds} (h : Items kinds) : Shape [] [] kinds
  | tag {tag modes brackets before opener closer kinds} (hd : Delimits tag opener closer)
      (hbefore : Items before) (h : Pending tag modes brackets kinds) :
      Shape modes brackets (before ++ opener :: kinds)

theorem Shape.items {brackets : List Bracket} {kinds : List Token.Kind}
    (h : Shape [] brackets kinds) : Items kinds := by
  cases h with
  | literal h => exact h
  | tag _ _ h => cases h

/-- A turn inside a tag leaves the tag open, with one more token if it makes one, or ends it. -/
theorem Pending.turn {tag : Mode} {modes : List Mode} {brackets : List Bracket}
    {opener closer : Token.Kind} {kinds : List Token.Kind} (hd : Delimits tag opener closer)
    (hp : Pending tag modes brackets kinds) (ht : Turn modes brackets made modes' brackets') :
    Pending tag modes' brackets' (kinds ++ made.toList) ∨
      (modes' = [] ∧ brackets' = [] ∧ made = some closer ∧ Balanced kinds) := by
  cases ht with
  | literal | openTag => cases hp
  | closeTag h =>
    obtain ⟨rfl, rfl, hbalanced⟩ := hp.eq_tag
    obtain ⟨rfl, rfl⟩ := hd.unique h
    exact .inr ⟨rfl, rfl, rfl, hbalanced⟩
  | blank hm =>
    rw [Option.toList_none, append_nil]
    exact .inl hp
  | plain hm h => exact .inl (hp.append (.single h))
  | openBracket hm h hb => exact .inl (.bracket hp hm h hb .nil)
  | closeBracket hm h hb => exact .inl (hp.closeBracket h hb)
  | openQuote hm => exact .inl (.quote hp hm .nil)
  | closeQuote =>
    rw [Option.toList_none, append_nil]
    exact .inl (hp.closeQuote (by rintro rfl; cases hd))
  | part => exact .inl (hp.append (.single rfl))
  | openInterpolation => exact .inl (.interpolation hp .nil)
  | closeInterpolation => exact .inl hp.closeInterpolation

/-- **One turn of the stacks preserves the invariant.** -/
theorem Shape.turn {modes : List Mode} {brackets : List Bracket} {kinds : List Token.Kind}
    (hs : Shape modes brackets kinds) (ht : Turn modes brackets made modes' brackets') :
    Shape modes' brackets' (kinds ++ made.toList) := by
  cases hs with
  | literal hitems =>
    cases ht with
    | literal h => exact .literal (hitems.append (.literal h .nil))
    | openTag h => exact .tag h hitems (.tag .nil)
  | tag hd hbefore hp =>
    rw [List.append_assoc, cons_append]
    rcases hp.turn hd ht with hp | ⟨rfl, rfl, rfl, hbalanced⟩
    · exact .tag hd hbefore hp
    · exact .literal (hbefore.append (.tag hd hbalanced .nil))

namespace Scan

/-- The kinds of the tokens so far. -/
def kinds (scan : Scan) : List Token.Kind := scan.tokens.toList.map (·.kind)

/-- The invariant of the lexer. -/
def WellShaped (scan : Scan) : Prop := Shape scan.modes scan.bracketStack scan.kinds

variable {scan next : Scan}

theorem Moves.kinds_eq {made : Option Token.Kind} (h : Moves scan made next) :
    next.kinds = scan.kinds ++ made.toList := by
  cases h with
  | skip _ _ _ _ tokens => simp [kinds, tokens]
  | take _ _ _ _ _ _ tokens => simp [kinds, tokens, Scan.take, Scan.skip]

theorem Effect.wellShaped (hs : scan.WellShaped) (h : Effect scan next) : next.WellShaped := by
  obtain ⟨made, hturn, hmove⟩ := h
  unfold WellShaped
  rw [hmove.kinds_eq]
  exact Shape.turn hs hturn

theorem wellShaped_start (text : String) : ({ cursor := Cursor.start text } : Scan).WellShaped :=
  .literal .nil

theorem WellShaped.items (h : scan.WellShaped) (hm : scan.modes = []) : Items scan.kinds := by
  unfold WellShaped at h
  rw [hm] at h
  exact h.items

end Scan

/-- **The tokens of a template are literal tokens and tags, with balanced expressions in the tags,
and then the end of the template**, which stands nowhere else. -/
theorem tokenize_items {text : String} {symbols : List String} {tokens : Array Token}
    (h : tokenize text symbols = .ok tokens) :
    ∃ items, tokens.toList.map (·.kind) = items ++ [.eof] ∧ Items items ∧ .eof ∉ items := by
  obtain ⟨last, hrun, _, hm, rfl⟩ := tokenize_eq_ok h
  have hshaped : last.WellShaped :=
    Scan.run_preserves (orderSymbols_ne_nil symbols) (fun _ _ => Scan.Effect.wellShaped)
      (Scan.wellShaped_start text) hrun
  have hitems := hshaped.items hm
  exact ⟨last.kinds, by simp [Scan.take, Scan.kinds], hitems, hitems.eof_notMem⟩

/-- Brackets and an interpolation that nest in one another. -/
theorem tokenize_items_nested :
    ∃ tokens, tokenize "a\x7b% if [b, \"c#\x7b \x7bd: (1)\x7d \x7d\"] not in e %\x7d" ["not in"] =
        .ok tokens ∧
      ∃ items, tokens.toList.map (·.kind) = items ++ [.eof] ∧ Items items ∧ .eof ∉ items := by
  have hok : (tokenize "a\x7b% if [b, \"c#\x7b \x7bd: (1)\x7d \x7d\"] not in e %\x7d"
      ["not in"]).isOk = true := by decide +kernel
  cases h : tokenize "a\x7b% if [b, \"c#\x7b \x7bd: (1)\x7d \x7d\"] not in e %\x7d" ["not in"] with
  | error fault => rw [h] at hok; cases hok
  | ok tokens => exact ⟨tokens, rfl, tokenize_items h⟩

end TwigToLatte.Lexer
