import TwigToLatte.Dialect.Core
import TwigToLatte.Expr.Grammar

/-!
# Trees of infix operators

A chain `x₀ o₁ x₁ … oₙ xₙ` of operands and infix operators has as many trees as there are ways to
put parentheses; precedence and associativity leave one of them.

* `Infix` — an occurrence of an infix operator, with its entry in the operators of the dialect.
* `Chain`, `Operand` — chains; an operand is a name, a number or a chain in parentheses.
* `Tree`, `Tree.flatten` — trees over operands, and the chain that a tree groups.
* `Tree.Bound` — every operator takes only operators that bind tightly enough for their side.
* `Coherent` — a table of operators that precedence and associativity decide; `Coherent.core`.
* `Chain.tree` — the operators inserted one after the other, each along the right edge.
* `Chain.flatten_tree`, `Chain.tree_bound` — **every chain has a bound tree**.
* `Tree.Bound.eq_of_flatten_eq` — **and no more than one**.
-/

namespace TwigToLatte.Grammar

open List

/-! ## Chains -/

/-- An infix operator in a template. -/
structure Infix (dialect : Dialect) where
  symbol : String
  span : Span
  precedence : Precedence
  associativity : Associativity
  op : BinaryOp
  registered : dialect.binary.get? symbol = some ⟨precedence, associativity, .binary op⟩

/-- An operand of a single token. -/
inductive Leaf where
  | name (name : String)
  | number (value : Number)

mutual

inductive Operand (dialect : Dialect) where
  | leaf (value : Leaf) (span : Span)
  /-- A chain between parentheses at `opening` and `closing`. -/
  | group (opening closing : Span) (inner : Chain dialect)

/-- Operands with infix operators between them. -/
inductive Chain (dialect : Dialect) where
  | single (x : Operand dialect)
  | link (init : Chain dialect) (o : Infix dialect) (x : Operand dialect)

end

variable {dialect : Dialect}

/-- The chain `left` with `o` and the chain `right` after it. -/
def Chain.append (left : Chain dialect) (o : Infix dialect) : Chain dialect → Chain dialect
  | .single x => .link left o x
  | .link init o' x => .link (left.append o init) o' x

/-- The operators of a chain outside its parentheses. -/
def Chain.operators : Chain dialect → List (Infix dialect)
  | .single _ => []
  | .link init o _ => init.operators ++ [o]

@[simp] theorem Chain.operators_append (left : Chain dialect) (o : Infix dialect) :
    ∀ right : Chain dialect, (left.append o right).operators =
      left.operators ++ o :: right.operators
  | .single _ => rfl
  | .link init o' x => by
    simp only [append, operators, operators_append left o init, List.append_assoc,
      cons_append]

variable {left : Chain dialect} {o : Infix dialect}

theorem Chain.single_ne_append {x : Operand dialect} {right : Chain dialect} :
    Chain.single x ≠ left.append o right := by
  cases right <;> nofun

/-- Two ways to split a chain are one, or each finds the other's operator in one of its parts. -/
theorem Chain.append_eq_append {left' : Chain dialect} {o' : Infix dialect} :
    ∀ {right right' : Chain dialect}, left.append o right = left'.append o' right' →
      (left = left' ∧ o = o' ∧ right = right') ∨
        (o' ∈ right.operators ∧ o ∈ left'.operators) ∨
        (o ∈ right'.operators ∧ o' ∈ left.operators)
  | .single _, .single _, h => by
    simp only [append, link.injEq] at h
    exact .inl ⟨h.1, h.2.1, by rw [h.2.2]⟩
  | .single _, .link _ _ _, h => by
    simp only [append, link.injEq] at h
    exact .inr (.inr (by simp [operators, h.1, h.2.1]))
  | .link _ _ _, .single _, h => by
    simp only [append, link.injEq] at h
    exact .inr (.inl (by simp [operators, ← h.1, ← h.2.1]))
  | .link _ _ _, .link _ _ _, h => by
    simp only [append, link.injEq] at h
    obtain ⟨hinit, rfl, rfl⟩ := h
    rcases append_eq_append hinit with h | h | h
    · exact .inl ⟨h.1, h.2.1, by rw [h.2.2]⟩
    · exact .inr (.inl ⟨mem_append_left _ h.1, h.2⟩)
    · exact .inr (.inr ⟨mem_append_left _ h.1, h.2⟩)

/-! ## Trees -/

/-- A chain that has been grouped. -/
inductive Tree (dialect : Dialect) where
  | leaf (value : Leaf) (span : Span)
  | group (opening closing : Span) (inner : Tree dialect)
  | node (o : Infix dialect) (left right : Tree dialect)

namespace Tree

def flatten : Tree dialect → Chain dialect
  | .leaf value span => .single (.leaf value span)
  | .group opening closing inner => .single (.group opening closing inner.flatten)
  | .node o left right => left.flatten.append o right.flatten

/-- The operator that groups last; an operand has none. -/
def root? : Tree dialect → Option (Infix dialect)
  | .node o _ _ => some o
  | _ => none

end Tree

namespace Infix

/-- Whether `o'` may stand without parentheses at the given side of `o`. -/
def Takes (o : Infix dialect) (side : Associativity) (o' : Infix dialect) : Prop :=
  o.precedence < o'.precedence ∨ o.precedence = o'.precedence ∧ o.associativity = side

instance (o : Infix dialect) (side : Associativity) (o' : Infix dialect) :
    Decidable (o.Takes side o') :=
  inferInstanceAs (Decidable (_ ∨ _))

variable {o : Infix dialect} {side : Associativity}

theorem Takes.le {o' : Infix dialect} (h : o.Takes side o') : o.precedence ≤ o'.precedence := by
  rcases h with h | h
  · exact UInt32.le_of_lt h
  · exact UInt32.le_of_eq h.1

/-- What binds more tightly than a taken operator is taken too. -/
theorem Takes.trans_le {p q : Infix dialect} (h : o.Takes side p)
    (hle : p.precedence ≤ q.precedence) : o.Takes side q := by
  rcases h with h | ⟨heq, hside⟩
  · exact .inl (UInt32.lt_of_lt_of_le h hle)
  · rcases UInt32.lt_or_eq_of_le hle with hlt | hpq
    · exact .inl (heq ▸ hlt)
    · exact .inr ⟨heq.trans hpq, hside⟩

end Infix

/-- Precedence and associativity decide between the infix operators of a dialect. -/
structure Coherent (dialect : Dialect) : Prop where
  /-- Operators that bind equally tightly group from the same side. -/
  associativity_eq : ∀ o o' : Infix dialect, o.precedence = o'.precedence →
    o.associativity = o'.associativity
  /-- Every operator has a precedence above it. -/
  precedence_lt : ∀ o : Infix dialect, o.precedence.toNat < UInt32.size - 1

theorem Infix.mem_entries (o : Infix dialect) :
    (o.symbol, ⟨o.precedence, o.associativity, .binary o.op⟩) ∈ dialect.binary.entries := by
  obtain ⟨before, after, heq, _⟩ := lookup_eq_some_iff.mp o.registered
  rw [heq]
  exact mem_append_right _ mem_cons_self

namespace Coherent

theorem of_entries
    (hside : ∀ e ∈ dialect.binary.entries, ∀ e' ∈ dialect.binary.entries,
      e.2.precedence = e'.2.precedence → e.2.associativity = e'.2.associativity)
    (hlt : ∀ e ∈ dialect.binary.entries, e.2.precedence.toNat < UInt32.size - 1) :
    Coherent dialect where
  associativity_eq o o' := hside _ o.mem_entries _ o'.mem_entries
  precedence_lt o := hlt _ o.mem_entries

theorem core : Coherent Dialect.core :=
  of_entries (by decide +kernel) (by decide +kernel)

variable {o o' : Infix dialect}

theorem takes_left (coherent : Coherent dialect) (h : ¬ o'.Takes .right o) : o.Takes .left o' := by
  have hle : o.precedence ≤ o'.precedence := UInt32.not_lt.mp fun hlt => h (.inl hlt)
  rcases UInt32.lt_or_eq_of_le hle with hlt | heq
  · exact .inl hlt
  · refine .inr ⟨heq, ?_⟩
    rw [coherent.associativity_eq o o' heq]
    cases hside : o'.associativity with
    | left => rfl
    | right => exact absurd (.inr ⟨heq.symm, hside⟩) h

theorem not_takes_right (coherent : Coherent dialect) (h : o.Takes .left o') :
    ¬ o'.Takes .right o := by
  intro h'
  have heq : o.precedence = o'.precedence := UInt32.le_antisymm h.le h'.le
  have hleft : o.associativity = .left := by
    rcases h with hlt | h
    · exact absurd heq (UInt32.ne_of_lt hlt)
    · exact h.2
  have hright : o'.associativity = .right := by
    rcases h' with hlt | h'
    · exact absurd heq.symm (UInt32.ne_of_lt hlt)
    · exact h'.2
  rw [coherent.associativity_eq o o' heq, hright] at hleft
  cases hleft

end Coherent

/-- Every operator of the tree takes the operators of its two operands. -/
def Tree.Bound : Tree dialect → Prop
  | .leaf _ _ => True
  | .group _ _ inner => inner.Bound
  | .node o left right =>
    (∀ o' ∈ left.root?, o.Takes .left o') ∧ (∀ o' ∈ right.root?, o.Takes .right o') ∧
      left.Bound ∧ right.Bound

/-! ## Every chain has a bound tree -/

/-- The tree with `o` and the operand `x` after it. The operator descends along the right edge
past every operator that takes it. -/
def Tree.insert : Tree dialect → Infix dialect → Tree dialect → Tree dialect
  | .node p left right, o, x =>
    if p.Takes .right o then .node p left (right.insert o x) else .node o (.node p left right) x
  | tree, o, x => .node o tree x

mutual

def Operand.tree : Operand dialect → Tree dialect
  | .leaf value span => .leaf value span
  | .group opening closing inner => .group opening closing inner.tree

/-- The tree that grows from left to right. -/
def Chain.tree : Chain dialect → Tree dialect
  | .single x => x.tree
  | .link init o x => init.tree.insert o x.tree

end

variable {x tree : Tree dialect}

/-- Where an operator is inserted, it stands at the root or below the root that was there. -/
theorem Tree.root?_insert {p : Infix dialect} (h : p ∈ (tree.insert o x).root?) :
    p = o ∨ p ∈ tree.root? := by
  cases tree with
  | leaf value span => exact .inl (Option.some.inj h).symm
  | group opening closing inner => exact .inl (Option.some.inj h).symm
  | node q left right =>
    rw [insert] at h
    split at h
    · exact .inr h
    · exact .inl (Option.some.inj h).symm

theorem Tree.flatten_insert {operand : Operand dialect} (hx : x.flatten = .single operand)
    (tree : Tree dialect) : (tree.insert o x).flatten = .link tree.flatten o operand := by
  have hnode (left : Tree dialect) : (node o left x).flatten = .link left.flatten o operand := by
    rw [flatten, hx, Chain.append]
  induction tree with
  | leaf value span => exact hnode _
  | group opening closing inner => exact hnode _
  | node p left right ihLeft ihRight =>
    rw [insert]
    split
    · rw [flatten, ihRight, Chain.append, flatten]
    · exact hnode _

theorem Tree.Bound.insert (coherent : Coherent dialect) (h : tree.Bound) (hx : x.Bound)
    (hroot : x.root? = none) : (tree.insert o x).Bound := by
  have hright : ∀ o' ∈ x.root?, o.Takes .right o' := by simp [hroot]
  induction tree with
  | leaf value span => exact ⟨by simp [root?], hright, h, hx⟩
  | group opening closing inner => exact ⟨by simp [root?], hright, h, hx⟩
  | node p left right ihLeft ihRight =>
    rw [Tree.insert]
    split
    · rename_i htakes
      refine ⟨h.1, fun q hq => ?_, h.2.2.1, ihRight h.2.2.2⟩
      rcases root?_insert hq with rfl | hq
      · exact htakes
      · exact h.2.1 q hq
    · rename_i htakes
      refine ⟨fun q hq => ?_, hright, h, hx⟩
      cases hq
      exact coherent.takes_left htakes

theorem Operand.root?_tree (x : Operand dialect) : x.tree.root? = none := by
  cases x <;> rfl

mutual

theorem Operand.flatten_tree (x : Operand dialect) : x.tree.flatten = .single x := by
  cases x with
  | leaf value span => rfl
  | group opening closing inner => rw [Operand.tree, Tree.flatten, inner.flatten_tree]

theorem Chain.flatten_tree (chain : Chain dialect) : chain.tree.flatten = chain := by
  cases chain with
  | single x => exact x.flatten_tree
  | link init o x => rw [Chain.tree, Tree.flatten_insert x.flatten_tree, init.flatten_tree]

end

mutual

theorem Operand.tree_bound (coherent : Coherent dialect) (x : Operand dialect) : x.tree.Bound := by
  cases x with
  | leaf value span => trivial
  | group opening closing inner => exact inner.tree_bound coherent

theorem Chain.tree_bound (coherent : Coherent dialect) (chain : Chain dialect) :
    chain.tree.Bound := by
  cases chain with
  | single x => exact x.tree_bound coherent
  | link init o x =>
    exact (init.tree_bound coherent).insert coherent (x.tree_bound coherent) x.root?_tree

end

/-! ## No chain has two -/

namespace Tree.Bound

variable {tree : Tree dialect} {q : Infix dialect}

theorem root?_of_mem_operators (h : q ∈ tree.flatten.operators) : ∃ p, p ∈ tree.root? := by
  cases tree with
  | leaf value span => cases h
  | group opening closing inner => cases h
  | node o left right => exact ⟨o, rfl⟩

/-- No operator of a bound tree binds less tightly than its root. -/
theorem root_le (h : tree.Bound) :
    ∀ p ∈ tree.root?, ∀ q ∈ tree.flatten.operators, p.precedence ≤ q.precedence := by
  induction tree with
  | leaf value span => simp [root?]
  | group opening closing inner ih => simp [root?]
  | node o left right ihLeft ihRight =>
    obtain ⟨hleft, hright, hboundLeft, hboundRight⟩ := h
    rintro p ⟨⟩ q hq
    rw [flatten, Chain.operators_append, mem_append, mem_cons] at hq
    rcases hq with hq | rfl | hq
    · obtain ⟨p', hp'⟩ := root?_of_mem_operators hq
      exact UInt32.le_trans (hleft p' hp').le (ihLeft hboundLeft p' hp' q hq)
    · exact UInt32.le_refl _
    · obtain ⟨p', hp'⟩ := root?_of_mem_operators hq
      exact UInt32.le_trans (hright p' hp').le (ihRight hboundRight p' hp' q hq)

/-- An operator takes all operators in an operand whose root it takes. -/
theorem takes {o : Infix dialect} {side : Associativity} (h : tree.Bound)
    (hroot : ∀ p ∈ tree.root?, o.Takes side p) (hq : q ∈ tree.flatten.operators) :
    o.Takes side q := by
  obtain ⟨p, hp⟩ := root?_of_mem_operators hq
  exact (hroot p hp).trans_le (h.root_le p hp q hq)

/-- **Bound trees of one chain are equal.** -/
theorem eq_of_flatten_eq (coherent : Coherent dialect) (h : tree.Bound) :
    ∀ {other : Tree dialect}, other.Bound → tree.flatten = other.flatten → tree = other := by
  induction tree with
  | leaf value span =>
    intro other hother heq
    cases other with
    | leaf value' span' => cases heq; rfl
    | group opening closing inner => cases heq
    | node o left right => exact absurd heq Chain.single_ne_append
  | group opening closing inner ih =>
    intro other hother heq
    cases other with
    | leaf value span => cases heq
    | group opening' closing' inner' =>
      simp only [flatten, Chain.single.injEq, Operand.group.injEq] at heq
      obtain ⟨rfl, rfl, heq⟩ := heq
      have hinner' : inner'.Bound := hother
      rw [ih h hinner' heq]
    | node o left right => exact absurd heq Chain.single_ne_append
  | node o left right ihLeft ihRight =>
    obtain ⟨hleft, hright, hboundLeft, hboundRight⟩ := h
    intro other hother heq
    cases other with
    | leaf value span => exact absurd heq.symm Chain.single_ne_append
    | group opening closing inner => exact absurd heq.symm Chain.single_ne_append
    | node o' left' right' =>
      obtain ⟨hleft', hright', hboundLeft', hboundRight'⟩ := hother
      -- Were the roots two operators, each would have to take the other.
      rcases Chain.append_eq_append heq with ⟨hl, rfl, hr⟩ | ⟨ho', ho⟩ | ⟨ho, ho'⟩
      · rw [ihLeft hboundLeft hboundLeft' hl, ihRight hboundRight hboundRight' hr]
      · exact absurd (hboundRight.takes hright ho')
          (coherent.not_takes_right (hboundLeft'.takes hleft' ho))
      · exact absurd (hboundRight'.takes hright' ho)
          (coherent.not_takes_right (hboundLeft.takes hleft ho'))

end Tree.Bound

end TwigToLatte.Grammar
