import TwigToLatte.Proofs.Expr.Precedence
import TwigToLatte.Proofs.Parse.Run

/-!
# Reading chains of infix operators

The rules of expressions recurse with a rising precedence. Followed on a bound tree they read its
left edge in the rounds of one loop, and each right operand in a recursive call.

* `Chain.tokens`, `Tree.toExpr` — what the rules take, and what they answer.
* `Ends`, `Below` — tokens that end an operand, and an operator's operand.
* `Tree.Climbs` — the loop of `infixChain` reaches the whole tree.
* `Tree.Bound.climbs` — **it does so for every bound tree**.
* `expression_chain` — **an expression takes exactly a chain, and answers its one bound tree**.
-/

namespace TwigToLatte.Grammar

open List

open Parse

/-! ## Tokens and expressions -/

def Leaf.kind : Leaf → Token.Kind
  | .name text => .name text
  | .number value => .number value

/-- The operand as an expression. The names of constants stand for them. -/
def Leaf.toExpr (line : Nat) : Leaf → Expr
  | .name text =>
    match keyword? text with
    | some value => Expr.constant value line
    | none => Expr.name text line
  | .number value => Expr.constant (.ofNumber value) line

variable {dialect : Dialect}

def Infix.token (o : Infix dialect) : Token := ⟨.operator o.symbol, o.span⟩

mutual

def Operand.tokens : Operand dialect → List Token
  | .leaf value span => [⟨value.kind, span⟩]
  | .group opening closing inner =>
    ⟨.punctuation '(', opening⟩ :: (inner.tokens ++ [⟨.punctuation ')', closing⟩])

def Chain.tokens : Chain dialect → List Token
  | .single x => x.tokens
  | .link init o x => init.tokens ++ o.token :: x.tokens

end

@[simp] theorem Chain.tokens_append (left : Chain dialect) (o : Infix dialect) :
    ∀ right : Chain dialect, (left.append o right).tokens = left.tokens ++ o.token :: right.tokens
  | .single _ => by rw [append, tokens, tokens]
  | .link init o' x => by
    simp only [append, tokens, tokens_append left o init, List.append_assoc, cons_append]

namespace Tree

/-- The tokens of a tree, from left to right. -/
def tokens (tree : Tree dialect) : List Token := tree.flatten.tokens

@[simp] theorem tokens_leaf (value : Leaf) (span : Span) :
    (leaf value span : Tree dialect).tokens = [⟨value.kind, span⟩] := by
  rw [tokens, flatten, Chain.tokens, Operand.tokens]

@[simp] theorem tokens_group (opening closing : Span) (inner : Tree dialect) :
    (group opening closing inner).tokens =
      ⟨.punctuation '(', opening⟩ :: (inner.tokens ++ [⟨.punctuation ')', closing⟩]) := by
  rw [tokens, flatten, Chain.tokens, Operand.tokens, tokens]

@[simp] theorem tokens_node (o : Infix dialect) (left right : Tree dialect) :
    (node o left right).tokens = left.tokens ++ o.token :: right.tokens := by
  rw [tokens, flatten, Chain.tokens_append, tokens, tokens]

theorem length_tokens_pos (tree : Tree dialect) : 0 < tree.tokens.length := by
  cases tree with
  | leaf value span => simp
  | group opening closing inner => simp
  | node o left right => rw [tokens_node, length_append, length_cons]; omega

/-- The expression that a tree stands for; parentheses leave no trace. -/
def toExpr : Tree dialect → Expr
  | .leaf value span => value.toExpr span.line
  | .group _ _ inner => inner.toExpr
  | .node o left right => Expr.binary o.op left.toExpr right.toExpr o.span.line

end Tree

/-! ## Where operands end -/

/-- The token continues no operand and no condition. -/
def Ends (token : Token) : Prop :=
  ∀ mark ∈ ['(', '.', '[', '|', '?'], token.isPunctuation mark = false

/-- If the token is an infix operator, it binds less tightly than `least`. -/
def Below (dialect : Dialect) (least : Precedence) (token : Token) : Prop :=
  ∀ {symbol operator}, token.kind = .operator symbol →
    dialect.binary.get? symbol = some operator → operator.precedence < least

variable {least : Precedence} {token : Token}

theorem Below.mono {least' : Precedence} (h : Below dialect least token) (hle : least ≤ least') :
    Below dialect least' token :=
  fun hkind hget => UInt32.lt_of_lt_of_le (h hkind hget) hle

theorem ends_close (span : Span) : Ends ⟨.punctuation ')', span⟩ := by
  intro mark hmark
  simp only [Token.isPunctuation, beq_eq_false_iff_ne, ne_eq, Token.Kind.punctuation.injEq]
  rintro rfl
  exact absurd hmark (by decide)

namespace Infix

variable {o p : Infix dialect}

theorem ends_token (o : Infix dialect) : Ends o.token := fun _ _ => rfl

theorem below_token {least : Precedence} (h : o.precedence < least) :
    Below dialect least o.token := by
  intro symbol operator hkind hget
  cases hkind
  rw [o.registered] at hget
  cases hget
  exact h

/-- The least precedence of the operators in the right operand. -/
def rightPrecedence (o : Infix dialect) : Precedence :=
  BinaryOperator.rightPrecedence ⟨o.precedence, o.associativity, .binary o.op⟩

theorem rightPrecedence_of_left (h : o.associativity = .left) :
    o.rightPrecedence = o.precedence + 1 := by
  simp only [rightPrecedence, BinaryOperator.rightPrecedence, h]

theorem rightPrecedence_of_right (h : o.associativity = .right) :
    o.rightPrecedence = o.precedence := by
  simp only [rightPrecedence, BinaryOperator.rightPrecedence, h]

/-- The right operand may hold every operator that is taken there. -/
theorem Takes.rightPrecedence_le (h : o.Takes .right p) : o.rightPrecedence ≤ p.precedence := by
  cases hside : o.associativity with
  | left =>
    have hlt : o.precedence < p.precedence := by
      rcases h with h | ⟨_, h⟩
      · exact h
      · rw [hside] at h; cases h
    rw [rightPrecedence_of_left hside]
    grind
  | right => rw [rightPrecedence_of_right hside]; exact h.le

theorem precedence_lt_add_one (coherent : Coherent dialect) (o : Infix dialect) :
    o.precedence < o.precedence + 1 := by
  have hlt := coherent.precedence_lt o
  rw [UInt32.lt_iff_toNat_lt, UInt32.toNat_add, Nat.mod_eq_of_lt]
  · exact Nat.lt_succ_self _
  · exact Nat.succ_lt_of_lt_pred hlt

theorem precedence_le_rightPrecedence (coherent : Coherent dialect) (o : Infix dialect) :
    o.precedence ≤ o.rightPrecedence := by
  cases hside : o.associativity with
  | left =>
    rw [rightPrecedence_of_left hside]
    exact UInt32.le_of_lt (precedence_lt_add_one coherent o)
  | right => rw [rightPrecedence_of_right hside]; exact UInt32.le_refl _

/-- An operator stops the right operand of an operator that it takes on its left. -/
theorem Takes.lt_rightPrecedence (coherent : Coherent dialect) (h : o.Takes .left p) :
    o.precedence < p.rightPrecedence := by
  rcases h with h | ⟨heq, hleft⟩
  · exact UInt32.lt_of_lt_of_le h (precedence_le_rightPrecedence coherent p)
  · rw [rightPrecedence_of_left ((coherent.associativity_eq o p heq).symm.trans hleft), heq]
    exact precedence_lt_add_one coherent p

end Infix

/-! ## The rules on known tokens -/

section

variable {r : Rules} {context : Context} {state after : State} {token : Token} {rest : List Token}

theorem suffixes_eq (e : Expr) (h : ahead context state = token :: rest) (hends : Ends token) :
    suffixes r e context state = .ok e state := by
  refine loop_inr ?_
  rw [bind_eq_of_ok (current_eq h), hends '.' (by decide), hends '[' (by decide),
    hends '|' (by decide)]
  rfl

theorem conditionals_eq (e : Expr) (h : ahead context state = token :: rest) (hends : Ends token) :
    conditionals r e context state = .ok e state := by
  refine loop_inr ?_
  rw [nextIfPunctuation, bind_eq_of_ok (nextIf_eq_none h (hends '?' (by decide)))]
  rfl

theorem namedPrimary_eq (text : String) (line : Nat) (h : ahead context state = token :: rest)
    (hends : Ends token) :
    namedPrimary r text line context state = .ok ((Leaf.name text).toExpr line) state := by
  rw [namedPrimary, Leaf.toExpr]
  cases keyword? text with
  | some value => rfl
  | none =>
    dsimp only
    rw [bind_eq_of_ok (current_eq h), hends '(' (by decide)]
    rfl

variable {value : Leaf} {span : Span} {o : Infix context.dialect} {least : Precedence}

theorem atom_leaf (h : ahead context state = ⟨value.kind, span⟩ :: token :: rest)
    (hends : Ends token) : atom r context state = .ok (value.toExpr span.line) (state.skip 1) := by
  rw [atom, bind_eq_of_ok (current_eq h)]
  cases value with
  | name text =>
    simp only [Leaf.kind] at h ⊢
    rw [bind_eq_of_ok (next_eq h rfl)]
    exact namedPrimary_eq text span.line (ahead_skip_one h) hends
  | number value =>
    simp only [Leaf.kind] at h ⊢
    rw [bind_eq_of_ok (next_eq h rfl)]
    rfl

theorem prefixOperator?_eq_none (h : ahead context state = token :: rest)
    (hkind : ∀ symbol, token.kind ≠ .operator symbol) :
    prefixOperator? context state = .ok none state := by
  rw [prefixOperator?, bind_eq_of_ok (current_eq h)]
  obtain ⟨kind, span⟩ := token
  cases kind with
  | operator symbol => exact absurd rfl (hkind symbol)
  | _ => rfl

theorem operand_leaf (h : ahead context state = ⟨value.kind, span⟩ :: token :: rest)
    (hends : Ends token) :
    operand r context state = .ok (value.toExpr span.line) (state.skip 1) := by
  have hkind : ∀ symbol, value.kind ≠ .operator symbol := by cases value <;> nofun
  have hparen : Token.isPunctuation '(' ⟨value.kind, span⟩ = false := by cases value <;> rfl
  rw [operand, bind_eq_of_ok (current_eq h), bind_eq_of_ok (prefixOperator?_eq_none h hkind)]
  simp only [hparen, Bool.false_eq_true, if_false]
  rw [primaryRule, bind_eq_of_ok (atom_leaf h hends)]
  exact suffixes_eq _ (ahead_skip_one h) hends

theorem operand_group {opening closing : Span} {inner : List Token} {e : Expr}
    (h : ahead context state = ⟨.punctuation '(', opening⟩ ::
      (inner ++ ⟨.punctuation ')', closing⟩ :: token :: rest))
    (hinner : r.full context (state.skip 1) = .ok e (state.skip (1 + inner.length)))
    (hends : Ends token) :
    operand r context state = .ok e (state.skip (inner.length + 2)) := by
  have hclose : ahead context (state.skip (1 + inner.length)) =
      ⟨.punctuation ')', closing⟩ :: token :: rest := by
    rw [← State.skip_skip]
    exact ahead_skip (ahead_skip_one h)
  have hafter := ahead_skip_one hclose
  rw [operand, bind_eq_of_ok (current_eq h), bind_eq_of_ok (prefixOperator?_eq_none h nofun)]
  simp only [Token.isPunctuation, BEq.rfl, if_true]
  rw [bind_eq_of_ok (next_eq h rfl), bind_eq_of_ok hinner,
    bind_eq_of_ok (expectPunctuation_eq hclose), suffixes_eq e hafter hends, State.skip_skip]
  congr 2
  omega

theorem infixOperator?_eq_some (h : ahead context state = o.token :: rest)
    (hle : least ≤ o.precedence) :
    infixOperator? least context state =
      .ok (some ⟨o.precedence, o.associativity, .binary o.op⟩) state := by
  rw [infixOperator?, bind_eq_of_ok (current_eq h)]
  dsimp only [Infix.token]
  rw [bind_eq_of_ok read_eq, o.registered]
  dsimp only
  rw [if_neg (UInt32.not_lt.mpr hle)]
  rfl

theorem infixOperator?_eq_none (h : ahead context state = token :: rest)
    (hbelow : Below context.dialect least token) :
    infixOperator? least context state = .ok none state := by
  rw [infixOperator?, bind_eq_of_ok (current_eq h)]
  obtain ⟨kind, span⟩ := token
  cases kind with
  | operator symbol =>
    dsimp only
    rw [bind_eq_of_ok read_eq]
    cases hget : context.dialect.binary.get? symbol with
    | none => rfl
    | some operator =>
      dsimp only
      rw [if_pos (hbelow rfl hget)]
      rfl
  | _ => rfl

/-- A round of the loop at an operator that may stand here, once its right operand is read. -/
theorem infixStep_eq_inl {left right : Expr} (h : ahead context state = o.token :: rest)
    (hle : least ≤ o.precedence)
    (hright : r.expression o.rightPrecedence false context (state.skip 1) = .ok right after) :
    infixStep r least left context state =
      .ok (.inl (Expr.binary o.op left right o.span.line)) after := by
  rw [Infix.rightPrecedence] at hright
  rw [infixStep, bind_eq_of_ok (infixOperator?_eq_some h hle)]
  dsimp only
  rw [bind_eq_of_ok (next_eq h rfl), bind_eq_of_ok hright]
  rfl

theorem infixStep_eq_inr (left : Expr) (h : ahead context state = token :: rest)
    (hbelow : Below context.dialect least token) :
    infixStep r least left context state = .ok (.inr left) state := by
  rw [infixStep, bind_eq_of_ok (infixOperator?_eq_none h hbelow)]
  rfl

theorem expressionRule_false (r : Rules) (least : Precedence) :
    expressionRule r least false = (do
      let e ← infixChain r least (← operand r)
      if least = 0 then conditionals r e else return e) := rfl

end

/-! ## Following a tree -/

variable {context : Context}

/-- The rules read the first operand of the tree, and after some rounds the loop over its infix
operators holds the whole tree. The rounds take at least one token each. -/
def Tree.Climbs (tree : Tree context.dialect) : Prop :=
  ∀ ⦃depth : Nat⦄ ⦃least : Precedence⦄ ⦃state : State⦄ ⦃token : Token⦄ ⦃rest : List Token⦄,
    ahead context state = tree.tokens ++ token :: rest → tree.tokens.length ≤ depth + 1 →
    (∀ o ∈ tree.root?, least ≤ o.precedence) →
    (∀ o ∈ tree.root?, Below context.dialect o.rightPrecedence token) → Ends token →
    ∃ first middle rounds, operand (Rules.upTo depth) context state = .ok first middle ∧
      (token :: rest).length + rounds ≤ (ahead context middle).length ∧
      ∀ limit, iterate (infixStep (Rules.upTo depth) least) (limit + rounds) first context middle =
        iterate (infixStep (Rules.upTo depth) least) limit tree.toExpr context
          (state.skip tree.tokens.length)

/-- An expression that starts with such a tree, if no operator after it belongs to it. -/
theorem Tree.Climbs.expressionUpTo_eq {tree : Tree context.dialect} (h : tree.Climbs)
    (coherent : Coherent context.dialect) {depth : Nat} {state : State} {rest : List Token}
    (hahead : ahead context state = tree.tokens ++ token :: rest)
    (hdepth : tree.tokens.length ≤ depth) (hroot : ∀ o ∈ tree.root?, least ≤ o.precedence)
    (hbelow : Below context.dialect least token) (hends : Ends token) :
    expressionUpTo depth least false context state =
      .ok tree.toExpr (state.skip tree.tokens.length) := by
  cases depth with
  | zero => exact absurd tree.length_tokens_pos (by omega)
  | succ depth =>
    have hafter := ahead_skip hahead
    obtain ⟨first, middle, rounds, hfirst, hrounds, hloop⟩ := h hahead hdepth hroot
      (fun o ho => hbelow.mono
        (UInt32.le_trans (hroot o ho) (o.precedence_le_rightPrecedence coherent))) hends
    have hchain : infixChain (Rules.upTo depth) least first context middle =
        .ok tree.toExpr (state.skip tree.tokens.length) := by
      obtain ⟨limit, hlimit⟩ : ∃ limit, (ahead context middle).length + 1 = limit + 1 + rounds :=
        ⟨(ahead context middle).length - rounds, by omega⟩
      rw [infixChain, loop_eq, hlimit, hloop, iterate_inr (infixStep_eq_inr _ hafter hbelow)]
    change expressionRule (Rules.upTo depth) least false context state = _
    rw [expressionRule_false, bind_eq_of_ok hfirst, bind_eq_of_ok hchain]
    by_cases hleast : least = 0
    · rw [if_pos hleast]
      exact conditionals_eq _ hafter hends
    · rw [if_neg hleast]
      rfl

/-- **The rules follow every bound tree.** -/
theorem Tree.Bound.climbs (coherent : Coherent context.dialect) {tree : Tree context.dialect}
    (h : tree.Bound) : tree.Climbs := by
  induction tree with
  | leaf value span =>
    intro depth least state token rest hahead hdepth hroot hbelow hends
    rw [tokens_leaf, singleton_append] at hahead
    refine ⟨_, _, 0, operand_leaf hahead hends, ?_, fun limit => rfl⟩
    rw [ahead_skip_one hahead]
    omega
  | group opening closing inner ih =>
    intro depth least state token rest hahead hdepth hroot hbelow hends
    have hlength : (group opening closing inner).tokens.length = inner.tokens.length + 2 := by
      simp
    have hafter := ahead_skip hahead
    rw [hlength] at hafter hdepth ⊢
    rw [tokens_group, cons_append, List.append_assoc] at hahead
    have hinner : expressionUpTo depth 0 false context (state.skip 1) =
        .ok inner.toExpr ((state.skip 1).skip inner.tokens.length) :=
      (ih h).expressionUpTo_eq coherent (ahead_skip_one hahead) (by omega)
        (fun o ho => UInt32.zero_le) nofun (ends_close closing)
    rw [State.skip_skip] at hinner
    refine ⟨_, _, 0, operand_group hahead hinner hends, ?_, fun limit => rfl⟩
    rw [hafter]
    omega
  | node o left right ihLeft ihRight =>
    obtain ⟨hleft, hright, hboundLeft, hboundRight⟩ := h
    intro depth least state token rest hahead hdepth hroot hbelow hends
    rw [tokens_node, List.append_assoc, cons_append] at hahead
    rw [tokens_node, length_append, length_cons] at hdepth
    have hle : least ≤ o.precedence := hroot o rfl
    have hdepthLeft : left.tokens.length ≤ depth + 1 := by omega
    -- The left operand is complete when the loop meets `o`: in a right operand inside it, `o` would
    -- bind too loosely.
    obtain ⟨first, middle, rounds, hfirst, hrounds, hloop⟩ := ihLeft hboundLeft hahead hdepthLeft
      (fun p hp => UInt32.le_trans hle (hleft p hp).le)
      (fun p hp => Infix.below_token ((hleft p hp).lt_rightPrecedence coherent)) o.ends_token
    have hop := ahead_skip hahead
    -- The right operand is a call of its own, and ends where the whole tree ends.
    have hoperand : expressionUpTo depth o.rightPrecedence false context
        ((state.skip left.tokens.length).skip 1) =
          .ok right.toExpr (((state.skip left.tokens.length).skip 1).skip right.tokens.length) :=
      (ihRight hboundRight).expressionUpTo_eq coherent (ahead_skip_one hop) (by omega)
        (fun p hp => (hright p hp).rightPrecedence_le) (hbelow o rfl) hends
    have hskip : ((state.skip left.tokens.length).skip 1).skip right.tokens.length =
        state.skip (node o left right).tokens.length := by
      simp only [State.skip_skip, tokens_node, length_append, length_cons,
        Nat.add_assoc, Nat.add_comm 1]
    refine ⟨first, middle, rounds + 1, hfirst, ?_, fun limit => ?_⟩
    · simp only [length_cons, length_append] at hrounds ⊢
      omega
    · rw [Nat.add_comm rounds 1, ← Nat.add_assoc, hloop,
        iterate_inl (infixStep_eq_inl hop hle hoperand), hskip]
      rfl

/-! ## Whole chains -/

/-- **Precedence and associativity.** Where operators of equal precedence share their
associativity, an expression takes exactly the chain ahead, and its answer is the only tree of the
chain in which every operator takes the operators of its operands. -/
theorem expression_chain (coherent : Coherent context.dialect) (chain : Chain context.dialect)
    {state : State} {follow : Token} {rest : List Token}
    (hahead : ahead context state = chain.tokens ++ follow :: rest)
    (hoperator : ∀ symbol, follow.kind ≠ .operator symbol)
    (hmark : ∀ mark ∈ ['(', '.', '[', '|', '?'], follow.kind ≠ .punctuation mark) :
    ∃ tree : Tree context.dialect,
      (tree.flatten = chain ∧ tree.Bound) ∧
      (∀ other : Tree context.dialect, other.flatten = chain → other.Bound → other = tree) ∧
      expression context state = .ok tree.toExpr (state.skip chain.tokens.length) := by
  have hbound := chain.tree_bound coherent
  refine ⟨chain.tree, ⟨chain.flatten_tree, hbound⟩, fun other hflatten hother => ?_, ?_⟩
  · exact hother.eq_of_flatten_eq coherent hbound (hflatten.trans chain.flatten_tree.symm)
  · have htokens : chain.tree.tokens = chain.tokens := by rw [Tree.tokens, chain.flatten_tree]
    have hdepth : chain.tree.tokens.length ≤ (ahead context state).length + 1 := by
      rw [hahead, htokens, length_append]
      omega
    have hends : Ends follow := fun mark h => by
      simpa only [Token.isPunctuation, beq_eq_false_iff_ne] using hmark mark h
    have hbelow : Below context.dialect 0 follow := fun hkind => absurd hkind (hoperator _)
    rw [← htokens] at hahead ⊢
    rw [expression, expressionWith, nested, bind_eq_of_ok remaining_eq]
    exact (hbound.climbs coherent).expressionUpTo_eq coherent hahead hdepth
      (fun o ho => UInt32.zero_le) hbelow hends

/-- Differences group from the left and powers from the right: `1 - 2 ** (3 - 4) ** 5 - 6`. -/
theorem expression_chain_powers :
    let span : Span := ⟨0, 0, 1, 1⟩
    let number (n : Int64) : Token := ⟨.number (.int n), span⟩
    let sign (symbol : String) : Token := ⟨.operator symbol, span⟩
    let context : Context := ⟨Dialect.core, "", #[number 1, sign "-", number 2, sign "**",
      ⟨.punctuation '(', span⟩, number 3, sign "-", number 4, ⟨.punctuation ')', span⟩,
      sign "**", number 5, sign "-", number 6, ⟨.eof, span⟩]⟩
    let int (n : Int64) : Expr := Expr.constant (.int n) 1
    let sub (left right : Expr) : Expr := Expr.binary .sub left right 1
    let power (left right : Expr) : Expr := Expr.binary .power left right 1
    expression context {} =
      .ok (sub (sub (int 1) (power (int 2) (power (sub (int 3) (int 4)) (int 5)))) (int 6))
        { cursor := 13 } := by
  intro span number sign context int sub power
  let minus : Infix context.dialect := ⟨"-", span, 30, .left, .sub, by decide +kernel⟩
  let raise : Infix context.dialect := ⟨"**", span, 200, .right, .power, by decide +kernel⟩
  let leaf (n : Int64) : Tree context.dialect := .leaf (.number (.int n)) span
  let tree : Tree context.dialect :=
    .node minus (.node minus (leaf 1) (.node raise (leaf 2)
      (.node raise (.group span span (.node minus (leaf 3) (leaf 4))) (leaf 5)))) (leaf 6)
  have hbound : tree.Bound := by
    simp [tree, leaf, Tree.Bound, Tree.root?, Infix.Takes, minus, raise]
  have hahead : ahead context {} = tree.flatten.tokens ++ ⟨.eof, span⟩ :: [] := rfl
  obtain ⟨found, -, hunique, hrun⟩ := expression_chain Coherent.core tree.flatten hahead
    (by intro symbol h; cases h) (by intro mark _ h; cases h)
  rw [← hunique tree rfl hbound] at hrun
  exact hrun

end TwigToLatte.Grammar
