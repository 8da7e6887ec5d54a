import TwigToLatte.Proofs.Expr.Yield

/-!
# Progress of expressions

Whatever the tokens are, the rules of expressions take tokens. A rule asks for the rules inside it
only after a token, so rules that are built for as many tokens as are left never run out of depth,
and rules for a larger depth read the same. They ask for the dialect where a filter, a function, a
test or an operator is looked up, and nowhere else.

* `Nests`, `advances_expression` — rules among statements, with as many levels as there are tokens.
* `Rules.unbounded`, `Nests.unbounded_eq` — **the rules without a depth**.
* `expressionRule_unbounded`, `primaryRule_unbounded` — expressions are what their own rules say.
-/

namespace TwigToLatte

namespace Grammar

open Parse

variable {v : Comparison} {depth : Nat} {α : Type} {rule : Rules → Parse α}

/-- A rule that takes a token, and is read with a larger depth where the rules inside it are. -/
def Nests (v : Comparison) (rule : Rules → Parse α) : Prop :=
  ∀ (scope : Scope) (depth : Nat) (r r' : Rules), r.Extends (v.inner scope) (fun _ => True) depth r' →
    ∃ post, Yields (v.inner scope) depth always post (rule r) (rule r')

theorem nests_expression (least : Precedence) (allowArrow : Bool) :
    Nests v fun r => r.expression least allowArrow :=
  fun _ _ _ _ hr => ⟨_, hr.expression least allowArrow⟩

theorem nests_primary : Nests v Rules.primary := fun _ _ _ _ hr => ⟨_, hr.primary⟩

theorem nests_expressionRule (least : Precedence) (allowArrow : Bool) :
    Nests v fun r => expressionRule r least allowArrow :=
  fun _ _ _ _ hr => ⟨_, (yields_expressionRule (.trivial _ _) hr least allowArrow).lower⟩

theorem nests_primaryRule : Nests v primaryRule :=
  fun _ _ _ _ hr => ⟨_, (yields_primaryRule (.trivial _ _) hr).lower⟩

theorem nests_filterChain (operand : Expr) : Nests v fun r => filterChain r operand :=
  fun _ _ _ _ hr => ⟨_, (yields_filterChain (.trivial _ _) hr fun _ _ => trivial).lower⟩

theorem nests_arguments (named allowArrow : Bool) : Nests v fun r => arguments r named allowArrow :=
  fun _ _ _ _ hr => ⟨_, (yields_arguments hr named allowArrow).lower⟩

theorem nests_macroParams : Nests v macroParams :=
  fun _ _ _ _ hr => ⟨_, (yields_macroParams (.trivial _ _) hr).lower⟩

theorem Nests.deepens (h : Nests v rule) : Deepens v always fun depth => rule (Rules.upTo depth) :=
  fun _ _ hle => .of_yields fun scope => h scope _ _ _ (Rules.extends_upTo (.trivial _ _) hle)

/-- Built for the tokens that are left, the rule takes a token and reaches no bound. -/
theorem Nests.nested (h : Nests v rule) :
    Advances v depth always (Grammar.nested rule) (Grammar.nested rule) :=
  h.deepens.advances_deepest

theorem advances_expression : Advances v depth always expression expression :=
  (nests_expression 0 false).nested

/-! ## Without a depth -/

section

variable {context : Context} {state : State}

/-- The rules of expressions that nest as deep as the tokens let them. -/
def Rules.unbounded : Rules := ⟨expressionWith, Grammar.primary⟩

theorem Rules.extends_unbounded (scope : Scope) (depth : Nat) :
    (Rules.upTo depth).Extends ((Comparison.same context).inner scope) (fun _ => True) depth
      Rules.unbounded :=
  have hself := Rules.extends_upTo (.trivial _ _) (Nat.le_refl depth)
  ⟨⟨depth, rfl⟩, fun least allowArrow => (hself.expression least allowArrow).compare
      ((nests_expression least allowArrow).deepens.advances depth),
    hself.primary.compare (nests_primary.deepens.advances depth)⟩

/-- **A rule asks for the rules inside it as if there were no depth.** -/
theorem Nests.unbounded_eq (h : Nests (.same context) rule) (hin : Inside context state) :
    rule Rules.unbounded context state = Grammar.nested rule context state := by
  have hdepth := Nat.le_add_left context.tokens.size state.cursor
  have hrule : Advances (.same context) context.tokens.size always
      (rule (Rules.upTo context.tokens.size)) (rule Rules.unbounded) :=
    .of_yields fun scope => h scope _ _ _ (Rules.extends_unbounded scope _)
  rw [(hrule state trivial).eq_of_room (hin.room hdepth)]
  exact h.deepens.eq_deepest hin context.tokens.size hdepth

theorem Nests.nested_eq_of_succ (h : Nests (.same context) rule) {level : Rules → Parse α}
    (hlevel : Nests (.same context) level)
    (heq : ∀ depth, level (Rules.upTo depth) = rule (Rules.upTo (depth + 1)))
    (hin : Inside context state) :
    Grammar.nested level context state = Grammar.nested rule context state :=
  calc
    Grammar.nested level context state
      = level (Rules.upTo context.tokens.size) context state :=
        (hlevel.deepens.eq_deepest hin _ (Nat.le_add_left _ _)).symm
    _ = rule (Rules.upTo (context.tokens.size + 1)) context state := by rw [heq]
    _ = Grammar.nested rule context state :=
        h.deepens.eq_deepest hin _ (Nat.le_add_left_of_le (Nat.le_succ _))

theorem expressionRule_unbounded (hin : Inside context state) (least : Precedence)
    (allowArrow : Bool) :
    expressionRule Rules.unbounded least allowArrow context state =
      expressionWith least allowArrow context state :=
  have hlevel := nests_expressionRule least allowArrow
  (hlevel.unbounded_eq hin).trans
    ((nests_expression least allowArrow).nested_eq_of_succ hlevel (fun _ => rfl) hin)

theorem primaryRule_unbounded (hin : Inside context state) :
    primaryRule Rules.unbounded context state = primary context state :=
  (nests_primaryRule.unbounded_eq hin).trans
    (nests_primary.nested_eq_of_succ nests_primaryRule (fun _ => rfl) hin)

end

end Grammar

end TwigToLatte
