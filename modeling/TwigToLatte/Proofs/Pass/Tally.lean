import TwigToLatte.Proofs.Pass.Stateless

/-!
# Passes that keep a tally

Some passes treat expressions as a pass without state does, and count on the way what they meet. What
such a pass has counted after an expression depends on the parts of the expression only, taken in the
order in which they are written.

* `tally` — the count after a list of expressions.
* `Pass.Tallies` — what a pass does at a single expression when it keeps a tally.
* `Pass.Tallies.expr` — **what it makes of an expression, and what it has counted then**.
-/

namespace TwigToLatte

variable {σ : Type}

/-- The count after some expressions, in order. -/
def tally (count : Expr → σ → σ) (list : List Expr) (s : σ) : σ :=
  list.foldl (fun s e => count e s) s

section

variable (count : Expr → σ → σ) (s : σ)

@[simp] theorem tally_nil : tally count [] s = s := rfl

@[simp] theorem tally_cons (e : Expr) (rest : List Expr) :
    tally count (e :: rest) s = tally count rest (count e s) := rfl

@[simp] theorem tally_append (list more : List Expr) :
    tally count (list ++ more) s = tally count more (tally count list s) := List.foldl_append

end

namespace Pass

variable {p : Pass σ} {q : Pass Unit} {count : Expr → σ → σ} {good : σ → Prop}

/-- In a good state the pass makes of an expression what the pass without state makes of it, once the
parts are treated and counted; then it has counted the expression too. -/
structure Tallies (p : Pass σ) (q : Pass Unit) (count : Expr → σ → σ) (good : σ → Prop) : Prop where
  count_good : ∀ e s, good s → good (count e s)
  enter_good : ∀ e s, good s → good (p.enterExpr e s).2
  node : ∀ (kind : Expr.Kind) (line : Nat) (topmost : Bool) (s : σ), good s →
    p.leaveExpr ⟨(q.exprKind kind ()).1, line, topmost⟩
        (tally count kind.parts (p.enterExpr ⟨kind, line, topmost⟩ s).2) =
      (q.exprStep ⟨(q.exprKind kind ()).1, line, topmost⟩,
        tally count (Expr.parts ⟨kind, line, topmost⟩) s)

namespace Tallies

variable {s : σ}

theorem good_tally (h : p.Tallies q count good) (list : List Expr) (hs : good s) :
    good (tally count list s) := by
  induction list generalizing s with
  | nil => exact hs
  | cons e rest ih => exact ih (h.count_good e s hs)

/-- Expressions that are treated and counted one by one. -/
theorem exprs (h : p.Tallies q count good) {list : List Expr}
    (hlist : ∀ e ∈ list, ∀ s, good s → p.expr e s = (q.onExpr e, tally count e.parts s))
    (hs : good s) : p.exprs list s = ((q.exprs list ()).1, tally count (listParts list) s) := by
  induction list generalizing s with
  | nil => rfl
  | cons e rest ih =>
    obtain ⟨he, hrest⟩ := List.forall_mem_cons.mp hlist
    show ((p.expr e s).1 :: (p.exprs rest (p.expr e s).2).1, (p.exprs rest (p.expr e s).2).2) = _
    rw [he s hs, ih hrest (h.good_tally _ hs), listParts, tally_append]
    rfl

theorem expr (h : p.Tallies q count good) (e : Expr) (hs : good s) :
    p.expr e s = (q.onExpr e, tally count e.parts s) := by
  induction e using Expr.children_induction generalizing s with
  | _ e ih =>
    obtain ⟨kind, line, topmost⟩ := e
    have henter := h.enter_good ⟨kind, line, topmost⟩ s hs
    have hkind : p.exprKind kind (p.enterExpr ⟨kind, line, topmost⟩ s).2 =
        ((q.exprKind kind ()).1, tally count kind.parts (p.enterExpr ⟨kind, line, topmost⟩ s).2) := by
      rw [p.exprKind_eq, q.exprKind_eq, h.exprs (fun e he _ => ih e he) henter, kind.parts_eq]
    show p.leaveExpr ⟨(p.exprKind kind _).1, line, topmost⟩ (p.exprKind kind _).2 = _
    rw [hkind]
    exact h.node kind line topmost s hs

end Tallies

end Pass

end TwigToLatte
