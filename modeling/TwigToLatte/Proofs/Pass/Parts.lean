import TwigToLatte.Proofs.Expr.Calls
import TwigToLatte.Proofs.Pass.Idiom
import TwigToLatte.Proofs.Pass.Plain

/-!
# What the passes keep

The passes of a conversion change expressions, but they do so step by step, and a step hardly ever
makes an expression of a form that was not there.

* `Template.module_runStages` — the templates in a converted template come from those in the
  original one.
* `Pass.Keeps` — a property of expressions that the treatment of their parts and every step keep.
* `Pass.Keeps.exprs_onTemplate` — **all expressions of a template keep it**.
-/

namespace TwigToLatte

namespace Template

variable {t m : Template}

/-- Every template that is in a template after the passes of a conversion was in it before. -/
theorem module_runStages {dialect : Dialect} (h : (dialect.runStages t).Module m) :
    ∃ m₀, t.Module m₀ ∧ m.plain = m₀.rewritten dialect.optimizations.rawFilter := by
  have hplain := h.plain
  rw [Dialect.plain_runStages] at hplain
  obtain ⟨m₁, hm₁, heq⟩ := local_latteIdioms.module_onTemplate hplain
  obtain ⟨m₂, hm₂, rfl⟩ := (local_simplifyOutput _).module_onTemplate hm₁
  obtain ⟨m₃, hm₃, rfl⟩ := local_replaceSelfCalls.module_onTemplate hm₂
  obtain ⟨m₀, hm₀, rfl⟩ := module_plain hm₃
  exact ⟨m₀, hm₀, heq⟩

end Template

/-! ## Properties of expressions -/

namespace Pass

variable {q : Pass Unit} {P : Expr → Prop}

/-- An expression keeps the property when its parts are treated, when a step is taken on it, and
when it is marked as standing alone. -/
structure Keeps (q : Pass Unit) (P : Expr → Prop) : Prop where
  inside : ∀ {kind : Expr.Kind} {line : Nat} {topmost : Bool},
    P ⟨kind, line, topmost⟩ → P ⟨(q.exprKind kind ()).1, line, topmost⟩
  step : ∀ {e : Expr}, e.All P → (q.exprStep e).All P
  stmtStep : ∀ {stmt : Stmt}, (∀ e ∈ stmt.kind.roots, e.All P) →
    ∀ e ∈ (q.stmtStep stmt).kind.roots, e.All P

namespace Keeps

theorem onExpr (h : q.Keeps P) (e : Expr) (he : e.All P) : (q.onExpr e).All P := by
  induction e using Expr.children_induction with
  | _ e ih =>
    obtain ⟨kind, line, topmost⟩ := e
    refine h.step (e := ⟨(q.exprKind kind ()).1, line, topmost⟩)
      (Expr.all_iff.mpr ⟨h.inside (Expr.all_iff.mp he).1, ?_⟩)
    exact forall_mem_parts_exprKind fun x hx => ih x hx fun y hy => he y (Expr.parts_subset hx hy)

theorem exprs_onTemplate (h : q.Keeps P) (hlocal : q.Local) {t : Template} (ht : ∀ e ∈ t.exprs, P e) :
    ∀ e ∈ (q.onTemplate t).exprs, P e :=
  List.forall_mem_flatMap.mpr (hlocal.forall_mem_roots_of h.onExpr (fun _ => h.stmtStep)
    (List.forall_mem_flatMap.mp ht))

end Keeps

end Pass

end TwigToLatte
