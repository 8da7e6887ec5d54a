import TwigToLatte.Proofs.Pass.Parts

/-!
# The passes of a conversion, one by one

Marks and preparations apart, each pass of a conversion treats statements and expressions one by one.
Of statements it changes printed expressions only, and what it makes of expressions keeps their lines.

* `Expr.Stable` — a property of expressions that depends on what no pass changes.
* `Pass.Rewords` — **what the passes of a conversion have in common**.
* `Dialect.exists_rewords` — each stage does what such a pass does.
* `Dialect.runStages_induction` — what each stage keeps, a conversion keeps.
* `Dialect.forall_module_runStages` — and so do the templates inside the converted one.
-/

namespace TwigToLatte

open List

/-! ## Properties that last -/

/-- The property does not depend on how the parts of an expression are treated, nor on whether it
stands alone, and a new expression has it that is no test, has no parameters and stands on the line of
one that has it; if the new one is a call of `parent`, so is the old one. -/
structure Expr.Stable (P : Expr → Prop) : Prop where
  inside : ∀ (q : Pass Unit) {kind : Expr.Kind} {line : Nat} {topmost : Bool},
    P ⟨kind, line, topmost⟩ → P ⟨(q.exprKind kind ()).1, line, topmost⟩
  marked : ∀ {e : Expr} (topmost : Bool), P e → P { e with topmost }
  made : ∀ {e x : Expr}, P e → x.line = e.line → x.isTest = false → x.parameters = [] →
    (x.calledParent? = none ∨ x.calledParent? = e.calledParent?) → P x

/-- What the passes of a conversion have in common: they treat statements one by one, reword them
at most, and keep every stable property of expressions. -/
structure Pass.Rewords (q : Pass Unit) : Prop extends q.Local where
  reworded : ∀ stmt : Stmt, stmt.Reworded (q.stmtStep stmt)
  stable : ∀ {P : Expr → Prop}, Expr.Stable P → q.Keeps P

section

variable {P : Expr → Prop} (hP : Expr.Stable P)

include hP

variable {e : Expr} {stmt : Stmt}

/-- An expression made of parts of another one, on its line. -/
theorem Expr.Stable.all {x : Expr} (he : e.All P) (hline : x.line = e.line)
    (htest : x.isTest = false) (hparameters : x.parameters = []) (hcall : x.calledParent? = none)
    (hparts : ∀ y ∈ x.kind.parts, P y) : x.All P :=
  Expr.all_iff.mpr ⟨hP.made (Expr.all_iff.mp he).1 hline htest hparameters (.inl hcall), hparts⟩

/-! ## Calls of own macros -/

theorem Expr.Stable.selfCall (he : e.All P) : (e.selfCall?.getD e).All P := by
  obtain ⟨kind, line, topmost⟩ := e
  cases kind with
  | access object key list call defined =>
    rw [Expr.selfCall?]
    dsimp only
    split
    · cases key.string? with
      | none => exact he
      | some method =>
        -- The key becomes the name of the macro, the other parts stay.
        obtain ⟨hparts, hlist⟩ := forall_mem_append.mp he.kind_parts
        refine hP.all he rfl rfl rfl rfl ?_
        refine forall_mem_append.mpr ⟨(forall_mem_append.mp hparts).1, ?_⟩
        exact forall_mem_argumentParts.mpr
          (forall_mem_map.mpr (forall_mem_listParts.mp hlist))
    · exact he
  | _ => exact he

/-! ## Plain output -/

omit hP in
theorem Expr.All.dropRaw (he : e.All P) : e.dropRaw.All P := by
  unfold Expr.dropRaw
  split
  · rename_i operand list hkind
    have hparts := he.kind_parts
    rw [hkind] at hparts
    exact (forall_mem_append.mp hparts).1
  · exact he

theorem Expr.Stable.promoteBlock (h : ∀ e ∈ stmt.kind.roots, e.All P) :
    ∀ e ∈ stmt.promoteBlock.kind.roots, e.All P := by
  unfold Stmt.promoteBlock
  split
  · rename_i hkind
    rw [hkind] at h
    have he := forall_mem_singleton.mp h
    exact forall_mem_singleton.mpr (hP.all he rfl rfl rfl rfl he.kind_parts)
  · rename_i hkind
    rw [hkind] at h
    have he := forall_mem_singleton.mp h
    refine forall_mem_singleton.mpr (Expr.all_iff.mpr ⟨?_, forall_mem_nil _⟩)
    exact hP.made (Expr.all_iff.mp he).1 rfl rfl rfl (.inr rfl)
  · exact h

/-! ## Idioms -/

/-- A condition for a CSS class is made of the class and its condition. -/
theorem Expr.Stable.expandClasses {argument : Argument Expr} (h : argument.value.All P) :
    ∀ a ∈ expandClasses argument, a.value.All P := by
  unfold TwigToLatte.expandClasses
  split
  · rename_i items line topmost hvalue
    rw [hvalue] at h
    refine forall_mem_map.mpr fun item hitem => ?_
    obtain ⟨hkey, hvalue⟩ := forall_mem_itemParts.mp h.kind_parts item hitem
    -- Each item becomes a conditional whose alternative is `null`.
    refine hP.all h rfl rfl rfl rfl ?_
    refine forall_mem_append.mpr ⟨forall_mem_append.mpr ⟨hvalue, hkey⟩, ?_⟩
    exact hP.all h rfl rfl rfl rfl (forall_mem_nil _)
  · exact forall_mem_singleton.mpr h

theorem Expr.Stable.idiom (h : e.All P) : e.idiom.All P := by
  obtain ⟨kind, line, topmost⟩ := e
  unfold Expr.idiom
  split
  · rename_i operand name list hkind
    cases hkind
    split
    · exact (forall_mem_append.mp h.kind_parts).1
    · split
      · refine hP.all h rfl rfl rfl rfl fun x hx => ?_
        exact h.kind_parts x (mem_argumentParts_functionArguments hx)
      · exact h
  · rename_i kind list defined hkind
    cases hkind
    have hlist := forall_mem_argumentParts.mp h.kind_parts
    refine hP.all h rfl rfl rfl rfl (forall_mem_argumentParts.mpr ?_)
    exact forall_mem_flatMap.mpr fun a ha => hP.expandClasses (hlist a ha)
  · exact h

theorem Expr.Stable.idiomStmt (h : ∀ e ∈ stmt.kind.roots, e.All P) :
    ∀ e ∈ stmt.idiom.kind.roots, e.All P := by
  unfold Stmt.idiom
  split
  · rename_i e hkind
    rw [hkind] at h
    have he := forall_mem_singleton.mp h
    have hmarked : Expr.All P { e with topmost := true } :=
      Expr.all_iff.mpr ⟨hP.marked true (Expr.all_iff.mp he).1, he.kind_parts⟩
    dsimp only
    split <;> exact forall_mem_singleton.mpr hmarked
  · exact h

end

/-! ## The three passes -/

theorem rewords_replaceSelfCalls : replaceSelfCalls.Rewords where
  toLocal := local_replaceSelfCalls
  reworded := .same
  stable hP := ⟨hP.inside _, hP.selfCall, id⟩

theorem rewords_simplifyOutput (rawFilter : Bool) : (simplifyOutput rawFilter).Rewords where
  toLocal := local_simplifyOutput rawFilter
  reworded := Stmt.reworded_promoteBlock
  stable hP := by
    refine ⟨hP.inside _, fun {e} he => ?_, hP.promoteBlock⟩
    cases rawFilter with
    | false => exact he
    | true => exact he.dropRaw

theorem rewords_latteIdioms : latteIdioms.Rewords where
  toLocal := local_latteIdioms
  reworded := Stmt.reworded_idiom
  stable hP := ⟨hP.inside _, hP.idiom, hP.idiomStmt⟩

variable {dialect : Dialect} {t : Template}

/-- Each stage of a conversion does what one of these passes does, marks and preparations apart. -/
theorem Dialect.exists_rewords {stage : Stage} (h : stage ∈ dialect.stages) :
    ∃ q : Pass Unit, q.Rewords ∧ ∀ t, (stage.run t).plain = q.onTemplate t.plain := by
  rw [stages_eq, mem_cons, mem_cons, mem_singleton] at h
  rcases h with rfl | rfl | rfl
  · exact ⟨_, rewords_replaceSelfCalls, mimics_selfCalls.plain_run rfl⟩
  · exact ⟨_, rewords_simplifyOutput _, (mimics_simplify _).plain_run trivial⟩
  · exact ⟨_, rewords_latteIdioms, mimics_latteIdioms.plain_run trivial⟩

theorem Dialect.runStages_induction {Q : Template → Prop}
    (h : ∀ stage ∈ dialect.stages, ∀ t, Q t → Q (stage.run t)) (ht : Q t) :
    Q (dialect.runStages t) :=
  List.foldlRecOn _ _ ht fun t ht stage hstage => h stage hstage t ht

/-- What each of these passes keeps, and marks and preparations have no part in, a conversion keeps of
the template and of those embedded in it. -/
theorem Dialect.forall_module_runStages {P : Template → Prop}
    (hplain : ∀ m : Template, P m.plain ↔ P m)
    (hpass : ∀ q : Pass Unit, q.Rewords → ∀ m, P m → P (q.onTemplate m))
    (h : ∀ m, t.Module m → P m) : ∀ m, (dialect.runStages t).Module m → P m := by
  refine runStages_induction (Q := fun t => ∀ m, t.Module m → P m)
    (fun stage hstage t ht m hm => ?_) h
  obtain ⟨q, hq, hrun⟩ := exists_rewords hstage
  have hafter := hm.plain
  rw [hrun] at hafter
  obtain ⟨m₁, hm₁, heq⟩ := hq.module_onTemplate hafter
  obtain ⟨m₀, hm₀, rfl⟩ := Template.module_plain hm₁
  rw [← hplain, heq]
  exact hpass q hq _ ((hplain m₀).mpr (ht m₀ hm₀))

/-! ## Linked templates -/

theorem Template.linked_plain (t : Template) : t.plain.Linked ↔ t.Linked := by
  refine linked_iff_of_parts Stmt.place?_plain t.parts_plain parts_plainBody ?_
  obtain ⟨body, blocks, macros, parent, setup⟩ := t
  exact plainBlocks_eq blocks

theorem Pass.Local.linked_onTemplate {q : Pass Unit} (hq : q.Local) (t : Template) :
    (q.onTemplate t).Linked ↔ t.Linked := by
  refine Template.linked_iff_of_parts
    (fun stmt => (hq.alike _).place_eq.trans (q.place?_onKind stmt)) (hq.parts_onTemplate t)
    hq.bodyParts_onBody ?_
  rw [hq.onTemplate_eq, q.blocks_eq]

/-- The passes of a conversion keep templates linked, in whatever order they run. -/
theorem Dialect.allLinked_runStages (dialect : Dialect) (h : t.AllLinked) :
    (dialect.runStages t).AllLinked :=
  forall_module_runStages Template.linked_plain
    (fun _ hq m hm => (hq.linked_onTemplate m).mpr hm) h

end TwigToLatte
