import TwigToLatte.Dialect.Core
import TwigToLatte.Proofs.Pass.Steps
import TwigToLatte.Proofs.Template.Inheritance

/-!
# Parents of converted templates

A pass treats the parent of a template as it treats the template that the `extends` statement names, so
they stay the same.

* `Pass.Rewords.inherits_onTemplate` — a pass that rewords statements keeps parents.
* `inherits_plain` — marks and preparations have no part in them.
* `inherits_parse` — **a parsed template has the parent that its only `extends` statement names, and each
  pass of a conversion keeps it so**.
-/

namespace TwigToLatte

open List

/-! ## Passes -/

variable {stmt stmt' : Stmt} {t : Template}

theorem Stmt.Reworded.inherited?_eq (h : stmt.Reworded stmt') :
    stmt'.inherited? = stmt.inherited? := by
  cases h <;> rfl

theorem Stmt.Reworded.kind_of_embed {included : Inclusion} {inner : Template}
    (h : stmt.Reworded stmt') (hkind : stmt'.kind = .embed included inner) :
    stmt.kind = .embed included inner := by
  cases h with
  | same => exact hkind
  | print | output => cases hkind

theorem Stmt.inherited?_plain (stmt : Stmt) : stmt.plain.inherited? = stmt.inherited? := by
  obtain ⟨kind, line⟩ := stmt
  cases kind <;> rfl

theorem inherited_plain (parts : List Stmt) : inherited (parts.map Stmt.plain) = inherited parts := by
  rw [inherited, filterMap_map]
  exact congrArg (List.filterMap · parts) (funext Stmt.inherited?_plain)

namespace Pass.Rewords

variable {q : Pass Unit} (hq : q.Rewords)

include hq

theorem inherited?_onStmt (stmt : Stmt) :
    (q.onStmt stmt).inherited? = stmt.inherited?.map q.onExpr := by
  rw [onStmt, (hq.reworded _).inherited?_eq]
  obtain ⟨kind, line⟩ := stmt
  cases kind <;> rfl

theorem inherited_onStmt (parts : List Stmt) :
    inherited (parts.map q.onStmt) = (inherited parts).map q.onExpr := by
  rw [inherited, filterMap_map, inherited, map_filterMap]
  exact congrArg (List.filterMap · parts) (funext hq.inherited?_onStmt)

/-- An embedded template is one that was embedded, after the pass. -/
theorem embed_of_onStmt {stmt : Stmt} {included : Inclusion} {inner : Template}
    (h : (q.onStmt stmt).kind = .embed included inner) :
    ∃ included₀ inner₀, stmt.kind = .embed included₀ inner₀ ∧
      included = (q.inclusion included₀ ()).1 ∧ inner = q.onTemplate inner₀ := by
  obtain ⟨kind, line⟩ := stmt
  have hkind : q.onKind kind = .embed included inner :=
    (hq.reworded ⟨q.onKind kind, line⟩).kind_of_embed h
  cases kind with
  | embed included₀ inner₀ =>
    cases hkind
    exact ⟨included₀, inner₀, rfl, rfl, rfl⟩
  | _ => cases hkind

/-- A pass that rewords statements treats parents and `extends` statements alike. -/
theorem inherits_onTemplate {t : Template} (h : t.Inherits) : (q.onTemplate t).Inherits where
  parent := by
    rw [hq.onTemplate_eq, hq.bodyParts_onBody, hq.inherited_onStmt, h.parent, toList_optionalExpr]
  blocks := by
    rw [hq.onTemplate_eq, blocks_eq]
    refine forall_mem_map.mpr fun entry hentry => ?_
    rw [hq.bodyParts_onBody, hq.inherited_onStmt, h.blocks entry hentry]
    rfl
  macros := by
    rw [hq.onTemplate_eq, macros_eq]
    refine forall_mem_map.mpr fun entry hentry => ?_
    rw [hq.bodyParts_onBody, hq.inherited_onStmt, h.macros entry hentry]
    rfl
  embedded := by
    intro m hm stmt hstmt included inner hkind
    obtain ⟨m₀, hm₀, rfl⟩ := hq.module_onTemplate hm
    rw [hq.parts_onTemplate] at hstmt
    obtain ⟨stmt₀, hstmt₀, rfl⟩ := mem_map.mp hstmt
    obtain ⟨included₀, inner₀, hkind₀, rfl, rfl⟩ := hq.embed_of_onStmt hkind
    obtain ⟨hparts, hparent⟩ := h.embedded m₀ hm₀ stmt₀ hstmt₀ included₀ inner₀ hkind₀
    rw [hq.parts_onTemplate, hq.inherited_onStmt, hparts, hq.onTemplate_eq, hparent]
    exact ⟨rfl, rfl⟩

end Pass.Rewords

/-- Marks and preparations have no part in what is inherited. -/
theorem inherits_plain : t.plain.Inherits ↔ t.Inherits := by
  have hparent : ∀ t : Template, t.plain.parent = t.parent := fun t => by cases t; rfl
  have hown : inherited (bodyParts t.plain.body) = inherited (bodyParts t.body) := by
    obtain ⟨body, blocks, macros, parent, setup⟩ := t
    rw [Template.plain, parts_plainBody, inherited_plain]
  have hblocks : (∀ entry ∈ t.plain.blocks, inherited (bodyParts entry.2.body) = []) ↔
      ∀ entry ∈ t.blocks, inherited (bodyParts entry.2.body) = [] := by
    obtain ⟨body, blocks, macros, parent, setup⟩ := t
    rw [Template.plain, plainBlocks_eq, forall_mem_map]
    simp only [parts_plainBody, inherited_plain]
  have hmacros : (∀ entry ∈ t.plain.macros, inherited (bodyParts entry.2.body) = []) ↔
      ∀ entry ∈ t.macros, inherited (bodyParts entry.2.body) = [] := by
    obtain ⟨body, blocks, macros, parent, setup⟩ := t
    rw [Template.plain, plainMacros_eq, forall_mem_map]
    simp only [parts_plainBody, inherited_plain]
  -- The embedded templates of the two are those of each other, without marks.
  constructor
  · intro h
    refine ⟨by rw [← hown, h.parent, hparent], hblocks.mp h.blocks, hmacros.mp h.macros, ?_⟩
    intro m hm stmt hstmt included inner hkind
    have hplain : stmt.plain.kind = .embed included inner.plain := by
      obtain ⟨kind, line⟩ := stmt
      cases hkind
      rfl
    have hmem : stmt.plain ∈ m.plain.parts := by
      rw [Template.parts_plain]
      exact mem_map_of_mem hstmt
    have hinner := h.embedded m.plain hm.plain stmt.plain hmem included inner.plain hplain
    rwa [Template.parts_plain, inherited_plain, hparent] at hinner
  · intro h
    refine ⟨by rw [hown, h.parent, hparent], hblocks.mpr h.blocks, hmacros.mpr h.macros, ?_⟩
    intro m hm stmt hstmt included inner hkind
    obtain ⟨m₀, hm₀, rfl⟩ := Template.module_plain hm
    rw [Template.parts_plain] at hstmt
    obtain ⟨⟨kind, line⟩, hstmt₀, rfl⟩ := mem_map.mp hstmt
    cases kind with
    | embed included₀ inner₀ =>
      cases hkind
      rw [Template.parts_plain, inherited_plain, hparent]
      exact h.embedded m₀ hm₀ _ hstmt₀ included inner₀ rfl
    | _ => cases hkind

theorem inherits_stage {dialect : Dialect} {stage : Stage} (hstage : stage ∈ dialect.stages)
    (h : t.Inherits) : (stage.run t).Inherits := by
  obtain ⟨q, hq, hplain⟩ := Dialect.exists_rewords hstage
  rw [← inherits_plain, hplain]
  exact hq.inherits_onTemplate (inherits_plain.mpr h)

/-! ## Conversions -/

/-- **A parsed template has the parent that its only `extends` statement names.** The statement stands
outside blocks and macros; an embedded template has the parent that the statement around it names, and
no `extends` statement. Each pass of a conversion keeps all this, and so do all of them together. -/
theorem inherits_parse {dialect : Dialect} {source : Source} {t : Template}
    (h : (Template.parse dialect source).result = .ok t) :
    t.Inherits ∧ (∀ stage ∈ dialect.stages, ∀ t' : Template, t'.Inherits → (stage.run t').Inherits) ∧
      (dialect.runStages t).Inherits :=
  ⟨inherits_of_parse h, fun _ hstage _ => inherits_stage hstage,
    Dialect.runStages_induction (fun _ hstage _ => inherits_stage hstage) (inherits_of_parse h)⟩

/-- A template with a parent, named in a branch, and an embedded template in a block. -/
theorem inherits_parse_branch :
    let dialect : Dialect := { tags := Dialect.core.tags }
    let source : Source :=
      ⟨"\x7b% if 1 %\x7d\x7b% extends 'a' %\x7d\x7b% endif %\x7d\x7b% block b %\x7dx" ++
        "\x7b% embed 'e' %\x7d\x7b% endembed %\x7d\x7b% endblock %\x7d", "", none⟩
    ∃ t, (Template.parse dialect source).result = .ok t ∧
      t.parent.bind Expr.string? = some "a" ∧ (inherited (bodyParts t.body)).length = 1 ∧
      (t.parts.filterMap Stmt.embedded?).length = 1 ∧ t.Inherits ∧
      (dialect.runStages t).Inherits := by
  intro dialect source
  have hparse : (Template.parse dialect source).result.toOption.any (fun t =>
      decide (t.parent.bind Expr.string? = some "a" ∧ (inherited (bodyParts t.body)).length = 1 ∧
        (t.parts.filterMap Stmt.embedded?).length = 1)) = true := by
    decide +kernel
  obtain ⟨t, hresult, hfacts⟩ := eq_ok_of_any hparse
  obtain ⟨hparent, hlength, hembedded⟩ := of_decide_eq_true hfacts
  obtain ⟨hinherits, -, hconverted⟩ := inherits_parse hresult
  exact ⟨t, hresult, hparent, hlength, hembedded, hinherits, hconverted⟩

end TwigToLatte
