import TwigToLatte.Proofs.Latte.Weaving
import TwigToLatte.Proofs.Template.Origin

/-!
# What stops rendering

Rendering stops at an expression that has no text, at the place of a block that does not exist, or
at a macro with a reserved parameter, and nowhere else.

* `ExcusedStmt` — what a statement asks for itself is written, or the reason why not is given.
* `within_template` — **the script of a template stops with none but the errors of its parts, of
  undefined blocks and of reserved parameters**.
* `within_render` — so does rendering.
-/

namespace TwigToLatte.Latte

variable {C : RenderError → Prop}

/-- What a statement asks for itself is written, or the reason why not is one of the given
errors. -/
structure ExcusedStmt (C : RenderError → Prop) (stmt : Stmt) : Prop where
  roots : ∀ e ∈ stmt.kind.roots, e.All (Excused C)
  block : ∀ name, stmt.place? = some name → C (.undefinedBlock name stmt.line)

namespace Script

variable {t : Template}

/-- Blocks to any depth, if the undefined ones are among the errors. -/
theorem within_blocks_of_excused (h : ∀ stmt ∈ t.parts, ExcusedStmt C stmt)
    (hembeds : EmbedsAll (fun t => ∀ scope, Within C (template t scope)) t.parts) (depth : Nat)
    (name : String) (line : Nat) (scope : Scope) (hundefined : C (.undefinedBlock name line)) :
    Within C (blocks (blockBodies t.blocks) depth name line scope) := by
  induction depth generalizing name line scope with
  | zero => exact List.forall_mem_singleton.mpr (.fail hundefined)
  | succ depth ih =>
    rw [blocks_succ]
    cases hlookup : t.blocks.lookup name with
    | none => exact List.forall_mem_singleton.mpr (.fail hundefined)
    | some found =>
      have hsubset := Template.bodyParts_subset (mem_of_lookup_eq_some hlookup)
      have hwoven := woven_statements (C := C) (blocks (blockBodies t.blocks) depth) found.body scope
        fun stmt hmem => (h stmt (hsubset hmem)).roots
      exact Within.block (hwoven.within (fun stmt hmem other hplace scope =>
        ih other stmt.line scope ((h stmt (hsubset hmem)).block other hplace))
          (hembeds.of_subset hsubset)) name

/-- **Writing a template stops at nothing but what is wrong with its parts.** -/
theorem within_template (h : t.Satisfies (ExcusedStmt C) (ExcusedBeside C)) (scope : Scope) :
    Within C (template t scope) := by
  revert scope
  refine all_of_inherited (P := fun t => t.Satisfies (ExcusedStmt C) (ExcusedBeside C) →
    ∀ scope, Within C (template t scope)) ?_ t h
  intro t ih h scope
  obtain ⟨hstmts, hsatisfied⟩ := h.satisfied
  have hembeds : EmbedsAll (fun t => ∀ scope, Within C (template t scope)) t.parts :=
    fun inner hmem => ih inner hmem (hsatisfied inner hmem)
  have hwoven := woven_template scope (fun stmt hmem => (hstmts stmt (written_subset t hmem)).roots)
    (List.forall_mem_append.mp (h.exprs t .self)).1
  refine hwoven.within (fun stmt hmem name hplace scope => ?_) (hembeds.of_subset (written_subset t))
  exact within_blocks_of_excused hstmts hembeds _ name stmt.line scope
    ((hstmts stmt (written_subset t hmem)).block name hplace)

end Script

theorem within_render {dialect : Dialect} {name : String} {t : Template} {error : RenderError}
    (h : t.Satisfies (ExcusedStmt C) (ExcusedBeside C))
    (hrender : render dialect name t = .error error) : C error := by
  rw [render] at hrender
  split at hrender
  · cases hrender
  · rename_i found after hrun
    cases hrender
    rw [← Script.run_template] at hrun
    exact (Script.within_template h _).run_error hrun

end TwigToLatte.Latte
