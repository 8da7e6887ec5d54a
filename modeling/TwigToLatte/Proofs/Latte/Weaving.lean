import TwigToLatte.Proofs.Latte.Errors
import TwigToLatte.Proofs.Latte.Script

/-!
# What scripts are made of

The script of statements is made of events of the template itself, of the scripts of the blocks that
have their places among the statements, and of the scripts of embedded templates. What holds of
these holds of the whole.

* `Event.Plain` — events that begin or end no block and no statement, with texts that stop with none
  but the given errors.
* `Script.Woven` — what a script is made of.
* `woven_statements`, `woven_template` — **the scripts of statements and of templates are so made**.
* `Script.Within`, `Script.Within.run_error` — **running a script stops with none but the given
  errors**, if none of its events stops with another one.
-/

namespace TwigToLatte.Latte

open List

variable {C : RenderError → Prop}

/-! ## What scripts are made of -/

/-- An event of the template itself that begins or ends no block and no statement, and stops with none
but the given errors. -/
inductive Event.Plain (C : RenderError → Prop) : Event → Prop
  | define (line : Nat) : Plain C (.start none line)
  | text {r : Rendered} (h : r.Within C) : Plain C (.text r)
  | fresh {f : String → Rendered} (h : ∀ name, (f name).Within C) : Plain C (.fresh f)

/-- The expressions in the statements are written, or the reasons why not are among the errors. -/
def RootsExcused (C : RenderError → Prop) (parts : List Stmt) : Prop :=
  ∀ stmt ∈ parts, ∀ e ∈ stmt.kind.roots, e.All (Excused C)

namespace RootsExcused

variable {stmt : Stmt} {parts more : List Stmt}

theorem of_append (h : RootsExcused C (parts ++ more)) :
    RootsExcused C parts ∧ RootsExcused C more := forall_mem_append.mp h

theorem roots (h : RootsExcused C (stmt :: parts)) : ∀ e ∈ stmt.kind.roots, e.All (Excused C) :=
  h stmt mem_cons_self

theorem tail (h : RootsExcused C (stmt :: parts)) : RootsExcused C parts :=
  (forall_mem_cons.mp h).2

theorem single {e : Expr} (h : RootsExcused C (stmt :: parts)) (hroots : stmt.kind.roots = [e]) :
    e.All (Excused C) :=
  forall_mem_singleton.mp (hroots ▸ h.roots)

end RootsExcused

namespace Script

/-- A script that is made for statements, in their order, with given scripts of blocks. -/
inductive Woven (C : RenderError → Prop) (block : BlockScript) : List Stmt → Script → Prop
  | nil : Woven C block [] []
  | event {e : Event} {parts : List Stmt} {script : Script} (plain : e.Plain C)
      (rest : Woven C block parts script) : Woven C block parts (e :: script)
  | start {kind : Stmt.Kind} {line : Nat} {parts : List Stmt} {script : Script}
      (mem : ⟨kind, line⟩ ∈ parts) (rest : Woven C block parts script) :
      Woven C block parts (.start kind line :: script)
  | skip {stmt : Stmt} {parts : List Stmt} {script : Script} (place : stmt.place? = none)
      (embedded : stmt.embedded? = none) (rest : Woven C block parts script) :
      Woven C block (stmt :: parts) script
  | place {stmt : Stmt} {name : String} {parts : List Stmt} {script : Script}
      (place : stmt.place? = some name) (embedded : stmt.embedded? = none) (scope : Scope)
      (rest : Woven C block parts script) :
      Woven C block (stmt :: parts) (block name stmt.line scope ++ script)
  | embed {stmt : Stmt} {t : Template} {parts : List Stmt} {script : Script}
      (place : stmt.place? = none) (embedded : stmt.embedded? = some t) (scope : Scope)
      (rest : Woven C block parts script) :
      Woven C block (stmt :: parts) ((template t scope).map .inner ++ script)

namespace Woven

variable {block : BlockScript} {parts more : List Stmt} {script script' : Script}

theorem append (h : Woven C block parts script) (h' : Woven C block more script') :
    Woven C block (parts ++ more) (script ++ script') := by
  induction h with
  | nil => exact h'
  | event plain _ ih => exact .event plain ih
  | start mem _ ih => exact .start (mem_append_left _ mem) ih
  | skip place embedded _ ih => exact .skip place embedded ih
  | place place embedded scope _ ih =>
    rw [List.append_assoc]
    exact .place place embedded scope ih
  | embed place embedded scope _ ih =>
    rw [List.append_assoc]
    exact .embed place embedded scope ih

theorem text {r : Rendered} (h : r.Within C) : Woven C block [] [.text r] := .event (.text h) .nil

theorem close (h : Woven C block parts script) (r : String) :
    Woven C block parts (script ++ [.text r]) := by
  have hclose := h.append (text (.text r))
  rwa [append_nil] at hclose

end Woven

theorem woven_scopeOpen (block : BlockScript) (scope : Scope) {bindings : Option Expr}
    (only : Bool) (h : ∀ e ∈ bindings.toList, e.All (Excused C)) :
    Woven C block [] (scopeOpen scope bindings only) := by
  have hvariables : ∀ e : Expr, e.All (Excused C) → Woven C block [] (scopeVariables scope e) := by
    intro e he
    unfold scopeVariables
    split
    · exact .nil
    · exact .text (related_scopeTag (corresponds_within C scope)
        (forall_mem_itemParts.mp he.kind_parts))
    · have hvalue := within_expression scope e he
      exact .event (.fresh fun name => ((Rendered.Within.text _).append hvalue).append (.text _)) .nil
  refine .event (.text (.text _)) ?_
  cases bindings with
  | none => exact .nil
  | some e =>
    have he := hvariables e (forall_mem_singleton.mp h)
    cases only with
    | true => exact he.close _
    | false => exact he.append .nil

mutual

theorem woven_statement (block : BlockScript) : ∀ (stmt : Stmt) (scope : Scope),
    RootsExcused C stmt.parts → Woven C block stmt.parts (statement stmt block scope)
  | ⟨kind, line⟩, scope, h => by
    have hkind := woven_statementKind block line kind scope h
    cases kind <;> first | exact hkind | exact .start mem_cons_self hkind

theorem woven_statementKind (block : BlockScript) (line : Nat) :
    ∀ (kind : Stmt.Kind) (scope : Scope), RootsExcused C (Stmt.parts ⟨kind, line⟩) →
      Woven C block (Stmt.parts ⟨kind, line⟩) (statementKind kind line block scope)
  | .text _, _, _ | .comment _, _, _ | .verbatim _, _, _ | .flush, _, _ =>
    .skip rfl rfl (.text (.text _))
  | .print e, scope, h => .skip rfl rfl (.text ((within_expression scope e (h.single rfl)).map _))
  | .output e, scope, h => .skip rfl rfl (.text (within_expression scope e (h.single rfl)))
  | .block name, scope, _ => by
    have h : Woven C block [⟨.block name, line⟩] (block name line scope ++ []) :=
      .place rfl rfl scope .nil
    rw [append_nil] at h
    exact h
  | .loop key value sequence body otherwise _, scope, h => by
    obtain ⟨hbody, hotherwise⟩ := h.tail.of_append
    have hhead := related_loopHead (corresponds_within C scope) key value (h.single rfl)
    exact .skip rfl rfl (.event (.text hhead) (((woven_statements block body _ hbody).append
        (woven_otherwiseBody block otherwise scope hotherwise)).close _))
  | .branch branches otherwise, scope, h => by
    obtain ⟨hbranches, hotherwise⟩ := h.tail.of_append
    have htests := forall_mem_map.mp h.roots
    exact .skip rfl rfl (((woven_branchBodies block branches "if" scope htests hbranches).append
      (woven_otherwiseBody block otherwise scope hotherwise)).close _)
  | .assign targets, scope, h =>
    .skip rfl rfl (.text (related_assignTag (corresponds_within C scope)
      (forall_mem_map.mp h.roots)))
  | .capture _ body, scope, h =>
    .skip rfl rfl (.event (.text (.text _)) ((woven_statements block body scope h.tail).close _))
  | .inclusion included, scope, h =>
    .skip rfl rfl (.event (.text (.text _))
      (.event (.text (related_inclusionHead (corresponds_within C scope) _ h.roots))
        (.text (.text _))))
  | .embed included embedded, scope, h => by
    have hclose : Woven C block [] [.text "\x7b/embed\x7d", .text (tryClose included)] :=
      .event (.text (.text _)) (.text (.text _))
    have hhead := related_inclusionHead (corresponds_within C scope) "embed" h.roots
    exact .event (.text (.text _)) (.event (.text hhead) (.event (.text (.text _))
      (.embed rfl rfl scope hclose)))
  | .importAs template _, scope, h | .useBlocks template _, scope, h
  | .inherit template, scope, h =>
    .skip rfl rfl (.text (related_templateTag (corresponds_within C scope) _ _ "\x7d"
      (h.single rfl) (.text _)))
  | .scope bindings only body, scope, h =>
    .skip rfl rfl (((woven_scopeOpen block scope only h.roots).append
      (woven_statements block body scope h.tail)).close _)
  | .apply filter body, scope, h => by
    have hfilter := related_expressionAlone (corresponds_within C scope) filter (h.single rfl)
    have hhead := ((Rendered.Within.text "\x7bblock").append hfilter).append (.text "\x7d")
    exact .skip rfl rfl (.event (.text hhead) ((woven_statements block body scope h.tail).close _))
  | .autoescape _ body, scope, h | .sandbox body, scope, h =>
    .skip rfl rfl (woven_statements block body scope h.tail)
  | .cache key ttl tags body, scope, h => by
    obtain ⟨hkey, hoptions⟩ := forall_mem_cons.mp h.roots
    obtain ⟨httl, htags⟩ := forall_mem_append.mp hoptions
    have hscope := corresponds_within C scope
    have hhead := ((((Rendered.Within.text "\x7bcache ").append
      (within_expression scope key hkey)).append (related_cacheOption hscope "expire" httl)).append
        (related_cacheOption hscope "tags" htags)).append (.text "\x7d")
    exact .skip rfl rfl (.event (.text hhead) ((woven_statements block body scope h.tail).close _))
  | .evaluate e, scope, h => by
    have he := within_expression scope e (h.single rfl)
    exact .skip rfl rfl (.text (((Rendered.Within.text _).append he).append (.text _)))
  | .deprecated message, scope, h =>
    .skip rfl rfl (.text (related_deprecation (corresponds_within C scope) (h.single rfl) line))

theorem woven_statements (block : BlockScript) : ∀ (body : List Stmt) (scope : Scope),
    RootsExcused C (bodyParts body) → Woven C block (bodyParts body) (statements body block scope)
  | [], _, _ => .nil
  | stmt :: rest, scope, h =>
    (woven_statement block stmt scope h.of_append.1).append
      (woven_statements block rest scope h.of_append.2)

theorem woven_otherwiseBody (block : BlockScript) :
    ∀ (otherwise : Option (List Stmt)) (scope : Scope), RootsExcused C (optionalParts otherwise) →
      Woven C block (optionalParts otherwise) (otherwiseBody otherwise block scope)
  | none, _, _ => .nil
  | some body, scope, h => .event (.text (.text _)) (woven_statements block body scope h)

theorem woven_branchBodies (block : BlockScript) :
    ∀ (branches : List (Expr × List Stmt)) (tag : String) (scope : Scope),
      (∀ branch ∈ branches, branch.1.All (Excused C)) → RootsExcused C (branchParts branches) →
        Woven C block (branchParts branches) (branchBodies tag branches block scope)
  | [], _, _, _, _ => .nil
  | (test, body) :: rest, tag, scope, htests, h => by
    obtain ⟨htest, htests⟩ := forall_mem_cons.mp htests
    have hopen := Rendered.Within.text (C := C) ("\x7b" ++ tag ++ " ")
    have hhead := (hopen.append (within_expression scope test htest)).append (.text "\x7d")
    exact (Woven.event (.text hhead) (woven_statements block body scope h.of_append.1)).append
      (woven_branchBodies block rest "elseif" scope htests h.of_append.2)

end

theorem woven_macroDefs (block : BlockScript) {macros : List (String × MacroDef)} (scope : Scope)
    (h : RootsExcused C (macroParts macros))
    (hdefaults : ∀ e ∈ Template.defaults macros, ExcusedBeside C e) :
    Woven C block (macroParts macros) (macroDefs macros block scope) := by
  induction macros with
  | nil => exact .nil
  | cons definition rest ih =>
    obtain ⟨name, params, body, line⟩ := definition
    obtain ⟨hparams, hdefaults⟩ := forall_mem_append.mp hdefaults
    have hhead := related_macroHead (corresponds_within C scope) name
      (forall_mem_map.mp hparams)
    exact .event (.define line) (.event (.text hhead)
      ((woven_statements block body scope h.of_append.1).append
        (.event (.text (.text _)) (ih h.of_append.2 hdefaults))))

theorem written_subset (t : Template) : bodyParts t.body ++ macroParts t.macros ⊆ t.parts := by
  intro stmt hmem
  rw [Template.parts, mem_append, mem_append]
  exact (mem_append.mp hmem).imp_left .inl

/-- What the script of a template is made of: its own blocks are written to the depth of their
number. -/
theorem woven_template {t : Template} (scope : Scope)
    (h : RootsExcused C (bodyParts t.body ++ macroParts t.macros))
    (hdefaults : ∀ e ∈ Template.defaults t.macros, ExcusedBeside C e) :
    Woven C (blocks (blockBodies t.blocks) t.blocks.length)
      (bodyParts t.body ++ macroParts t.macros) (template t scope) := by
  cases t
  exact (woven_statements _ _ scope h.of_append.1).append
    (woven_macroDefs _ scope h.of_append.2 hdefaults)

/-! ## Blocks -/

theorem lookup_blockBodies (table : List (String × Block)) (name : String) :
    (blockBodies table).lookup name =
      (table.lookup name).map fun block => statements block.body := by
  induction table with
  | nil => rfl
  | cons entry rest ih =>
    obtain ⟨other, body, line⟩ := entry
    rw [blockBodies, lookup_cons, lookup_cons, ih]
    cases name == other <;> rfl

theorem blocks_succ (t : Template) (depth : Nat) (name : String) (line : Nat) (scope : Scope) :
    blocks (blockBodies t.blocks) (depth + 1) name line scope =
      match t.blocks.lookup name with
      | none => [.text (.fail (.undefinedBlock name line))]
      | some found =>
        .block name :: statements found.body (blocks (blockBodies t.blocks) depth) scope ++
          [.endBlock] := by
  rw [blocks]
  dsimp only
  rw [lookup_blockBodies]
  cases t.blocks.lookup name <;> rfl

end Script

/-! ## Errors of scripts -/

/-- The event stops with none but the given errors. -/
def Event.Within (C : RenderError → Prop) : Event → Prop
  | .text r => r.Within C
  | .fresh f => ∀ name, (f name).Within C
  | .inner event => event.Within C
  | .start _ _ | .block _ | .endBlock => True

theorem Event.Plain.within {e : Event} (h : e.Plain C) : e.Within C := by
  cases h with
  | define line => trivial
  | text h => exact h
  | fresh h => exact h

variable {out after : Output} {error : RenderError}

theorem Rendered.Within.run_error {r : Rendered} (h : r.Within C)
    (hrun : Emit.rendered r out = .error error after) : C error := by
  obtain ⟨text, _ | found⟩ := r
  · cases hrun
  · cases hrun
    exact h _ rfl

theorem Event.Within.run_error {event : Event} (h : event.Within C)
    (hrun : event.run out = .error error after) : C error := by
  induction event with
  | start kind line => cases hrun
  | text r => exact Rendered.Within.run_error h hrun
  | fresh f => exact Rendered.Within.run_error (h _) hrun
  | block name => cases hrun
  | endBlock => cases hrun
  | inner event ih => exact ih h hrun

namespace Script

/-- No event of the script stops with other than the given errors. -/
def Within (C : RenderError → Prop) (script : Script) : Prop := ∀ e ∈ script, e.Within C

variable {script : Script}

theorem Within.append {script' : Script} (h : Within C script) (h' : Within C script') :
    Within C (script ++ script') := forall_mem_append.mpr ⟨h, h'⟩

theorem Within.inner (h : Within C script) : Within C (script.map .inner) := by
  intro e hmem
  obtain ⟨e, he, rfl⟩ := mem_map.mp hmem
  exact h e he

theorem Within.block (h : Within C script) (name : String) :
    Within C (.block name :: script ++ [.endBlock]) :=
  Within.append (forall_mem_cons.mpr ⟨trivial, h⟩) (forall_mem_singleton.mpr trivial)

theorem Woven.within {block : BlockScript} {parts : List Stmt} (h : Woven C block parts script)
    (hblock : ∀ stmt ∈ parts, ∀ name, stmt.place? = some name →
      ∀ scope, Within C (block name stmt.line scope))
    (hembeds : EmbedsAll (fun t => ∀ scope, Within C (template t scope)) parts) :
    Within C script := by
  induction h with
  | nil => exact fun _ hmem => absurd hmem not_mem_nil
  | event plain _ ih => exact forall_mem_cons.mpr ⟨plain.within, ih hblock hembeds⟩
  | start _ _ ih => exact forall_mem_cons.mpr ⟨trivial, ih hblock hembeds⟩
  | skip _ embedded _ ih =>
    rw [EmbedsAll, filterMap_cons_none embedded] at hembeds
    exact ih (forall_mem_cons.mp hblock).2 hembeds
  | place place embedded scope _ ih =>
    rw [forall_mem_cons] at hblock
    rw [EmbedsAll, filterMap_cons_none embedded] at hembeds
    exact (hblock.1 _ place scope).append (ih hblock.2 hembeds)
  | embed _ embedded scope _ ih =>
    rw [EmbedsAll, filterMap_cons_some embedded, forall_mem_cons] at hembeds
    exact (hembeds.1 scope).inner.append (ih (forall_mem_cons.mp hblock).2 hembeds.2)

/-- **Running a script stops with none but the given errors.** -/
theorem Within.run_error (h : script.Within C) {out after : Output} {error : RenderError}
    (hrun : script.run out = .error error after) : C error := by
  induction script generalizing out with
  | nil => cases hrun
  | cons event rest ih =>
    rw [Script.Within, forall_mem_cons] at h
    rw [Script.run_cons_apply] at hrun
    split at hrun
    · exact ih h.2 hrun
    · cases hrun
      exact h.1.run_error ‹_›

end Script

end TwigToLatte.Latte
