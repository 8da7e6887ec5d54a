import TwigToLatte.Proofs.Latte.Correspondence
import TwigToLatte.Proofs.Pass.Plain

/-!
# What rendering depends on

* `expression_agree` — **the text of an expression depends on names and bound variables only**.
* `statements_plain` — statements ask only for the blocks whose places they hold.
* `template_plain` — **what is written for a template does not depend on the marks of its loops**,
  nor on the rest of the dialect.
* `render_eq_of_plain_eq` — the same for the code and the line map.
* `render_runStages` — the code of a converted template, by passes without state.
-/

namespace TwigToLatte.Latte

/-! ## Texts -/

variable {scope scope' : Scope}

theorem Scope.Agrees.corresponds (h : scope.Agrees scope') :
    Corresponds (fun _ => True) Eq scope scope' where
  toAgrees := h
  text _ := rfl
  fail _ := rfl
  append ha hb := ha ▸ hb ▸ rfl
  map ha _ := ha ▸ rfl

theorem all_excused (e : Expr) : e.All (Excused fun _ => True) := fun _ _ _ _ => trivial

theorem expression_agree (h : scope.Agrees scope') (e : Expr) :
    expression scope e = expression scope' e :=
  related_expression h.corresponds e (all_excused e)

theorem scopeOpen_agree (h : scope.Agrees scope') (bindings : Option Expr) (only : Bool) :
    scopeOpen scope bindings only = scopeOpen scope' bindings only := by
  have hvariables : ∀ e, scopeVariables scope e = scopeVariables scope' e := by
    intro e
    unfold scopeVariables
    split
    · rfl
    · rw [related_scopeTag h.corresponds fun _ _ => ⟨all_excused _, all_excused _⟩]
    · simp only [expression_agree h]
  simp only [scopeOpen, hvariables]

/-! ## Statements and templates -/

/-- The scope inside of loops with these variables. -/
def Scope.inLoops (scope : Scope) (loops : List (Option String × String)) : Scope :=
  loops.foldl (fun scope loop => scope.bind loop.1 loop.2) scope

theorem Scope.Agrees.inLoops (h : scope.Agrees scope') (loops : List (Option String × String)) :
    (scope.inLoops loops).Agrees (scope'.inLoops loops) := by
  induction loops generalizing scope scope' with
  | nil => exact h
  | cons loop rest ih => exact ih (h.bind loop.1 loop.2)

/-- The scopes agree, and the writers write the blocks alike that have places among the statements,
inside of whatever loops. -/
structure Alike (block block' : BlockWriter) (scope scope' : Scope) (parts : List Stmt) : Prop where
  agrees : scope.Agrees scope'
  blocks : ∀ name ∈ parts.filterMap Stmt.place?, ∀ line loops,
    block name line (scope.inLoops loops) = block' name line (scope'.inLoops loops)

namespace Alike

variable {block block' : BlockWriter} {parts more : List Stmt}

theorem bind (h : Alike block block' scope scope' parts) (key : Option String) (value : String) :
    Alike block block' (scope.bind key value) (scope'.bind key value) parts :=
  ⟨h.agrees.bind key value, fun name hname line loops =>
    h.blocks name hname line ((key, value) :: loops)⟩

theorem append (h : Alike block block' scope scope' (parts ++ more)) :
    Alike block block' scope scope' parts ∧ Alike block block' scope scope' more := by
  obtain ⟨hagrees, hblocks⟩ := h
  rw [List.filterMap_append, List.forall_mem_append] at hblocks
  exact ⟨⟨hagrees, hblocks.1⟩, ⟨hagrees, hblocks.2⟩⟩

theorem tail {stmt : Stmt} (h : Alike block block' scope scope' (stmt :: parts)) :
    Alike block block' scope scope' parts :=
  (show Alike block block' scope scope' ([stmt] ++ parts) from h).append.2

end Alike

/-- Bodies of blocks under the same names that are written alike. -/
abbrev BodiesAlike : BlockBodies → BlockBodies → Prop :=
  List.Forall₂ fun body body' => body.1 = body'.1 ∧ ∀ (block block' : BlockWriter) scope scope',
    (∀ parts, Alike block block' scope scope' parts) → body.2 block scope = body'.2 block' scope'

section

variable {bodies bodies' : BlockBodies} {block block' : BlockWriter}
  (h : BodiesAlike bodies bodies')

include h

theorem lookup_agree (halike : ∀ parts, Alike block block' scope scope' parts) (name : String) :
    (bodies.lookup name).map (· block scope) = (bodies'.lookup name).map (· block' scope') := by
  induction h with
  | nil => rfl
  | @cons body body' _ _ hhead _ ih =>
    rw [List.lookup_cons, List.lookup_cons, hhead.1]
    cases name == body'.1 with
    | true => exact congrArg some (hhead.2 _ _ _ _ halike)
    | false => exact ih

theorem writeBlocks_agree (depth : Nat) (name : String) (line : Nat) {scope scope' : Scope}
    (hscope : scope.Agrees scope') :
    writeBlocks bodies depth name line scope = writeBlocks bodies' depth name line scope' := by
  induction depth generalizing name line scope scope' with
  | zero => rfl
  | succ depth ih =>
    have hlookup := lookup_agree h
      (fun _ => ⟨hscope, fun name _ line loops => ih name line (hscope.inLoops loops)⟩) name
    rw [writeBlocks, writeBlocks, inlineBlock, inlineBlock]
    cases hbody : bodies.lookup name <;> cases hbody' : bodies'.lookup name <;>
      rw [hbody, hbody'] at hlookup
    · cases hlookup
    · cases hlookup
    · have hwritten := Option.some.inj hlookup
      dsimp only at hwritten ⊢
      rw [hwritten]

end

mutual

theorem statement_plain {block block' : BlockWriter} {scope scope' : Scope} :
    ∀ stmt : Stmt, Alike block block' scope scope' stmt.parts →
      statement stmt.plain block scope = statement stmt block' scope'
  | ⟨kind, line⟩, h => by
    have hkind := statementKind_plain line kind h
    cases kind <;> simp only [Stmt.plain, Stmt.Kind.plain, statement] at hkind ⊢ <;> rw [hkind]

theorem statementKind_plain {block block' : BlockWriter} {scope scope' : Scope} (line : Nat) :
    ∀ kind : Stmt.Kind, Alike block block' scope scope' (Stmt.parts ⟨kind, line⟩) →
      statementKind kind.plain line block scope = statementKind kind line block' scope'
  | .text _, _ | .comment _, _ | .verbatim _, _ | .flush, _ => by
    simp only [Stmt.Kind.plain, statementKind]
  | .print _, h | .output _, h | .evaluate _, h => by
    simp only [Stmt.Kind.plain, statementKind, expression_agree h.agrees]
  | .block name, h => h.blocks name (List.mem_singleton_self name) line []
  | .loop key value _ body otherwise _, h => by
    obtain ⟨hbody, hotherwise⟩ := h.tail.append
    simp only [Stmt.Kind.plain, statementKind,
      related_loopHead h.agrees.corresponds _ _ (all_excused _),
      statements_plain body (hbody.bind key value), otherwiseBody_plain otherwise hotherwise]
  | .branch branches otherwise, h => by
    obtain ⟨hbranches, hotherwise⟩ := h.tail.append
    simp only [Stmt.Kind.plain, statementKind, branchBodies_plain "if" branches hbranches,
      otherwiseBody_plain otherwise hotherwise]
  | .assign _, h => by
    simp only [Stmt.Kind.plain, statementKind,
      related_assignTag h.agrees.corresponds fun _ _ => all_excused _]
  | .capture _ body, h | .autoescape _ body, h | .sandbox body, h => by
    simp only [Stmt.Kind.plain, statementKind, statements_plain body h.tail]
  | .inclusion _, h => by
    simp only [Stmt.Kind.plain, statementKind, openInclusion_eq,
      related_inclusionHead h.agrees.corresponds _ fun _ _ => all_excused _]
  | .embed _ embedded, h => by
    rw [Stmt.Kind.plain, statementKind, statementKind, openInclusion_eq, openInclusion_eq,
      related_inclusionHead h.agrees.corresponds _ fun _ _ => all_excused _,
      template_plain embedded h.agrees]
  | .importAs _ _, h | .useBlocks _ _, h | .inherit _, h => by
    simp only [Stmt.Kind.plain, statementKind, nameTemplate_eq,
      related_templateTag h.agrees.corresponds _ _ _ (all_excused _) rfl]
  | .scope bindings only body, h => by
    simp only [Stmt.Kind.plain, statementKind, scopeOpen_agree h.agrees,
      statements_plain body h.tail]
  | .apply filter body, h => by
    rw [Stmt.Kind.plain, statementKind, statementKind,
      related_expressionAlone h.agrees.corresponds filter (all_excused _),
      statements_plain body h.tail]
  | .cache key ttl tags body, h => by
    have hoption := fun name e =>
      related_cacheOption h.agrees.corresponds (e := e) name fun _ _ => all_excused _
    rw [Stmt.Kind.plain, statementKind, statementKind, expression_agree h.agrees, hoption, hoption,
      statements_plain body h.tail]
  | .deprecated _, h => by
    simp only [Stmt.Kind.plain, statementKind,
      related_deprecation h.agrees.corresponds (all_excused _)]

theorem statements_plain {block block' : BlockWriter} {scope scope' : Scope} :
    ∀ body : List Stmt, Alike block block' scope scope' (bodyParts body) →
      statements (plainBody body) block scope = statements body block' scope'
  | [], _ => by rw [plainBody, statements, statements]
  | stmt :: rest, h => by
    obtain ⟨hstmt, hrest⟩ := h.append
    rw [plainBody, statements, statements, statement_plain stmt hstmt, statements_plain rest hrest]

theorem otherwiseBody_plain {block block' : BlockWriter} {scope scope' : Scope} :
    ∀ otherwise : Option (List Stmt), Alike block block' scope scope' (optionalParts otherwise) →
      otherwiseBody (plainOptional otherwise) block scope = otherwiseBody otherwise block' scope'
  | none, _ => by rw [plainOptional, otherwiseBody, otherwiseBody]
  | some body, h => by rw [plainOptional, otherwiseBody, otherwiseBody, statements_plain body h]

theorem branchBodies_plain {block block' : BlockWriter} {scope scope' : Scope} (tag : String) :
    ∀ branches : List (Expr × List Stmt),
      Alike block block' scope scope' (branchParts branches) →
        branchBodies tag (plainBranches branches) block scope =
          branchBodies tag branches block' scope'
  | [], _ => by rw [plainBranches, branchBodies, branchBodies]
  | (test, body) :: rest, h => by
    obtain ⟨hbody, hrest⟩ := h.append
    rw [plainBranches, branchBodies, branchBodies, expression_agree h.agrees,
      statements_plain body hbody, branchBodies_plain "elseif" rest hrest]

theorem macroDefs_plain {block block' : BlockWriter} {scope scope' : Scope}
    (h : ∀ parts, Alike block block' scope scope' parts) : ∀ macros : List (String × MacroDef),
      macroDefs (plainMacros macros) block scope = macroDefs macros block' scope'
  | [] => by rw [plainMacros, macroDefs, macroDefs]
  | (name, ⟨params, body, _⟩) :: rest => by
    have hhead : macroHead scope name params = macroHead scope' name params :=
      related_macroHead (h []).agrees.corresponds name
        fun _ _ => ⟨all_excused _, fun _ => trivial⟩
    rw [plainMacros, macroDefs, macroDefs, hhead, statements_plain body (h _),
      macroDefs_plain h rest]

theorem blockBodies_plain : ∀ blocks : List (String × Block),
    BodiesAlike (blockBodies (plainBlocks blocks)) (blockBodies blocks)
  | [] => .nil
  | (_, ⟨body, _⟩) :: rest =>
    .cons ⟨rfl, fun _ _ _ _ h => statements_plain body (h _)⟩ (blockBodies_plain rest)

/-- What is written for a template depends neither on its marks nor on the rest of the dialect. -/
theorem template_plain {scope scope' : Scope} : ∀ t : Template, scope.Agrees scope' →
    template t.plain scope = template t scope'
  | ⟨body, blocks, macros, _, _⟩, h => by
    have hwritten := fun name line loops =>
      writeBlocks_agree (blockBodies_plain blocks) blocks.length name line (h.inLoops loops)
    have hblock := fun parts => (⟨h, fun name _ => hwritten name⟩ : Alike _ _ _ _ parts)
    rw [Template.plain, template, template, length_plainBlocks, statements_plain body (hblock _),
      macroDefs_plain hblock macros]

end

/-- Templates that are the same but for marks and preparations have the same code, and so they do
in a dialect with the same names. -/
theorem render_eq_of_plain_eq {dialect dialect' : Dialect} {name : String} {t t' : Template}
    (hfilters : ∀ name, dialect.latteFilter name = dialect'.latteFilter name)
    (hfunctions : ∀ name, dialect.latteFunction name = dialect'.latteFunction name)
    (h : t.plain = t'.plain) : render dialect name t = render dialect' name t' := by
  have hscope : Scope.Agrees { dialect, template := name }
      { dialect := dialect', template := name } := ⟨hfilters, hfunctions, rfl, rfl⟩
  rw [render, render, ← template_plain t (.refl _), h, template_plain t' hscope]

/-- The code of a template after the passes of a conversion. -/
theorem render_runStages (dialect : Dialect) (name : String) (t : Template) :
    render dialect name (dialect.runStages t) =
      render dialect name (t.rewritten dialect.optimizations.rawFilter) := by
  rw [render, render, ← Dialect.plain_runStages, template_plain _ (.refl _)]

end TwigToLatte.Latte
