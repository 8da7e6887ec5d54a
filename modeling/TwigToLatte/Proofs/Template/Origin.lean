import TwigToLatte.Proofs.Template.Checks
import TwigToLatte.Proofs.Template.Derivation

/-!
# Where the statements of a template come from

Every statement of a template was read at some place, and so were the parent of a template and the
defaults of its macros. What is known of them at their places therefore holds of all of them, in
the template and in the templates that it embeds.

* `Scope.HoldersAll`, `Scope.Plain` — imported macros are known by variables.
* `Template.Satisfies` — what holds throughout a template and the templates embedded in it.
* `Describes` — what is known of statements, parents and defaults where they are read.
* `DerivesBy.satisfied` — **statements and scopes satisfy it**, by induction over derivations.
* `describes_of_admits` — what is known of expressions where they are read.
* `Template.Lined`, `Scope.Lined`, `DerivesBy.lined` — the lines of all that is read.
-/

namespace TwigToLatte

open List

/-! ## Imported names -/

/-- What holds of the expressions through which imported macros are called. -/
def Scope.HoldersAll (N : Expr → Prop) (scope : Scope) : Prop :=
  ∀ imports ∈ scope.imports, ∀ entry ∈ imports, ∀ e, entry.2.object = some e → N e

/-- Imported macros are known by the variables that hold their templates. -/
abbrev Scope.Plain (scope : Scope) : Prop :=
  scope.HoldersAll fun e => ∃ name line, e = Expr.name name line

namespace Scope.HoldersAll

variable {N : Expr → Prop} {scope : Scope}

theorem enter (h : scope.HoldersAll N) : scope.enter.HoldersAll N :=
  forall_mem_cons.mpr ⟨forall_mem_nil _, h⟩

theorem openBlock (h : scope.HoldersAll N) (name : String) (line : Nat) :
    (scope.openBlock name line).HoldersAll N :=
  forall_mem_cons.mpr ⟨forall_mem_nil _, h⟩

theorem leave (h : scope.HoldersAll N) : scope.leave.HoldersAll N := by
  rw [Scope.leave]
  split
  · exact fun imports hmem => h imports (mem_of_mem_tail hmem)
  · exact h

variable {symbol : ImportedSymbol}

theorem addSymbol (h : scope.HoldersAll N) (kind : SymbolKind) (localName : String)
    (hsymbol : ∀ e, symbol.object = some e → N e) :
    (scope.addSymbol kind localName symbol).HoldersAll N := by
  rw [Scope.addSymbol]
  split
  · exact h
  · rename_i inner outer himports
    rw [HoldersAll, himports, forall_mem_cons] at h
    exact forall_mem_cons.mpr ⟨forall_mem_cons.mpr ⟨hsymbol, h.1⟩, h.2⟩

theorem symbol? (h : scope.HoldersAll N) {kind : SymbolKind} {localName : String} {e : Expr}
    (hsymbol : scope.symbol? kind localName = some symbol) (he : symbol.object = some e) : N e := by
  obtain ⟨imports, hmem, hlookup⟩ := exists_of_findSome?_eq_some hsymbol
  obtain ⟨before, after, rfl, -⟩ := lookup_eq_some_iff.mp hlookup
  exact h _ hmem _ (mem_append_right _ mem_cons_self) e he

end Scope.HoldersAll

/-! ## Templates -/

/-- What holds of all statements of a template, and of its parent and the defaults of its macros,
and likewise of the templates embedded in it. -/
structure Template.Satisfies (Q : Stmt → Prop) (E : Expr → Prop) (t : Template) : Prop where
  statements : ∀ m, t.Module m → ∀ stmt ∈ m.parts, Q stmt
  exprs : ∀ m, t.Module m → ∀ e ∈ Template.defaults m.macros ++ m.parent.toList, E e

/-- The statements have the property, and the templates that they embed satisfy it. -/
def Satisfied (Q : Stmt → Prop) (E : Expr → Prop) (parts : List Stmt) : Prop :=
  (∀ stmt ∈ parts, Q stmt) ∧ EmbedsAll (Template.Satisfies Q E) parts

section

variable {Q : Stmt → Prop} {E : Expr → Prop} {parts more : List Stmt}

namespace Satisfied

theorem nil : Satisfied Q E [] := ⟨forall_mem_nil _, .nil⟩

theorem append (h : Satisfied Q E parts) (h' : Satisfied Q E more) : Satisfied Q E (parts ++ more) :=
  ⟨forall_mem_append.mpr ⟨h.1, h'.1⟩, h.2.append h'.2⟩

theorem of_append (h : Satisfied Q E (parts ++ more)) : Satisfied Q E parts ∧ Satisfied Q E more := by
  obtain ⟨hparts, hmore⟩ := forall_mem_append.mp h.1
  obtain ⟨hembeds, hembeds'⟩ := embedsAll_append.mp h.2
  exact ⟨⟨hparts, hembeds⟩, hmore, hembeds'⟩

theorem flatMap {α : Type} {list : List α} {f : α → List Stmt}
    (h : ∀ a ∈ list, Satisfied Q E (f a)) : Satisfied Q E (list.flatMap f) :=
  ⟨forall_mem_flatMap.mpr fun a ha => (h a ha).1, .flatMap fun a ha => (h a ha).2⟩

theorem stmt {stmt : Stmt} (hQ : Q stmt)
    (hembed : ∀ inner, stmt.embedded? = some inner → inner.Satisfies Q E)
    (h : Satisfied Q E stmt.kind.parts) : Satisfied Q E stmt.parts := by
  have hself : Satisfied Q E [stmt] := by
    refine ⟨forall_mem_singleton.mpr hQ, fun inner hmem => ?_⟩
    obtain ⟨_, hmem, hinner⟩ := mem_filterMap.mp hmem
    rw [mem_singleton.mp hmem] at hinner
    exact hembed inner hinner
  rw [stmt.parts_eq]
  exact hself.append h

end Satisfied

variable {t : Template}

/-- A template of its own statements and of those that it embeds. -/
theorem Template.satisfies_of_parts (h : Satisfied Q E t.parts)
    (hexprs : ∀ e ∈ Template.defaults t.macros ++ t.parent.toList, E e) : t.Satisfies Q E := by
  have hmodule : ∀ m, t.Module m → m = t ∨ m.Satisfies Q E := by
    intro m hm
    induction hm with
    | self => exact .inl rfl
    | embedded outer mem embeds ih =>
      refine .inr ?_
      rcases ih with rfl | ih
      · exact h.2 _ (mem_filterMap.mpr ⟨_, mem, embeds⟩)
      · exact ⟨fun m hm => ih.statements m (.trans (.embedded .self mem embeds) hm),
          fun m hm => ih.exprs m (.trans (.embedded .self mem embeds) hm)⟩
  refine ⟨fun m hm => ?_, fun m hm => ?_⟩
  · rcases hmodule m hm with rfl | hm
    · exact h.1
    · exact hm.statements m .self
  · rcases hmodule m hm with rfl | hm
    · exact hexprs
    · exact hm.exprs m .self

theorem Template.Satisfies.satisfied (h : t.Satisfies Q E) : Satisfied Q E t.parts := by
  refine ⟨h.statements t .self, fun inner hmem => ?_⟩
  obtain ⟨stmt, hstmt, hinner⟩ := mem_filterMap.mp hmem
  have hmodule : t.Module inner := .embedded .self hstmt hinner
  exact ⟨fun m hm => h.statements m (hmodule.trans hm), fun m hm => h.exprs m (hmodule.trans hm)⟩

/-- The lines of the blocks and macros of a template. -/
def Template.tagLines (t : Template) : List Nat :=
  t.blocks.map (·.2.line) ++ t.macros.map (·.2.line)

/-- What holds of a scope: of the holders of imported macros, of the lines and bodies of blocks and
macros, of the defaults of macros and of the parent. -/
structure Scope.Satisfies (L : Nat → Prop) (N : Expr → Prop) (Q : Stmt → Prop) (E : Expr → Prop)
    (scope : Scope) : Prop where
  holders : scope.HoldersAll N
  blocks : ∀ entry ∈ scope.blocks.entries,
    L entry.2.line ∧ Satisfied Q E (bodyParts entry.2.body)
  macros : ∀ entry ∈ scope.macros.entries, L entry.2.line ∧
    Satisfied Q E (bodyParts entry.2.body) ∧ ∀ param ∈ entry.2.params, E param.2
  parent : ∀ e ∈ scope.parent.toList, E e

namespace Scope.Satisfies

variable {L : Nat → Prop} {N : Expr → Prop} {scope : Scope}

section

variable (h : scope.Satisfies L N Q E)

include h

theorem of_eq {scope' : Scope} (heq : scope' = scope) : scope'.Satisfies L N Q E := heq ▸ h

theorem leave : scope.leave.Satisfies L N Q E := by
  have hholders := h.holders.leave
  rw [leave_eq] at hholders ⊢
  exact ⟨hholders, h.blocks, h.macros, h.parent⟩

theorem enter : scope.enter.Satisfies L N Q E :=
  ⟨h.holders.enter, h.blocks, h.macros, h.parent⟩

theorem openBlock (name : String) {line : Nat} (hline : L line) :
    (scope.openBlock name line).Satisfies L N Q E :=
  ⟨h.holders.openBlock name line, Registry.forall_mem_insert h.blocks ⟨hline, .nil⟩, h.macros,
    h.parent⟩

theorem closeBlock (name : String) {block : Block}
    (hline : L block.line) (hblock : Satisfied Q E (bodyParts block.body)) :
    (scope.closeBlock name block).Satisfies L N Q E :=
  leave ⟨h.holders, Registry.forall_mem_insert h.blocks ⟨hline, hblock⟩, h.macros, h.parent⟩

theorem closeMacro (name : String) {definition : MacroDef}
    (hline : L definition.line) (hbody : Satisfied Q E (bodyParts definition.body))
    (hparams : ∀ param ∈ definition.params, E param.2) :
    (scope.closeMacro name definition).Satisfies L N Q E :=
  ⟨h.leave.holders, h.leave.blocks,
    Registry.forall_mem_insert h.leave.macros ⟨hline, hbody, hparams⟩, h.leave.parent⟩

theorem addSymbol (kind : SymbolKind) (localName : String)
    {symbol : ImportedSymbol} (hsymbol : ∀ e, symbol.object = some e → N e) :
    (scope.addSymbol kind localName symbol).Satisfies L N Q E := by
  have hholders := h.holders.addSymbol kind localName hsymbol
  rw [addSymbol_eq] at hholders ⊢
  exact ⟨hholders, h.blocks, h.macros, h.parent⟩

theorem addMacros (targets : List (String × String)) {holder : Expr}
    (hholder : N holder) : (scope.addMacros targets holder).Satisfies L N Q E := by
  induction targets generalizing scope with
  | nil => exact h
  | cons target rest ih =>
    refine ih (h.addSymbol _ _ fun e he => ?_)
    cases he
    exact hholder

end

theorem fresh {parent : Option Expr} (h : ∀ e ∈ parent.toList, E e) :
    Scope.Satisfies L N Q E { parent } :=
  ⟨forall_mem_singleton.mpr (forall_mem_nil _), forall_mem_nil _,
    forall_mem_nil _, h⟩

/-- A template of statements, with the blocks and macros of the scope. -/
theorem template (h : scope.Satisfies L N Q E) {body : List Stmt}
    (hbody : Satisfied Q E (bodyParts body)) :
    Template.Satisfies Q E
      ⟨body, scope.blocks.entries, scope.macros.entries, scope.parent, []⟩ := by
  refine Template.satisfies_of_parts ((hbody.append (.flatMap fun entry hmem =>
    (h.blocks entry hmem).2)).append (.flatMap fun entry hmem => (h.macros entry hmem).2.1))
    (forall_mem_append.mpr ⟨forall_mem_flatMap.mpr fun entry hmem => ?_, h.parent⟩)
  exact forall_mem_map.mpr (h.macros entry hmem).2.2

theorem tagLines (h : scope.Satisfies L N Q E) (body : List Stmt) :
    ∀ line ∈ Template.tagLines
      ⟨body, scope.blocks.entries, scope.macros.entries, scope.parent, []⟩, L line :=
  forall_mem_append.mpr
    ⟨forall_mem_map.mpr fun entry hmem => (h.blocks entry hmem).1,
      forall_mem_map.mpr fun entry hmem => (h.macros entry hmem).1⟩

end Scope.Satisfies

end

/-- The statement is on a line as wanted, and so are the blocks and macros of a template that it
embeds; its expressions have the property in all their parts. -/
structure Stmt.Known (L : Nat → Prop) (P : Expr → Prop) (stmt : Stmt) : Prop where
  line : L stmt.line
  roots : ∀ e ∈ stmt.kind.roots, e.All P
  embedded : ∀ t, stmt.embedded? = some t → ∀ line ∈ t.tagLines, L line

namespace Grammar

open Parse

/-! ## Derivations -/

/-- What is known of the conditions of a branching and of the blocks and macros of an embedded
template, when the tag is read. -/
structure KnownInside (L : Nat → Prop) (E : Expr → Prop) (stmt : Stmt) : Prop where
  conditions : ∀ branches otherwise, stmt.kind = .branch branches otherwise →
    ∀ branch ∈ branches, E branch.1
  tagLines : ∀ t, stmt.embedded? = some t → ∀ line ∈ t.tagLines, L line

/-- What is known of statements, of conditions and parents, and of the defaults of macros where they
are read. -/
structure Describes (O : Opening) (context : Context) (L : Nat → Prop) (N : Expr → Prop)
    (Q : Stmt → Prop) (E : Expr → Prop) : Prop where
  holder : ∀ {name : String} {line : Nat}, L line → N (Expr.name name line)
  statement : ∀ {s s' : State} {stmt : Stmt}, s.scope.HoldersAll N →
    DerivesBy O context s (.statement (some stmt)) s' → KnownInside L E stmt → Q stmt
  print : ∀ {s s' : State} {e : Expr} {line : Nat}, L line → s.scope.HoldersAll N →
    expression context s = .ok e s' → Q ⟨.print e, line⟩
  sandboxed : ∀ {included : Inclusion} {line : Nat}, Q ⟨.inclusion included, line⟩ →
    Q ⟨.inclusion { included with sandboxed := true }, line⟩
  expr : ∀ {s s' : State} {e : Expr}, s.scope.HoldersAll N → expression context s = .ok e s' → E e
  defaults : ∀ {s s' : State} {params : List (String × Expr)}, s.scope.HoldersAll N →
    nested macroParams context s = .ok params s' → ∀ param ∈ params, E param.2

section

variable {O : Opening} {context : Context} {L : Nat → Prop} {N : Expr → Prop} {Q : Stmt → Prop}
  {E : Expr → Prop} {s s' : State}

theorem Describes.of_sandboxed (h : Describes O context L N Q E) {body marked : List Stmt}
    (hmarked : Grammar.sandboxed body = .ok marked) (hbody : Satisfied Q E (bodyParts body)) :
    Satisfied Q E (bodyParts marked) := by
  induction body generalizing marked with
  | nil =>
    cases hmarked
    exact .nil
  | cons stmt rest ih =>
    obtain ⟨hstmt, hrest⟩ := Satisfied.of_append hbody
    have hself : Q stmt := hstmt.1 stmt (by rw [stmt.parts_eq]; exact mem_cons_self)
    obtain ⟨marked', hmarked', hcases⟩ := sandboxed_cons hmarked
    have hrest' := ih hmarked' hrest
    rcases hcases with ⟨_, _, rfl, rfl⟩ | ⟨_, _, rfl, rfl⟩
    · exact (Satisfied.stmt hself nofun .nil).append hrest'
    · exact (Satisfied.stmt (h.sandboxed hself) nofun .nil).append hrest'

/-- What holds of each form that is read in a scope that satisfies it. -/
def Form.Satisfies (Q : Stmt → Prop) (E : Expr → Prop) : Form → Prop
  | .body stmts => Satisfied Q E (bodyParts stmts)
  | .statement stmt => Satisfied Q E (bodyParts stmt.toList)
  | .region _ stmts => Satisfied Q E (bodyParts stmts)
  | .branches list => Satisfied Q E (branchParts list) ∧ ∀ branch ∈ list, E branch.1
  | .alternative _ otherwise => Satisfied Q E (optionalParts otherwise)

/-- A statement, of which it is known where it was read, around statements. -/
theorem Describes.stmt (hd : Describes O context L N Q E) (hs : s.scope.Satisfies L N Q E)
    {kind : Stmt.Kind} {line : Nat} (h : DerivesBy O context s (.statement (some ⟨kind, line⟩)) s')
    (hembed : Stmt.embedded? ⟨kind, line⟩ = none)
    (hconditions : ∀ branches otherwise, kind = .branch branches otherwise →
      ∀ branch ∈ branches, E branch.1) (hparts : Satisfied Q E kind.parts) :
    Form.Satisfies Q E (.statement (some ⟨kind, line⟩)) := by
  have hnone : ∀ t, Stmt.embedded? ⟨kind, line⟩ ≠ some t := fun t => hembed ▸ nofun
  exact (Satisfied.stmt (hd.statement hs.holders h
    ⟨hconditions, fun t ht => absurd ht (hnone t)⟩) (fun t ht => absurd ht (hnone t))
      hparts).append .nil

variable {form : Form}

/-- **Statements and scopes satisfy what is known of statements where they are read.** -/
theorem DerivesBy.satisfied (hO : Opening.Sound O context L) (hd : Describes O context L N Q E)
    (h : DerivesBy O context s form s') (hs : s.scope.Satisfies L N Q E) :
    form.Satisfies Q E ∧ s'.scope.Satisfies L N Q E := by
  induction h with
  | nil => exact ⟨Satisfied.nil, hs⟩
  | snoc init last ihinit ihlast =>
    obtain ⟨hinit, hs1⟩ := ihinit hs
    obtain ⟨hlast, hs2⟩ := ihlast hs1
    refine ⟨?_, hs2⟩
    show Satisfied _ _ (bodyParts (_ ++ _))
    rw [bodyParts_append]
    exact hinit.append hlast
  | region head inside closes tail ih =>
    obtain ⟨hbody, hs2⟩ := ih (hs.of_eq head.scope_eq)
    refine ⟨hbody, ?_⟩
    rw [tail.scope_eq, closes.after_eq]
    exact hs2
  | firstBranch condition inside ih =>
    obtain ⟨hbody, hs2⟩ := ih (hs.of_eq (passes_of_expression condition).scope_eq)
    exact ⟨⟨hbody.append .nil, forall_mem_singleton.mpr (hd.expr hs.holders condition)⟩, hs2⟩
  | nextBranch init head condition inside ihinit ih =>
    obtain ⟨⟨hinit, hconditions⟩, hs1⟩ := ihinit hs
    have hs2 := hs1.of_eq head.scope_eq
    obtain ⟨hbody, hs3⟩ := ih (hs2.of_eq (passes_of_expression condition).scope_eq)
    refine ⟨⟨?_, forall_mem_append.mpr ⟨hconditions,
      forall_mem_singleton.mpr (hd.expr hs2.holders condition)⟩⟩, hs3⟩
    rw [branchParts_append]
    exact hinit.append (hbody.append .nil)
  | noAlternative => exact ⟨Satisfied.nil, hs⟩
  | alternative head inside ih => exact ih (hs.of_eq head.scope_eq)
  | @literal s kind token =>
    refine ⟨?_, hs⟩
    obtain ⟨text, rfl | rfl | rfl⟩ := literal?_eq_some token
    all_goals exact hd.stmt hs (.literal token) rfl nofun .nil
  | print start expr tail =>
    exact ⟨hd.stmt hs (.print start expr tail) rfl nofun .nil,
      hs.of_eq ((passes_of_expression expr).trans tail).scope_eq⟩
  | branch opens inside last tail ih ihlast =>
    obtain ⟨⟨hbranches, hconditions⟩, hs2⟩ := ih (hs.of_eq (hO.scope_eq opens))
    obtain ⟨hlast, hs3⟩ := ihlast hs2
    refine ⟨hd.stmt hs (.branch opens inside last tail) rfl (fun _ _ hkind => ?_)
      (hbranches.append hlast), hs3.of_eq tail.scope_eq⟩
    cases hkind
    exact hconditions
  | loop opens names head expr inside last tail assigned ih ihlast =>
    have hhead := ((passes_of_assignmentTargets names).trans head).trans
      (passes_of_expression expr)
    obtain ⟨hbody, hs2⟩ := ih (hs.of_eq (hhead.scope_eq.trans (hO.scope_eq opens)))
    obtain ⟨hlast, hs3⟩ := ihlast hs2
    exact ⟨hd.stmt hs (.loop opens names head expr inside last tail assigned) rfl
      nofun (hbody.append hlast), hs3.of_eq tail.scope_eq⟩
  | single opens holds =>
    have hstmt := DerivesBy.single opens holds
    refine ⟨?_, hs.of_eq (holds.passes.scope_eq.trans (hO.scope_eq opens))⟩
    cases holds <;> exact hd.stmt hs hstmt rfl nofun .nil
  | around opens head inside ih =>
    obtain ⟨hbody, hs2⟩ := ih (hs.of_eq (head.passes.scope_eq.trans (hO.scope_eq opens)))
    have hstmt := DerivesBy.around opens head inside
    refine ⟨?_, hs2⟩
    cases head <;> exact hd.stmt hs hstmt rfl nofun hbody
  | sandbox opens inside marked ih =>
    obtain ⟨hbody, hs2⟩ := ih (hs.of_eq (hO.scope_eq opens))
    exact ⟨hd.stmt hs (.sandbox opens inside marked) rfl nofun
      (hd.of_sandboxed marked hbody), hs2⟩
  | block opens named new inside ih =>
    have hs2 := hs.of_eq ((passes_of_expectName named).scope_eq.trans (hO.scope_eq opens))
    obtain ⟨hbody, hs3⟩ := ih (hs2.openBlock _ (hO.line opens))
    exact ⟨hd.stmt hs (.block opens named new inside) rfl nofun .nil,
      hs3.closeBlock _ (hO.line opens) hbody⟩
  | shortBlock opens named new expr tail =>
    have hs2 := hs.of_eq ((passes_of_expectName named).scope_eq.trans (hO.scope_eq opens))
    have hopened := fun name => hs2.openBlock name (hO.line opens)
    have hs3 := (hopened _).of_eq ((passes_of_expression expr).trans tail).scope_eq
    have hprint := hd.print (hO.line opens) (hopened _).holders expr
    exact ⟨hd.stmt hs (.shortBlock opens named new expr tail) rfl nofun .nil,
      hs3.closeBlock _ (hO.line opens) ((Satisfied.stmt hprint nofun .nil).append .nil)⟩
  | inherit opens place expr tail =>
    have hs1 := hs.of_eq (hO.scope_eq opens)
    have hs3 := hs1.of_eq ((passes_of_expression expr).trans tail).scope_eq
    refine ⟨hd.stmt hs (.inherit opens place expr tail) rfl nofun .nil, hs3.holders, hs3.blocks,
      hs3.macros, forall_mem_singleton.mpr (hd.expr hs1.holders expr)⟩
  | useBlocks opens expr tail =>
    have hhead := (passes_of_expression expr).trans tail
    have hs3 := hs.of_eq (hhead.scope_eq.trans (hO.scope_eq opens))
    exact ⟨hd.stmt hs (.useBlocks opens expr tail) rfl nofun .nil, hs3.holders, hs3.blocks,
      hs3.macros, hs3.parent⟩
  | defineMacro opens named defaults inside ih =>
    have hs2 := hs.of_eq ((passes_of_expectName named).scope_eq.trans (hO.scope_eq opens))
    have hs3 := hs2.of_eq (passes_of_macroParams defaults).scope_eq
    obtain ⟨hbody, hs4⟩ := ih hs3.enter
    exact ⟨Satisfied.nil, hs4.closeMacro _ (hO.line opens) hbody (hd.defaults hs2.holders defaults)⟩
  | importAs opens expr tail =>
    have hhead := (passes_of_expression expr).trans tail
    have hs3 := hs.of_eq (hhead.scope_eq.trans (hO.scope_eq opens))
    exact ⟨hd.stmt hs (.importAs opens expr tail) rfl nofun .nil, hs3.addSymbol _ _ nofun⟩
  | @importNames s s1 s2 s3 line template holder targets opens expr tail =>
    have hhead := (passes_of_expression expr).trans tail
    have hs3 := hs.of_eq (hhead.scope_eq.trans (hO.scope_eq opens))
    have hstmt : DerivesBy O context s (.statement (some ⟨.importAs template holder, line⟩))
        { s3 with scope := s3.scope.addMacros targets (Expr.name holder line) } :=
      .importNames opens expr tail
    exact ⟨hd.stmt hs hstmt rfl nofun .nil, hs3.addMacros _ (hd.holder (hO.line opens))⟩
  | embed opens expr arguments inside child ih =>
    have hhead := (passes_of_expression expr).trans (passes_of_inclusion arguments)
    have hs1 := hs.of_eq (hO.scope_eq opens)
    obtain ⟨hbody, hs4⟩ := ih (.fresh (forall_mem_singleton.mpr (hd.expr hs1.holders expr)))
    have hstmt := hd.statement hs.holders (.embed opens expr arguments inside child)
      ⟨nofun, fun t ht => by cases ht; exact hs4.tagLines _⟩
    refine ⟨(Satisfied.stmt hstmt (fun inner hinner => ?_) .nil).append .nil,
      hs1.of_eq hhead.scope_eq⟩
    cases hinner
    exact hs4.template hbody

theorem Derives.plain (h : Derives context s form s') (hs : s.scope.Plain) : s'.scope.Plain := by
  have hd : Describes (Opens context) context AnyLine
      (fun e => ∃ name line, e = Expr.name name line) (fun _ => True) (fun _ => True) :=
    ⟨fun _ => ⟨_, _, rfl⟩, fun _ _ _ => trivial, fun _ _ _ => trivial, fun _ => trivial,
      fun _ _ => trivial, fun _ _ _ _ => trivial⟩
  have htrivial : ∀ parts, Satisfied (fun _ => True) (fun _ => True) parts := fun _ =>
    ⟨fun _ _ => trivial, fun _ _ => ⟨fun _ _ _ _ => trivial, fun _ _ _ _ => trivial⟩⟩
  exact (h.satisfied Opening.sound_opens hd ⟨hs, fun _ _ => ⟨trivial, htrivial _⟩,
    fun _ _ => ⟨trivial, htrivial _, fun _ _ => trivial⟩, fun _ _ => trivial⟩).2.holders

/-! ## Expressions -/

section

variable [OnLines context L] (hO : Opening.Sound O context L)

include hO

variable {stmt : Stmt}

theorem DerivesBy.line (h : DerivesBy O context s (.statement (some stmt)) s') : L stmt.line := by
  cases h
  case literal | print => exact OnLines.token _
  all_goals
    apply hO.line
    assumption

variable {P : Expr → Prop} (hP : ∀ scope : Scope, scope.HoldersAll N → Admits context L scope P)

include hP

/-- The expressions of a statement are read in scopes with such holders. -/
theorem all_of_statement (hs : s.scope.HoldersAll N)
    (h : DerivesBy O context s (.statement (some stmt)) s')
    (hinside : KnownInside L (Expr.All P) stmt) : ∀ e ∈ stmt.kind.roots, e.All P := by
  have hscope : ∀ {s1 : State}, s1.scope = s.scope → Admits context L s1.scope P :=
    fun heq => hP _ (heq ▸ hs)
  cases h with
  | literal token =>
    obtain ⟨text, rfl | rfl | rfl⟩ := literal?_eq_some token
    all_goals exact forall_mem_nil _
  | print start expr tail =>
    exact forall_mem_singleton.mpr (all_of_expression (s := s.skip 1) (hP _ hs) expr)
  | branch opens inside last tail =>
    exact forall_mem_map.mpr (hinside.conditions _ _ rfl)
  | loop opens names head expr inside last tail assigned =>
    have hhead := (passes_of_assignmentTargets names).trans head
    exact forall_mem_singleton.mpr
      (all_of_expression (hscope (hhead.scope_eq.trans (hO.scope_eq opens))) expr)
  | single opens holds => exact holds.all (hscope (hO.scope_eq opens))
  | around opens head inside => exact head.all (hscope (hO.scope_eq opens)) (hO.line opens) _
  | sandbox | block | shortBlock => exact forall_mem_nil _
  | inherit opens place expr | useBlocks opens expr | importAs opens expr
  | importNames opens expr =>
    exact forall_mem_singleton.mpr (all_of_expression (hscope (hO.scope_eq opens)) expr)
  | embed opens expr arguments inside child =>
    exact (all_of_inclusion (hscope (hO.scope_eq opens)) expr arguments).2

/-- A property that is admitted wherever imported macros have such holders holds of all expressions
in statements. -/
theorem describes_of_admits
    (hN : ∀ {name : String} {line : Nat}, L line → N (Expr.name name line)) :
    Describes O context L N (Stmt.Known L P) (Expr.All P) where
  holder := hN
  statement hs h hinside := ⟨h.line hO, all_of_statement hO hP hs h hinside, hinside.tagLines⟩
  print hline hs h :=
    ⟨hline, forall_mem_singleton.mpr (all_of_expression (hP _ hs) h), nofun⟩
  sandboxed h := ⟨h.line, h.roots, nofun⟩
  expr hs h := all_of_expression (hP _ hs) h
  defaults hs h param hmem := ((Yields.of_ok (yields_params (hP _ hs)) h).2 param hmem).1

end

end

end Grammar

/-- The expressions of a template at any depth, and of those embedded in it. -/
theorem Template.Satisfies.forall_exprs {L : Nat → Prop} {P : Expr → Prop} {t : Template}
    (h : t.Satisfies (Stmt.Known L P) (Expr.All P)) : ∀ m, t.Module m → ∀ e ∈ m.exprs, P e := by
  intro m hm x hx
  obtain ⟨e, he, hx⟩ := mem_flatMap.mp hx
  rw [Template.roots, List.append_assoc, mem_append] at he
  rcases he with he | he
  · obtain ⟨stmt, hstmt, he⟩ := mem_flatMap.mp he
    exact (h.statements m hm stmt hstmt).roots e he x hx
  · exact h.exprs m hm e he x hx

/-! ## Lines -/

/-- All expressions inside an expression are on lines as wanted. -/
abbrev Expr.Lined (L : Nat → Prop) (e : Expr) : Prop := e.All fun x => L x.line

/-- The lines of a template, those of embedded templates and of the statements that prepare it
apart. -/
structure Template.Lined (L : Nat → Prop) (t : Template) : Prop where
  statements : ∀ stmt ∈ t.parts, L stmt.line
  exprs : ∀ e ∈ t.exprs, L e.line
  blocks : ∀ entry ∈ t.blocks, L entry.2.line
  macros : ∀ entry ∈ t.macros, L entry.2.line

/-- The lines of all that a scope holds are as wanted. -/
abbrev Scope.Lined (L : Nat → Prop) (scope : Scope) : Prop :=
  scope.Satisfies L (Expr.Lined L) (Stmt.Known L fun x => L x.line) (Expr.Lined L)

theorem Scope.lined_any (scope : Scope) : scope.Lined Parse.AnyLine := by
  have hall : ∀ e : Expr, e.Lined Parse.AnyLine := fun _ _ _ => trivial
  have hknown : ∀ stmt : Stmt, stmt.Known Parse.AnyLine fun x => Parse.AnyLine x.line := fun _ =>
    ⟨trivial, fun e _ => hall e, fun _ _ _ _ => trivial⟩
  have hparts : ∀ parts, Satisfied (Stmt.Known Parse.AnyLine fun x => Parse.AnyLine x.line)
      (Expr.Lined Parse.AnyLine) parts := fun _ => ⟨fun stmt _ => hknown stmt, fun _ _ =>
    ⟨fun _ _ stmt _ => hknown stmt, fun _ _ e _ => hall e⟩⟩
  exact ⟨fun _ _ _ _ e _ => hall e, fun _ _ => ⟨trivial, hparts _⟩,
    fun _ _ => ⟨trivial, hparts _, fun param _ => hall param.2⟩, fun e _ => hall e⟩

section

variable {L : Nat → Prop} {context : Parse.Context} {scope : Scope}

theorem Scope.HoldersAll.admits (h : scope.HoldersAll (Expr.Lined L)) :
    Grammar.Admits context L scope fun x => L x.line where
  line h := h
  ordinary _ h := h
  test _ _ _ _ h := h
  parent _ _ h := h
  arrow _ h := h
  imported hsymbol he := h.symbol? hsymbol he

/-- **All that is read keeps to the lines of the tokens.** -/
theorem Grammar.DerivesBy.lined [Parse.OnLines context L] {O : Opening}
    (hO : Opening.Sound O context L) {s s' : Parse.State} {form : Form}
    (h : DerivesBy O context s form s') (hs : s.scope.Lined L) :
    form.Satisfies (Stmt.Known L fun x => L x.line) (Expr.Lined L) ∧ s'.scope.Lined L :=
  h.satisfied hO (describes_of_admits hO (fun _ => Scope.HoldersAll.admits) fun hline =>
    forall_mem_singleton.mpr hline) hs

/-- A template of such statements has all its lines there. -/
theorem Scope.Lined.template (h : scope.Lined L) {body : List Stmt}
    (hbody : Satisfied (Stmt.Known L fun x => L x.line) (Expr.Lined L) (bodyParts body)) :
    ∀ m, Template.Module
      ⟨body, scope.blocks.entries, scope.macros.entries, scope.parent, []⟩ m → m.Lined L := by
  have hsatisfies := Scope.Satisfies.template h hbody
  intro m hm
  have hlines : ∀ line ∈ m.tagLines, L line := by
    cases hm with
    | self => exact h.tagLines body
    | embedded outer mem embeds => exact (hsatisfies.statements _ outer _ mem).embedded m embeds
  obtain ⟨hblocks, hmacros⟩ := forall_mem_append.mp hlines
  exact ⟨fun stmt hstmt => (hsatisfies.statements m hm stmt hstmt).line,
    hsatisfies.forall_exprs m hm, forall_mem_map.mp hblocks, forall_mem_map.mp hmacros⟩

end

end TwigToLatte
