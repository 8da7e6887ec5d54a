import TwigToLatte.Proofs.Template.Tracking

/-!
# Parents of templates

A template extends at most one other, by a tag of its own: one outside blocks and macros. An embedded
template extends the one that its statement names, and no other.

* `inherited` — the templates that statements extend.
* `Inherits` — the parent in the scope is the one that statements name.
* `Template.Inherits` — **the parent of a template is the one that its only `extends` statement names**,
  and the parent of an embedded one is that of its statement.
* `inherits_of_parse` — templates that are parsed inherit in this way.
-/

namespace TwigToLatte

open List

/-- The template that a statement extends. -/
def Stmt.inherited? (stmt : Stmt) : Option Expr :=
  match stmt.kind with
  | .inherit e => some e
  | _ => none

/-- The templates that statements extend. -/
def inherited (parts : List Stmt) : List Expr := parts.filterMap Stmt.inherited?

theorem inherited_append (parts more : List Stmt) :
    inherited (parts ++ more) = inherited parts ++ inherited more := filterMap_append

theorem inherited_flatMap {α : Type} {list : List α} {f : α → List Stmt}
    (h : ∀ x ∈ list, inherited (f x) = []) : inherited (list.flatMap f) = [] := by
  induction list with
  | nil => rfl
  | cons x rest ih =>
    rw [forall_mem_cons] at h
    rw [flatMap_cons, inherited_append, h.1, ih h.2]
    rfl

/-- Where a template extends another one, and what it then has for a parent. The templates embedded in
it have the parent that their statement names, and extend no other. -/
structure Template.Inherits (t : Template) : Prop where
  parent : inherited (bodyParts t.body) = t.parent.toList
  blocks : ∀ entry ∈ t.blocks, inherited (bodyParts entry.2.body) = []
  macros : ∀ entry ∈ t.macros, inherited (bodyParts entry.2.body) = []
  embedded : ∀ m, t.Module m → ∀ stmt ∈ m.parts, ∀ included inner,
    stmt.kind = .embed included inner →
      inherited inner.parts = [] ∧ inner.parent = some included.template

namespace Grammar

open Parse

/-- Statements that extend a template set the parent, outside blocks and macros only. -/
structure Inherits (a : Scope) (parts : List Stmt) (b : Scope) : Prop extends a.Balanced b where
  parent : b.parent.toList = a.parent.toList ++ inherited parts
  main : inherited parts ≠ [] → a.blockStack = [] ∧ a.imports.length = 1
  blocks : (∀ entry ∈ a.blocks.entries, inherited (bodyParts entry.2.body) = []) →
    ∀ entry ∈ b.blocks.entries, inherited (bodyParts entry.2.body) = []
  macros : (∀ entry ∈ a.macros.entries, inherited (bodyParts entry.2.body) = []) →
    ∀ entry ∈ b.macros.entries, inherited (bodyParts entry.2.body) = []

namespace Inherits

variable {a b c : Scope} {parts more : List Stmt}

theorem of_eq (hbalanced : a.Balanced b) (hparts : inherited parts = [])
    (hparent : b.parent = a.parent) (hblocks : b.blocks = a.blocks) (hmacros : b.macros = a.macros) :
    Inherits a parts b where
  toBalanced := hbalanced
  parent := by rw [hparent, hparts, append_nil]
  main h := absurd hparts h
  blocks := by rw [hblocks]; exact id
  macros := by rw [hmacros]; exact id

theorem trans (h : Inherits a parts b) (h' : Inherits b more c) : Inherits a (parts ++ more) c where
  toBalanced := h.toBalanced.trans h'.toBalanced
  parent := by rw [h'.parent, h.parent, inherited_append, List.append_assoc]
  main hne := by
    by_cases hparts : inherited parts = []
    · rw [inherited_append, hparts, nil_append] at hne
      obtain ⟨hstack, himports⟩ := h'.main hne
      exact ⟨h.blockStack_eq ▸ hstack, h.length_imports ▸ himports⟩
    · exact h.main hparts
  blocks hblocks := h'.blocks (h.blocks hblocks)
  macros hmacros := h'.macros (h.macros hmacros)

/-- Other statements with nothing to extend do not count. -/
theorem of_inherited_eq (h : Inherits a parts b) (heq : inherited more = inherited parts) :
    Inherits a more b :=
  ⟨h.toBalanced, heq ▸ h.parent, heq ▸ h.main, h.blocks, h.macros⟩

variable {name : String}

theorem block {line : Nat} {body : List Stmt} (himports : 0 < a.imports.length)
    (h : Inherits (a.openBlock name line) (bodyParts body) b) :
    Inherits a [⟨.block name, line⟩] (b.closeBlock name ⟨body, line⟩) := by
  have hbody : inherited (bodyParts body) = [] := by
    by_contra hne
    cases (h.main hne).1
  have hparent := h.parent
  rw [hbody, append_nil] at hparent
  refine ⟨h.toBalanced.block himports _, ?_, fun hne => absurd rfl hne, fun hblocks => ?_, ?_⟩
  · rw [Scope.closeBlock, Scope.leave_eq]
    exact hparent.trans (append_nil _).symm
  · rw [Scope.closeBlock, Scope.leave_eq]
    intro entry hmem
    rcases Registry.mem_insertEntry hmem with rfl | hmem
    · exact hbody
    · refine h.blocks (fun entry hmem => ?_) entry hmem
      rcases Registry.mem_insertEntry hmem with rfl | hmem
      · rfl
      · exact hblocks entry hmem
  · rw [Scope.closeBlock, Scope.leave_eq]
    exact h.macros

theorem defineMacro {definition : MacroDef} (himports : 0 < a.imports.length)
    (h : Inherits a.enter (bodyParts definition.body) b) :
    Inherits a [] (b.closeMacro name definition) := by
  have hbody : inherited (bodyParts definition.body) = [] := by
    by_contra hne
    have hlength : a.imports.length + 1 = 1 := (h.main hne).2
    omega
  have hparent := h.parent
  rw [hbody, append_nil] at hparent
  refine ⟨h.toBalanced.defineMacro himports _ _, ?_, fun hne => absurd rfl hne, ?_,
    fun hmacros => ?_⟩
  · rw [Scope.closeMacro, Scope.leave_eq]
    exact hparent.trans (append_nil _).symm
  · rw [Scope.closeMacro, Scope.leave_eq]
    exact h.blocks
  · rw [Scope.closeMacro, Scope.leave_eq]
    intro entry hmem
    rcases Registry.mem_insertEntry hmem with rfl | hmem
    · exact hbody
    · exact h.macros hmacros entry hmem

end Inherits

theorem inherited?_of_isScoped {kind : Stmt.Kind} {line : Nat} (h : isScoped kind = false) :
    Stmt.inherited? ⟨kind, line⟩ = none := by
  cases kind <;> first | rfl | cases h

theorem tracks_inherits (context : Context) :
    Tracks context fun a parts b => 0 < a.imports.length → Inherits a parts b where
  refl a _ := .of_eq (.refl a) rfl rfl rfl rfl
  trans h h' ha := (h ha).trans (h' ((h ha).length_imports ▸ ha))
  statement hkind _ h ha := by
    refine (h ha).of_inherited_eq ?_
    rw [inherited, filterMap_cons_none (inherited?_of_isScoped hkind)]
    rfl
  mark h ha := by
    refine (h ha).of_inherited_eq ?_
    rw [inherited_append, inherited_append]
    rfl
  block _ h ha := (h (Nat.succ_pos _)).block ha
  inherit hstack himports hparent _ _ := by
    refine ⟨⟨rfl, rfl, rfl⟩, ?_, fun _ => ⟨hstack, himports⟩, id, id⟩
    rw [hparent]
    rfl
  useBlocks _ _ := .of_eq ⟨rfl, rfl, rfl⟩ rfl rfl rfl rfl
  defineMacro _ _ h ha := .defineMacro ha (h (Nat.succ_pos _))
  addSymbol kind localName symbol _ := by
    refine .of_eq (.addSymbol _ kind localName symbol) rfl ?_ ?_ ?_
    all_goals rw [Scope.addSymbol_eq]
  embed _ _ _ := .of_eq (.refl _) rfl rfl rfl rfl

end Grammar

/-! ## Parsed templates -/

/-- **A parsed template has the parent that its only `extends` statement names.** -/
theorem inherits_of_parse {dialect : Dialect} {source : Source} {t : Template}
    (h : (Template.parse dialect source).result = .ok t) : t.Inherits := by
  obtain ⟨tokens, log, last, htokens, -⟩ := Grammar.derives_parse h
  obtain ⟨htop, hembedded⟩ := made_parse htokens h (Grammar.tracks_inherits _)
  obtain ⟨last, hlast, heq⟩ := htop
  have hinherits := hlast Nat.one_pos
  rw [heq]
  refine ⟨hinherits.parent.symm, hinherits.blocks (forall_mem_nil _),
    hinherits.macros (forall_mem_nil _), fun m hm stmt hstmt included inner hkind => ?_⟩
  rw [← heq] at hm
  obtain ⟨last, hlast, heq⟩ := hembedded m hm stmt hstmt included inner hkind
  have hinherits := hlast Nat.one_pos
  -- The parent is there from the start, so the statements name no other.
  have hparent : last.parent = some included.template ∧ inherited (bodyParts inner.body) = [] := by
    have hlist := hinherits.parent
    cases hlast : last.parent with
    | none =>
      rw [hlast] at hlist
      cases hlist
    | some e =>
      rw [hlast] at hlist
      obtain ⟨rfl, hnil⟩ := List.cons.inj hlist
      exact ⟨rfl, hnil.symm⟩
  rw [heq]
  refine ⟨?_, hparent.1⟩
  rw [Template.parts, inherited_append, inherited_append, hparent.2,
    show inherited (blockParts last.blocks.entries) = [] from
      inherited_flatMap (hinherits.blocks (forall_mem_nil _)),
    show inherited (macroParts last.macros.entries) = [] from
      inherited_flatMap (hinherits.macros (forall_mem_nil _))]
  rfl

end TwigToLatte
