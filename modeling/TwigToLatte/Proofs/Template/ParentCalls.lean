import TwigToLatte.Proofs.Template.Inheritance

/-!
# Calls of `parent`

A call of `parent` is made from the innermost block around it. The body of a macro is kept apart
from the block in which the macro is defined, and the calls in it go with it.

* `parentCalls` — the blocks from which statements call `parent`.
* `Resolves` — calls are made from the innermost block, and a block keeps the calls made from it.
* `Uses` — a template that uses the blocks of another one has a `use` statement, if no macro is
  replaced.
* `Template.CallsInside`, `Template.CallsEnclosed` — calls stand in the block that they are made
  from.
* `calls_of_module`, `callsSanctioned_of_module` — **in a parsed template calls are made inside
  blocks or macros, and there is something that they call**.
-/

namespace TwigToLatte

open List

/-- The blocks from which the expressions of statements call `parent`. -/
def parentCalls (parts : List Stmt) : List String :=
  parts.flatMap fun stmt => stmt.kind.roots.flatMap Expr.parentCalls

theorem parentCalls_append (parts more : List Stmt) :
    parentCalls (parts ++ more) = parentCalls parts ++ parentCalls more := flatMap_append

theorem mem_parentCalls {parts : List Stmt} {called : String} :
    called ∈ parentCalls parts ↔
      ∃ stmt ∈ parts, ∃ e ∈ stmt.kind.roots, called ∈ e.parentCalls := by
  simp only [parentCalls, mem_flatMap]

/-- The statement uses the blocks of another template. -/
def Stmt.isUse (stmt : Stmt) : Bool :=
  match stmt.kind with
  | .useBlocks _ _ => true
  | _ => false

/-- The statements of the template call `parent` in the block from which it is called. -/
structure Template.CallsInside (t : Template) : Prop where
  body : parentCalls (bodyParts t.body) = []
  blocks : ∀ entry ∈ t.blocks, ∀ called ∈ parentCalls (bodyParts entry.2.body), called = entry.1
  macros : parentCalls (macroParts t.macros) = []

/-- Every call of `parent` in the template stands in the block from which it is made. -/
structure Template.CallsEnclosed (t : Template) : Prop extends t.CallsInside where
  defaults : ∀ e ∈ Template.defaults t.macros, e.parentCalls = []
  parent : ∀ e ∈ t.parent.toList, e.parentCalls = []

/-- A template that calls `parent` has a parent or uses the blocks of another template. -/
def Template.CallsSanctioned (t : Template) : Prop :=
  (∃ e ∈ t.exprs, e.calledParent?.isSome = true) →
    t.parent.isSome = true ∨ ∃ stmt ∈ t.parts, stmt.isUse = true

namespace Grammar

open Parse

/-! ## Calls -/

/-- Statements call `parent` from the innermost block around them, and what a block holds is called
from that block. -/
structure Resolves (a : Scope) (parts : List Stmt) (b : Scope) : Prop extends a.Balanced b where
  sanctions : a.Sanctions → b.Sanctions
  calls : ∀ called ∈ parentCalls parts, a.blockStack.head? = some called ∧ b.Sanctions
  blocks : (∀ entry ∈ a.blocks.entries, ∀ called ∈ parentCalls (bodyParts entry.2.body),
      called = entry.1 ∧ a.Sanctions) →
    ∀ entry ∈ b.blocks.entries, ∀ called ∈ parentCalls (bodyParts entry.2.body),
      called = entry.1 ∧ b.Sanctions
  macros : (∀ entry ∈ a.macros.entries, ∀ called ∈ parentCalls (bodyParts entry.2.body),
      a.Sanctions) →
    ∀ entry ∈ b.macros.entries, ∀ called ∈ parentCalls (bodyParts entry.2.body), b.Sanctions
  defaults : (∀ e ∈ Template.defaults a.macros.entries, e.parentCalls = []) →
    ∀ e ∈ Template.defaults b.macros.entries, e.parentCalls = []

namespace Resolves

variable {a b c : Scope} {parts more : List Stmt}

theorem of_eq (hbalanced : a.Balanced b) (hsanctions : a.Sanctions → b.Sanctions)
    (hcalls : ∀ called ∈ parentCalls parts, a.blockStack.head? = some called ∧ b.Sanctions)
    (hblocks : b.blocks = a.blocks) (hmacros : b.macros = a.macros) : Resolves a parts b where
  toBalanced := hbalanced
  sanctions := hsanctions
  calls := hcalls
  blocks h entry hentry called hcalled := by
    rw [hblocks] at hentry
    exact (h entry hentry called hcalled).imp_right hsanctions
  macros h entry hentry called hcalled := by
    rw [hmacros] at hentry
    exact hsanctions (h entry hentry called hcalled)
  defaults := by rw [hmacros]; exact id

theorem trans (h : Resolves a parts b) (h' : Resolves b more c) : Resolves a (parts ++ more) c where
  toBalanced := h.toBalanced.trans h'.toBalanced
  sanctions := h'.sanctions ∘ h.sanctions
  calls := by
    rw [parentCalls_append]
    refine forall_mem_append.mpr ⟨fun called hcalled => ?_, fun called hcalled => ?_⟩
    · exact (h.calls called hcalled).imp_right h'.sanctions
    · exact h.blockStack_eq ▸ h'.calls called hcalled
  blocks hblocks := h'.blocks (h.blocks hblocks)
  macros hmacros := h'.macros (h.macros hmacros)
  defaults hdefaults := h'.defaults (h.defaults hdefaults)

theorem of_calls (h : Resolves a parts b)
    (hcalls : ∀ called ∈ parentCalls more, a.blockStack.head? = some called ∧ b.Sanctions) :
    Resolves a more b :=
  ⟨h.toBalanced, h.sanctions, hcalls, h.blocks, h.macros, h.defaults⟩

variable {name : String}

theorem block {line : Nat} {body : List Stmt} (himports : 0 < a.imports.length)
    (h : Resolves (a.openBlock name line) (bodyParts body) b) :
    Resolves a [⟨.block name, line⟩] (b.closeBlock name ⟨body, line⟩) := by
  refine ⟨h.toBalanced.block himports _, ?_, forall_mem_nil _, fun hblocks => ?_, ?_, ?_⟩
  all_goals rw [Scope.closeBlock, Scope.leave_eq]
  · exact h.sanctions
  · intro entry hmem
    rcases Registry.mem_insertEntry hmem with rfl | hmem
    · intro called hcalled
      obtain ⟨hhead, hsanctions⟩ := h.calls called hcalled
      exact ⟨(Option.some.inj hhead).symm, hsanctions⟩
    · refine h.blocks (fun entry hmem => ?_) entry hmem
      rcases Registry.mem_insertEntry hmem with rfl | hmem
      · -- While its body is read, the block is empty.
        exact forall_mem_nil _
      · exact hblocks entry hmem
  · exact h.macros
  · exact h.defaults

theorem defineMacro {definition : MacroDef} (himports : 0 < a.imports.length)
    (hparams : ∀ param ∈ definition.params, param.2.parentCalls = [])
    (h : Resolves a.enter (bodyParts definition.body) b) :
    Resolves a [] (b.closeMacro name definition) := by
  refine ⟨h.toBalanced.defineMacro himports _ _, ?_, forall_mem_nil _, ?_, fun hmacros => ?_,
    fun hdefaults => ?_⟩
  all_goals rw [Scope.closeMacro, Scope.leave_eq]
  · exact h.sanctions
  · exact h.blocks
  · intro entry hmem
    rcases Registry.mem_insertEntry hmem with rfl | hmem
    · exact fun called hcalled => (h.calls called hcalled).2
    · exact h.macros hmacros entry hmem
  · refine forall_mem_flatMap.mpr fun entry hmem => ?_
    rcases Registry.mem_insertEntry hmem with rfl | hmem
    · exact forall_mem_map.mpr hparams
    · exact fun e he => h.defaults hdefaults e (mem_flatMap.mpr ⟨entry, hmem, he⟩)

end Resolves

theorem forall_parentCalls_singleton {stmt : Stmt} {P : String → Prop}
    (h : ∀ e ∈ stmt.kind.roots, ∀ called ∈ e.parentCalls, P called) :
    ∀ called ∈ parentCalls [stmt], P called := by
  intro called hcalled
  obtain ⟨stmt', hstmt, e, he, hcall⟩ := mem_parentCalls.mp hcalled
  cases mem_singleton.mp hstmt
  exact h e he called hcall

theorem tracks_resolves (context : Context) :
    Tracks context fun a parts b => 0 < a.imports.length → Resolves a parts b where
  refl a _ := .of_eq (.refl a) id (forall_mem_nil _) rfl rfl
  trans h h' ha := (h ha).trans (h' ((h ha).length_imports ▸ ha))
  statement {a b kind line parts} hkind hroots h ha := by
    refine (h ha).of_calls (forall_mem_append.mpr ⟨?_, (h ha).calls⟩)
    refine forall_mem_flatMap.mpr fun e he called hcalled => ?_
    obtain ⟨middle, before, after, hbefore, hallows, hafter⟩ := hroots e he
    have hmiddle := hbefore ha
    obtain ⟨hhead, hsanctions⟩ := hallows called hcalled
    -- The call was checked in the middle, where the blocks around it are those before the statement.
    exact ⟨hmiddle.blockStack_eq ▸ hhead,
      (hafter (hmiddle.length_imports ▸ ha)).sanctions hsanctions⟩
  mark {a b included line parts more} h ha := by
    have hcalls := (h ha).calls
    rw [parentCalls_append] at hcalls
    refine (h ha).of_calls ?_
    rw [parentCalls_append]
    exact hcalls
  block _ h ha := (h (Nat.succ_pos _)).block ha
  inherit _ _ _ he _ := by
    refine .of_eq ⟨rfl, rfl, rfl⟩ (fun _ => .inl rfl) ?_ rfl rfl
    refine forall_parentCalls_singleton (forall_mem_singleton.mpr fun called hcalled => ?_)
    exact ⟨(he called hcalled).1, .inl rfl⟩
  useBlocks he _ := by
    refine .of_eq ⟨rfl, rfl, rfl⟩ (fun _ => .inr rfl) ?_ rfl rfl
    refine forall_parentCalls_singleton (forall_mem_singleton.mpr fun called hcalled => ?_)
    exact ⟨(he called hcalled).1, .inr rfl⟩
  defineMacro hparams _ h ha :=
    .defineMacro ha (fun param hmem => (hparams param hmem).2) (h (Nat.succ_pos _))
  addSymbol kind localName symbol _ := by
    refine .of_eq (.addSymbol _ kind localName symbol) ?_ (forall_mem_nil _) ?_ ?_
    all_goals rw [Scope.addSymbol_eq]
    exact id
  embed hroots _ _ :=
    .of_eq (.refl _) id (forall_parentCalls_singleton hroots) rfl rfl

/-! ## Used blocks -/

/-- The statements of the blocks and macros of a scope. -/
def scopeParts (scope : Scope) : List Stmt :=
  blockParts scope.blocks.entries ++ macroParts scope.macros.entries

/-- Blocks are kept, and macros too unless one is replaced; then a scope that uses blocks was one
before, or some statement uses them. -/
structure Uses (context : Context) (a : Scope) (parts : List Stmt) (b : Scope) : Prop where
  blocks : a.blocks.entries <+: b.blocks.entries
  macros : Unrepeated context → a.macros.entries <+: b.macros.entries
  uses : Unrepeated context → b.usesBlocks = true →
    a.usesBlocks = true ∨ ∃ stmt ∈ parts ++ scopeParts b, stmt.isUse = true

namespace Uses

variable {context : Context} {a b c : Scope} {parts more : List Stmt}

theorem of_eq (hblocks : b.blocks = a.blocks) (hmacros : b.macros = a.macros)
    (huses : b.usesBlocks = a.usesBlocks) : Uses context a parts b :=
  ⟨hblocks ▸ prefix_rfl, fun _ => hmacros ▸ prefix_rfl, fun _ h => .inl (huses ▸ h)⟩

theorem scopeParts_subset (h : Uses context a parts b) (hu : Unrepeated context) :
    scopeParts a ⊆ scopeParts b := by
  obtain ⟨blocks, hblocks⟩ := h.blocks
  obtain ⟨macros, hmacros⟩ := h.macros hu
  intro stmt hstmt
  rw [scopeParts, ← hblocks, ← hmacros, blockParts, macroParts, flatMap_append,
    flatMap_append]
  rcases mem_append.mp hstmt with hstmt | hstmt
  · exact mem_append_left _ (mem_append_left _ hstmt)
  · exact mem_append_right _ (mem_append_left _ hstmt)

theorem of_subset (h : Uses context a parts b)
    (hsubset : ∀ stmt ∈ parts, stmt.isUse = true → stmt ∈ more) : Uses context a more b := by
  refine ⟨h.blocks, h.macros, fun hu hb => (h.uses hu hb).imp_right ?_⟩
  rintro ⟨stmt, hstmt, huse⟩
  refine ⟨stmt, ?_, huse⟩
  rcases mem_append.mp hstmt with hstmt | hstmt
  · exact mem_append_left _ (hsubset stmt hstmt huse)
  · exact mem_append_right _ hstmt

theorem trans (h : Uses context a parts b) (h' : Uses context b more c) :
    Uses context a (parts ++ more) c where
  blocks := h.blocks.trans h'.blocks
  macros hu := (h.macros hu).trans (h'.macros hu)
  uses hu hc := by
    rcases h'.uses hu hc with hb | ⟨stmt, hstmt, huse⟩
    · refine (h.uses hu hb).imp_right ?_
      rintro ⟨stmt, hstmt, huse⟩
      refine ⟨stmt, ?_, huse⟩
      rcases mem_append.mp hstmt with hstmt | hstmt
      · exact mem_append_left _ (mem_append_left _ hstmt)
      · exact mem_append_right _ (h'.scopeParts_subset hu hstmt)
    · refine .inr ⟨stmt, ?_, huse⟩
      rw [List.append_assoc]
      exact mem_append_right _ hstmt

variable {name : String}

theorem block {line : Nat} {body : List Stmt} (hnew : a.blocks.get? name = none)
    (h : Uses context (a.openBlock name line) (bodyParts body) b) :
    Uses context a [⟨.block name, line⟩] (b.closeBlock name ⟨body, line⟩) := by
  have hname := Registry.get?_eq_none_iff.mp hnew
  -- The block is registered before those in its body, and its body takes the place of the empty one.
  have hopened : (a.openBlock name line).blocks.entries = a.blocks.entries ++ [(name, ⟨[], line⟩)] :=
    Registry.insertEntry_of_notMem hname
  obtain ⟨added, hadded⟩ := h.blocks
  have hentries : b.blocks.entries = a.blocks.entries ++ (name, ⟨[], line⟩) :: added := by
    rw [← hadded, hopened, List.append_assoc]
    rfl
  have hclosed : (b.closeBlock name ⟨body, line⟩).blocks.entries =
      a.blocks.entries ++ (name, ⟨body, line⟩) :: added := by
    rw [Scope.closeBlock, Scope.blocks_leave, Registry.insert, hentries]
    exact Registry.insertEntry_replace hname
  have hmacros : (b.closeBlock name ⟨body, line⟩).macros = b.macros := Scope.macros_leave _
  have huses : (b.closeBlock name ⟨body, line⟩).usesBlocks = b.usesBlocks := by
    rw [Scope.closeBlock, Scope.leave_eq]
  refine ⟨⟨_, hclosed.symm⟩, fun hu => hmacros ▸ h.macros hu, fun hu hb => ?_⟩
  refine (h.uses hu (huses ▸ hb)).imp_right ?_
  rintro ⟨stmt, hstmt, huse⟩
  refine ⟨stmt, mem_append_right _ ?_, huse⟩
  rw [scopeParts, hclosed, hmacros, blockParts, flatMap_append, flatMap_cons]
  rw [scopeParts, hentries, blockParts, flatMap_append, flatMap_cons] at hstmt
  simp only [mem_append, bodyParts, not_mem_nil, false_or] at hstmt ⊢
  tauto

theorem defineMacro {definition : MacroDef} (hnew : Unrepeated context → name ∉ b.macros.keys)
    (h : Uses context a.enter (bodyParts definition.body) b) :
    Uses context a [] (b.closeMacro name definition) := by
  have hblocks : (b.closeMacro name definition).blocks = b.blocks := Scope.blocks_leave _
  have huses : (b.closeMacro name definition).usesBlocks = b.usesBlocks := by
    rw [Scope.closeMacro, Scope.leave_eq]
  have hclosed : Unrepeated context → (b.closeMacro name definition).macros.entries =
      b.macros.entries ++ [(name, definition)] := by
    intro hu
    rw [Scope.closeMacro, Scope.macros_leave]
    exact Registry.insertEntry_of_notMem (hnew hu)
  refine ⟨hblocks ▸ h.blocks, fun hu => ?_, fun hu hb => ?_⟩
  · rw [hclosed hu]
    exact (h.macros hu).trans (prefix_append _ _)
  · refine (h.uses hu (huses ▸ hb)).imp_right ?_
    rintro ⟨stmt, hstmt, huse⟩
    refine ⟨stmt, mem_append_right _ ?_, huse⟩
    rw [scopeParts, hclosed hu, hblocks, macroParts, flatMap_append, flatMap_singleton]
    rw [scopeParts, macroParts] at hstmt
    simp only [mem_append] at hstmt ⊢
    tauto

end Uses

theorem tracks_uses (context : Context) : Tracks context (Uses context) where
  refl _ := .of_eq rfl rfl rfl
  trans := .trans
  statement _ _ h := h.of_subset fun _ hstmt _ => mem_cons_of_mem _ hstmt
  mark {a b included line parts more} h := by
    refine h.of_subset fun stmt hstmt huse => ?_
    rcases mem_append.mp hstmt with hstmt | hstmt
    · exact mem_append_left _ hstmt
    · rcases mem_cons.mp hstmt with rfl | hstmt
      · cases huse
      · exact mem_append_right _ (mem_cons_of_mem _ hstmt)
  block hnew h := h.block hnew
  inherit _ _ _ _ := .of_eq rfl rfl rfl
  useBlocks _ := ⟨prefix_rfl, fun _ => prefix_rfl,
    fun _ _ => .inr ⟨_, mem_cons_self, rfl⟩⟩
  defineMacro _ hnew h := h.defineMacro hnew
  addSymbol kind localName symbol := by
    refine .of_eq ?_ ?_ ?_
    all_goals rw [Scope.addSymbol_eq]
  embed _ _ := .of_eq rfl rfl rfl

end Grammar

/-! ## Parsed templates -/

section

variable {dialect : Dialect} {source : Source} {t m : Template} {tokens : Array Token}
  (htokens : Lexer.tokenize source.text dialect.operatorSymbols = .ok tokens)
  (h : (Template.parse dialect source).result = .ok t)

include htokens h

/-- A template is read from an empty scope on, with a parent at most. -/
theorem resolves_module (hm : t.Module m) :
    ∃ parent last, Grammar.Resolves { parent } (bodyParts m.body) last ∧
      Grammar.Uses ⟨dialect, source.displayName, tokens⟩ { parent } (bodyParts m.body) last ∧
      m = ⟨m.body, last.blocks.entries, last.macros.entries, last.parent, []⟩ := by
  obtain ⟨parent, last, ⟨hresolves, huses⟩, heq⟩ :=
    made_module htokens h ((Grammar.tracks_resolves _).and (Grammar.tracks_uses _)) hm
  exact ⟨parent, last, hresolves Nat.one_pos, huses, heq⟩

/-- Outside the blocks that they are made from, calls stand in macros only. -/
theorem calls_of_module (hm : t.Module m) :
    parentCalls (bodyParts m.body) = [] ∧
      (∀ entry ∈ m.blocks, ∀ called ∈ parentCalls (bodyParts entry.2.body), called = entry.1) ∧
      ∀ e ∈ Template.defaults m.macros, e.parentCalls = [] := by
  obtain ⟨parent, last, hresolves, -, heq⟩ := resolves_module htokens h hm
  rw [heq]
  refine ⟨eq_nil_iff_forall_not_mem.mpr fun called hcalled => ?_,
    fun entry hentry called hcalled => ?_, hresolves.defaults (forall_mem_nil _)⟩
  · cases (hresolves.calls called hcalled).1
  · exact (hresolves.blocks (forall_mem_nil _) entry hentry called hcalled).1

theorem callsInside_of_module (hm : t.Module m) (hmacros : parentCalls (macroParts m.macros) = []) :
    m.CallsInside :=
  have hcalls := calls_of_module htokens h hm
  ⟨hcalls.1, hcalls.2.1, hmacros⟩

theorem callsEnclosed_iff_of_module (hm : t.Module m) :
    m.CallsEnclosed ↔
      parentCalls (macroParts m.macros) = [] ∧ ∀ e ∈ m.parent.toList, e.parentCalls = [] :=
  ⟨fun henclosed => ⟨henclosed.macros, henclosed.parent⟩, fun ⟨hmacros, hparent⟩ =>
    ⟨callsInside_of_module htokens h hm hmacros, (calls_of_module htokens h hm).2.2, hparent⟩⟩

/-- The parent of the template itself is named outside blocks, and calls nothing. -/
theorem callsEnclosed_iff : t.CallsEnclosed ↔ parentCalls (macroParts t.macros) = [] := by
  rw [callsEnclosed_iff_of_module htokens h .self, and_iff_left]
  intro e he
  rw [← (inherits_of_parse h).parent] at he
  obtain ⟨⟨kind, line⟩, hstmt, hinherited⟩ := mem_filterMap.mp he
  refine eq_nil_iff_forall_not_mem.mpr fun called hcalled => ?_
  cases kind with
  | inherit template =>
    cases hinherited
    have hmem := mem_parentCalls.mpr ⟨_, hstmt, e, mem_singleton_self e, hcalled⟩
    rw [(calls_of_module htokens h .self).1] at hmem
    cases hmem
  | _ => cases hinherited

/-- Where `parent` is called, there is a parent or a `use` statement. -/
theorem callsSanctioned_of_module (hkeyed : dialect.Keyed) (hnodup : (macroDefinitions tokens).Nodup)
    (hm : t.Module m) : m.CallsSanctioned := by
  obtain ⟨parent, last, hresolves, huses, heq⟩ := resolves_module htokens h hm
  rintro ⟨x, hx, hcall⟩
  obtain ⟨called, hcall⟩ := Option.isSome_iff_exists.mp hcall
  obtain ⟨root, hroot, hx⟩ := mem_flatMap.mp hx
  have hcalled : called ∈ root.parentCalls := mem_filterMap.mpr ⟨x, hx, hcall⟩
  have hsanctioned : last.Sanctions →
      m.parent.isSome = true ∨ ∃ stmt ∈ m.parts, stmt.isUse = true := by
    rw [heq]
    rintro (hparent | hused)
    · exact .inl hparent
    · rcases huses.uses ⟨hkeyed, hnodup⟩ hused with hstart | ⟨stmt, hstmt, huse⟩
      · cases hstart
      · refine .inr ⟨stmt, ?_, huse⟩
        rwa [Grammar.scopeParts, ← List.append_assoc] at hstmt
  rw [heq, Template.roots, mem_append, mem_append, mem_flatMap] at hroot
  rcases hroot with (⟨stmt, hstmt, hroot⟩ | hroot) | hroot
  · refine hsanctioned ?_
    rw [Template.parts, mem_append, mem_append] at hstmt
    rcases hstmt with (hstmt | hstmt) | hstmt
    · exact (hresolves.calls called (mem_parentCalls.mpr ⟨stmt, hstmt, root, hroot, hcalled⟩)).2
    · obtain ⟨entry, hentry, hstmt⟩ := mem_flatMap.mp hstmt
      exact (hresolves.blocks (forall_mem_nil _) entry hentry called
        (mem_parentCalls.mpr ⟨stmt, hstmt, root, hroot, hcalled⟩)).2
    · obtain ⟨entry, hentry, hstmt⟩ := mem_flatMap.mp hstmt
      exact hresolves.macros (forall_mem_nil _) entry hentry called
        (mem_parentCalls.mpr ⟨stmt, hstmt, root, hroot, hcalled⟩)
  · -- Defaults are constants.
    rw [hresolves.defaults (forall_mem_nil _) root hroot] at hcalled
    cases hcalled
  · rw [heq]
    exact .inl (Option.isSome_iff_exists.mpr ⟨root, Option.mem_toList.mp hroot⟩)

end

end TwigToLatte
