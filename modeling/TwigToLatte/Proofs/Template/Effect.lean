import TwigToLatte.Parse
import TwigToLatte.Proofs.Template.Places

/-!
# What statements do to the scope

While statements are read, the scope of the template gathers its blocks and macros, and the stacks
of open blocks and of imported names grow and shrink.

* `Scope.openBlock`, `Scope.closeBlock`, … — what tags do to the scope.
* `Scope.Balanced` — the stacks are as before, but for names imported in the innermost scope.
* `Scope.Balanced.block`, `Scope.Balanced.defineMacro` — blocks and macros are left for the scope in
  which they were entered.
-/

namespace TwigToLatte

open List

/-! ## Registries -/

namespace Registry

variable {α : Type} {registry : Registry α} {key : String} {value : α} {entries : List (String × α)}

theorem get?_eq_none_iff :
    registry.get? key = none ↔ key ∉ registry.keys := lookup_eq_none_iff_notMem

theorem insertEntry_of_notMem (h : key ∉ entries.map Prod.fst) :
    insertEntry key value entries = entries ++ [(key, value)] := by
  induction entries with
  | nil => rfl
  | cons entry rest ih =>
    rw [map_cons, mem_cons, not_or] at h
    rw [insertEntry, if_neg (Ne.symm h.1), ih h.2, cons_append]

/-- An entry with a known name replaces the first of that name. -/
theorem insertEntry_replace {old : α} {before after : List (String × α)}
    (h : key ∉ before.map Prod.fst) :
    insertEntry key value (before ++ (key, old) :: after) = before ++ (key, value) :: after := by
  induction before with
  | nil => rw [nil_append, insertEntry, if_pos rfl, nil_append]
  | cons entry rest ih =>
    rw [map_cons, mem_cons, not_or] at h
    rw [cons_append, insertEntry, if_neg (Ne.symm h.1), ih h.2, cons_append]

/-- Registering an entry brings nothing but that entry. -/
theorem mem_insertEntry {entry : String × α} (h : entry ∈ insertEntry key value entries) :
    entry = (key, value) ∨ entry ∈ entries := by
  induction entries with
  | nil => exact .inl (mem_singleton.mp h)
  | cons first rest ih =>
    rw [insertEntry] at h
    split at h
    · rcases mem_cons.mp h with h | h
      · exact .inl h
      · exact .inr (mem_cons_of_mem _ h)
    · rcases mem_cons.mp h with h | h
      · exact .inr (h ▸ mem_cons_self)
      · exact (ih h).imp_right (mem_cons_of_mem _)

theorem forall_mem_insert {p : String × α → Prop} (h : ∀ entry ∈ registry.entries, p entry)
    (hnew : p (key, value)) : ∀ entry ∈ (registry.insert key value).entries, p entry := by
  intro entry hmem
  rcases mem_insertEntry hmem with rfl | hmem
  · exact hnew
  · exact h entry hmem

/-- What the entries hold, counted, grows by at most what the new one holds. -/
theorem count_insertEntry_le {β : Type} [BEq β] (f : String × α → List β) (key : String) (value : α)
    (entries : List (String × α)) (b : β) :
    ((insertEntry key value entries).flatMap f).count b ≤
      (f (key, value)).count b + (entries.flatMap f).count b := by
  induction entries with
  | nil => simp [insertEntry]
  | cons entry rest ih =>
    rw [insertEntry]
    split
    · simp only [flatMap_cons, count_append]
      omega
    · simp only [flatMap_cons, count_append]
      omega

end Registry

/-! ## Tags -/

namespace Scope

/-- Inside a block or a macro names are imported in a scope of their own. -/
def enter (scope : Scope) : Scope := { scope with imports := [] :: scope.imports }

/-- The scope of imported names is left, but never that of the template. -/
def leave (scope : Scope) : Scope :=
  if 1 < scope.imports.length then { scope with imports := scope.imports.tail } else scope

/-- Inside a block, which is registered with an empty body. -/
def openBlock (scope : Scope) (name : String) (line : Nat) : Scope :=
  { scope with
    blocks := scope.blocks.insert name ⟨[], line⟩
    imports := [] :: scope.imports
    blockStack := name :: scope.blockStack }

/-- After a block, which has got its body. -/
def closeBlock (scope : Scope) (name : String) (block : Block) : Scope :=
  Scope.leave
    { scope with
      blocks := scope.blocks.insert name block
      blockStack := scope.blockStack.tail }

/-- After a macro. -/
def closeMacro (scope : Scope) (name : String) (definition : MacroDef) : Scope :=
  { scope.leave with macros := scope.leave.macros.insert name definition }

/-- A name is imported in the innermost scope. -/
def addSymbol (scope : Scope) (kind : SymbolKind) (localName : String) (symbol : ImportedSymbol) :
    Scope :=
  match scope.imports with
  | [] => scope
  | inner :: outer => { scope with imports := (((kind, localName), symbol) :: inner) :: outer }

/-- Macros are imported by name, through a variable that holds their template. -/
def addMacros (scope : Scope) (targets : List (String × String)) (holder : Expr) : Scope :=
  targets.foldl (fun scope target =>
    scope.addSymbol .function target.2 { name := target.1, object := some holder }) scope

/-- Leaving a scope of imported names changes nothing else. -/
theorem leave_eq (scope : Scope) : scope.leave = { scope with imports := scope.leave.imports } := by
  unfold leave
  split <;> rfl

theorem addSymbol_eq (scope : Scope) (kind : SymbolKind) (localName : String)
    (symbol : ImportedSymbol) : scope.addSymbol kind localName symbol =
      { scope with imports := (scope.addSymbol kind localName symbol).imports } := by
  unfold addSymbol
  split <;> rfl

theorem blocks_leave (scope : Scope) : scope.leave.blocks = scope.blocks := by
  rw [leave]
  split <;> rfl

theorem macros_leave (scope : Scope) : scope.leave.macros = scope.macros := by
  rw [leave]
  split <;> rfl

theorem blocks_addSymbol (scope : Scope) (kind : SymbolKind) (name : String)
    (symbol : ImportedSymbol) : (scope.addSymbol kind name symbol).blocks = scope.blocks := by
  rw [addSymbol]
  split <;> rfl

theorem macros_addSymbol (scope : Scope) (kind : SymbolKind) (name : String)
    (symbol : ImportedSymbol) : (scope.addSymbol kind name symbol).macros = scope.macros := by
  rw [addSymbol]
  split <;> rfl

theorem blocks_addMacros (scope : Scope) (targets : List (String × String)) (holder : Expr) :
    (scope.addMacros targets holder).blocks = scope.blocks := by
  induction targets generalizing scope with
  | nil => rfl
  | cons target rest ih => exact (ih _).trans (blocks_addSymbol _ _ _ _)

theorem macros_addMacros (scope : Scope) (targets : List (String × String)) (holder : Expr) :
    (scope.addMacros targets holder).macros = scope.macros := by
  induction targets generalizing scope with
  | nil => rfl
  | cons target rest ih => exact (ih _).trans (macros_addSymbol _ _ _ _)

/-! ## Stacks -/

/-- The stacks are as before, but for what is imported in the innermost scope. -/
structure Balanced (scope after : Scope) : Prop where
  blockStack_eq : after.blockStack = scope.blockStack
  tail_imports : after.imports.tail = scope.imports.tail
  length_imports : after.imports.length = scope.imports.length

namespace Balanced

variable {a b c : Scope}

theorem refl (a : Scope) : a.Balanced a := ⟨rfl, rfl, rfl⟩

theorem trans (h : a.Balanced b) (h' : b.Balanced c) : a.Balanced c :=
  ⟨h'.blockStack_eq.trans h.blockStack_eq, h'.tail_imports.trans h.tail_imports,
    h'.length_imports.trans h.length_imports⟩

theorem of_eq (h : b = a) : a.Balanced b := h ▸ .refl a

theorem pos (h : a.Balanced b) (ha : 0 < a.imports.length) : 0 < b.imports.length :=
  h.length_imports ▸ ha

variable {name : String} {line : Nat}

section

variable (himports : 0 < a.imports.length)

include himports

/-- A block is left for the scope in which it was entered. -/
theorem imports_closeBlock
    (h : (a.openBlock name line).Balanced b) (block : Block) :
    (b.closeBlock name block).imports = a.imports := by
  have hlength : 1 < b.imports.length := by
    rw [h.length_imports]
    exact Nat.succ_lt_succ himports
  rw [closeBlock, leave, if_pos hlength]
  exact h.tail_imports

theorem imports_closeMacro (h : a.enter.Balanced b)
    (name : String) (definition : MacroDef) : (b.closeMacro name definition).imports = a.imports := by
  have hlength : 1 < b.imports.length := by
    rw [h.length_imports]
    exact Nat.succ_lt_succ himports
  rw [closeMacro, leave, if_pos hlength]
  exact h.tail_imports

theorem block (h : (a.openBlock name line).Balanced b)
    (block : Block) : a.Balanced (b.closeBlock name block) := by
  have heq := imports_closeBlock himports h block
  refine ⟨?_, by rw [heq], by rw [heq]⟩
  rw [closeBlock, leave_eq]
  show b.blockStack.tail = a.blockStack
  rw [h.blockStack_eq]
  rfl

theorem defineMacro (h : a.enter.Balanced b) (name : String)
    (definition : MacroDef) : a.Balanced (b.closeMacro name definition) := by
  have heq := imports_closeMacro himports h name definition
  refine ⟨?_, by rw [heq], by rw [heq]⟩
  rw [closeMacro, leave_eq]
  exact h.blockStack_eq

end

theorem addSymbol (a : Scope) (kind : SymbolKind) (localName : String) (symbol : ImportedSymbol) :
    a.Balanced (a.addSymbol kind localName symbol) := by
  unfold Scope.addSymbol
  split
  · exact .refl a
  · rename_i himports
    exact ⟨rfl, by rw [himports]; rfl, by rw [himports]; rfl⟩

theorem addMacros (a : Scope) (targets : List (String × String)) (holder : Expr) :
    a.Balanced (a.addMacros targets holder) := by
  induction targets generalizing a with
  | nil => exact .refl a
  | cons target rest ih => exact (addSymbol a _ _ _).trans (ih _)

end Balanced

end Scope

end TwigToLatte
