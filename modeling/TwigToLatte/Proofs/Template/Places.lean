import Mathlib.Data.List.Nodup
import TwigToLatte.Proofs.Template.Pieces

/-!
# The places of blocks

A block is defined where its statement stands, but its body is kept beside the body of the
template. So blocks can hold the places of other blocks, and a template embedded in another one has
blocks of its own.

* `Stmt.parts`, `Template.parts` — a statement with the statements inside it, and the statements of
  a template, at any depth but not inside embedded templates.
* `Template.Module` — a template and the templates embedded in it, at any depth.
* `Template.places`, `Template.placesIn` — the names that the places of blocks have, in a template
  and in one of its blocks.
* `Template.RefersTo` — the body of one block holds the place of another one.
* `all_of_inherited` — induction over embedded templates.
* `Forward` — every block refers only to blocks that come later.
* `Template.Linked` — **every block has at most one place, and refers to later blocks only**.
* `Template.Linked.wellFounded` — blocks cannot contain each other in a circle.
-/

namespace TwigToLatte

open List

/-! ## Tables -/

section

variable {α : Type} {table : List (String × α)} {name : String}

theorem lookup_eq_none_iff_notMem : table.lookup name = none ↔ name ∉ table.map Prod.fst := by
  rw [lookup_eq_none_iff, mem_map]
  constructor
  · rintro h ⟨entry, hmem, rfl⟩
    simpa using h entry hmem
  · intro h entry hmem
    rw [bne_iff_ne]
    rintro rfl
    exact h ⟨entry, hmem, rfl⟩

variable {value : α}

theorem mem_of_lookup_eq_some (h : table.lookup name = some value) : (name, value) ∈ table := by
  obtain ⟨before, after, rfl, -⟩ := lookup_eq_some_iff.mp h
  exact mem_append_right _ mem_cons_self

/-- Without repeated names every entry can be looked up. -/
theorem lookup_eq_some_of_mem (hnodup : (table.map Prod.fst).Nodup) (h : (name, value) ∈ table) :
    table.lookup name = some value := by
  induction table with
  | nil => cases h
  | cons entry rest ih =>
    rw [map_cons, nodup_cons] at hnodup
    rw [lookup_cons]
    rcases mem_cons.mp h with rfl | h
    · rw [beq_self_eq_true]
    · have hne : (name == entry.1) = false := by
        rw [beq_eq_false_iff_ne]
        rintro rfl
        exact hnodup.1 (mem_map.mpr ⟨_, h, rfl⟩)
      rw [hne]
      exact ih hnodup.2 h

end

/-! ## Statements inside statements -/

mutual

/-- The statement and the statements inside it, in the order in which they are written. -/
def Stmt.parts : Stmt → List Stmt
  | ⟨kind, line⟩ => ⟨kind, line⟩ :: kind.parts

/-- The statements inside a statement. -/
def Stmt.Kind.parts : Stmt.Kind → List Stmt
  | .loop _ _ _ body otherwise _ => bodyParts body ++ optionalParts otherwise
  | .branch branches otherwise => branchParts branches ++ optionalParts otherwise
  | .capture _ body => bodyParts body
  | .scope _ _ body => bodyParts body
  | .apply _ body => bodyParts body
  | .autoescape _ body => bodyParts body
  | .sandbox body => bodyParts body
  | .cache _ _ _ body => bodyParts body
  | _ => []

def bodyParts : List Stmt → List Stmt
  | [] => []
  | stmt :: rest => stmt.parts ++ bodyParts rest

def optionalParts : Option (List Stmt) → List Stmt
  | none => []
  | some body => bodyParts body

def branchParts : List (Expr × List Stmt) → List Stmt
  | [] => []
  | (_, body) :: rest => bodyParts body ++ branchParts rest

end

theorem Stmt.parts_eq (stmt : Stmt) : stmt.parts = stmt :: stmt.kind.parts := by
  cases stmt
  rfl

section

variable {α β : Type} {f : List α → List β} {g : α → List β} (hnil : f [] = [])
  (hcons : ∀ x rest, f (x :: rest) = g x ++ f rest)

include hnil hcons

theorem eq_flatMap_of_cons (list : List α) : f list = list.flatMap g := by
  induction list with
  | nil => exact hnil
  | cons x rest ih => rw [hcons, flatMap_cons, ih]

theorem append_of_cons (a b : List α) : f (a ++ b) = f a ++ f b := by
  simp only [eq_flatMap_of_cons hnil hcons, flatMap_append]

end

theorem bodyParts_append (a b : List Stmt) : bodyParts (a ++ b) = bodyParts a ++ bodyParts b :=
  append_of_cons rfl (fun _ _ => rfl) a b

theorem branchParts_append (a b : List (Expr × List Stmt)) :
    branchParts (a ++ b) = branchParts a ++ branchParts b := append_of_cons rfl (fun _ _ => rfl) a b

/-- The block whose place the statement is. -/
def Stmt.place? (stmt : Stmt) : Option String :=
  match stmt.kind with
  | .block name => some name
  | _ => none

def Stmt.embedded? (stmt : Stmt) : Option Template :=
  match stmt.kind with
  | .embed _ template => some template
  | _ => none

/-- The places of blocks in statements. -/
def bodyPlaces (body : List Stmt) : List String := (bodyParts body).filterMap Stmt.place?

def bodyEmbeds (body : List Stmt) : List Template := (bodyParts body).filterMap Stmt.embedded?

@[simp] theorem bodyPlaces_nil : bodyPlaces [] = [] := rfl

/-- The statements in the bodies of blocks. -/
def blockParts (blocks : List (String × Block)) : List Stmt :=
  blocks.flatMap fun block => bodyParts block.2.body

/-- The statements in the bodies of macros. -/
def macroParts (macros : List (String × MacroDef)) : List Stmt :=
  macros.flatMap fun definition => bodyParts definition.2.body

/-- The places of blocks in the bodies of blocks. -/
def blockPlaces (blocks : List (String × Block)) : List String :=
  blocks.flatMap fun block => bodyPlaces block.2.body

/-- The places of blocks in the bodies of macros. -/
def macroPlaces (macros : List (String × MacroDef)) : List String :=
  macros.flatMap fun definition => bodyPlaces definition.2.body

theorem filterMap_blockParts (blocks : List (String × Block)) :
    (blockParts blocks).filterMap Stmt.place? = blockPlaces blocks :=
  filterMap_flatMap

theorem filterMap_macroParts (macros : List (String × MacroDef)) :
    (macroParts macros).filterMap Stmt.place? = macroPlaces macros :=
  filterMap_flatMap

/-- The templates that the statements embed have the property. -/
def EmbedsAll (P : Template → Prop) (parts : List Stmt) : Prop :=
  ∀ inner ∈ parts.filterMap Stmt.embedded?, P inner

section

variable {P : Template → Prop} {parts more : List Stmt}

theorem EmbedsAll.nil : EmbedsAll P [] := fun _ hmem => absurd hmem not_mem_nil

theorem embedsAll_append : EmbedsAll P (parts ++ more) ↔ EmbedsAll P parts ∧ EmbedsAll P more := by
  rw [EmbedsAll, filterMap_append, forall_mem_append]
  rfl

theorem EmbedsAll.append (h : EmbedsAll P parts) (h' : EmbedsAll P more) :
    EmbedsAll P (parts ++ more) := embedsAll_append.mpr ⟨h, h'⟩

theorem EmbedsAll.flatMap {α : Type} {list : List α} {f : α → List Stmt}
    (h : ∀ a ∈ list, EmbedsAll P (f a)) : EmbedsAll P (list.flatMap f) := by
  rw [EmbedsAll, filterMap_flatMap]
  intro inner hmem
  obtain ⟨a, ha, hmem⟩ := mem_flatMap.mp hmem
  exact h a ha inner hmem

theorem EmbedsAll.of_subset (h : EmbedsAll P parts) (hsub : more ⊆ parts) : EmbedsAll P more :=
  fun inner hmem => h inner (filterMap_subset _ hsub hmem)

end

/-! ## Templates inside templates -/

namespace Template

/-- The statements of a template: of its body, its blocks and its macros. -/
def parts (t : Template) : List Stmt :=
  bodyParts t.body ++ blockParts t.blocks ++ macroParts t.macros

variable {t m : Template}

theorem bodyParts_subset {name : String} {block : Block} (h : (name, block) ∈ t.blocks) :
    bodyParts block.body ⊆ t.parts := by
  intro stmt hmem
  rw [parts, mem_append, mem_append]
  exact .inl (.inr (mem_flatMap.mpr ⟨(name, block), h, hmem⟩))

/-- A template, or one that is embedded in it at any depth. -/
inductive Module (t : Template) : Template → Prop
  | self : Module t t
  | embedded {m inner : Template} {stmt : Stmt} (outer : Module t m) (mem : stmt ∈ m.parts)
      (embeds : stmt.embedded? = some inner) : Module t inner

theorem Module.trans {inner : Template} (h : t.Module m) (h' : m.Module inner) :
    t.Module inner := by
  induction h' with
  | self => exact h
  | embedded _ mem embeds ih => exact .embedded ih mem embeds

/-- An embedded template is one of those that the statements embed, or inside it. -/
theorem Module.eq_or_embedded (h : t.Module m) :
    m = t ∨ ∃ stmt ∈ t.parts, ∃ inner, stmt.embedded? = some inner ∧ inner.Module m := by
  induction h with
  | self => exact .inl rfl
  | embedded outer mem embeds ih =>
    rcases ih with rfl | ⟨stmt, hstmt, inner, hinner, hmodule⟩
    · exact .inr ⟨_, mem, _, embeds, .self⟩
    · exact .inr ⟨stmt, hstmt, inner, hinner, .embedded hmodule mem embeds⟩

/-- What holds of a template if it holds of those that it embeds. -/
def Inherited (P : Template → Prop) : Prop := ∀ t : Template, EmbedsAll P t.parts → P t

/-- The names of the blocks, in order of registration. -/
def blockNames (t : Template) : List String := t.blocks.map Prod.fst

def places (t : Template) : List String := t.parts.filterMap Stmt.place?

theorem places_eq (t : Template) :
    t.places = bodyPlaces t.body ++ blockPlaces t.blocks ++ macroPlaces t.macros := by
  rw [places, parts, filterMap_append, filterMap_append, filterMap_blockParts,
    filterMap_macroParts]
  rfl

/-- The body of the first block holds the place of the second one. -/
def RefersTo (t : Template) (a b : String) : Prop :=
  ∃ block, (a, block) ∈ t.blocks ∧ b ∈ bodyPlaces block.body

/-- The places of blocks in the body of a block. -/
def placesIn (t : Template) (name : String) : List String :=
  ((t.blocks.lookup name).map fun block => bodyPlaces block.body).getD []

theorem refersTo_of_mem_placesIn {a b : String} (h : b ∈ t.placesIn a) : t.RefersTo a b := by
  rw [placesIn] at h
  cases hlookup : t.blocks.lookup a with
  | none =>
    rw [hlookup] at h
    cases h
  | some block =>
    rw [hlookup] at h
    exact ⟨block, mem_of_lookup_eq_some hlookup, h⟩

/-- Without repeated names, the places in all blocks are those in each of them. -/
theorem flatMap_placesIn (h : t.blockNames.Nodup) :
    t.blockNames.flatMap t.placesIn = blockPlaces t.blocks := by
  rw [blockNames, flatMap_map, blockPlaces, flatMap_def, flatMap_def]
  congr 1
  refine map_congr_left fun entry hmem => ?_
  rw [placesIn, lookup_eq_some_of_mem h hmem]
  rfl

end Template

/-! ## Pieces -/

/-- The statements in a piece, but not those of an embedded template. -/
@[simp] def Piece.parts : Piece → List Stmt
  | .body list => bodyParts list
  | _ => []

@[simp] theorem flatMap_parts_optional (body : Option (List Stmt)) :
    body.toList.flatMap bodyParts = optionalParts body := by
  cases body with
  | none => rfl
  | some body => exact append_nil _

@[simp] theorem flatMap_parts_branches (branches : List (Expr × List Stmt)) :
    (branchPieces branches).flatMap Piece.parts = branchParts branches := by
  induction branches with
  | nil => rfl
  | cons branch rest ih => exact congrArg (bodyParts branch.2 ++ ·) ih

@[simp] theorem flatMap_parts_macros (macros : List (String × MacroDef)) :
    (macroPieces macros).flatMap Piece.parts = macroParts macros := by
  induction macros with
  | nil => rfl
  | cons definition rest ih => exact congrArg (bodyParts definition.2.body ++ ·) ih

theorem Stmt.Kind.flatMap_parts (kind : Stmt.Kind) :
    kind.pieces.flatMap Piece.parts = kind.parts := by
  cases kind with
  | cache key ttl tags body => cases ttl <;> cases tags <;> simp [pieces, parts]
  | _ => simp [pieces, parts, Inclusion.pieces, flatMap_map]

theorem Template.flatMap_parts (t : Template) : t.pieces.flatMap Piece.parts = t.parts := by
  simp [pieces, parts, blockParts, flatMap_map]

theorem Stmt.embedded?_eq_some_iff {kind : Stmt.Kind} {line : Nat} {t : Template} :
    Stmt.embedded? ⟨kind, line⟩ = some t ↔ .template t ∈ kind.pieces := by
  have hbranches : ∀ branches, .template t ∉ branchPieces branches := by
    intro branches
    induction branches with
    | nil => exact not_mem_nil
    | cons branch rest ih => simp [branchPieces, ih]
  cases kind <;> simp [embedded?, Kind.pieces, Inclusion.pieces, hbranches, eq_comm]

/-! ## Induction over embedded templates -/

section

variable {P : Template → Prop}

/-- What is embedded in the piece has the property, and so does the piece if it is a template. -/
def Piece.Embeds (P : Template → Prop) (x : Piece) : Prop :=
  EmbedsAll P x.parts ∧ ∀ t, x = .template t → P t

theorem EmbedsAll.of_pieces {pieces : List Piece} (h : ∀ x ∈ pieces, x.Embeds P) :
    EmbedsAll P (pieces.flatMap Piece.parts) := .flatMap fun x hx => (h x hx).1

theorem Template.Inherited.hereditary (hP : Template.Inherited P) :
    Hereditary (Piece.Embeds P) fun stmt => EmbedsAll P stmt.parts where
  expr _ := ⟨.nil, nofun⟩
  named _ := ⟨.nil, nofun⟩
  nil := ⟨.nil, nofun⟩
  cons _ _ hstmt hrest := ⟨hstmt.append hrest.1, nofun⟩
  stmt kind line h := by
    have hparts := EmbedsAll.of_pieces h
    rw [kind.flatMap_parts] at hparts
    intro inner hmem
    obtain ⟨stmt, hstmt, hinner⟩ := mem_filterMap.mp hmem
    rcases mem_cons.mp hstmt with rfl | hstmt
    · exact (h _ (Stmt.embedded?_eq_some_iff.mp hinner)).2 inner rfl
    · exact hparts inner (mem_filterMap.mpr ⟨stmt, hstmt, hinner⟩)
  template t h := by
    have hparts := EmbedsAll.of_pieces h
    rw [t.flatMap_parts] at hparts
    refine ⟨.nil, ?_⟩
    rintro _ ⟨⟩
    exact hP t hparts

/-- **Induction over embedded templates.** -/
theorem all_of_inherited (hP : Template.Inherited P) (t : Template) : P t :=
  (hP.hereditary.all_template t).2 t rfl

end

/-! ## Blocks in order -/

/-- Every block refers only to blocks that come later. -/
def Forward : List (String × Block) → Prop
  | [] => True
  | (_, block) :: rest => (∀ name ∈ bodyPlaces block.body, name ∈ rest.map Prod.fst) ∧ Forward rest

theorem Forward.append {a b : List (String × Block)} (ha : Forward a) (hb : Forward b) :
    Forward (a ++ b) := by
  induction a with
  | nil => exact hb
  | cons entry rest ih =>
    refine ⟨fun name hname => ?_, ih ha.2⟩
    show name ∈ (rest ++ b).map Prod.fst
    rw [map_append]
    exact mem_append_left _ (ha.1 name hname)

/-- In a table without repeated names a block stands before those that it refers to. -/
theorem Forward.idxOf_lt {blocks : List (String × Block)} (h : Forward blocks)
    (hnodup : (blocks.map Prod.fst).Nodup) {a b : String} {block : Block}
    (ha : (a, block) ∈ blocks) (hb : b ∈ bodyPlaces block.body) :
    b ∈ blocks.map Prod.fst ∧ (blocks.map Prod.fst).idxOf a < (blocks.map Prod.fst).idxOf b := by
  induction blocks with
  | nil => cases ha
  | cons entry rest ih =>
    rw [map_cons, nodup_cons] at hnodup
    rw [map_cons]
    rcases mem_cons.mp ha with rfl | ha
    · have hmem := h.1 b hb
      have hne : b ≠ a := fun heq => hnodup.1 (heq ▸ hmem)
      refine ⟨mem_cons_of_mem _ hmem, ?_⟩
      rw [idxOf_cons_self, idxOf_cons_ne _ hne.symm]
      exact Nat.succ_pos _
    · obtain ⟨hmem, hlt⟩ := ih h.2 hnodup.2 ha
      have hmem_a : a ∈ rest.map Prod.fst := mem_map_of_mem (f := Prod.fst) ha
      have hne_a : entry.1 ≠ a := fun heq => hnodup.1 (heq ▸ hmem_a)
      have hne_b : entry.1 ≠ b := fun heq => hnodup.1 (heq ▸ hmem)
      refine ⟨mem_cons_of_mem _ hmem, ?_⟩
      rw [idxOf_cons_ne _ hne_a, idxOf_cons_ne _ hne_b]
      exact Nat.succ_lt_succ hlt

/-- It does not matter what else of the bodies changes than places. -/
theorem forward_map {g : List Stmt → List Stmt} (hg : ∀ body, bodyPlaces (g body) = bodyPlaces body)
    (blocks : List (String × Block)) :
    Forward (blocks.map fun entry => (entry.1, ⟨g entry.2.body, entry.2.line⟩)) ↔
      Forward blocks := by
  induction blocks with
  | nil => exact Iff.rfl
  | cons entry rest ih =>
    rw [map_cons, Forward, Forward, ih, hg, map_map]
    rfl

/-- A template in which every block has at most one place, and refers to later blocks only. -/
structure Template.Linked (t : Template) : Prop where
  nodup_blockNames : t.blockNames.Nodup
  nodup_places : t.places.Nodup
  places_subset : ∀ name ∈ t.places, name ∈ t.blockNames
  forward : Forward t.blocks

/-- What keeps the place of each statement keeps templates linked. -/
theorem Template.linked_iff_of_parts {t t' : Template} {f : Stmt → Stmt}
    {g : List Stmt → List Stmt} (hf : ∀ stmt, (f stmt).place? = stmt.place?)
    (hparts : t'.parts = t.parts.map f) (hg : ∀ body, bodyParts (g body) = (bodyParts body).map f)
    (hblocks : t'.blocks =
      t.blocks.map fun entry => (entry.1, ⟨g entry.2.body, entry.2.line⟩)) :
    t'.Linked ↔ t.Linked := by
  have hmap (parts : List Stmt) :
      (parts.map f).filterMap Stmt.place? = parts.filterMap Stmt.place? := by
    rw [filterMap_map]
    exact filterMap_congr fun stmt _ => hf stmt
  have hplaces : t'.places = t.places := by rw [places, hparts, hmap, places]
  have hnames : t'.blockNames = t.blockNames := by
    rw [blockNames, hblocks, map_map]
    rfl
  have hforward : Forward t'.blocks ↔ Forward t.blocks := by
    refine hblocks ▸ forward_map (fun body => ?_) t.blocks
    rw [bodyPlaces, hg, hmap, bodyPlaces]
  constructor
  · rintro ⟨hnodup, hnodup', hsubset, hall⟩
    rw [hnames] at hnodup hsubset
    rw [hplaces] at hnodup' hsubset
    exact ⟨hnodup, hnodup', hsubset, hforward.mp hall⟩
  · rintro ⟨hnodup, hnodup', hsubset, hall⟩
    rw [← hnames] at hnodup hsubset
    rw [← hplaces] at hnodup' hsubset
    exact ⟨hnodup, hnodup', hsubset, hforward.mpr hall⟩

namespace Template.Linked

variable {t : Template}

/-- A block stands before the blocks that it refers to. -/
theorem idxOf_lt (h : t.Linked) {a b : String} (hab : t.RefersTo a b) :
    b ∈ t.blockNames ∧ t.blockNames.idxOf a < t.blockNames.idxOf b :=
  have ⟨_, ha, hb⟩ := hab
  h.forward.idxOf_lt h.nodup_blockNames ha hb

/-- **Blocks cannot contain each other in a circle**: the number of blocks that come later falls
from a block to those inside it. -/
theorem wellFounded (h : t.Linked) : WellFounded fun b a => t.RefersTo a b := by
  refine Subrelation.wf ?_ (measure fun name => t.blockNames.length - t.blockNames.idxOf name).wf
  intro b a hab
  obtain ⟨hmem, hlt⟩ := h.idxOf_lt hab
  have := idxOf_lt_length_of_mem hmem
  show t.blockNames.length - t.blockNames.idxOf b < t.blockNames.length - t.blockNames.idxOf a
  omega

end Template.Linked

/-- The template and all templates embedded in it are linked. -/
def Template.AllLinked (t : Template) : Prop := ∀ m, t.Module m → m.Linked

variable {t : Template}

theorem Template.AllLinked.embeds (h : t.AllLinked) : EmbedsAll AllLinked t.parts := by
  intro inner hmem m hm
  obtain ⟨stmt, hstmt, hinner⟩ := mem_filterMap.mp hmem
  exact h m (.trans (.embedded .self hstmt hinner) hm)

theorem Template.Linked.all (h : t.Linked) (hembeds : EmbedsAll AllLinked t.parts) :
    t.AllLinked := by
  intro m hm
  rcases hm.eq_or_embedded with rfl | ⟨stmt, mem, inner, embeds, hm⟩
  · exact h
  · exact hembeds inner (mem_filterMap.mpr ⟨stmt, mem, embeds⟩) m hm

end TwigToLatte
