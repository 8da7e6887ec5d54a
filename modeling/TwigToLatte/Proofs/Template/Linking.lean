import TwigToLatte.Proofs.Template.Tracking

/-!
# Blocks and their places

A block is registered before its body is read, and the statement that shows it is the only one of its
name. So every template that is read is linked: its places are those of its blocks, once each.

* `Scope.Adds` — blocks are added behind the others, each with the place that goes with it.
* `Scope.Registers` — **what reading statements does to the blocks and macros of a scope**.
* `Scope.Registers.block`, `Scope.Registers.defineMacro` — a block and a macro around statements.
* `tracks_registers` — it follows from what single tags do.
* `allLinked_parse` — **the template that a source holds is linked**, and so are those embedded in it.
-/

namespace TwigToLatte

open List

namespace Scope

/-- The places of blocks in the blocks and macros of the scope. -/
def places (scope : Scope) : List String :=
  blockPlaces scope.blocks.entries ++ macroPlaces scope.macros.entries

/-- The templates that the blocks and macros of the scope embed are linked. -/
structure EmbedsLinked (scope : Scope) : Prop where
  blocks : ∀ entry ∈ scope.blocks.entries, ∀ t ∈ bodyEmbeds entry.2.body, t.AllLinked
  macros : ∀ entry ∈ scope.macros.entries, ∀ t ∈ bodyEmbeds entry.2.body, t.AllLinked

/-- The blocks `added` have been registered, given the places of blocks and the embedded templates
among the statements. A place goes to one of these blocks, and no block has a second one. -/
structure Adds (scope : Scope) (added : List (String × Block)) (places : List String)
    (embeds : List Template) (after : Scope) : Prop where
  entries_eq : after.blocks.entries = scope.blocks.entries ++ added
  nodup_keys : scope.blocks.keys.Nodup → after.blocks.keys.Nodup
  forward : Forward added
  places_subset : ∀ name ∈ places, name ∈ added.map Prod.fst
  count_le : ∀ name, places.count name + after.places.count name ≤
    scope.places.count name + (added.map Prod.fst).count name
  linked : ∀ t ∈ embeds, t.AllLinked
  linked_after : scope.EmbedsLinked → after.EmbedsLinked

/-- What reading statements does to the blocks and macros of the scope. -/
def Registers (scope : Scope) (parts : List Stmt) (after : Scope) : Prop :=
  ∃ added, Adds scope added (parts.filterMap Stmt.place?) (parts.filterMap Stmt.embedded?) after

namespace Registers

variable {scope middle after : Scope} {parts more : List Stmt}

/-- Statements that bring no block and no embedded template, and define nothing. -/
theorem of_eq (hplaces : parts.filterMap Stmt.place? = [])
    (hembeds : parts.filterMap Stmt.embedded? = []) (hblocks : after.blocks = scope.blocks)
    (hmacros : after.macros = scope.macros) : Registers scope parts after := by
  have heq : after.places = scope.places := by rw [Scope.places, Scope.places, hblocks, hmacros]
  refine ⟨[], ?_⟩
  rw [hplaces, hembeds]
  exact
    { entries_eq := by rw [hblocks, append_nil]
      nodup_keys := fun hnodup => hblocks ▸ hnodup
      forward := trivial
      places_subset := fun _ hmem => hmem
      count_le := fun name => by rw [heq]; simp
      linked := fun _ hmem => absurd hmem not_mem_nil
      linked_after := fun hlinked => ⟨hblocks ▸ hlinked.blocks, hmacros ▸ hlinked.macros⟩ }

theorem trans (h : Registers scope parts middle) (h' : Registers middle more after) :
    Registers scope (parts ++ more) after := by
  obtain ⟨added, ha⟩ := h
  obtain ⟨added', ha'⟩ := h'
  refine ⟨added ++ added', ?_⟩
  rw [filterMap_append, filterMap_append]
  exact
    { entries_eq := by rw [ha'.entries_eq, ha.entries_eq, List.append_assoc]
      nodup_keys := fun hnodup => ha'.nodup_keys (ha.nodup_keys hnodup)
      forward := ha.forward.append ha'.forward
      places_subset := by
        intro name hmem
        rw [map_append, mem_append]
        exact (mem_append.mp hmem).imp (ha.places_subset name) (ha'.places_subset name)
      count_le := by
        intro name
        have := ha.count_le name
        have := ha'.count_le name
        simp only [map_append, count_append]
        omega
      linked := fun t hmem => (mem_append.mp hmem).elim (ha.linked t) (ha'.linked t)
      linked_after := fun hlinked => ha'.linked_after (ha.linked_after hlinked) }

variable {name : String} {line : Nat} {body : List Stmt}

/-- A block around statements: it is registered before them, with an empty body, and gets its
body after them. -/
theorem block (hnew : scope.blocks.get? name = none)
    (h : Registers (scope.openBlock name line) (bodyParts body) after) :
    Registers scope [⟨.block name, line⟩] (after.closeBlock name ⟨body, line⟩) := by
  obtain ⟨added, ha⟩ := h
  have hname : name ∉ scope.blocks.keys := Registry.get?_eq_none_iff.mp hnew
  have hbefore : (scope.openBlock name line).blocks.entries =
      scope.blocks.entries ++ [(name, ⟨[], line⟩)] := Registry.insertEntry_of_notMem hname
  have hentries : after.blocks.entries =
      scope.blocks.entries ++ (name, ⟨[], line⟩) :: added := by
    rw [ha.entries_eq, hbefore, List.append_assoc]
    rfl
  have hblocks : (after.closeBlock name ⟨body, line⟩).blocks =
      after.blocks.insert name ⟨body, line⟩ := blocks_leave _
  have hmacros : (after.closeBlock name ⟨body, line⟩).macros = after.macros := macros_leave _
  have hclosed : (after.closeBlock name ⟨body, line⟩).blocks.entries =
      scope.blocks.entries ++ (name, ⟨body, line⟩) :: added := by
    rw [hblocks, Registry.insert, hentries]
    exact Registry.insertEntry_replace hname
  refine ⟨(name, ⟨body, line⟩) :: added, ?_⟩
  exact
    { entries_eq := hclosed
      nodup_keys := by
        intro hnodup
        have hkeys : (after.closeBlock name ⟨body, line⟩).blocks.keys = after.blocks.keys := by
          rw [Registry.keys, Registry.keys, hclosed, hentries]
          simp
        rw [hkeys]
        refine ha.nodup_keys ?_
        rw [Registry.keys, hbefore, map_append]
        simpa [Registry.keys, concat_eq_append] using hnodup.concat hname
      forward := ⟨ha.places_subset, ha.forward⟩
      places_subset := by
        intro other hmem
        rw [mem_singleton.mp hmem]
        exact mem_cons_self
      count_le := by
        intro other
        have hcount := ha.count_le other
        have hopened : (scope.openBlock name line).macros = scope.macros := rfl
        have hplaces : [(⟨.block name, line⟩ : Stmt)].filterMap Stmt.place? = [name] := rfl
        have hbody : (bodyParts body).filterMap Stmt.place? = bodyPlaces body := rfl
        simp only [Scope.places, blockPlaces, hbefore, hentries, hclosed, hmacros, hopened, hplaces,
          hbody, flatMap_append, flatMap_cons, flatMap_nil, count_append,
          count_cons, count_nil, bodyPlaces_nil, map_cons] at hcount ⊢
        omega
      linked := fun _ hmem => absurd hmem not_mem_nil
      linked_after := by
        intro hlinked
        have hafter := ha.linked_after ⟨Registry.forall_mem_insert hlinked.blocks
          fun _ hmem => absurd hmem not_mem_nil, hlinked.macros⟩
        exact ⟨hblocks ▸ Registry.forall_mem_insert hafter.blocks ha.linked,
          hmacros ▸ hafter.macros⟩ }

/-- A macro around statements, which is registered after them. -/
theorem defineMacro {params : List (String × Expr)}
    (h : Registers scope.enter (bodyParts body) after) :
    Registers scope [] (after.closeMacro name ⟨params, body, line⟩) := by
  obtain ⟨added, ha⟩ := h
  have hblocks : (after.closeMacro name ⟨params, body, line⟩).blocks = after.blocks :=
    blocks_leave after
  have hmacros : (after.closeMacro name ⟨params, body, line⟩).macros =
      after.macros.insert name ⟨params, body, line⟩ := by
    rw [closeMacro, macros_leave]
  refine ⟨added, ?_⟩
  exact
    { entries_eq := hblocks ▸ ha.entries_eq
      nodup_keys := hblocks ▸ ha.nodup_keys
      forward := ha.forward
      places_subset := fun _ hmem => absurd hmem not_mem_nil
      count_le := by
        intro other
        have hcount := ha.count_le other
        have hinsert := Registry.count_insertEntry_le (fun entry => bodyPlaces entry.2.body) name
          (⟨params, body, line⟩ : MacroDef) after.macros.entries other
        have hentered : scope.enter.places = scope.places := rfl
        have hbody : (bodyParts body).filterMap Stmt.place? = bodyPlaces body := rfl
        rw [hentered] at hcount
        simp only [Scope.places, hblocks, hmacros, macroPlaces, Registry.insert, count_append,
          filterMap_nil, count_nil, hbody] at *
        omega
      linked := fun _ hmem => absurd hmem not_mem_nil
      linked_after := by
        intro hlinked
        have hafter := ha.linked_after ⟨hlinked.blocks, hlinked.macros⟩
        exact ⟨hblocks ▸ hafter.blocks, hmacros ▸ Registry.forall_mem_insert hafter.macros ha.linked⟩ }

/-- The template that is made of statements and of the scope after them. -/
theorem allLinked {parent : Option Expr} (hblocks : scope.blocks = {})
    (hmacros : scope.macros = {}) (h : Registers scope (bodyParts body) after) :
    Template.AllLinked ⟨body, after.blocks.entries, after.macros.entries, parent, []⟩ := by
  obtain ⟨added, ha⟩ := h
  have hentries : after.blocks.entries = added := by rw [ha.entries_eq, hblocks]; rfl
  have hnodup : (after.blocks.entries.map Prod.fst).Nodup :=
    ha.nodup_keys (by rw [hblocks]; exact nodup_nil)
  have hempty : scope.places = [] := by rw [Scope.places, hblocks, hmacros]; rfl
  generalize ht : (⟨body, after.blocks.entries, after.macros.entries, parent, []⟩ : Template) = t
  -- A name has no more places than it has blocks, which is one at most.
  have hcount : ∀ name, t.places.count name ≤ t.blockNames.count name := by
    intro name
    have hle := ha.count_le name
    have hbody : (bodyParts body).filterMap Stmt.place? = bodyPlaces body := rfl
    subst ht
    rw [hempty, hbody] at hle
    simp only [Template.places_eq, Template.blockNames, hentries, Scope.places, count_append,
      count_nil] at hle ⊢
    omega
  have hlinked : t.Linked :=
    { nodup_blockNames := ht ▸ hnodup
      nodup_places := nodup_iff_count_le_one.mpr fun name =>
        Nat.le_trans (hcount name) (nodup_iff_count_le_one.mp (ht ▸ hnodup) name)
      places_subset := fun name hmem => count_pos_iff.mp
        (Nat.lt_of_lt_of_le (count_pos_iff.mpr hmem) (hcount name))
      forward := by subst ht; exact hentries ▸ ha.forward }
  have hembeds := ha.linked_after
    ⟨by rw [hblocks]; exact fun _ hmem => absurd hmem not_mem_nil,
      by rw [hmacros]; exact fun _ hmem => absurd hmem not_mem_nil⟩
  refine hlinked.all ?_
  subst ht
  have hbody : EmbedsAll Template.AllLinked (bodyParts body) := ha.linked
  exact (hbody.append (.flatMap hembeds.blocks)).append (.flatMap hembeds.macros)

theorem embed {included : Inclusion} {t : Template} (ht : t.AllLinked) :
    Registers scope [⟨.embed included t, line⟩] scope := by
  have hnone : Registers scope [] scope := of_eq rfl rfl rfl rfl
  obtain ⟨added, ha⟩ := hnone
  refine ⟨added, { ha with linked := fun m hmem => ?_ }⟩
  rw [mem_singleton.mp hmem]
  exact ht

end Registers

end Scope

/-- **What statements register follows from what single tags do.** -/
theorem tracks_registers (context : Parse.Context) : Grammar.Tracks context Scope.Registers where
  refl _ := .of_eq rfl rfl rfl rfl
  trans h h' := h.trans h'
  statement {_ _ kind line parts} hkind _ h := by
    have hnone : Stmt.place? ⟨kind, line⟩ = none ∧ Stmt.embedded? ⟨kind, line⟩ = none := by
      cases kind <;> first | exact ⟨rfl, rfl⟩ | cases hkind
    rwa [Scope.Registers, filterMap_cons_none hnone.1, filterMap_cons_none hnone.2]
  mark h := by
    rw [Scope.Registers, filterMap_append, filterMap_append] at h ⊢
    exact h
  block hnew h := h.block hnew
  inherit _ _ _ _ := .of_eq rfl rfl rfl rfl
  useBlocks _ := .of_eq rfl rfl rfl rfl
  defineMacro _ _ h := h.defineMacro
  addSymbol kind localName symbol :=
    .of_eq rfl rfl (Scope.blocks_addSymbol _ _ _ _) (Scope.macros_addSymbol _ _ _ _)
  embed _ h := .embed (h.allLinked rfl rfl)

/-- **The template that a source holds is linked**, and so are the templates embedded in it. -/
theorem allLinked_parse {dialect : Dialect} {source : Source} {t : Template}
    (h : (Template.parse dialect source).result = .ok t) : t.AllLinked := by
  obtain ⟨tokens, log, last, htokens, -⟩ := Grammar.derives_parse h
  obtain ⟨last, hregisters, heq⟩ := (made_parse htokens h (tracks_registers _)).1
  rw [heq]
  exact hregisters.allLinked rfl rfl

end TwigToLatte
