import TwigToLatte.Proofs.Latte.Inlining
import TwigToLatte.Proofs.Latte.Weaving

/-!
# Blocks that are written

In a linked template every place has its block and every block at most one place. Rendering such a
template finds each block that it asks for, and writes it only once.

* `Script.within_linked` — nothing in the script of a linked template stops at an undefined block.
* `Script.ownBlocks` — the blocks that a script writes, without those of embedded templates.
* `Script.nodup_ownBlocks` — a linked template writes each of its blocks at most once.
* `blocks_defined_once` — **every place has its block, and every block one place at most**.
-/

namespace TwigToLatte.Latte

open List

/-! ## No block is undefined -/

namespace Script

theorem rootsExcused_ofText (parts : List Stmt) : RootsExcused OfText parts :=
  fun _ _ _ _ x _ => excused_ofText x

theorem woven_ofText (t : Template) (scope : Scope) :
    Woven OfText (blocks (blockBodies t.blocks) t.blocks.length)
      (bodyParts t.body ++ macroParts t.macros) (template t scope) :=
  woven_template scope (rootsExcused_ofText _) fun _ _ => ⟨fun x _ => excused_ofText x, nofun⟩

variable {t : Template}

/-- The script of a block, written to a depth that covers the blocks that come later. -/
theorem within_blocks (h : t.Linked)
    (hembeds : EmbedsAll (fun t => ∀ scope, Within OfText (template t scope)) t.parts)
    (depth : Nat) (name : String) (hname : name ∈ t.blockNames)
    (hdepth : t.blockNames.length - t.blockNames.idxOf name ≤ depth) (line : Nat) (scope : Scope) :
    Within OfText (blocks (blockBodies t.blocks) depth name line scope) := by
  induction depth generalizing name line scope with
  | zero =>
    have := idxOf_lt_length_iff.mpr hname
    omega
  | succ depth ih =>
    rw [blocks_succ]
    cases hlookup : t.blocks.lookup name with
    | none => exact absurd hname (lookup_eq_none_iff_notMem.mp hlookup)
    | some found =>
      have hmem := mem_of_lookup_eq_some hlookup
      refine Within.block ((woven_statements _ found.body scope (rootsExcused_ofText _)).within
        (fun stmt hstmt other hplace scope => ?_) ?_) name
      · have hother : other ∈ (bodyParts found.body).filterMap Stmt.place? :=
          mem_filterMap.mpr ⟨stmt, hstmt, hplace⟩
        obtain ⟨hother, hlt⟩ := h.idxOf_lt ⟨found, hmem, hother⟩
        exact ih other hother (by omega) stmt.line scope
      · exact hembeds.of_subset (Template.bodyParts_subset hmem)

/-- **No event of a linked template stops at an undefined block.** -/
theorem within_linked (h : t.AllLinked) (scope : Scope) : Within OfText (template t scope) := by
  revert scope
  refine all_of_inherited
    (P := fun t => t.AllLinked → ∀ scope, Within OfText (template t scope)) ?_ t h
  intro t ih hall scope
  have hlinked := hall t .self
  have hembeds : EmbedsAll (fun t => ∀ scope, Within OfText (template t scope)) t.parts :=
    fun inner hmem => ih inner hmem (hall.embeds inner hmem)
  refine (woven_ofText t scope).within (fun stmt hstmt name hname scope => ?_)
    (hembeds.of_subset (written_subset t))
  have hplace : name ∈ t.places := mem_filterMap.mpr ⟨stmt, written_subset t hstmt, hname⟩
  exact within_blocks hlinked hembeds _ name (hlinked.places_subset name hplace)
    (by rw [Template.blockNames, length_map]; omega) stmt.line scope

end Script

/-! ## The blocks of a script -/

/-- The block of the template itself that begins with the event. -/
def Event.block? : Event → Option String
  | .block name => some name
  | _ => none

namespace Script

/-- The blocks of a template that its script writes, without those of embedded templates. -/
def ownBlocks (script : Script) : List String := script.filterMap Event.block?

theorem ownBlocks_append (a b : Script) : ownBlocks (a ++ b) = ownBlocks a ++ ownBlocks b :=
  filterMap_append

theorem ownBlocks_inner (script : Script) : ownBlocks (script.map .inner) = [] := by
  rw [ownBlocks, filterMap_map]
  exact filterMap_eq_nil_iff.mpr fun _ _ => rfl

/-- The blocks that are written for statements are those that are written for their places. -/
theorem Woven.ownBlocks_eq {C : RenderError → Prop} {block : BlockScript} {parts : List Stmt}
    {script : Script} {written : String → List String} (h : Woven C block parts script)
    (hblock : ∀ name line scope, ownBlocks (block name line scope) = written name) :
    ownBlocks script = (parts.filterMap Stmt.place?).flatMap written := by
  induction h with
  | nil => rfl
  | event plain _ ih => cases plain <;> exact ih
  | start _ _ ih => exact ih
  | skip place _ _ ih => rw [ih, filterMap_cons_none place]
  | place place _ scope _ ih =>
    rw [ownBlocks_append, hblock, ih, filterMap_cons_some place, flatMap_cons]
  | embed place _ scope _ ih =>
    rw [ownBlocks_append, ownBlocks_inner, ih, filterMap_cons_none place, nil_append]

/-- The blocks that are written at the place of a block. -/
def written (t : Template) : Nat → String → List String
  | 0, _ => []
  | depth + 1, name =>
    match t.blocks.lookup name with
    | none => []
    | some block => name :: (bodyPlaces block.body).flatMap (written t depth)

theorem ownBlocks_blocks (t : Template) (depth : Nat) (name : String) (line : Nat) (scope : Scope) :
    ownBlocks (blocks (blockBodies t.blocks) depth name line scope) = written t depth name := by
  induction depth generalizing name line scope with
  | zero => rfl
  | succ depth ih =>
    rw [blocks_succ, written]
    cases t.blocks.lookup name with
    | none => rfl
    | some found =>
      have hbody := (woven_statements (blocks (blockBodies t.blocks) depth) found.body scope
        (rootsExcused_ofText _)).ownBlocks_eq ih
      rw [ownBlocks_append]
      exact (append_nil _).trans (congrArg (name :: ·) hbody)

theorem ownBlocks_template (t : Template) (scope : Scope) :
    ownBlocks (template t scope) =
      (bodyPlaces t.body ++ macroPlaces t.macros).flatMap (written t t.blocks.length) := by
  rw [(woven_ofText t scope).ownBlocks_eq (ownBlocks_blocks t _), filterMap_append,
    filterMap_macroParts]
  rfl

/-! ## Each block once -/

/-- A block is written because its place is among the given ones, or among the places in a block
that is written. -/
theorem count_written_le (t : Template) (depth : Nat) (names : List String) (b : String) :
    (names.flatMap (written t depth)).count b ≤
      names.count b + ((names.flatMap (written t depth)).flatMap t.placesIn).count b := by
  induction depth generalizing names with
  | zero =>
    have hnil : names.flatMap (written t 0) = [] := flatMap_eq_nil_iff.mpr fun _ _ => rfl
    rw [hnil]
    exact Nat.zero_le _
  | succ depth ih =>
    induction names with
    | nil => exact Nat.zero_le _
    | cons name names ih' =>
      have hname : (written t (depth + 1) name).count b ≤
          [name].count b + ((written t (depth + 1) name).flatMap t.placesIn).count b := by
        rw [written]
        cases hlookup : t.blocks.lookup name with
        | none => exact Nat.zero_le _
        | some block =>
          have hplaces : t.placesIn name = bodyPlaces block.body := by
            rw [Template.placesIn, hlookup]
            rfl
          have := ih (bodyPlaces block.body)
          simp only [flatMap_cons, hplaces, count_append, count_cons, count_nil]
          omega
      rw [flatMap_cons, flatMap_append, count_append, count_append,
        ← singleton_append, count_append]
      omega

variable {t : Template} {b : String}

theorem mem_blockNames_of_mem_written {depth : Nat} {name : String} (h : b ∈ written t depth name) :
    b ∈ t.blockNames := by
  induction depth generalizing name with
  | zero => cases h
  | succ depth ih =>
    rw [written] at h
    cases hlookup : t.blocks.lookup name with
    | none =>
      rw [hlookup] at h
      cases h
    | some block =>
      rw [hlookup] at h
      rcases mem_cons.mp h with rfl | h
      · exact mem_map.mpr ⟨_, mem_of_lookup_eq_some hlookup, rfl⟩
      · obtain ⟨other, -, h⟩ := mem_flatMap.mp h
        exact ih h

/-- Places in blocks that are named once at most are counted once at most. -/
theorem count_flatMap_le {names all : List String} {places : String → List String}
    (hsub : names ⊆ all) (hone : ∀ a ∈ names, b ∈ places a → names.count a ≤ 1) :
    (names.flatMap places).count b ≤ (all.flatMap places).count b := by
  induction names generalizing all with
  | nil => exact Nat.zero_le _
  | cons a names ih =>
    rw [cons_subset] at hsub
    have hone' : ∀ c ∈ names, b ∈ places c → names.count c ≤ 1 := fun c hc hb =>
      Nat.le_trans count_le_count_cons (hone c (mem_cons_of_mem _ hc) hb)
    rw [flatMap_cons, count_append]
    by_cases hb : b ∈ places a
    · -- The block is named no second time, so the others are among the rest.
      have ha : a ∉ names := by
        have hcount := hone a mem_cons_self hb
        rw [count_cons_self] at hcount
        exact count_eq_zero.mp (by omega)
      have hrest : names ⊆ all.erase a := by
        intro c hc
        have hne : c ≠ a := ne_of_mem_of_not_mem hc ha
        exact (mem_erase_of_ne hne).mpr (hsub.2 hc)
      have hall : (all.flatMap places).count b =
          (places a).count b + ((all.erase a).flatMap places).count b := by
        rw [((perm_cons_erase hsub.1).flatMap_right places).count_eq, flatMap_cons,
          count_append]
      have := ih hrest hone'
      omega
    · rw [count_eq_zero.mpr hb, Nat.zero_add]
      exact ih hsub.2 hone'

/-- **A linked template writes each of its blocks at most once.** -/
theorem nodup_ownBlocks (h : t.Linked) (scope : Scope) : (ownBlocks (template t scope)).Nodup := by
  rw [nodup_iff_count_le_one, ownBlocks_template]
  generalize hnames :
    (bodyPlaces t.body ++ macroPlaces t.macros).flatMap (written t t.blocks.length) = names
  intro b
  -- Blocks that hold the place of `b` are registered before it.
  induction b using (measure t.blockNames.idxOf).wf.induction with
  | _ b ih =>
    have hsub : names ⊆ t.blockNames := by
      intro a ha
      rw [← hnames] at ha
      obtain ⟨place, -, ha⟩ := mem_flatMap.mp ha
      exact mem_blockNames_of_mem_written ha
    have hinside : (names.flatMap t.placesIn).count b ≤ (blockPlaces t.blocks).count b := by
      rw [← Template.flatMap_placesIn h.nodup_blockNames]
      exact count_flatMap_le hsub fun a _ hb =>
        ih a (h.idxOf_lt (Template.refersTo_of_mem_placesIn hb)).2
    have hcount := count_written_le t t.blocks.length (bodyPlaces t.body ++ macroPlaces t.macros) b
    have hplaces := nodup_iff_count_le_one.mp h.nodup_places b
    rw [hnames] at hcount
    rw [Template.places_eq] at hplaces
    simp only [count_append] at hcount hplaces
    omega

end Script

/-! ## Templates that have been read -/

/-- **Every block has one place.** In a template that has been read, and in those embedded in it,
before and after the passes, each place is that of a block of the same template, and no two are of
the same block. So rendering never asks for an undefined block, and what it writes, laid out in the
script, has each block at most once. -/
theorem blocks_defined_once {dialect : Dialect} {source : Source} {t tree : Template}
    (h : (Template.parse dialect source).result = .ok t)
    (htree : tree = t ∨ tree = dialect.runStages t) :
    (∀ m, tree.Module m →
      (∀ name ∈ m.places, name ∈ m.blockNames) ∧ m.places.Nodup ∧
      ∀ scope, Latte.template m scope = (Script.template m scope).run ∧
        (Script.template m scope).ownBlocks.Nodup) ∧
    ∀ name block line, render dialect name tree ≠ .error (.undefinedBlock block line) := by
  have hlinked : tree.AllLinked := fun m hm => linked_of_parse h htree hm
  constructor
  · intro m hm
    exact ⟨(hlinked m hm).places_subset, (hlinked m hm).nodup_places, fun scope =>
      ⟨(Script.run_template m scope).symm, Script.nodup_ownBlocks (hlinked m hm) scope⟩⟩
  · intro name block line hrender
    unfold render at hrender
    split at hrender <;> cases hrender
    rename_i out hrun
    rw [← Script.run_template] at hrun
    exact (Script.within_linked hlinked _).run_error hrun block line rfl

/-- A block in a macro, and one in the body with a block inside it. -/
theorem blocks_defined_once_macro :
    let dialect : Dialect := { tags := ⟨[("block", .block), ("macro", .defineMacro)]⟩ }
    let source : Source := ⟨
      "\x7b% macro m() %\x7d\x7b% block a %\x7d\x7b% endblock %\x7d\x7b% endmacro %\x7d" ++
      "\x7b% block b %\x7d\x7b% block c %\x7d\x7b% endblock %\x7d\x7b% endblock %\x7d", "", none⟩
    let scope : Scope := { dialect, template := "" }
    ∃ t, (Template.parse dialect source).result = .ok t ∧ t.places = ["b", "c", "a"] ∧
      (Script.template t scope).ownBlocks.Nodup ∧
      ∀ block line, render dialect "" t ≠ .error (.undefinedBlock block line) := by
  intro dialect source scope
  have hplaces : (Template.parse dialect source).result.toOption.any
      (fun t => decide (t.places = ["b", "c", "a"])) = true := by decide +kernel
  obtain ⟨t, hresult, hplaces⟩ := eq_ok_of_any hplaces
  obtain ⟨hmodules, hrender⟩ := blocks_defined_once hresult (.inl rfl)
  exact ⟨t, hresult, of_decide_eq_true hplaces, ((hmodules t .self).2.2 scope).2, hrender ""⟩

end TwigToLatte.Latte
