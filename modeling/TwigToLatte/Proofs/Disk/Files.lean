import Mathlib.Data.List.Infix
import TwigToLatte.Disk

/-!
# Files and directories of a tree

What a change of one file, or of all files of a directory, does to the others.

* `Location.Inside` — a location below another one.
* `FileTree.content?_put`, `FileTree.isDirectory_put` — a file that is written.
* `FileTree.content?_moveDirectory`, `FileTree.isDirectory_moveDirectory` — a directory that is
  moved, seen from outside.
-/

namespace TwigToLatte

open List

/-- The second location is below the first one. -/
def Location.Inside (directory location : Location) : Prop :=
  directory <+: location ∧ directory ≠ location

variable {d p : Location}

/-- What is in a directory is below the directories around it. -/
theorem Location.inside_append (h : d <+: p) (name : String) (rest : Location) :
    Location.Inside d (p ++ name :: rest) := by
  refine ⟨h.trans (prefix_append p (name :: rest)), ?_⟩
  rintro rfl
  have hle := h.length_le
  rw [length_append, length_cons] at hle
  omega

theorem Location.prefix_of_inside {name : String} (h : Location.Inside d (p ++ [name])) : d <+: p :=
  (prefix_concat_iff.mp h.1).resolve_left h.2

namespace FileTree

variable {tree : FileTree} {location d : Location}

theorem isDirectory_iff : tree.isDirectory d = true ↔
    d.isBase = true ∨ ∃ file ∈ tree.files, d.Inside file.1 := by
  rw [isDirectory, Bool.or_eq_true, any_eq_true]
  simp only [Bool.and_eq_true, isPrefixOf_iff_prefix, bne_iff_ne, Location.Inside]

/-! ## One file -/

variable {x : Location} {content : ByteArray}

theorem lookup_cons_of_ne {key : Location} (h : x ≠ key) (content : ByteArray)
    (files : List (Location × ByteArray)) :
    ((key, content) :: files).lookup x = files.lookup x := by
  rw [lookup_cons, beq_eq_false_iff_ne.mpr h]

theorem content?_erase (location x : Location) :
    (tree.erase location).content? x = if x = location then none else tree.content? x := by
  obtain ⟨files⟩ := tree
  show (files.filter fun file => file.1 != location).lookup x =
    if x = location then none else files.lookup x
  induction files with
  | nil => rw [filter_nil, lookup_nil, ite_self]
  | cons file rest ih =>
    obtain ⟨key, content⟩ := file
    by_cases hkey : key = location
    · rw [filter_cons_of_neg (by simpa using hkey), ih]
      split
      · rfl
      · rename_i hx
        exact (lookup_cons_of_ne (hkey ▸ hx) content rest).symm
    · rw [filter_cons_of_pos (by simpa using hkey)]
      by_cases hx : x = key
      · rw [hx, lookup_cons_self, if_neg hkey, lookup_cons_self]
      · rw [lookup_cons_of_ne hx, lookup_cons_of_ne hx, ih]

/-- Without a file, what is not above it stays a directory. -/
theorem isDirectory_erase (hinside : ¬ d.Inside location) (h : tree.isDirectory d = true) :
    (tree.erase location).isDirectory d = true := by
  rw [isDirectory_iff] at h ⊢
  refine h.imp_right ?_
  rintro ⟨file, hmem, hfile⟩
  have hne : file.1 ≠ location := fun heq => hinside (heq ▸ hfile)
  exact ⟨file, mem_filter.mpr ⟨hmem, bne_iff_ne.mpr hne⟩, hfile⟩

theorem content?_put (location : Location) (content : ByteArray) (x : Location) :
    (tree.put location content).content? x =
      if x = location then some content else tree.content? x := by
  have herase : (tree.erase location).files.lookup x =
      if x = location then none else tree.content? x :=
    content?_erase location x
  rw [content?, put, lookup_append, herase]
  split
  · rename_i hx
    rw [hx, lookup_cons_self]
    rfl
  · rename_i hx
    rw [lookup_cons_of_ne hx, lookup_nil, Option.or_none]

theorem isDirectory_put :
    (tree.put location content).isDirectory d = true ↔
      tree.isDirectory d = true ∨ d.Inside location := by
  rw [isDirectory_iff, isDirectory_iff, or_assoc]
  refine or_congr_right ?_
  simp only [put, erase, mem_append, mem_filter, mem_singleton, bne_iff_ne]
  constructor
  · rintro ⟨file, ⟨hmem, -⟩ | rfl, hinside⟩
    · exact .inl ⟨file, hmem, hinside⟩
    · exact .inr hinside
  · rintro (⟨file, hmem, hinside⟩ | hinside)
    · by_cases hfile : file.1 = location
      · exact ⟨_, .inr rfl, hfile ▸ hinside⟩
      · exact ⟨file, .inl ⟨hmem, hfile⟩, hinside⟩
    · exact ⟨_, .inr rfl, hinside⟩

theorem mem_files_of_content? (h : tree.content? x = some content) :
    ∃ file ∈ tree.files, file.1 = x := by
  obtain ⟨files⟩ := tree
  replace h : files.lookup x = some content := h
  induction files with
  | nil => cases h
  | cons file rest ih =>
    obtain ⟨key, value⟩ := file
    by_cases hx : x = key
    · exact ⟨(key, value), mem_cons_self, hx.symm⟩
    · rw [lookup_cons_of_ne hx] at h
      obtain ⟨file, hmem, hfile⟩ := ih h
      exact ⟨file, mem_cons_of_mem _ hmem, hfile⟩

theorem isDirectory_of_content? (h : tree.content? x = some content) (hinside : d.Inside x) :
    tree.isDirectory d = true := by
  obtain ⟨file, hmem, rfl⟩ := mem_files_of_content? h
  exact isDirectory_iff.mpr (.inr ⟨file, hmem, hinside⟩)

/-! ## All files of a directory -/

theorem content?_moveDirectory {source destination : Location} (hsource : ¬ source <+: x)
    (hdestination : ¬ destination <+: x) :
    (tree.moveDirectory source destination).content? x = tree.content? x := by
  obtain ⟨files⟩ := tree
  show (files.map _).lookup x = files.lookup x
  induction files with
  | nil => rfl
  | cons file rest ih =>
    obtain ⟨key, content⟩ := file
    rw [map_cons]
    dsimp only
    split
    · rename_i hmoved
      have hstart := isPrefixOf_iff_prefix.mp hmoved
      have hnew : x ≠ destination ++ key.drop source.length := by
        rintro rfl
        exact hdestination (prefix_append _ _)
      have hold : x ≠ key := fun h => hsource (h ▸ hstart)
      rw [lookup_cons_of_ne hnew, lookup_cons_of_ne hold, ih]
    · by_cases hx : x = key
      · rw [hx, lookup_cons_self, lookup_cons_self]
      · rw [lookup_cons_of_ne hx, lookup_cons_of_ne hx, ih]

/-- Where a directory goes to another name, what is not in it stays a directory. -/
theorem isDirectory_moveDirectory {p : Location} {name name' : String} (hd : ¬ p ++ [name] <+: d)
    (h : tree.isDirectory d = true) :
    (tree.moveDirectory (p ++ [name]) (p ++ [name'])).isDirectory d = true := by
  rw [isDirectory_iff] at h ⊢
  refine h.imp_right ?_
  rintro ⟨file, hmem, hfile⟩
  refine ⟨_, mem_map_of_mem hmem, ?_⟩
  split
  · rename_i hmoved
    obtain ⟨rest, hrest⟩ := isPrefixOf_iff_prefix.mp hmoved
    -- A directory around the one that is moved is around the place where it goes.
    have haround : d <+: p := by
      have hstart := hfile.1
      rw [← hrest] at hstart
      rcases prefix_or_prefix_of_prefix hstart (prefix_append _ rest) with h | h
      · exact (prefix_concat_iff.mp h).resolve_left fun heq => hd (heq ▸ prefix_refl _)
      · exact absurd h hd
    show Location.Inside d (p ++ [name'] ++ _)
    rw [List.append_assoc]
    exact Location.inside_append haround _ _
  · exact hfile

end FileTree

end TwigToLatte
