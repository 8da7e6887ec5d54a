import TwigToLatte.Path
import TwigToLatte.Proofs.Disk.Ways

/-!
# Replaced files

A file that is about to be replaced is moved aside first, and so is a directory in its place.

* `Location.backup` — the location next to another one that keeps what was there.
* `FileTree.Replaces` — a file has been written, and what was there before has been moved aside.
* `FileTree.Replaces.load_iff` — **when a text can still be read after that**.
* `FileTree.replaces_of_store` — moving aside and writing replaces a file.
-/

namespace TwigToLatte

open List

/-! ## What is kept -/

/-- The location next to another one that keeps what was there. -/
def Location.backup (location : Location) : Location :=
  location.dropLast ++ (location.getLast?.map (· ++ ".bak")).toList

theorem Location.backup_append (p : Location) (name : String) :
    Location.backup (p ++ [name]) = p ++ [name ++ ".bak"] := by
  rw [backup, dropLast_concat, getLast?_concat]
  rfl

theorem Location.backup_ne (p : Location) (name : String) :
    Location.backup (p ++ [name]) ≠ p ++ [name] := by
  rw [backup_append]
  intro h
  have hname : name ++ ".bak" = name := head_eq_of_cons_eq (append_cancel_left h)
  have hlength := congrArg String.length hname
  rw [String.length_append] at hlength
  exact absurd (Nat.add_eq_left.mp hlength) (by decide)

/-- The second tree has a file with the given text at a location that leads nowhere else. What was at
the location before is kept next to it; all other files and directories are still there, but for
those below the location, and for a file that stood where the old one is kept. -/
structure FileTree.Replaces (tree : FileTree) (location : Location) (text : String)
    (tree' : FileTree) : Prop where
  written : tree'.content? location = some text.toUTF8
  closed : tree'.isDirectory location = false
  kept : ∀ old, tree.content? location = some old → tree'.content? location.backup = some old
  contents : ∀ x content, ¬ location <+: x → tree.content? x = some content →
    tree'.content? x = some content ∨ x = location.backup ∧ (tree.content? location).isSome = true
  directories : ∀ d, ¬ location <+: d → tree.isDirectory d = true → tree'.isDirectory d = true

namespace FileTree

variable {tree : FileTree} {p : Location} {name : String} {location o i : Location}
  {content : ByteArray} {tree' tree₁ : FileTree} {code path text : String}

theorem closed_put (h : tree.isDirectory location = false) :
    (tree.put location content).isDirectory location = false := by
  rw [← Bool.not_eq_true, isDirectory_put, h]
  exact fun hor => hor.elim Bool.false_ne_true.elim fun hinside => hinside.2 rfl

theorem replaces_put (text : String) (hcontent : tree.content? location = none)
    (hdirectory : tree.isDirectory location = false) :
    tree.Replaces location text (tree.put location text.toUTF8) where
  written := by rw [content?_put, if_pos rfl]
  closed := closed_put hdirectory
  kept old hold := by rw [hcontent] at hold; cases hold
  contents x content hx hcontent := by
    have hne : x ≠ location := fun h => hx (h ▸ prefix_refl _)
    rw [content?_put, if_neg hne]
    exact .inl hcontent
  directories d _ hd := isDirectory_put.mpr (.inl hd)

/-- A file is written where another one was, which has been moved aside. -/
theorem replaces_file {old : ByteArray} (text : String)
    (hold : tree.content? (p ++ [name]) = some old)
    (hdirectory : (((tree.erase (p ++ [name])).put (Location.backup (p ++ [name])) old)).isDirectory
      (p ++ [name]) = false) :
    tree.Replaces (p ++ [name]) text
      ((((tree.erase (p ++ [name])).put (Location.backup (p ++ [name])) old)).put (p ++ [name])
        text.toUTF8) where
  written := by rw [content?_put, if_pos rfl]
  closed := closed_put hdirectory
  kept content hcontent := by
    rw [content?_put, if_neg (Location.backup_ne p name), content?_put, if_pos rfl]
    exact hold.symm.trans hcontent
  contents x content hx hcontent := by
    have hne : x ≠ p ++ [name] := fun h => hx (h ▸ prefix_refl _)
    rw [content?_put, if_neg hne, content?_put]
    split
    · rename_i hbackup
      exact .inr ⟨hbackup, by rw [hold]; rfl⟩
    · rw [content?_erase, if_neg hne]
      exact .inl hcontent
  directories d hd hdirectory := by
    refine isDirectory_put.mpr (.inl (isDirectory_put.mpr ?_))
    -- What is above the file is above its backup too.
    by_cases hinside : Location.Inside d (p ++ [name])
    · right
      rw [Location.backup_append]
      exact Location.inside_append (Location.prefix_of_inside hinside) _ []
    · exact .inl (isDirectory_erase hinside hdirectory)

/-- A file is written where a directory was, which has been moved aside. -/
theorem replaces_directory (text : String) (hnone : tree.content? (p ++ [name]) = none)
    (hbackup : tree.content? (Location.backup (p ++ [name])) = none)
    (hfree : tree.isDirectory (Location.backup (p ++ [name])) = false)
    (hdirectory : (tree.moveDirectory (p ++ [name]) (Location.backup (p ++ [name]))).isDirectory
      (p ++ [name]) = false) :
    tree.Replaces (p ++ [name]) text
      ((tree.moveDirectory (p ++ [name]) (Location.backup (p ++ [name]))).put (p ++ [name])
        text.toUTF8) where
  written := by rw [content?_put, if_pos rfl]
  closed := closed_put hdirectory
  kept old hold := by rw [hnone] at hold; cases hold
  contents x content hx hcontent := by
    have hne : x ≠ p ++ [name] := fun h => hx (h ▸ prefix_refl _)
    -- Nothing that is moved gets to a file that was there.
    have hapart : ¬ Location.backup (p ++ [name]) <+: x := by
      intro hstart
      by_cases hx : Location.backup (p ++ [name]) = x
      · rw [hx, hcontent] at hbackup
        cases hbackup
      · rw [isDirectory_of_content? hcontent ⟨hstart, hx⟩] at hfree
        cases hfree
    rw [content?_put, if_neg hne, content?_moveDirectory hx hapart]
    exact .inl hcontent
  directories d hd hdirectory := by
    rw [Location.backup_append]
    exact isDirectory_put.mpr (.inl (isDirectory_moveDirectory hd hdirectory))

/-! ## What can be read -/

theorem fromUTF8?_toUTF8 (text : String) : String.fromUTF8? text.toUTF8 = some text := by
  simp only [String.fromUTF8?, String.toUTF8_eq_toByteArray, dif_pos text.isValidUTF8]
  rfl

section

variable (h : tree.Replaces o code tree')

include h

theorem Replaces.isBase : o.isBase = false := by
  refine Bool.eq_false_iff.mpr fun hbase => ?_
  have hdirectory : tree'.isDirectory o = true := isDirectory_iff.mpr (.inl hbase)
  rw [h.closed] at hdirectory
  cases hdirectory

/-- A path that does not lead through a replaced file leads where it did. -/
theorem Replaces.load_eq_ok (hfind : tree.find path = .ok i)
    (hcrossed : o ∉ Path.crossed path) (hcontent : tree'.content? i = some content)
    (hutf8 : String.fromUTF8? content = some text) : tree'.load path = .ok text := by
  obtain ⟨route, hroute, hpasses, hgoal, -⟩ := find_eq_ok_iff.mp hfind
  rw [Path.crossed, hroute] at hcrossed
  have hbelow := (Route.not_below_of_notMem_crossed h.isBase hcrossed).1
  have hpasses' : tree'.Passes route :=
    ⟨fun d hd => h.directories d (hbelow d hd) (hpasses.directories d hd), hpasses.fits⟩
  have hcontains : tree'.contains i = true := by rw [contains, hcontent]; rfl
  exact load_eq_ok_iff.mpr
    ⟨i, content, find_eq_ok_iff.mpr ⟨route, hroute, hpasses', hgoal, hcontains⟩, hcontent, hutf8⟩

theorem Replaces.notMem_crossed (hfind : tree'.find path = .ok i) : o ∉ Path.crossed path := by
  obtain ⟨route, hroute, hpasses, -, -⟩ := find_eq_ok_iff.mp hfind
  rw [Path.crossed, hroute]
  intro hcrossed
  have hdirectory := hpasses.directories o hcrossed
  rw [h.closed] at hdirectory
  cases hdirectory

/-- **When a text can still be read after a file has been replaced.** -/
theorem Replaces.load_iff (hfind : tree.find path = .ok i) (hload : tree.load path = .ok text) :
    tree'.load path = .ok text ↔ o ∉ Path.crossed path ∧ (i = o → code = text) ∧
      (i = o.backup → ∀ old, tree.content? o = some old → String.fromUTF8? old = some text) := by
  constructor
  · intro hload'
    obtain ⟨_, content, hfind', hcontent, hutf8⟩ := load_eq_ok_iff.mp hload'
    obtain rfl := find_unique hfind hfind'
    refine ⟨h.notMem_crossed hfind', ?_, ?_⟩
    · rintro rfl
      rw [h.written, Option.some_inj] at hcontent
      rw [← hcontent, fromUTF8?_toUTF8] at hutf8
      exact Option.some.inj hutf8
    · rintro rfl old hold
      rw [h.kept old hold, Option.some_inj] at hcontent
      rw [hcontent, hutf8]
  · rintro ⟨hcrossed, hsame, hbackup⟩
    by_cases hi : i = o
    · refine h.load_eq_ok hfind hcrossed (hi ▸ h.written) ?_
      rw [hsame hi, fromUTF8?_toUTF8]
    obtain ⟨_, content, hfind', hcontent, hutf8⟩ := load_eq_ok_iff.mp hload
    obtain rfl := find_unique hfind hfind'
    -- A path that gets below the file leads through it.
    have hbelow : ¬ o <+: i := by
      obtain ⟨route, hroute, -, rfl, -⟩ := find_eq_ok_iff.mp hfind
      rw [Path.crossed, hroute] at hcrossed
      intro hbelow
      exact hi ((Route.not_below_of_notMem_crossed h.isBase hcrossed).2 hbelow).symm
    rcases h.contents i content hbelow hcontent with hcontent' | ⟨hi, hold⟩
    · exact h.load_eq_ok hfind hcrossed hcontent' hutf8
    · obtain ⟨old, hold⟩ := Option.isSome_iff_exists.mp hold
      exact h.load_eq_ok hfind hcrossed (hi ▸ h.kept old hold) (hbackup hi old hold)

end

/-! ## Writing -/

/-- A path is ready for a file: what was there has been moved aside, or nothing was there. -/
def MovedAside (tree : FileTree) (path : String) (tree' : FileTree) : Prop :=
  tree.move path (Path.backup path) = .ok tree' ∨ (∀ l, tree.find path ≠ .ok l) ∧ tree' = tree

theorem replaces_of_move {route : Route} (hmove : tree.move path (Path.backup path) = .ok tree₁)
    (hroute : Route.ofPath path = .ok route) (hends : route.Ends p name)
    (hclosed : route.closed = false) (hdirectory : tree₁.isDirectory (p ++ [name]) = false) :
    tree.Replaces (p ++ [name]) code (tree₁.put (p ++ [name]) code.toUTF8) := by
  obtain ⟨route₁, p₁, name₁, route₂, p₂, name₂, hroute₁, hends₁, hroute₂, hends₂, hmoved⟩ :=
    move_eq_ok hmove
  -- The old file goes next to where it was.
  have hbackup : p₁ ++ [name₁] = p ++ [name] ∧ p₂ ++ [name₂] = Location.backup (p ++ [name]) := by
    obtain rfl := Except.ok.inj (hroute₁.symm.trans hroute)
    obtain ⟨crossed, p', last, hpath⟩ := Route.exists_ends path
    have hroute' : Route.ofPath (path ++ "") = .ok route₁ := by rw [String.append_empty, hroute]
    obtain ⟨-, -, hsame, -⟩ := hpath "" route₁ (by decide) hroute' fun _ => hclosed
    obtain ⟨-, -, hother, -⟩ := hpath ".bak" route₂ (by decide) hroute₂ nofun
    obtain ⟨rfl, rfl⟩ := hsame p name hends
    obtain ⟨rfl, rfl⟩ := hsame p₁ name₁ hends₁
    obtain ⟨rfl, rfl⟩ := hother p₂ name₂ hends₂
    rw [Location.backup_append, String.append_empty]
    exact ⟨rfl, rfl⟩
  rw [hbackup.1, hbackup.2] at hmoved
  rcases hmoved with ⟨old, hold, rfl⟩ | ⟨hnone, ⟨hsame, -⟩ | ⟨-, -, hfree, hfree', rfl⟩⟩
  · exact replaces_file code hold hdirectory
  · exact absurd hsame.symm (Location.backup_ne p name)
  · exact replaces_directory code hnone hfree hfree' hdirectory

/-- **A file that is written after what was there has been moved aside replaces it.** -/
theorem replaces_of_store (haside : tree.MovedAside path tree₁)
    (hstore : tree₁.store path code = .ok tree') :
    ∃ o, tree.Replaces o code tree' ∧ tree'.find path = .ok o ∧ tree'.load path = .ok code ∧
      ∃ route p name, Route.ofPath path = .ok route ∧ route.Ends p name ∧ route.closed = false ∧
        o = p ++ [name] := by
  obtain ⟨route, p, name, hroute, hends, hclosed, hpasses, hdirectory, rfl⟩ := store_eq_ok hstore
  have hreplaces : tree.Replaces (p ++ [name]) code (tree₁.put (p ++ [name]) code.toUTF8) := by
    rcases haside with hmove | ⟨hmissing, rfl⟩
    · exact replaces_of_move hmove hroute hends hclosed hdirectory
    · refine replaces_put code ?_ hdirectory
      cases hcontent : tree₁.content? (p ++ [name]) with
      | none => rfl
      | some content =>
        have hcontains : tree₁.contains (p ++ [name]) = true := by rw [contains, hcontent]; rfl
        exact absurd (find_eq_ok_iff.mpr ⟨route, hroute, hpasses, hends.goal_eq, hcontains⟩)
          (hmissing _)
  have hcontent := hreplaces.written
  have hfind : FileTree.find (tree₁.put (p ++ [name]) code.toUTF8) path = .ok (p ++ [name]) := by
    have hcontains :
        FileTree.contains (tree₁.put (p ++ [name]) code.toUTF8) (p ++ [name]) = true := by
      rw [contains, hcontent]
      rfl
    have hpasses' : FileTree.Passes (tree₁.put (p ++ [name]) code.toUTF8) route :=
      ⟨fun d hd => isDirectory_put.mpr (.inl (hpasses.directories d hd)), hpasses.fits⟩
    exact find_eq_ok_iff.mpr ⟨route, hroute, hpasses', hends.goal_eq, hcontains⟩
  exact ⟨p ++ [name], hreplaces, hfind,
    load_eq_ok_iff.mpr ⟨_, _, hfind, hcontent, fromUTF8?_toUTF8 code⟩,
    route, p, name, hroute, hends, hclosed, rfl⟩

end FileTree

end TwigToLatte
