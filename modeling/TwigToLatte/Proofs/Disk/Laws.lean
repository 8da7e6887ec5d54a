import TwigToLatte.Proofs.Disk.Replacement

/-!
# Laws of disks

What there is to know of a disk are its files: contents by location. Every operation takes effect,
or fails and leaves the files as they are.

* `Disk.View` — the files of a disk in a state, and the location of a path.
* `Disk.Moved` — what a move does to the files.
* `Disk.Faithful` — the laws of a disk.
* `Disk.Faithful.interrupted` — they allow that any operation fails at any time.
* `FileTree.faithful_disk` — **the disk of a file tree obeys them**.
-/

namespace TwigToLatte

open List

namespace Disk

/-- Contents of files by location. -/
abbrev Files := Location → Option ByteArray

/-- The location is no file, but there are files below it. -/
def Files.IsDirectory (files : Files) (location : Location) : Prop :=
  files location = none ∧ ∃ rest, files (location ++ rest) ≠ none

/-- What can be seen of a disk: its files in a state, and where paths lead. -/
structure View (σ : Type) where
  files : σ → Files
  place : String → Location

/-- A file or a directory has gone from one location to another one. -/
inductive Moved (files : Files) (source destination : Location) (files' : Files) : Prop
  | file (content : ByteArray) (hsource : files source = some content)
      (hfiles : ∀ x, files' x =
        if x = destination then some content else if x = source then none else files x)
  | directory (hsource : files.IsDirectory source) (hbelow : ¬ source <+: destination)
      (habove : ¬ destination <+: source)
      (hmoved : ∀ rest, files' (destination ++ rest) = files (source ++ rest))
      (hother : ∀ x, ¬ source <+: x → ¬ destination <+: x → files' x = files x)
  | same (hsame : source = destination) (hfiles : files' = files)

/-- Looking leaves the files as they are, and so does a change that fails. What is read from a path is
the file there; a file that is written at a path is there, and no other file changes. If nothing is
seen at a path and a file can be written there, it is new. A backup is another file. -/
structure Faithful {σ : Type} (disk : Disk (StateM σ)) (view : View σ) : Prop where
  isFile : ∀ path s, view.files (disk.isFile path s).2 = view.files s
  contains : ∀ path s, view.files (disk.contains path s).2 = view.files s
  read : ∀ path s outcome s', disk.read path s = (outcome, s') → view.files s' = view.files s ∧
    ∀ text, outcome = .ok text → view.files s (view.place path) = some text.toUTF8
  rename_error : ∀ source destination s failure s',
    disk.rename source destination s = (.error failure, s') → view.files s' = view.files s
  rename_ok : ∀ source destination s s', disk.rename source destination s = (.ok (), s') →
    Moved (view.files s) (view.place source) (view.place destination) (view.files s')
  write_error : ∀ path text s failure s', disk.write path text s = (.error failure, s') →
    view.files s' = view.files s
  write_ok : ∀ path text s s', disk.write path text s = (.ok (), s') →
    ∀ x, view.files s' x = if x = view.place path then some text.toUTF8 else view.files s x
  new : ∀ path text s s₁ s', disk.contains path s = (false, s₁) →
    disk.write path text s₁ = (.ok (), s') → ∀ rest, view.files s (view.place path ++ rest) = none
  apart : ∀ path s s', disk.rename path (Path.backup path) s = (.ok (), s') →
    view.place path ≠ view.place (Path.backup path)

/-! ## Failures -/

/-- An operation that may fail for a reason of its own: the state tells the reasons to come. -/
def interrupt {σ α : Type} (operation : StateM σ (Except Failure α)) :
    StateM (σ × List (Option Failure)) (Except Failure α) := fun s =>
  match s.2 with
  | some failure :: rest => (.error failure, s.1, rest)
  | plan => ((operation s.1).1, (operation s.1).2, plan.tail)

/-- The disk whose operations may fail for reasons of their own. -/
def interrupted {σ : Type} (disk : Disk (StateM σ)) :
    Disk (StateM (σ × List (Option Failure))) where
  isFile path s := ((disk.isFile path s.1).1, (disk.isFile path s.1).2, s.2)
  contains path s := ((disk.contains path s.1).1, (disk.contains path s.1).2, s.2)
  read path := interrupt (disk.read path)
  rename source destination := interrupt (disk.rename source destination)
  write path text := interrupt (disk.write path text)

variable {σ : Type}

theorem interrupt_eq {α : Type} {operation : StateM σ (Except Failure α)}
    {s s' : σ × List (Option Failure)} {outcome : Except Failure α}
    (h : interrupt operation s = (outcome, s')) :
    (∃ failure, outcome = .error failure ∧ s'.1 = s.1) ∨ operation s.1 = (outcome, s'.1) := by
  rw [interrupt] at h
  split at h
  · cases h
    exact .inl ⟨_, rfl, rfl⟩
  · cases h
    exact .inr rfl

/-- **A disk whose operations may fail at any time obeys the laws**, if it would do so otherwise. -/
theorem Faithful.interrupted {disk : Disk (StateM σ)} {view : View σ} (h : disk.Faithful view) :
    disk.interrupted.Faithful ⟨fun s => view.files s.1, view.place⟩ where
  isFile path s := h.isFile path s.1
  contains path s := h.contains path s.1
  read path s outcome s' hread := by
    rcases interrupt_eq hread with ⟨failure, rfl, hs⟩ | hread
    · exact ⟨congrArg view.files hs, nofun⟩
    · exact h.read path s.1 outcome s'.1 hread
  rename_error source destination s failure s' hrename := by
    rcases interrupt_eq hrename with ⟨failure, -, hs⟩ | hrename
    · exact congrArg view.files hs
    · exact h.rename_error _ _ _ _ _ hrename
  rename_ok source destination s s' hrename := by
    rcases interrupt_eq hrename with ⟨failure, herror, -⟩ | hrename
    · cases herror
    · exact h.rename_ok _ _ _ _ hrename
  write_error path text s failure s' hwrite := by
    rcases interrupt_eq hwrite with ⟨failure, -, hs⟩ | hwrite
    · exact congrArg view.files hs
    · exact h.write_error _ _ _ _ _ hwrite
  write_ok path text s s' hwrite := by
    rcases interrupt_eq hwrite with ⟨failure, herror, -⟩ | hwrite
    · cases herror
    · exact h.write_ok _ _ _ _ hwrite
  new path text s s₁ s' hcontains hwrite := by
    rcases interrupt_eq hwrite with ⟨failure, herror, -⟩ | hwrite
    · cases herror
    · obtain ⟨hfound, hs⟩ := Prod.mk.inj hcontains
      exact h.new path text s.1 s₁.1 s'.1 (Prod.ext hfound (congrArg Prod.fst hs)) hwrite
  apart path s s' hrename := by
    rcases interrupt_eq hrename with ⟨failure, herror, -⟩ | hrename
    · cases herror
    · exact h.apart _ _ _ hrename

end Disk

/-! ## Paths -/

/-- Where a path leads. -/
def Path.place (path : String) : Location :=
  match Route.ofPath path with
  | .ok route => route.goal
  | .error _ => []

theorem Path.place_of_ends {path : String} {route : Route} {p : Location} {name : String}
    (hroute : Route.ofPath path = .ok route) (hends : route.Ends p name) :
    Path.place path = p ++ [name] := by
  rw [Path.place, hroute]
  exact hends.goal_eq

namespace Route

theorem notMem_of_mem_splitOn {cs part : List Char} (h : part ∈ cs.splitOn '/') : '/' ∉ part := by
  induction hn : cs.length using Nat.strongRecOn generalizing cs with
  | ind n ih =>
    by_cases hslash : '/' ∈ cs
    · obtain ⟨before, rest, rfl⟩ := append_of_mem hslash
      rw [length_append, length_cons] at hn
      rw [splitOn_append_cons_self, mem_append] at h
      rcases h with h | h
      · exact ih before.length (by omega) h rfl
      · exact ih rest.length (by omega) h rfl
    · rw [splitOn_eq_singleton hslash, mem_singleton] at h
      rwa [h]

variable {path name : String} {route : Route} {p : Location}

theorem Ends.isBase (hroute : ofPath path = .ok route) (hends : route.Ends p name) :
    Location.isBase (p ++ [name]) = false := by
  have hslash : name ≠ "/" := by
    rintro rfl
    obtain ⟨init, hnames, -⟩ := hends.names
    have hmem : "/" ∈ route.names := hnames ▸ mem_append_right _ mem_cons_self
    rw [(ofPath_eq_ok hroute).2] at hmem
    obtain ⟨part, hpart, htext⟩ := mem_map.mp (mem_of_mem_filter hmem)
    have hchars : part = ['/'] := String.ofList_injective htext
    exact notMem_of_mem_splitOn hpart (hchars ▸ mem_cons_self)
  rw [Location.isBase, Bool.or_eq_false_iff, all_append, beq_eq_false_iff_ne]
  refine ⟨?_, fun h => ?_⟩
  · rw [Bool.and_eq_false_iff]
    refine .inr ?_
    rw [all_cons, beq_eq_false_iff_ne.mpr hends.ne_dots]
    rfl
  · have hlast := congrArg List.getLast? h
    rw [getLast?_concat] at hlast
    exact hslash (Option.some.inj hlast)

/-- A path and its backup lead to different locations. -/
theorem Ends.ne_backup {route' : Route} {p' : Location} {name' : String}
    (hroute : ofPath path = .ok route) (hends : route.Ends p name)
    (hroute' : ofPath (Path.backup path) = .ok route') (hends' : route'.Ends p' name') :
    p ++ [name] ≠ p' ++ [name'] := by
  obtain ⟨parts, last, -, hsplit⟩ := exists_splitOn_append path.toList
  obtain ⟨hne, rfl⟩ := ofPath_eq_ok hroute
  obtain ⟨-, rfl⟩ := ofPath_eq_ok hroute'
  have hstart : (Path.backup path).toList.head? = path.toList.head? := by
    rw [Path.backup, String.toList_append, head?_append_of_ne_nil _ hne]
  have hlast : String.ofList (last ++ ".bak".toList) = String.ofList last ++ ".bak" :=
    String.ofList_append
  have hbackup : (Path.backup path).toList.splitOn '/' = parts ++ [last ++ ".bak".toList] := by
    rw [Path.backup, String.toList_append, hsplit _ (by decide)]
  have hpath : path.toList.splitOn '/' = parts ++ [last] := by
    have h := hsplit [] not_mem_nil
    rwa [append_nil, append_nil] at h
  have hkept : (String.ofList last ++ ".bak" != "") = true := by
    refine bne_iff_ne.mpr fun h => ?_
    exact absurd (String.append_eq_empty_iff.mp h).2 (by decide)
  rw [hpath, map_append, filter_append, map_singleton, filter_singleton] at hends
  rw [hstart, hbackup, map_append, filter_append, map_singleton,
    filter_singleton, hlast, hkept, cond_true] at hends'
  obtain ⟨rfl, rfl⟩ := hends'.eq_of_names rfl
  cases hempty : String.ofList last != "" with
  | true =>
    -- the last name gets longer
    rw [hempty, cond_true] at hends
    obtain ⟨rfl, rfl⟩ := hends.eq_of_names rfl
    intro h
    have hlength := congrArg String.length (head_eq_of_cons_eq (append_cancel_left h))
    rw [String.length_append] at hlength
    exact absurd (Nat.left_eq_add.mp hlength) (by decide)
  | false =>
    -- after a slash the backup is a name of its own
    rw [hempty, cond_false, append_nil] at hends
    rw [← hends.goal_eq]
    intro h
    have hlength := congrArg List.length h
    rw [length_append, length_singleton] at hlength
    exact Nat.ne_of_lt (Nat.lt_succ_self _) hlength

end Route

namespace FileTree

variable {tree tree' : FileTree} {d : Location}

/-! ## File trees -/

/-- Where nothing is, no file is at the location or below it. -/
theorem not_below_of_free (hcontent : tree.content? d = none) (hdirectory : tree.isDirectory d = false) :
    ∀ file ∈ tree.files, ¬ d <+: file.1 := by
  intro file hfile hbelow
  by_cases hd : d = file.1
  · have hne := lookup_eq_none_iff.mp hcontent file hfile
    rw [hd, bne_self_eq_false] at hne
    cases hne
  · rw [isDirectory_iff.mpr (.inr ⟨file, hfile, hbelow, hd⟩)] at hdirectory
    cases hdirectory

theorem content?_append_eq_none (hcontent : tree.content? d = none)
    (hdirectory : tree.isDirectory d = false) (rest : Location) : tree.content? (d ++ rest) = none := by
  cases h : tree.content? (d ++ rest) with
  | none => rfl
  | some content =>
    obtain ⟨file, hfile, hd⟩ := mem_files_of_content? h
    exact absurd (hd ▸ prefix_append d rest) (not_below_of_free hcontent hdirectory file hfile)

theorem files_isDirectory (hcontent : tree.content? d = none) (hdirectory : tree.isDirectory d = true)
    (hbase : d.isBase = false) : Disk.Files.IsDirectory tree.content? d := by
  refine ⟨hcontent, ?_⟩
  rcases isDirectory_iff.mp hdirectory with h | ⟨file, hfile, ⟨rest, hrest⟩, -⟩
  · rw [hbase] at h
    cases h
  · refine ⟨rest, fun hnone => ?_⟩
    have hne := lookup_eq_none_iff.mp hnone file hfile
    rw [hrest, bne_self_eq_false] at hne
    cases hne

theorem content?_moveDirectory_append {source destination : Location}
    (hfree : ∀ file ∈ tree.files, ¬ destination <+: file.1) (rest : Location) :
    (tree.moveDirectory source destination).content? (destination ++ rest) =
      tree.content? (source ++ rest) := by
  obtain ⟨files⟩ := tree
  show (files.map _).lookup (destination ++ rest) = files.lookup (source ++ rest)
  induction files with
  | nil => rfl
  | cons file files ih =>
    obtain ⟨key, content⟩ := file
    obtain ⟨hkey, hfiles⟩ := forall_mem_cons.mp hfree
    rw [map_cons]
    dsimp only
    split
    · rename_i hmoved
      obtain ⟨inner, rfl⟩ := isPrefixOf_iff_prefix.mp hmoved
      rw [drop_left]
      by_cases hrest : rest = inner
      · rw [hrest, lookup_cons_self, lookup_cons_self]
      · rw [lookup_cons_of_ne fun h => hrest (append_cancel_left h),
          lookup_cons_of_ne fun h => hrest (append_cancel_left h), ih hfiles]
    · rename_i hkept
      have hold : source ++ rest ≠ key := fun h =>
        hkept ( isPrefixOf_iff_prefix.mpr (h ▸ prefix_append source rest))
      have hnew : destination ++ rest ≠ key := fun h => hkey (h ▸ prefix_append destination rest)
      rw [lookup_cons_of_ne hnew, lookup_cons_of_ne hold, ih hfiles]

variable {source destination path text : String} {outcome : Except Disk.Failure Unit}

theorem moved_of_move (h : tree.move source destination = .ok tree') :
    Disk.Moved tree.content? (Path.place source) (Path.place destination) tree'.content? := by
  obtain ⟨route, p, name, route', p', name', hroute, hends, hroute', hends', hmoved⟩ := move_eq_ok h
  rw [Path.place_of_ends hroute hends, Path.place_of_ends hroute' hends']
  rcases hmoved with ⟨content, hcontent, rfl⟩ | ⟨hnone, ⟨hsame, rfl⟩ |
    ⟨hdirectory, hbelow, hfree, hfree', rfl⟩⟩
  · refine .file content hcontent fun x => ?_
    rw [content?_put, content?_erase]
  · exact .same hsame rfl
  · have hsource := files_isDirectory hnone hdirectory (hends.isBase hroute)
    have hnot := not_below_of_free hfree hfree'
    refine .directory hsource hbelow ?_ (content?_moveDirectory_append hnot)
      fun x hx hx' => content?_moveDirectory hx hx'
    intro habove
    obtain ⟨rest, hrest⟩ := hsource.2
    obtain ⟨above, habove⟩ := habove
    rw [← habove, List.append_assoc] at hrest
    exact hrest (content?_append_eq_none hfree hfree' _)

/-- A file that is written where nothing was found is new. -/
theorem content?_append_of_store (hmissing : ∀ l, tree.find path ≠ .ok l)
    (h : tree.store path text = .ok tree') (rest : Location) :
    tree.content? (Path.place path ++ rest) = none := by
  obtain ⟨route, p, name, hroute, hends, -, hpasses, hdirectory, -⟩ := store_eq_ok h
  rw [Path.place_of_ends hroute hends]
  refine content?_append_eq_none ?_ hdirectory rest
  cases hcontent : tree.content? (p ++ [name]) with
  | none => rfl
  | some content =>
    have hcontains : tree.contains (p ++ [name]) = true := by rw [contains, hcontent]; rfl
    exact absurd (find_eq_ok_iff.mpr ⟨route, hroute, hpasses, hends.goal_eq, hcontains⟩) (hmissing _)

def view : Disk.View FileTree := ⟨content?, Path.place⟩

theorem change_eq {f : FileTree → Except Disk.Failure FileTree}
    (h : change f tree = (outcome, tree')) :
    (∃ failure, outcome = .error failure ∧ tree' = tree) ∨ outcome = .ok () ∧ f tree = .ok tree' := by
  rw [change] at h
  split at h
  · rename_i hf
    cases h
    exact .inr ⟨rfl, hf⟩
  · cases h
    exact .inl ⟨_, rfl, rfl⟩

theorem rename_eq (h : disk.rename source destination tree = (outcome, tree')) :
    (∃ failure, outcome = .error failure ∧ tree' = tree) ∨
      outcome = .ok () ∧ tree.move source destination = .ok tree' :=
  change_eq (f := (·.move source destination)) h

theorem write_eq (h : disk.write path text tree = (outcome, tree')) :
    (∃ failure, outcome = .error failure ∧ tree' = tree) ∨
      outcome = .ok () ∧ tree.store path text = .ok tree' :=
  change_eq (f := (·.store path text)) h

theorem eq_toUTF8_of_fromUTF8? {content : ByteArray} (h : String.fromUTF8? content = some text) :
    content = text.toUTF8 := by
  rw [String.fromUTF8?] at h
  split at h
  · cases h
    rfl
  · cases h

/-- **The disk of a file tree obeys the laws.** -/
theorem faithful_disk : FileTree.disk.Faithful view where
  isFile _ _ := rfl
  contains _ _ := rfl
  read path tree outcome tree' h := by
    obtain ⟨hload, rfl⟩ : tree.load path = outcome ∧ tree = tree' := Prod.mk.inj h
    refine ⟨rfl, fun text hok => ?_⟩
    obtain ⟨l, content, hfind, hcontent, hutf8⟩ := load_eq_ok_iff.mp (hload.trans hok)
    obtain ⟨route, hroute, -, rfl, -⟩ := find_eq_ok_iff.mp hfind
    show tree.content? (Path.place path) = _
    rw [Path.place, hroute, ← eq_toUTF8_of_fromUTF8? hutf8]
    exact hcontent
  rename_error source destination tree failure tree' h := by
    obtain ⟨_, -, rfl⟩ | ⟨hok, -⟩ := rename_eq h
    · rfl
    · cases hok
  rename_ok source destination tree tree' h := by
    obtain ⟨_, herror, -⟩ | ⟨-, hmove⟩ := rename_eq h
    · cases herror
    · exact moved_of_move hmove
  write_error path text tree failure tree' h := by
    obtain ⟨_, -, rfl⟩ | ⟨hok, -⟩ := write_eq h
    · rfl
    · cases hok
  write_ok path text tree tree' h x := by
    obtain ⟨_, herror, -⟩ | ⟨-, hstore⟩ := write_eq h
    · cases herror
    · obtain ⟨route, p, name, hroute, hends, -, -, -, rfl⟩ := store_eq_ok hstore
      show FileTree.content? _ x = if x = Path.place path then _ else _
      rw [Path.place_of_ends hroute hends]
      exact content?_put _ _ x
  new path text tree tree₁ tree' hcontains h rest := by
    obtain rfl : tree = tree₁ := congrArg Prod.snd hcontains
    obtain ⟨_, herror, -⟩ | ⟨-, hstore⟩ := write_eq h
    · cases herror
    · refine content?_append_of_store (fun l hl => ?_) hstore rest
      rw [contains_of_find hl] at hcontains
      cases hcontains
  apart path tree tree' h := by
    obtain ⟨_, herror, -⟩ | ⟨-, hmove⟩ := rename_eq h
    · cases herror
    · obtain ⟨route, p, name, route', p', name', hroute, hends, hroute', hends', -⟩ := move_eq_ok hmove
      show Path.place _ ≠ Path.place _
      rw [Path.place_of_ends hroute hends, Path.place_of_ends hroute' hends']
      exact hends.ne_backup hroute hroute' hends'

end FileTree

end TwigToLatte
