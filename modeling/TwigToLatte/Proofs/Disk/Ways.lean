import TwigToLatte.Proofs.Disk.Files

/-!
# Ways through a tree

Where a path leads does not depend on the files; the files tell whether one can get there.

* `Location.next`, `Location.visited` — the location after a name, and those before each name.
* `Route.goal`, `Route.crossed` — where a way ends, and the directories it leads through.
* `FileTree.Passes` — the way can be taken.
* `FileTree.find_eq_ok_iff` — **a path is found if its way can be taken and something is there**.
* `FileTree.store_eq_ok`, `FileTree.move_eq_ok` — what a change that succeeds has done.
* `Route.not_below_of_notMem_crossed` — a way gets below a location only through it.
* `Route.exists_ends` — the ways of paths that differ in their end only.
-/

namespace TwigToLatte

open List

/-! ## Locations on a way -/

namespace Location

def next (here : Location) (name : String) : Location :=
  if name == "." then here else if name == ".." then here.up else here ++ [name]

/-- The locations before each name. -/
def visited : Location → List String → List Location
  | _, [] => []
  | here, name :: rest => here :: visited (here.next name) rest

def after (here : Location) (names : List String) : Location := names.foldl next here

theorem visited_append (here : Location) (names more : List String) :
    here.visited (names ++ more) = here.visited names ++ (here.after names).visited more := by
  induction names generalizing here with
  | nil => rfl
  | cons name rest ih => exact congrArg (here :: ·) (ih (here.next name))

theorem after_append (here : Location) (names more : List String) :
    here.after (names ++ more) = (here.after names).after more := foldl_append

variable {name : String} {l here : Location}

theorem next_of_ne (hdot : name ≠ ".") (hdots : name ≠ "..") (here : Location) :
    here.next name = here ++ [name] := by
  rw [next, if_neg (by simpa using hdot), if_neg (by simpa using hdots)]

/-- One step gets below a location only from below it. -/
theorem eq_next_of_below (hhere : ¬ l <+: here) (hnext : l <+: here.next name) :
    l = here.next name := by
  rw [next] at hnext ⊢
  split at hnext
  · exact absurd hnext hhere
  rename_i hdot
  rw [if_neg hdot]
  split at hnext
  · rename_i hdots
    rw [if_pos hdots]
    rw [up] at hnext ⊢
    split at hnext
    · exact absurd hnext hhere
    rename_i hroot
    rw [if_neg hroot]
    split at hnext
    · rename_i hbase
      rw [if_pos hbase]
      exact (prefix_concat_iff.mp hnext).resolve_right hhere
    · exact absurd (hnext.trans ( dropLast_prefix here)) hhere
  · rename_i hdots
    rw [if_neg hdots]
    exact (prefix_concat_iff.mp hnext).resolve_right hhere

/-- A way that does not lead through a location gets to it at most at its end, and never below it. -/
theorem not_below_of_notMem_visited {names : List String} (hhere : ¬ l <+: here)
    (hl : l ∉ here.visited names) :
    (∀ d ∈ here.visited names, ¬ l <+: d) ∧ (l <+: here.after names → l = here.after names) := by
  induction names generalizing here with
  | nil => exact ⟨forall_mem_nil _, fun h => absurd h hhere⟩
  | cons name rest ih =>
    have hrest : l ∉ (here.next name).visited rest := fun h => hl (mem_cons_of_mem _ h)
    by_cases hnext : l <+: here.next name
    · have heq := eq_next_of_below hhere hnext
      cases rest with
      | nil => exact ⟨forall_mem_singleton.mpr hhere, fun _ => heq⟩
      | cons name' rest' => exact absurd (heq ▸ mem_cons_self) hrest
    · obtain ⟨hvisited, hafter⟩ := ih hnext hrest
      exact ⟨forall_mem_cons.mpr ⟨hhere, hvisited⟩, hafter⟩

end Location

/-- A name that is not too long. -/
def fits (name : String) : Prop :=
  name = "." ∨ name = ".." ∨ name.utf8ByteSize ≤ FileTree.nameLimit

theorem bind_eq_ok_iff {ε α β : Type} {x : Except ε α} {f : α → Except ε β} {b : β} :
    (x >>= f) = .ok b ↔ ∃ a, x = .ok a ∧ f a = .ok b := by
  cases x with
  | error e => exact ⟨nofun, fun ⟨_, h, _⟩ => nomatch h⟩
  | ok a =>
    refine ⟨fun h => ⟨a, rfl, h⟩, ?_⟩
    rintro ⟨_, h, hb⟩
    cases h
    exact hb

namespace FileTree

variable {tree : FileTree} {here l : Location}

theorem directory_eq_ok_iff :
    tree.directory here = .ok l ↔ tree.isDirectory here = true ∧ here = l := by
  rw [directory]
  cases tree.isDirectory here with
  | true =>
    rw [if_pos rfl, Except.ok.injEq]
    exact ⟨fun hl => ⟨rfl, hl⟩, fun hl => hl.2⟩
  | false =>
    rw [if_neg Bool.false_ne_true]
    refine ⟨fun hl => ?_, fun hl => Bool.false_ne_true.elim hl.1⟩
    split at hl <;> cases hl

theorem step_eq_ok_iff {name : String} :
    tree.step here name = .ok l ↔
      tree.isDirectory here = true ∧ fits name ∧ here.next name = l := by
  rw [step, bind_eq_ok_iff]
  simp only [directory_eq_ok_iff]
  have hname : (if name == "." then pure here else if name == ".." then pure here.up
      else if nameLimit < name.utf8ByteSize then throw .nameTooLong else pure (here ++ [name]) :
        Except Disk.Failure Location) = .ok l ↔ fits name ∧ here.next name = l := by
    rw [Location.next, fits]
    by_cases hdot : name = "."
    · simp [hdot, pure, Except.pure]
    by_cases hdots : name = ".."
    · simp [hdots, pure, Except.pure]
    by_cases hlong : nameLimit < name.utf8ByteSize
    · simp [hdot, hdots, hlong, Nat.not_le.mpr hlong, throw, throwThe, MonadExceptOf.throw]
    · simp [hdot, hdots, hlong, pure, Except.pure, Nat.not_lt.mp hlong]
  constructor
  · rintro ⟨_, ⟨hdirectory, rfl⟩, hl⟩
    exact ⟨hdirectory, hname.mp hl⟩
  · rintro ⟨hdirectory, hl⟩
    exact ⟨here, ⟨hdirectory, rfl⟩, hname.mpr hl⟩

theorem walk_eq_ok_iff {start : Location} {names : List String} :
    tree.walk start names = .ok l ↔
      (∀ d ∈ start.visited names, tree.isDirectory d = true) ∧ (∀ name ∈ names, fits name) ∧
        start.after names = l := by
  induction names generalizing start with
  | nil =>
    show Except.ok start = .ok l ↔ _
    rw [Except.ok.injEq]
    exact ⟨fun h => ⟨forall_mem_nil _, forall_mem_nil _, h⟩, fun h => h.2.2⟩
  | cons name rest ih =>
    show (tree.step start name >>= fun here => tree.walk here rest) = .ok l ↔ _
    rw [bind_eq_ok_iff, Location.visited, forall_mem_cons, forall_mem_cons]
    constructor
    · rintro ⟨here, hstep, hwalk⟩
      obtain ⟨hdirectory, hfits, rfl⟩ := step_eq_ok_iff.mp hstep
      obtain ⟨hvisited, hnames, hl⟩ := ih.mp hwalk
      exact ⟨⟨hdirectory, hvisited⟩, ⟨hfits, hnames⟩, hl⟩
    · rintro ⟨⟨hdirectory, hvisited⟩, ⟨hfits, hnames⟩, hl⟩
      exact ⟨_, step_eq_ok_iff.mpr ⟨hdirectory, hfits, rfl⟩, ih.mpr ⟨hvisited, hnames, hl⟩⟩

end FileTree

/-! ## Routes -/

namespace Route

/-- Where a way ends. -/
def goal (route : Route) : Location := route.start.after route.names

/-- The directories that a way leads through, with its end if it asks for a directory. -/
def crossed (route : Route) : List Location :=
  route.start.visited route.names ++ if route.closed then [route.goal] else []

/-- The way ends with a name in a directory. -/
structure Ends (route : Route) (p : Location) (name : String) : Prop where
  names : ∃ init, route.names = init ++ [name] ∧ route.start.after init = p
  ne_dot : name ≠ "."
  ne_dots : name ≠ ".."

variable {route : Route} {p l : Location} {name : String}

theorem Ends.goal_eq (h : route.Ends p name) : route.goal = p ++ [name] := by
  obtain ⟨init, hnames, rfl⟩ := h.names
  rw [goal, hnames, Location.after_append]
  exact Location.next_of_ne h.ne_dot h.ne_dots _

theorem not_below_start (hl : l.isBase = false) (route : Route) : ¬ l <+: route.start := by
  intro h
  rw [start] at h
  split at h
  · obtain rfl | hnil := prefix_concat_iff.mp (show l <+: [] ++ ["/"] from h)
    · cases hl
    · rw [prefix_nil.mp hnil] at hl
      cases hl
  · rw [prefix_nil.mp h] at hl
    cases hl

/-- A way that does not lead through a location gets to it at most at its end, and never below it. -/
theorem not_below_of_notMem_crossed (hbase : l.isBase = false) (hl : l ∉ route.crossed) :
    (∀ d ∈ route.crossed, ¬ l <+: d) ∧ (l <+: route.goal → l = route.goal) := by
  rw [crossed, mem_append, not_or] at hl
  obtain ⟨hvisited, hgoal⟩ :=
    Location.not_below_of_notMem_visited (not_below_start hbase route) hl.1
  refine ⟨forall_mem_append.mpr ⟨hvisited, ?_⟩, hgoal⟩
  intro d hd hbelow
  split at hd
  · rename_i hclosed
    rw [if_pos hclosed, mem_singleton] at hl
    rw [mem_singleton.mp hd] at hbelow
    exact hl.2 (hgoal hbelow)
  · cases hd

/-- The names of a text, when its end without a slash is exchanged. -/
theorem exists_splitOn_append (cs : List Char) : ∃ parts last, (last = [] → cs = [] ∨
      cs.getLast? = some '/') ∧
    ∀ tail : List Char, '/' ∉ tail → (cs ++ tail).splitOn '/' = parts ++ [last ++ tail] := by
  induction cs using List.reverseRecOn with
  | nil => exact ⟨[], [], fun _ => .inl rfl, fun tail htail => splitOn_eq_singleton htail⟩
  | append_singleton cs c ih =>
    by_cases hc : c = '/'
    · subst hc
      refine ⟨cs.splitOn '/', [], fun _ => .inr getLast?_concat, fun tail htail => ?_⟩
      rw [List.append_assoc, singleton_append, splitOn_append_cons_self,
        splitOn_eq_singleton htail]
      rfl
    · obtain ⟨parts, last, -, hsplit⟩ := ih
      refine ⟨parts, last ++ [c], fun h => absurd h (append_ne_nil_of_right_ne_nil _ nofun),
        fun tail htail => ?_⟩
      have hcons : '/' ∉ c :: tail := not_mem_cons_of_ne_of_not_mem (Ne.symm hc) htail
      rw [List.append_assoc, List.append_assoc, singleton_append, hsplit _ hcons]

theorem ofPath_eq_ok {path : String} (h : ofPath path = .ok route) :
    path.toList ≠ [] ∧ route =
      { fromRoot := path.toList.head? == some '/'
        names := ((path.toList.splitOn '/').map String.ofList).filter (· != "")
        closed := path.toList.getLast? == some '/' } := by
  rw [ofPath] at h
  split at h
  · cases h
  split at h
  · cases h
  split at h
  · cases h
  rename_i hempty
  exact ⟨fun hnil => hempty (hnil ▸ rfl), (Except.ok.inj h).symm⟩

/-- The ways of paths that differ in their end only differ in their last name only. -/
theorem exists_names (stem : String) : ∃ fromRoot init last, ∀ tail route, '/' ∉ tail.toList →
    ofPath (stem ++ tail) = .ok route → (tail = "" → route.closed = false) →
    route = ⟨fromRoot, init ++ [last ++ tail], false⟩ := by
  obtain ⟨parts, last, hlast, hsplit⟩ := exists_splitOn_append stem.toList
  refine ⟨stem.toList.head? == some '/', (parts.map String.ofList).filter (· != ""),
    String.ofList last, fun tail route htail hroute hclosed => ?_⟩
  obtain ⟨hne, rfl⟩ := ofPath_eq_ok hroute
  rw [String.toList_append] at hne hclosed ⊢
  have hopen : ((stem.toList ++ tail.toList).getLast? == some '/') = false := by
    by_cases hempty : tail = ""
    · exact hclosed hempty
    · refine beq_eq_false_iff_ne.mpr fun hslash => htail ?_
      have htail : tail.toList ≠ [] := fun h => hempty (String.toList_eq_nil_iff.mp h)
      rw [getLast?_append_of_ne_nil _ htail] at hslash
      exact mem_of_getLast? hslash
  have hroot : ((stem.toList ++ tail.toList).head? == some '/') =
      (stem.toList.head? == some '/') := by
    cases hstem : stem.toList with
    | cons c rest => rfl
    | nil =>
      refine beq_eq_false_iff_ne.mpr fun hslash => htail ?_
      exact mem_of_head? hslash
  have hname : (String.ofList last ++ tail != "") = true := by
    refine bne_iff_ne.mpr fun hempty => ?_
    obtain ⟨hlast', rfl⟩ := String.append_eq_empty_iff.mp hempty
    rw [String.toList_empty, append_nil] at hne hopen
    rcases hlast (String.ofList_eq_empty_iff.mp hlast') with hnil | hslash
    · exact hne hnil
    · rw [hslash] at hopen
      cases hopen
  rw [hopen, hroot, hsplit _ htail, map_append, filter_append, map_singleton,
    String.ofList_append, String.ofList_toList, filter_singleton, hname, cond_true]

theorem Ends.eq_of_names {init : Location} {last : String} (h : route.Ends p name)
    (hnames : route.names = init ++ [last]) : p = route.start.after init ∧ name = last := by
  obtain ⟨init', hnames', rfl⟩ := h.names
  obtain ⟨rfl, hlast⟩ := append_inj' (hnames'.symm.trans hnames) rfl
  exact ⟨rfl, head_eq_of_cons_eq hlast⟩

/-- **Paths that differ in their end only lead through the same directories**, and to names in the
same directory that differ in their end only. -/
theorem exists_ends (stem : String) : ∃ crossed p last, ∀ tail route, '/' ∉ tail.toList →
    ofPath (stem ++ tail) = .ok route → (tail = "" → route.closed = false) →
    route.closed = false ∧ route.crossed = crossed ∧
      (∀ p' name, route.Ends p' name → p' = p ∧ name = last ++ tail) ∧
      (2 < tail.length → route.Ends p (last ++ tail)) := by
  obtain ⟨fromRoot, init, last, hroute⟩ := exists_names stem
  refine ⟨crossed ⟨fromRoot, init ++ [last], false⟩, start ⟨fromRoot, [], false⟩ |>.after init, last,
    fun tail route htail hpath hclosed => ?_⟩
  obtain rfl := hroute tail route htail hpath hclosed
  refine ⟨rfl, ?_, fun p' name hends => hends.eq_of_names rfl, fun hlong => ?_⟩
  · rw [crossed, crossed, Location.visited_append, Location.visited_append]
    rfl
  · have hne : ∀ dots : String, dots.length ≤ 2 → last ++ tail ≠ dots := by
      rintro dots hdots rfl
      rw [String.length_append] at hdots
      omega
    exact ⟨⟨init, rfl, rfl⟩, hne "." (by decide), hne ".." (by decide)⟩

end Route

/-- The directories that a path leads through. -/
def Path.crossed (path : String) : List Location :=
  match Route.ofPath path with
  | .ok route => route.crossed
  | .error _ => []

namespace FileTree

variable {tree : FileTree}

/-- The way can be taken. -/
structure Passes (tree : FileTree) (route : Route) : Prop where
  directories : ∀ d ∈ route.crossed, tree.isDirectory d = true
  fits : ∀ name ∈ route.names, fits name

variable {path text : String} {l source destination : Location} {tree' : FileTree}

/-- **A path is found if its way can be taken and something is at its end.** -/
theorem find_eq_ok_iff :
    tree.find path = .ok l ↔ ∃ route, Route.ofPath path = .ok route ∧ tree.Passes route ∧
      route.goal = l ∧ tree.contains l = true := by
  rw [find, bind_eq_ok_iff]
  refine exists_congr fun route => and_congr_right fun _ => ?_
  rw [bind_eq_ok_iff]
  simp only [walk_eq_ok_iff]
  have hend : ∀ here, (if route.closed then tree.directory here
      else if tree.contains here then pure here else throw .notFound) = .ok l ↔
        (∀ d ∈ if route.closed then [here] else [], tree.isDirectory d = true) ∧ here = l ∧
          tree.contains l = true := by
    intro here
    cases route.closed with
    | true =>
      rw [if_pos rfl, if_pos rfl, directory_eq_ok_iff, forall_mem_singleton]
      refine ⟨fun h => ⟨h.1, h.2, ?_⟩, fun h => ⟨h.1, h.2.1⟩⟩
      rw [contains, ← h.2, h.1, Bool.or_true]
    | false =>
      rw [if_neg Bool.false_ne_true, if_neg Bool.false_ne_true]
      constructor
      · intro h
        split at h
        · rename_i hcontains
          cases h
          exact ⟨forall_mem_nil _, rfl, hcontains⟩
        · cases h
      · rintro ⟨-, rfl, hcontains⟩
        rw [if_pos hcontains]
        rfl
  constructor
  · rintro ⟨here, ⟨hvisited, hfits, rfl⟩, hl⟩
    obtain ⟨hclosed, hl, hcontains⟩ := (hend _).mp hl
    exact ⟨⟨forall_mem_append.mpr ⟨hvisited, hclosed⟩, hfits⟩, hl, hcontains⟩
  · rintro ⟨⟨hcrossed, hfits⟩, hl, hcontains⟩
    obtain ⟨hvisited, hclosed⟩ := forall_mem_append.mp hcrossed
    exact ⟨_, ⟨hvisited, hfits, rfl⟩, (hend _).mpr ⟨hclosed, hl, hcontains⟩⟩

/-- A path that ends with a name leads to that name in a directory. -/
theorem entry_eq_ok {e : Entry} {name : String} (h : tree.entry path = .ok e)
    (hname : e.name = some name) (hstep : tree.step e.parent name = .ok l) :
    ∃ route, Route.ofPath path = .ok route ∧ route.Ends e.parent name ∧ route.closed = e.closed ∧
      (route.closed = false → tree.Passes route) ∧ l = e.parent ++ [name] := by
  obtain ⟨-, hfits, rfl⟩ := step_eq_ok_iff.mp hstep
  obtain ⟨route, hroute, h⟩ := bind_eq_ok_iff.mp h
  obtain ⟨here, hwalk, h⟩ := bind_eq_ok_iff.mp h
  obtain ⟨parent, hparent, h⟩ := bind_eq_ok_iff.mp h
  cases h
  obtain ⟨hvisited, hnames, rfl⟩ := walk_eq_ok_iff.mp hwalk
  obtain ⟨hdirectory, rfl⟩ := directory_eq_ok_iff.mp hparent
  obtain ⟨hlast, hplain⟩ := Option.filter_eq_some_iff.mp hname
  rw [Bool.and_eq_true, bne_iff_ne, bne_iff_ne] at hplain
  have hsplit : route.names = route.names.dropLast ++ [name] :=
    (dropLast_append_getLast? name hlast).symm
  refine ⟨route, hroute, ⟨⟨_, hsplit, rfl⟩, hplain.1, hplain.2⟩, rfl, fun hclosed => ⟨?_, ?_⟩,
    Location.next_of_ne hplain.1 hplain.2 _⟩
  · rw [Route.crossed, hclosed, if_neg Bool.false_ne_true, append_nil, hsplit,
      Location.visited_append]
    exact forall_mem_append.mpr ⟨hvisited, forall_mem_singleton.mpr hdirectory⟩
  · rw [hsplit]
    exact forall_mem_append.mpr ⟨hnames, forall_mem_singleton.mpr hfits⟩

/-- **What writing a file has done.** -/
theorem store_eq_ok (h : tree.store path text = .ok tree') :
    ∃ route p name, Route.ofPath path = .ok route ∧ route.Ends p name ∧ route.closed = false ∧
      tree.Passes route ∧ tree.isDirectory (p ++ [name]) = false ∧
      tree' = tree.put (p ++ [name]) text.toUTF8 := by
  obtain ⟨e, hentry, h⟩ := bind_eq_ok_iff.mp h
  cases hname : e.name with
  | none =>
    rw [hname] at h
    cases h
  | some name =>
    rw [hname] at h
    dsimp only at h
    cases hclosed : e.closed with
    | true =>
      rw [hclosed] at h
      cases h
    | false =>
      rw [hclosed, if_neg Bool.false_ne_true] at h
      obtain ⟨location, hstep, h⟩ := bind_eq_ok_iff.mp h
      obtain ⟨route, hroute, hends, hroute', hpasses, rfl⟩ := entry_eq_ok hentry hname hstep
      rw [hclosed] at hroute'
      cases hdirectory : tree.isDirectory (e.parent ++ [name]) with
      | true =>
        rw [hdirectory] at h
        cases h
      | false =>
        rw [hdirectory] at h
        cases h
        exact ⟨route, e.parent, name, hroute, hends, hroute', hpasses hroute', hdirectory, rfl⟩

theorem moveFile_eq_ok {content : ByteArray}
    (h : tree.moveFile source destination content = .ok tree') :
    tree' = (tree.erase source).put destination content := by
  rw [moveFile] at h
  split at h
  · cases h
  · exact (Except.ok.inj h).symm

theorem moveTree_eq_ok (h : tree.moveTree source destination = .ok tree') :
    ¬ source <+: destination ∧ tree.content? destination = none ∧
      tree.isDirectory destination = false ∧ tree' = tree.moveDirectory source destination := by
  rw [moveTree] at h
  split at h
  · cases h
  rename_i hbelow
  split at h
  · cases h
  rename_i hcontent
  split at h
  · cases h
  rename_i hdirectory
  exact ⟨fun h => hbelow ( isPrefixOf_iff_prefix.mpr h),
    Option.not_isSome_iff_eq_none.mp hcontent, Bool.eq_false_iff.mpr hdirectory,
    (Except.ok.inj h).symm⟩

/-- **What moving a file or a directory has done.** -/
theorem move_eq_ok {source destination : String} (h : tree.move source destination = .ok tree') :
    ∃ route p name route' p' name', Route.ofPath source = .ok route ∧ route.Ends p name ∧
      Route.ofPath destination = .ok route' ∧ route'.Ends p' name' ∧
      ((∃ content, tree.content? (p ++ [name]) = some content ∧
          tree' = (tree.erase (p ++ [name])).put (p' ++ [name']) content) ∨
        tree.content? (p ++ [name]) = none ∧ (p ++ [name] = p' ++ [name'] ∧ tree' = tree ∨
          tree.isDirectory (p ++ [name]) = true ∧ ¬ p ++ [name] <+: p' ++ [name'] ∧
            tree.content? (p' ++ [name']) = none ∧ tree.isDirectory (p' ++ [name']) = false ∧
            tree' = tree.moveDirectory (p ++ [name]) (p' ++ [name']))) := by
  obtain ⟨old, hold, h⟩ := bind_eq_ok_iff.mp h
  obtain ⟨new, hnew, h⟩ := bind_eq_ok_iff.mp h
  cases hname : old.name with
  | none =>
    rw [hname] at h
    cases h
  | some name =>
    cases hname' : new.name with
    | none =>
      rw [hname, hname'] at h
      cases h
    | some name' =>
      rw [hname, hname'] at h
      dsimp only at h
      obtain ⟨start, hstart, h⟩ := bind_eq_ok_iff.mp h
      obtain ⟨route, hroute, hends, -, -, rfl⟩ := entry_eq_ok hold hname hstart
      split at h
      · cases h
      rename_i hcontains
      obtain ⟨goal, hgoal, h⟩ := bind_eq_ok_iff.mp h
      obtain ⟨route', hroute', hends', -, -, rfl⟩ := entry_eq_ok hnew hname' hgoal
      refine ⟨route, old.parent, name, route', new.parent, name', hroute, hends, hroute', hends', ?_⟩
      cases hcontent : tree.content? (old.parent ++ [name]) with
      | some content =>
        rw [hcontent] at h
        dsimp only at h
        split at h
        · cases h
        exact .inl ⟨content, rfl, moveFile_eq_ok h⟩
      | none =>
        rw [hcontent] at h
        dsimp only at h
        refine .inr ⟨rfl, ?_⟩
        split at h
        · rename_i hsame
          exact .inl ⟨hsame, (Except.ok.inj h).symm⟩
        rw [Bool.not_eq_true, Bool.not_eq_false', contains, hcontent] at hcontains
        exact .inr ⟨hcontains, moveTree_eq_ok h⟩

theorem load_eq_ok_iff : tree.load path = .ok text ↔
    ∃ l content, tree.find path = .ok l ∧ tree.content? l = some content ∧
      String.fromUTF8? content = some text := by
  rw [load, bind_eq_ok_iff]
  refine exists_congr fun l => ?_
  rw [exists_and_left]
  refine and_congr_right fun _ => ?_
  constructor
  · intro h
    split at h
    · cases h
    rename_i content hcontent
    split at h
    · rename_i hutf8
      cases h
      exact ⟨content, hcontent, hutf8⟩
    · cases h
  · rintro ⟨content, hcontent, hutf8⟩
    rw [hcontent]
    dsimp only
    rw [hutf8]
    rfl

theorem find_unique {l' : Location} (h : tree.find path = .ok l) (h' : tree'.find path = .ok l') :
    l = l' := by
  obtain ⟨route, hroute, -, rfl, -⟩ := find_eq_ok_iff.mp h
  obtain ⟨route', hroute', -, rfl, -⟩ := find_eq_ok_iff.mp h'
  rw [Except.ok.inj (hroute.symm.trans hroute')]

theorem contains_of_find (h : tree.find path = .ok l) : disk.contains path tree = (true, tree) := by
  have hrun : (disk.contains path).run tree = pure (true, tree) := by
    simp [disk, h]
  exact hrun

end FileTree

end TwigToLatte
