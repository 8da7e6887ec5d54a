import TwigToLatte.Conversion
import TwigToLatte.Proofs.Latte.ClassAttribute
import TwigToLatte.Proofs.Latte.Script

/-!
# Line maps

The line map is made while the code is written. Lines are counted when a statement begins, from
where the last count ended, in a text from which captured parts are taken back. The map could as
well be read off the script: the first statement that begins on a line of the code gives the line of
the template that belongs to it.

* `Output.Counted` — the counter stands at the line at which the text that it has gone through ends.
* `Output.Counted.currentLine_eq` — **going on from there is counting all of the text**.
* `Trace` — the text that a script writes, and the text before each statement that begins.
* `Trace.firstAt` — the first statement that begins on a line of the code.
* `Trace.Tracks` — what the counter and the map have to do with the trace, kept by every event.
* `newlines_classAttributes` — class attributes are rewritten within their lines.
* `mem_lineMap_iff` — **the line map is the one that the script gives**.
-/

namespace TwigToLatte.Latte

open List

open Output (newlines)

theorem newlines_append (a b : String) : newlines (a ++ b) = newlines a + newlines b := by
  simp [newlines]

/-! ## Counting -/

namespace Output

/-- The last count has gone through a first part of the text. -/
def Counted (out : Output) : Prop :=
  ∃ front rest, out.text = front ++ rest ∧ front.utf8ByteSize = out.counted ∧
    out.line = newlines front + 1

namespace Counted

variable {out : Output} (h : out.Counted)

include h

/-- **Counting on gives the line that counting all of the text gives.** -/
theorem currentLine_eq : out.currentLine = newlines out.text + 1 := by
  obtain ⟨front, rest, htext, hcounted, hline⟩ := h
  have hrest := dropBytes?_append front.toList rest.toList
  rw [String.ofList_toList] at hrest
  rw [currentLine, htext, ← hcounted, String.toList_append, hrest]
  show out.line + newlines rest = _
  rw [hline, newlines_append]
  omega

theorem write (text : String) : (out.write text).Counted := by
  obtain ⟨front, rest, htext, hcounted, hline⟩ := h
  exact ⟨front, rest ++ text, by rw [Output.write, htext, String.append_assoc], hcounted, hline⟩

theorem mark (source : Nat) : (out.mark source).Counted :=
  ⟨out.text, "", String.append_empty.symm, rfl, h.currentLine_eq⟩

end Counted

variable {key value : Nat} {entries : List (Nat × Nat)}

/-- An entry is added unless its key is there. -/
theorem mem_orInsert (h : entries.Pairwise (·.1 < ·.1)) {entry : Nat × Nat} :
    entry ∈ orInsert key value entries ↔
      entry ∈ entries ∨ entry = (key, value) ∧ ∀ other ∈ entries, other.1 ≠ key := by
  induction entries with
  | nil => simp [orInsert]
  | cons first rest ih =>
    obtain ⟨hfirst, hrest⟩ := pairwise_cons.mp h
    rw [orInsert]
    split
    · have hne : ∀ other ∈ first :: rest, other.1 ≠ key := by
        intro other hmem
        rcases mem_cons.mp hmem with rfl | hmem
        · omega
        · have := hfirst other hmem
          omega
      rw [mem_cons, or_comm, and_iff_left hne]
    split
    · rename_i heq
      simp [heq]
    · rename_i hne
      rw [mem_cons, ih hrest, mem_cons, forall_mem_cons, or_assoc,
        and_iff_right (a := first.1 ≠ key) (Ne.symm hne)]

theorem pairwise_orInsert (h : entries.Pairwise (·.1 < ·.1)) :
    (orInsert key value entries).Pairwise (·.1 < ·.1) := by
  induction entries with
  | nil => exact pairwise_singleton _ _
  | cons first rest ih =>
    obtain ⟨hfirst, hrest⟩ := pairwise_cons.mp h
    rw [orInsert]
    split
    · rename_i hlt
      refine pairwise_cons.mpr ⟨fun other hmem => ?_, h⟩
      rcases mem_cons.mp hmem with rfl | hmem
      · exact hlt
      · exact Nat.lt_trans hlt (hfirst other hmem)
    split
    · exact h
    · refine pairwise_cons.mpr ⟨fun other hmem => ?_, ih hrest⟩
      rcases (mem_orInsert hrest).mp hmem with hmem | ⟨rfl, -⟩
      · exact hfirst other hmem
      · show first.1 < key
        omega

end Output

/-! ## What a script writes -/

/-- The text that has been written, and what has begun. -/
structure Trace where
  text : String := ""
  /-- How many variables were made up. -/
  fresh : Nat := 0
  /-- The text before each statement and macro that has begun, and its line. -/
  starts : List (String × Nat) := []

/-- The trace after an event that raises no error. -/
def Event.follow : Event → Trace → Trace
  | start _ line, trace => { trace with starts := trace.starts ++ [(trace.text, line)] }
  | text r, trace => { trace with text := trace.text ++ r.text }
  | fresh f, trace =>
    { trace with
      text := trace.text ++ (f ("__internal_" ++ toString trace.fresh)).text
      fresh := trace.fresh + 1 }
  | block name, trace => { trace with text := trace.text ++ blockHead name }
  | endBlock, trace => { trace with text := trace.text ++ "\x7b/block\x7d" }
  | inner event, trace => event.follow trace

def Script.trace (script : Script) : Trace :=
  script.foldl (fun trace event => event.follow trace) {}

namespace Trace

/-- The line of the first statement or macro that begins on a line of the code. -/
def firstAt (trace : Trace) (line : Nat) : Option Nat :=
  (trace.starts.find? fun start => newlines start.1 + 1 == line).map Prod.snd

theorem firstAt_start (trace : Trace) (kind : Option Stmt.Kind) (source line : Nat) :
    ((Event.start kind source).follow trace).firstAt line =
      (trace.firstAt line).or (if newlines trace.text + 1 = line then some source else none) := by
  rw [firstAt, Event.follow, find?_append, firstAt]
  cases trace.starts.find? fun start => newlines start.1 + 1 == line with
  | some start => rfl
  | none => by_cases h : newlines trace.text + 1 = line <;> simp [h]

/-- The output agrees with the trace, and its line map with the statements that have begun. -/
structure Tracks (trace : Trace) (out : Output) : Prop where
  text_eq : out.text = trace.text
  fresh_eq : out.fresh = trace.fresh
  counted : out.Counted
  starts_le : ∀ start ∈ trace.starts, newlines start.1 ≤ newlines trace.text
  sorted : out.lineMap.toList.Pairwise (·.1 < ·.1)
  mem_iff : ∀ line source, (line, source) ∈ out.lineMap ↔ trace.firstAt line = some source

namespace Tracks

variable {trace : Trace} {out after : Output}

theorem empty : Tracks {} {} where
  text_eq := rfl
  fresh_eq := rfl
  counted := ⟨"", "", String.append_empty.symm, rfl, rfl⟩
  starts_le := fun _ hmem => absurd hmem not_mem_nil
  sorted := List.Pairwise.nil
  mem_iff := by simp [firstAt]

section

variable (h : Tracks trace out)

include h

theorem le_line {line source : Nat} (hmem : (line, source) ∈ out.lineMap) :
    line ≤ newlines trace.text + 1 := by
  obtain ⟨start, hfind, -⟩ := Option.map_eq_some_iff.mp ((h.mem_iff line source).mp hmem)
  have hle := h.starts_le start (mem_of_find?_eq_some hfind)
  have hline := find?_some hfind
  rw [beq_iff_eq] at hline
  omega

theorem write (text : String) :
    Tracks { trace with text := trace.text ++ text } (out.write text) where
  text_eq := by rw [Output.write, h.text_eq]
  fresh_eq := h.fresh_eq
  counted := h.counted.write text
  starts_le := by
    intro start hmem
    have := h.starts_le start hmem
    simp only [newlines_append]
    omega
  sorted := h.sorted
  mem_iff := h.mem_iff

/-- A statement begins: its line is noted if it is the first on the current line. -/
theorem mark (kind : Option Stmt.Kind) (source : Nat) :
    Tracks ((Event.start kind source).follow trace) (out.mark source) where
  text_eq := h.text_eq
  fresh_eq := h.fresh_eq
  counted := h.counted.mark source
  starts_le := by
    intro start hmem
    rcases mem_append.mp hmem with hmem | hmem
    · exact h.starts_le start hmem
    · exact Nat.le_of_eq (congrArg (newlines ·.1) (mem_singleton.mp hmem))
  sorted := Output.pairwise_orInsert h.sorted
  mem_iff := by
    intro line source'
    have hline : out.currentLine = newlines trace.text + 1 :=
      h.text_eq ▸ h.counted.currentLine_eq
    rw [Output.mark, mem_toArray, Output.mem_orInsert h.sorted, Array.mem_toList_iff, h.mem_iff,
      firstAt_start, ← hline]
    by_cases heq : out.currentLine = line
    · subst heq
      cases hfirst : trace.firstAt out.currentLine with
      | some known =>
        have hmem := Array.mem_toList_iff.mpr ((h.mem_iff _ _).mpr hfirst)
        have hknown : ¬∀ other ∈ out.lineMap.toList, other.1 ≠ out.currentLine :=
          fun hne => hne _ hmem rfl
        rw [iff_false_intro hknown, and_false, or_false, Option.some_or]
      | none =>
        have hnew : ∀ other ∈ out.lineMap.toList, other.1 ≠ out.currentLine := by
          intro other hmem hother
          have hfound := (h.mem_iff other.1 other.2).mp (Array.mem_toList_iff.mp hmem)
          rw [hother, hfirst] at hfound
          cases hfound
        rw [and_iff_left hnew, if_pos rfl]
        simp [eq_comm]
    · rw [if_neg heq, Option.or_none, Prod.mk.injEq]
      simp [Ne.symm heq]

/-- **Every event keeps the output in step with the trace.** -/
theorem follow {event : Event} (hrun : event.run out = .ok () after) :
    Tracks (event.follow trace) after := by
  have hrendered : ∀ {r : Rendered} {trace : Trace} {out : Output}, Tracks trace out →
      Emit.rendered r out = .ok () after →
      Tracks { trace with text := trace.text ++ r.text } after := by
    rintro ⟨text, _ | error⟩ trace out h hrun
    · cases hrun
      exact h.write text
    · cases hrun
  induction event with
  | start kind line =>
    cases hrun
    exact h.mark kind line
  | text r => exact hrendered h hrun
  | fresh f =>
    have hfresh :
        Tracks { trace with fresh := trace.fresh + 1 } { out with fresh := out.fresh + 1 } :=
      { h with fresh_eq := congrArg (· + 1) h.fresh_eq }
    have hname : "__internal_" ++ toString trace.fresh = "__internal_" ++ toString out.fresh := by
      rw [h.fresh_eq]
    rw [Event.follow, hname]
    exact hrendered hfresh hrun
  | block name =>
    cases hrun
    exact h.write (blockHead name)
  | endBlock =>
    cases hrun
    exact h.write "\x7b/block\x7d"
  | inner event ih => exact ih hrun

theorem run {script : Script} (hrun : script.run out = .ok () after) :
    Tracks (script.foldl (fun trace event => event.follow trace) trace) after := by
  induction script generalizing trace out with
  | nil =>
    cases hrun
    exact h
  | cons event rest ih =>
    rw [Script.run_cons_apply] at hrun
    split at hrun
    · exact ih (h.follow ‹_›) hrun
    · cases hrun

end

end Tracks

end Trace

/-! ## Class attributes -/

open Text

variable {text after : List Char}

theorem count_dropCaseless {expected rest : List Char}
    (hexpected : expected.all (fun c => !sameLetter c '\n') = true)
    (h : dropCaseless? expected text = some rest) : text.count '\n' = rest.count '\n' := by
  induction expected generalizing text with
  | nil =>
    cases h
    rfl
  | cons e expected ih =>
    rw [all_cons, Bool.and_eq_true, Bool.not_eq_true'] at hexpected
    cases text with
    | nil => cases h
    | cons c text =>
      rw [dropCaseless?] at h
      split at h
      · rename_i hsame
        have hc : c ≠ '\n' := by
          rintro rfl
          rw [hexpected.1] at hsame
          cases hsame
        rw [count_cons_of_ne hc]
        exact ih hexpected.2 h
      · cases h

theorem count_dropEquals (text : List Char) : (dropEquals text).count '\n' = text.count '\n' := by
  unfold dropEquals
  split
  · rw [count_cons_of_ne (by decide)]
  · rfl

/-- The split of a line drops the end of a call and nothing else. -/
theorem splitLastClose_eq_some {before : List Char}
    (h : splitLastClose text = some (before, after)) : text = before ++ closing ++ after := by
  induction text generalizing before with
  | nil => cases h
  | cons c rest ih =>
    unfold splitLastClose at h
    split at h
    · cases h
    split at h
    · rename_i hsplit
      cases h
      rw [ih hsplit, cons_append, cons_append]
    · split at h <;> cases h
      rfl

/-- A call: newlines are in its arguments, if anywhere, or after it. -/
theorem count_classCall {arguments : List Char} {quote : Char}
    (h : classCall? text = some (quote, arguments, after)) :
    text.count '\n' = (quote :: arguments).count '\n' + after.count '\n' ∧
      ∃ front, front ≠ [] ∧ text = front ++ after := by
  rw [classCall?_eq] at h
  obtain ⟨⟨quote', rest⟩, hstart, hsplit⟩ := Option.bind_eq_some_iff.mp h
  simp only [Option.map_eq_some_iff, Prod.mk.injEq] at hsplit
  obtain ⟨⟨before, after'⟩, hclose, rfl, rfl, rfl⟩ := hsplit
  obtain ⟨braced, hnamed, hquote, hrest⟩ := callStart?_eq_some_iff.mp hstart
  have hq : quote' ≠ '\n' := by rcases hquote with rfl | rfl <;> decide
  obtain ⟨front, hfront⟩ := callStart?_suffix hstart
  rw [splitLastClose_eq_some hclose] at hrest hfront
  constructor
  · rw [count_dropCaseless rfl hnamed, count_cons_of_ne hq,
      count_cons_of_ne (by decide), ← count_dropEquals, count_dropCaseless rfl hrest,
      count_append, count_append, count_cons_of_ne hq]
    rfl
  · refine ⟨front ++ (before ++ closing), by simp [closing], ?_⟩
    simp [← hfront]

theorem count_replaceClasses (text : List Char) (skip : Nat) (previous : Option Char) :
    (replaceClasses previous skip text).count '\n' = (text.drop skip).count '\n' := by
  induction text generalizing skip previous with
  | nil => cases skip <;> rfl
  | cons c rest ih =>
    cases skip with
    | succ skip => exact ih skip (some c)
    | zero =>
      unfold replaceClasses
      split
      · rename_i quote arguments after hcall
        split at hcall
        · obtain ⟨hcount, front, hne, hfront⟩ := count_classCall hcall
          obtain ⟨f, front, rfl⟩ := exists_cons_of_ne_nil hne
          rw [cons_append, List.cons.injEq] at hfront
          obtain ⟨rfl, rfl⟩ := hfront
          have hskip : (front ++ after).length - after.length = front.length := by simp
          rw [hskip, count_append, count_append, ih, drop_left, drop_zero,
            hcount, show "n:class=".toList.count '\n' = 0 from rfl]
          omega
        · cases hcall
      · rw [count_cons, ih, drop_zero, drop_zero, count_cons]

/-- **Class attributes are rewritten within their lines.** -/
theorem newlines_classAttributes (code : String) :
    newlines (classAttributes code) = newlines code := by
  rw [newlines, classAttributes, String.toList_ofList, count_replaceClasses, drop_zero,
    newlines]

/-! ## The line map -/

/-- **The line map is the one that the script gives.** A line of the code is mapped to the first
statement or macro that begins on it, the entries ascend, and none is beyond the end of the code,
which class attributes do not move. -/
theorem mem_lineMap_iff {dialect : Dialect} {name : String} {tree : Template} {code : String}
    {lineMap : Array (Nat × Nat)} (h : render dialect name tree = .ok (code, lineMap)) :
    let trace := (Script.template tree { dialect, template := name }).trace
    trace.text = code ∧
    (∀ line source, (line, source) ∈ lineMap ↔ trace.firstAt line = some source) ∧
    lineMap.toList.Pairwise (·.1 < ·.1) ∧
    newlines (classAttributes code) = newlines code ∧
    (∀ entry ∈ lineMap, entry.1 ≤ 1 + newlines (classAttributes code)) ∧
    ∀ t, dialect.runStages t = tree →
      t.convert dialect name = .ok ⟨classAttributes code, lineMap⟩ := by
  intro trace
  have hrender := h
  unfold render at h
  split at h <;> cases h
  rename_i out hrun
  rw [← Script.run_template] at hrun
  have htracks : trace.Tracks out := Trace.Tracks.empty.run hrun
  refine ⟨htracks.text_eq.symm, htracks.mem_iff, htracks.sorted, newlines_classAttributes _, ?_, ?_⟩
  · rintro ⟨line, source⟩ hmem
    rw [newlines_classAttributes, htracks.text_eq, Nat.add_comm]
    exact htracks.le_line hmem
  · rintro t rfl
    rw [Template.convert, hrender]
    rfl

/-- The place of a block begins the second line, not the statement inside the block. -/
theorem mem_lineMap_iff_block :
    let tree : Template := ⟨[⟨.flush, 1⟩, ⟨.flush, 2⟩, ⟨.text "\n", 2⟩, ⟨.block "a", 3⟩],
      [("a", ⟨[⟨.flush, 4⟩], 3⟩)], [], none, []⟩
    render {} "" tree = .ok
      ("\x7bdo flush()\x7d\x7bdo flush()\x7d\n\x7bblock a\x7d\x7bdo flush()\x7d\x7b/block\x7d",
        #[(1, 1), (2, 3)]) ∧
    (Script.template tree { dialect := {}, template := "" }).trace.firstAt 2 = some 3 := by
  intro tree
  have hrender : render {} "" tree = .ok
      ("\x7bdo flush()\x7d\x7bdo flush()\x7d\n\x7bblock a\x7d\x7bdo flush()\x7d\x7b/block\x7d",
        #[(1, 1), (2, 3)]) := by decide +kernel
  exact ⟨hrender, ((mem_lineMap_iff hrender).2.1 2 3).mp (by simp)⟩

end TwigToLatte.Latte
