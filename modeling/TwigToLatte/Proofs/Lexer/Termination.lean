import TwigToLatte.Proofs.Lexer.Coverage
import TwigToLatte.Proofs.Lexer.Symbols
import Mathlib.Logic.Relation

/-!
# The lexer comes to an end

The loop of the lexer takes a limited number of steps. The limit is never what ends it: every step
moves the position forward, in every region and for any open brackets.

* `Scan.Reaches` — steps in a row.
* `Scan.Ends` — what the loop gives when nothing limits its steps.
* `Scan.offset_lt_of_step` — **a step moves the position forward**.
* `Scan.ends_iff` — the loop ends, in one way only, and the limited run finds it.
* `Pattern.Searches` — the search for the end of a verbatim region, round by round.
* `Pattern.searches_iff` — the search ends, too.

Principal result: `tokenize_terminates`.
-/

namespace TwigToLatte

open List

/-! ## The search for the end of a verbatim region -/

namespace Pattern

/-- The search for the end of a verbatim region, with the number of characters before it and its
length. Each round looks for the next tag; where that tag is not the end, another round begins right
after its brace. -/
inductive Searches : List Char → Option (Nat × Nat) → Prop
  | absent {text} (h : pair? '{' '%' text = none) : Searches text none
  | found {text n length} (h : pair? '{' '%' text = some n)
      (hend : namedTag? "endverbatim".toList (text.drop n) = some length) :
      Searches text (some (n, length))
  | again {text n result} (h : pair? '{' '%' text = some n)
      (hother : namedTag? "endverbatim".toList (text.drop n) = none)
      (hrest : Searches (text.drop (n + 1)) result) :
      Searches text (result.map fun found => (found.1 + 1 + n, found.2))

variable {text : List Char} {n : Nat} {result : Option (Nat × Nat)}

theorem namedTag?_eq_none {c : Char} (h : ¬ (c == '{' && text.head? == some '%') = true)
    (name : List Char) : namedTag? name (c :: text) = none := by
  have hstart : startsWith '{' '%' (c :: text) = false := by simpa [startsWith] using h
  unfold namedTag?
  rw [hstart, if_neg Bool.false_ne_true]

theorem verbatimEnd?_eq_none (h : pair? '{' '%' text = none) : verbatimEnd? text = none := by
  induction text with
  | nil => rfl
  | cons c text ih =>
    rw [pair?] at h
    split at h
    · cases h
    · rename_i hpair
      rw [verbatimEnd?, namedTag?_eq_none hpair, ih (by simpa using h)]
      rfl

/-- The search passes over the characters before the first tag. -/
theorem verbatimEnd?_of_pair? (h : pair? '{' '%' text = some n) :
    verbatimEnd? text =
      (verbatimEnd? (text.drop n)).map fun found => (found.1 + n, found.2) := by
  induction text generalizing n with
  | nil => cases h
  | cons c text ih =>
    rw [pair?] at h
    split at h
    · cases h
      simp
    · rename_i hpair
      obtain ⟨m, hm, rfl⟩ := Option.map_eq_some_iff.mp h
      rw [verbatimEnd?, namedTag?_eq_none hpair, ih hm, drop_succ_cons]
      exact Option.map_map ..

theorem drop_of_pair? {a b : Char} (h : pair? a b text = some n) :
    text.drop n = a :: text.drop (n + 1) := by
  induction text generalizing n with
  | nil => cases h
  | cons c text ih =>
    rw [pair?] at h
    split at h
    · rename_i hpair
      cases h
      simp only [Bool.and_eq_true, beq_iff_eq] at hpair
      simp [hpair.1]
    · obtain ⟨m, hm, rfl⟩ := Option.map_eq_some_iff.mp h
      simpa using ih hm

theorem Searches.eq (h : Searches text result) : result = verbatimEnd? text := by
  induction h with
  | absent h => exact (verbatimEnd?_eq_none h).symm
  | found h hend =>
    rw [drop_of_pair? h] at hend
    rw [verbatimEnd?_of_pair? h, drop_of_pair? h, verbatimEnd?, hend]
    simp
  | again h hother _ ih =>
    rw [drop_of_pair? h] at hother
    rw [verbatimEnd?_of_pair? h, drop_of_pair? h, verbatimEnd?, hother, ih]
    dsimp only
    rw [Option.map_map]
    rfl

/-- **The search ends.** The measure is the text that is left: a round that goes on leaves less. -/
theorem exists_searches (text : List Char) : ∃ result, Searches text result := by
  generalize hlength : text.length = limit
  induction limit using Nat.strongRecOn generalizing text with
  | ind limit ih =>
    cases h : pair? '{' '%' text with
    | none => exact ⟨none, .absent h⟩
    | some n =>
      cases hend : namedTag? "endverbatim".toList (text.drop n) with
      | some length => exact ⟨some (n, length), .found h hend⟩
      | none =>
        have hdrop := congrArg List.length (drop_of_pair? h)
        simp only [length_drop, length_cons] at hdrop
        obtain ⟨result, hresult⟩ := ih (text.drop (n + 1)).length
          (by simp only [length_drop]; omega) _ rfl
        exact ⟨_, .again h hend hresult⟩

theorem searches_iff : Searches text result ↔ result = verbatimEnd? text := by
  constructor
  · exact Searches.eq
  · rintro rfl
    obtain ⟨result, h⟩ := exists_searches text
    rwa [← h.eq]

end Pattern

/-! ## The loop -/

namespace Lexer

open Text Pattern

variable {symbols : List (List Char)}

namespace Scan

/-- The state in which a template is opened. -/
def start (text : String) : Scan := { cursor := Cursor.start text }

/-- The lexer gets from one state to another, step by step. -/
def Reaches (symbols : List (List Char)) : Scan → Scan → Prop :=
  Relation.ReflTransGen fun scan next => scan.rest ≠ [] ∧ scan.step symbols = .ok next

variable {next last : Scan} {outcome : Except Fault Scan} {limit : Nat}

theorem Reaches.single {scan : Scan} (hrest : scan.rest ≠ []) (h : scan.step symbols = .ok next) :
    Reaches symbols scan next :=
  Relation.ReflTransGen.single ⟨hrest, h⟩

theorem Reaches.trans {scan middle : Scan} (h : Reaches symbols scan middle)
    (hlast : Reaches symbols middle last) : Reaches symbols scan last :=
  Relation.ReflTransGen.trans h hlast

@[simp] theorem rest_take (n : Nat) (kind : Token.Kind) (scan : Scan) :
    (scan.take n kind).rest = scan.rest.drop n := by
  simp [rest, take]

@[simp] theorem kinds_take (n : Nat) (kind : Token.Kind) (scan : Scan) :
    (scan.take n kind).kinds = scan.kinds ++ [kind] := by
  simp [kinds, take]

/-- What the loop gives when nothing limits its steps: it takes steps until the text ends or one of
them fails. -/
inductive Ends (symbols : List (List Char)) : Scan → Except Fault Scan → Prop
  | finished {scan} (hrest : scan.rest = []) : Ends symbols scan (.ok scan)
  | failed {scan fault} (hrest : scan.rest ≠ []) (h : scan.step symbols = .error fault) :
      Ends symbols scan (.error fault)
  | step {scan next outcome} (hrest : scan.rest ≠ []) (h : scan.step symbols = .ok next)
      (hnext : Ends symbols next outcome) : Ends symbols scan outcome

/-- **A step moves the position forward**, whatever region and brackets are open. -/
theorem offset_lt_of_step (hs : ∀ s ∈ symbols, s ≠ []) {scan : Scan} (hrest : scan.rest ≠ [])
    (h : scan.step symbols = .ok next) : scan.cursor.offset < next.cursor.offset := by
  obtain ⟨made, -, hmoves⟩ := step_effect hs hrest h
  have hpos : 0 < scan.cursor.rest.length := length_pos_iff.mpr hrest
  cases hmoves with
  | @skip n _ hm hn gap cursor tokens =>
    rw [cursor]
    simp only [skip, Cursor.offset_advance]
    omega
  | @take k n kind _ hm hn hrest gap text cursor tokens =>
    rw [cursor]
    simp only [take, skip, Cursor.offset_advance, Cursor.rest_advance, length_drop]
    omega

theorem at_of_reaches (hs : ∀ s ∈ symbols, s ≠ []) {text : List Char} {scan : Scan}
    (hscan : scan.Placed text) (h : Reaches symbols scan next) : next.Placed text := by
  induction h with
  | refl => exact hscan
  | tail _ hstep ih => exact ih.effect (step_effect hs hstep.1 hstep.2)

theorem Ends.unique {scan : Scan} {other : Except Fault Scan} (h : Ends symbols scan outcome)
    (hother : Ends symbols scan other) : outcome = other := by
  induction h with
  | finished hrest =>
    cases hother with
    | finished => rfl
    | failed hne => exact absurd hrest hne
    | step hne => exact absurd hrest hne
  | failed hne h =>
    cases hother with
    | finished hrest => exact absurd hrest hne
    | failed _ h' => rw [h] at h'; cases h'; rfl
    | step _ h' => rw [h] at h'; cases h'
  | step hne h _ ih =>
    cases hother with
    | finished hrest => exact absurd hrest hne
    | failed _ h' => rw [h] at h'; cases h'
    | step _ h' hnext' => rw [h] at h'; cases h'; exact ih hnext'

/-- The limit does not end a run that has a step for each character. -/
theorem ends_run (hs : ∀ s ∈ symbols, s ≠ []) :
    ∀ {limit : Nat} {scan : Scan}, scan.rest.length ≤ limit →
      Ends symbols scan (scan.run symbols limit)
  | 0, scan, hlimit => .finished (length_eq_zero_iff.mp (by omega))
  | limit + 1, scan, hlimit => by
    unfold run
    split
    · rename_i hnil
      exact .finished (List.isEmpty_iff.mp hnil)
    · rename_i hne
      have hrest : scan.rest ≠ [] := by simpa using hne
      cases hstep : scan.step symbols with
      | error fault => exact .failed hrest hstep
      | ok next =>
        obtain ⟨made, -, hmoves⟩ := step_effect hs hrest hstep
        have hlt := hmoves.length_lt hrest
        exact .step hrest hstep (ends_run hs (by omega))

/-- **The loop ends, in one way only**, and a run that has a step for each character finds it. -/
theorem ends_iff (hs : ∀ s ∈ symbols, s ≠ []) {scan : Scan} (hlimit : scan.rest.length ≤ limit) :
    Ends symbols scan outcome ↔ outcome = scan.run symbols limit := by
  constructor
  · intro h
    exact h.unique (ends_run hs hlimit)
  · rintro rfl
    exact ends_run hs hlimit

/-- What the loop gives after some steps, it gives from where they started. -/
theorem Ends.of_reaches {scan : Scan} (h : Reaches symbols scan next)
    (hnext : Ends symbols next outcome) : Ends symbols scan outcome := by
  induction h using Relation.ReflTransGen.head_induction_on with
  | refl => exact hnext
  | head hstep _ ih => exact .step hstep.1 hstep.2 ih

theorem Reaches.of_run :
    ∀ {limit : Nat} {scan last : Scan}, scan.run symbols limit = .ok last →
      Reaches symbols scan last
  | 0, scan, last, h => by
    cases h
    exact .refl
  | limit + 1, scan, last, h => by
    unfold run at h
    by_cases hnil : scan.rest.isEmpty = true
    · rw [if_pos hnil] at h
      cases h
      exact .refl
    · rw [if_neg hnil] at h
      cases hstep : scan.step symbols with
      | error fault =>
        rw [hstep] at h
        cases h
      | ok next =>
        rw [hstep] at h
        exact (Reaches.single (by simpa using hnil) hstep).trans (Reaches.of_run h)

/-- Steps that reach the end of the text are all of a run that has a step for each character. -/
theorem run_eq_of_reaches (hs : ∀ s ∈ symbols, s ≠ []) {scan : Scan}
    (h : Reaches symbols scan last) (hlast : last.rest = []) (hlimit : scan.rest.length ≤ limit) :
    scan.run symbols limit = .ok last :=
  ((ends_iff hs hlimit).mp (.of_reaches h (.finished hlast))).symm

end Scan

/-- A template is read by the loop, and then its end is checked. -/
theorem tokenize_eq_of_ends {text : String} {symbols : List String} {outcome : Except Fault Scan}
    (h : Scan.Ends (orderSymbols symbols) (Scan.start text) outcome) :
    tokenize text symbols = outcome.bind Scan.finish := by
  have hlimit : (Scan.start text).rest.length ≤ text.length :=
    Nat.le_of_eq String.length_toList
  rw [(Scan.ends_iff (orderSymbols_ne_nil symbols) hlimit).mp h]
  unfold tokenize
  simp only [Scan.start]
  cases Scan.run (orderSymbols symbols) text.length { cursor := Cursor.start text } <;> rfl

/-- **The lexer terminates.** Of the symbols none is left out; every step that is taken before the
end of the text fails or moves the position forward, but never past the end; so the loop ends, in one
way only, and gives the tokens; and so does the search for the end of a verbatim region. -/
theorem tokenize_terminates (text : String) {symbols : List String}
    (hs : ∀ symbol ∈ symbols, symbol ≠ "") :
    (orderSymbols symbols).Perm (symbols.map String.toList) ∧
    (∀ scan, Scan.Reaches (orderSymbols symbols) (Scan.start text) scan → scan.rest ≠ [] →
      ∀ next, scan.step (orderSymbols symbols) = .ok next →
        scan.cursor.offset < next.cursor.offset ∧ next.cursor.offset ≤ text.length) ∧
    (∃ outcome, (∀ other, Scan.Ends (orderSymbols symbols) (Scan.start text) other ↔
        other = outcome) ∧ tokenize text symbols = outcome.bind Scan.finish) ∧
    ∀ content, ∃ found, (∀ other, Searches content other ↔ other = found) ∧
      verbatimEnd? content = found := by
  have hordered := orderSymbols_ne_nil symbols
  refine ⟨perm_orderSymbols hs, ?_, ?_, ?_⟩
  · intro scan hreaches hrest next hstep
    refine ⟨Scan.offset_lt_of_step hordered hrest hstep, ?_⟩
    have hplaced := Scan.at_of_reaches hordered (Scan.placed_start text)
      (hreaches.trans (.single hrest hstep))
    have hle := hplaced.cursor.offset_le
    rwa [String.length_toList] at hle
  · have hlimit : (Scan.start text).rest.length ≤ text.length := Nat.le_of_eq String.length_toList
    exact ⟨_, fun other => Scan.ends_iff hordered hlimit,
      tokenize_eq_of_ends (Scan.ends_run hordered hlimit)⟩
  · intro content
    exact ⟨_, fun other => searches_iff, rfl⟩

/-- A tag in a verbatim region, an interpolation in a string and an operator of two words. -/
theorem tokenize_terminates_regions :
    (∀ symbol ∈ ["not in"], symbol ≠ "") ∧
    ∃ last tokens,
      Scan.Ends (orderSymbols ["not in"]) (Scan.start
        "\x7b% verbatim %\x7d\x7b% a %\x7d\x7b% endverbatim %\x7d\x7b\x7b \"b#\x7b c \x7d\" not  in d \x7d\x7d")
        (.ok last) ∧
      tokenize
        "\x7b% verbatim %\x7d\x7b% a %\x7d\x7b% endverbatim %\x7d\x7b\x7b \"b#\x7b c \x7d\" not  in d \x7d\x7d"
        ["not in"] = .ok tokens := by
  have hs : ∀ symbol ∈ ["not in"], symbol ≠ "" := forall_mem_singleton.mpr (by decide)
  have hok : (tokenize
      "\x7b% verbatim %\x7d\x7b% a %\x7d\x7b% endverbatim %\x7d\x7b\x7b \"b#\x7b c \x7d\" not  in d \x7d\x7d"
      ["not in"]).isOk = true := by decide +kernel
  obtain ⟨-, -, ⟨outcome, hends, heq⟩, -⟩ := tokenize_terminates _ hs
  rw [heq] at hok ⊢
  refine ⟨hs, ?_⟩
  cases outcome with
  | error fault => cases hok
  | ok last =>
    cases htokens : last.finish with
    | error fault =>
      rw [Except.bind, htokens] at hok
      cases hok
    | ok tokens => exact ⟨last, tokens, (hends _).mpr rfl, htokens⟩

end Lexer

end TwigToLatte
