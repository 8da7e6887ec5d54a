import Mathlib.Data.List.Infix
import TwigToLatte.Text.Replace

/-!
# Replacing a part of a text

Laws of `replaceChars`. A text is empty, or the pattern stands in front of it, or another character
does: `replace_induction` takes it apart that way.

* `replaceChars_eq_self_iff` — a text without the pattern stays as it is; any other one grows where
  the replacement is longer than the pattern.
* `replaceChars_append` — texts are replaced one after the other where no pattern can begin in the
  first one and end in the second.
* `replaceChars_flatMap` — **replacing before writing each character in a way of its own, or
  afterwards**, is the same where the pattern is written as it is and nothing else can be taken for it.
-/

namespace TwigToLatte.Text

open List

variable {pattern replacement : List Char}

theorem replaceChars_drop (pattern replacement : List Char) (skip : Nat) (cs : List Char) :
    replaceChars pattern replacement skip cs =
      replaceChars pattern replacement 0 (cs.drop skip) := by
  induction cs generalizing skip with
  | nil => cases skip <;> rfl
  | cons c rest ih =>
    cases skip with
    | zero => rfl
    | succ skip => exact ih skip

theorem replaceChars_pattern (hne : pattern ≠ []) (rest : List Char) :
    replaceChars pattern replacement 0 (pattern ++ rest) =
      replacement ++ replaceChars pattern replacement 0 rest := by
  obtain ⟨first, tail, rfl⟩ := exists_cons_of_ne_nil hne
  have hstart : (first :: tail).isPrefixOf (first :: (tail ++ rest)) = true :=
    isPrefixOf_iff_prefix.mpr (prefix_append (first :: tail) rest)
  rw [cons_append, replaceChars, if_pos hstart, replaceChars_drop, length_cons,
    Nat.add_sub_cancel, drop_left]

theorem replaceChars_cons {c : Char} {rest : List Char} (h : ¬ pattern <+: c :: rest) :
    replaceChars pattern replacement 0 (c :: rest) =
      c :: replaceChars pattern replacement 0 rest := by
  rw [replaceChars, if_neg (mt isPrefixOf_iff_prefix.mp h)]

theorem replace_induction {motive : List Char → Prop} (hne : pattern ≠ []) (nil : motive [])
    (found : ∀ rest, motive rest → motive (pattern ++ rest))
    (other : ∀ c rest, ¬ pattern <+: c :: rest → motive rest → motive (c :: rest))
    (cs : List Char) : motive cs := by
  induction hlength : cs.length using Nat.strongRecOn generalizing cs with
  | ind n ih =>
    cases cs with
    | nil => exact nil
    | cons c rest =>
      by_cases h : pattern <+: c :: rest
      · obtain ⟨more, hmore⟩ := h
        have hmore_lt : more.length < n := by
          have hpos := length_pos_of_ne_nil hne
          rw [← hlength, ← hmore, length_append]
          omega
        rw [← hmore]
        exact found more (ih more.length hmore_lt more rfl)
      · have hrest_lt : rest.length < n := hlength ▸ Nat.lt_succ_self rest.length
        exact other c rest h (ih rest.length hrest_lt rest rfl)

/-! ## Where the pattern stands -/

variable {cs : List Char}

theorem replaceChars_eq_self (hne : pattern ≠ []) (h : ¬ pattern <:+: cs) :
    replaceChars pattern replacement 0 cs = cs := by
  induction cs using replace_induction hne with
  | nil => rfl
  | found rest ih => exact absurd (prefix_append pattern rest).isInfix h
  | other c rest hc ih =>
    rw [replaceChars_cons hc, ih fun hinfix => h (infix_cons hinfix)]

theorem length_le_replaceChars (hne : pattern ≠ []) (hle : pattern.length ≤ replacement.length)
    (cs : List Char) : cs.length ≤ (replaceChars pattern replacement 0 cs).length := by
  induction cs using replace_induction hne with
  | nil => exact Nat.le_refl _
  | found rest ih =>
    rw [replaceChars_pattern hne, length_append, length_append]
    omega
  | other c rest hc ih =>
    rw [replaceChars_cons hc, length_cons, length_cons]
    omega

/-- A text with the pattern grows, if the replacement is longer. -/
theorem length_lt_replaceChars (hne : pattern ≠ []) (hlt : pattern.length < replacement.length)
    (h : pattern <:+: cs) : cs.length < (replaceChars pattern replacement 0 cs).length := by
  induction cs using replace_induction hne with
  | nil => exact absurd (infix_nil.mp h) hne
  | found rest ih =>
    have hrest := length_le_replaceChars hne (Nat.le_of_lt hlt) rest
    rw [replaceChars_pattern hne, length_append, length_append]
    omega
  | other c rest hc ih =>
    have hrest := ih ((infix_cons_iff.mp h).resolve_left hc)
    rw [replaceChars_cons hc, length_cons, length_cons]
    omega

theorem replaceChars_eq_self_iff (hne : pattern ≠ []) (hlt : pattern.length < replacement.length)
    (cs : List Char) : replaceChars pattern replacement 0 cs = cs ↔ ¬ pattern <:+: cs := by
  refine ⟨fun heq h => ?_, replaceChars_eq_self hne⟩
  have hgrows := length_lt_replaceChars hne hlt h
  rw [heq] at hgrows
  exact Nat.lt_irrefl _ hgrows

/-- What neither the pattern nor the replacement holds is there afterwards if it was before. -/
theorem any_replaceChars (hne : pattern ≠ []) {test : Char → Bool}
    (hpattern : pattern.any test = false) (hreplacement : replacement.any test = false)
    (cs : List Char) : (replaceChars pattern replacement 0 cs).any test = cs.any test := by
  induction cs using replace_induction hne with
  | nil => rfl
  | found rest ih =>
    rw [replaceChars_pattern hne, any_append, any_append, hpattern, hreplacement, ih]
  | other c rest hc ih => rw [replaceChars_cons hc, any_cons, any_cons, ih]

/-! ## Texts one after the other -/

section

variable {first : Char} {tail : List Char} {d : Char}

/-- A pattern cannot begin in the first text and end in the second one, if that begins with a
character that is not inside the pattern. -/
theorem not_prefix_append {c : Char} {rest ys : List Char} (hd : d ∉ tail)
    (h : ¬ first :: tail <+: c :: rest) : ¬ first :: tail <+: c :: (rest ++ d :: ys) := by
  intro hstart
  have hxs : c :: rest <+: c :: (rest ++ d :: ys) := prefix_append (c :: rest) (d :: ys)
  rcases Nat.le_total (first :: tail).length (c :: rest).length with hle | hle
  · exact h (prefix_of_prefix_length_le hstart hxs hle)
  · obtain ⟨z, hz⟩ := prefix_of_prefix_length_le hxs hstart hle
    obtain ⟨rfl, rfl⟩ : c = first ∧ rest ++ z = tail := List.cons.inj hz
    -- The pattern goes on with the second text.
    have hz : z <+: d :: ys := (prefix_append_right_inj (c :: rest)).mp hstart
    cases z with
    | nil => exact h (by rw [append_nil])
    | cons x z =>
      rw [(cons_prefix_cons.mp hz).1] at hd
      exact hd (mem_append_right _ mem_cons_self)

theorem replaceChars_append (hd : d ∉ tail) (xs ys : List Char) :
    replaceChars (first :: tail) replacement 0 (xs ++ d :: ys) =
      replaceChars (first :: tail) replacement 0 xs ++
        replaceChars (first :: tail) replacement 0 (d :: ys) := by
  have hne : first :: tail ≠ [] := cons_ne_nil _ _
  induction xs using replace_induction hne with
  | nil => rfl
  | found rest ih =>
    rw [List.append_assoc, replaceChars_pattern hne, ih, replaceChars_pattern hne,
      List.append_assoc]
  | other c rest hc ih =>
    rw [cons_append, replaceChars_cons (not_prefix_append hd hc), ih, replaceChars_cons hc,
      cons_append]

theorem replaceChars_append_of_notMem {xs : List Char} (h : first ∉ xs) (ys : List Char) :
    replaceChars (first :: tail) replacement 0 (xs ++ ys) =
      xs ++ replaceChars (first :: tail) replacement 0 ys := by
  induction xs with
  | nil => rfl
  | cons c rest ih =>
    obtain ⟨hc, hrest⟩ := not_or.mp (mt mem_cons.mpr h)
    have hstart : ¬ first :: tail <+: c :: (rest ++ ys) := fun hstart =>
      hc (cons_prefix_cons.mp hstart).1
    rw [cons_append, replaceChars_cons hstart, ih hrest, cons_append]

/-! ## Characters written in a way of their own -/

variable {write : Char → List Char}

/-- Other characters than those of the pattern are written so that no pattern begins in them, and
none goes on with them. -/
def SetsApart (first : Char) (tail : List Char) (write : Char → List Char) : Prop :=
  ∀ c ∉ first :: tail, ∃ d ds, write c = d :: ds ∧ d ∉ first :: tail ∧ first ∉ ds

theorem prefix_flatMap_iff (hplain : ∀ c ∈ first :: tail, write c = [c])
    (hapart : SetsApart first tail write) {part : List Char} (hpart : part ⊆ first :: tail)
    (cs : List Char) : part <+: cs.flatMap write ↔ part <+: cs := by
  induction part generalizing cs with
  | nil => exact ⟨fun _ => nil_prefix, fun _ => nil_prefix⟩
  | cons x part ih =>
    obtain ⟨hx, hpart⟩ := cons_subset.mp hpart
    cases cs with
    | nil => rfl
    | cons c cs =>
      rw [flatMap_cons]
      by_cases hc : c ∈ first :: tail
      · rw [hplain c hc, singleton_append, cons_prefix_cons, cons_prefix_cons,
          ih hpart]
      · obtain ⟨d, ds, hwrite, hd, -⟩ := hapart c hc
        rw [hwrite, cons_append, cons_prefix_cons, cons_prefix_cons]
        exact ⟨fun h => absurd (h.1 ▸ hx) hd, fun h => absurd (h.1 ▸ hx) hc⟩

/-- **Replacing before the characters are written or afterwards.** -/
theorem replaceChars_flatMap (hplain : ∀ c ∈ first :: tail, write c = [c])
    (hreplacement : ∀ c ∈ replacement, write c = [c]) (hapart : SetsApart first tail write)
    (cs : List Char) :
    replaceChars (first :: tail) replacement 0 (cs.flatMap write) =
      (replaceChars (first :: tail) replacement 0 cs).flatMap write := by
  have hne : first :: tail ≠ [] := cons_ne_nil _ _
  have hasIs : ∀ {list : List Char}, (∀ c ∈ list, write c = [c]) → list.flatMap write = list := by
    intro list hlist
    rw [flatMap_congr hlist, flatMap_singleton']
  induction cs using replace_induction hne with
  | nil => rfl
  | found rest ih =>
    rw [flatMap_append, hasIs hplain, replaceChars_pattern hne, ih, replaceChars_pattern hne,
      flatMap_append, hasIs hreplacement]
  | other c rest hc ih =>
    rw [replaceChars_cons hc, flatMap_cons, flatMap_cons, ← ih]
    by_cases hmem : c ∈ first :: tail
    · have hstart := mt (prefix_flatMap_iff hplain hapart (List.Subset.refl _) (c :: rest)).mp hc
      rw [flatMap_cons] at hstart
      rw [hplain c hmem, singleton_append] at hstart ⊢
      rw [replaceChars_cons hstart, singleton_append]
    · obtain ⟨d, ds, hwrite, hd, hds⟩ := hapart c hmem
      rw [hwrite]
      refine replaceChars_append_of_notMem (mt mem_cons.mp (not_or.mpr ⟨?_, hds⟩)) _
      exact fun hfirst => hd (hfirst ▸ mem_cons_self)

end

end TwigToLatte.Text
