import TwigToLatte.Token.Pattern

/-!
# The order of operator symbols

* `insertSymbol` — puts a symbol before the first one that is not longer.
* `orderSymbols_eq` — **ordering symbols inserts one after the other**, from the last to the first.
* `mem_orderSymbols`, `perm_orderSymbols` — none is lost, apart from an empty one.
-/

namespace TwigToLatte.Pattern

open List

/-- The symbols with one more, before the first that is not longer. -/
def insertSymbol (symbol : List Char) : List (List Char) → List (List Char)
  | [] => [symbol]
  | other :: rest =>
    if other.length ≤ symbol.length then symbol :: other :: rest
    else other :: insertSymbol symbol rest

variable {symbol : List Char} {symbols : List String}

/-- A symbol stands behind the longer ones and before all others. -/
theorem insertSymbol_append {longer rest : List (List Char)}
    (hlonger : ∀ other ∈ longer, symbol.length < other.length)
    (hrest : ∀ other ∈ rest, other.length ≤ symbol.length) :
    insertSymbol symbol (longer ++ rest) = longer ++ symbol :: rest := by
  induction longer with
  | nil =>
    cases rest with
    | nil => rfl
    | cons other rest => exact if_pos (hrest other mem_cons_self)
  | cons other longer ih =>
    obtain ⟨hother, hlonger⟩ := forall_mem_cons.mp hlonger
    rw [cons_append, insertSymbol, if_neg (Nat.not_le.mpr hother), ih hlonger,
      cons_append]

theorem mergeSort_symbols (symbols : List (List Char)) :
    symbols.mergeSort (fun a b => decide (b.length ≤ a.length)) =
      symbols.foldr insertSymbol [] := by
  have htrans : ∀ a b c : List Char, decide (b.length ≤ a.length) = true →
      decide (c.length ≤ b.length) = true → decide (c.length ≤ a.length) = true := by
    intro a b c hab hbc
    simp only [decide_eq_true_eq] at hab hbc ⊢
    omega
  have htotal : ∀ a b : List Char,
      (decide (b.length ≤ a.length) || decide (a.length ≤ b.length)) = true := by
    intro a b
    simp only [Bool.or_eq_true, decide_eq_true_eq]
    omega
  induction symbols with
  | nil => exact mergeSort_nil
  | cons symbol rest ih =>
    obtain ⟨longer, others, hsorted, hrest, hlonger⟩ :=
      mergeSort_cons htrans htotal symbol rest
    have hpairwise := pairwise_mergeSort htrans htotal (symbol :: rest)
    rw [hsorted, pairwise_append, pairwise_cons] at hpairwise
    rw [hsorted, foldr_cons, ← ih, hrest]
    refine (insertSymbol_append (fun other hmem => ?_) fun other hmem => ?_).symm
    · have hother := hlonger other hmem
      simp only [Bool.not_eq_true', decide_eq_false_iff_not, Nat.not_le] at hother
      exact hother
    · exact of_decide_eq_true (hpairwise.2.1.1 other hmem)

/-- **Ordering symbols inserts one after the other**, from the last to the first. -/
theorem orderSymbols_eq (symbols : List String) :
    orderSymbols symbols =
      ((symbols.map String.toList).filter (!·.isEmpty)).foldr insertSymbol [] :=
  mergeSort_symbols _

theorem mem_orderSymbols :
    symbol ∈ orderSymbols symbols ↔ symbol ∈ symbols.map String.toList ∧ symbol ≠ [] := by
  rw [orderSymbols, mem_mergeSort, mem_filter, Bool.not_eq_true',
    isEmpty_eq_false_iff]

theorem perm_orderSymbols (hs : ∀ symbol ∈ symbols, symbol ≠ "") :
    (orderSymbols symbols).Perm (symbols.map String.toList) := by
  unfold orderSymbols
  refine (mergeSort_perm _ _).trans ?_
  rw [filter_eq_self.mpr]
  intro s hmem
  obtain ⟨symbol, hsymbol, rfl⟩ := mem_map.mp hmem
  simpa using hs symbol hsymbol

end TwigToLatte.Pattern
