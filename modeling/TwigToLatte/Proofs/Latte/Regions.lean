import TwigToLatte.Conversion
import TwigToLatte.Proofs.Pass.Plain
import TwigToLatte.Proofs.Text.Replace

/-!
# Regions and their delimiters

Comments and verbatim text are written as regions, each with a delimiter that ends it. In a comment
the delimiter is taken apart wherever it stands. In verbatim text nothing is changed.

* `not_infix_replaceChars` — a pair that is taken apart does not come about anew.
* `prefix_drop_append_iff` — where a delimiter stands in a text that it ends.
* `regions_end_iff` — **a comment ends where its region does, and verbatim text does if and only if
  the delimiter is not in it**.
-/

namespace TwigToLatte

open List

namespace Text

variable {a b s : Char}

/-- A replacement that begins as the pattern does keeps the first character. -/
theorem head?_replaceChars (tail more cs : List Char) :
    (replaceChars (a :: tail) (a :: more) 0 cs).head? = cs.head? := by
  induction cs using replace_induction (cons_ne_nil a tail) with
  | nil => rfl
  | found rest => rw [replaceChars_pattern (cons_ne_nil a tail)]; rfl
  | other c rest hc => rw [replaceChars_cons hc]; rfl

/-- A pair is taken apart wherever it stands, and does not come about anew: what follows a character
was behind it before, or is the beginning of another pair. -/
theorem not_infix_replaceChars (hab : a ≠ b) (hsa : s ≠ a) (hsb : s ≠ b) (cs : List Char) :
    ¬ [a, b] <:+: replaceChars [a, b] [a, s, b] 0 cs := by
  have hne : [a, b] ≠ [] := cons_ne_nil _ _
  induction cs using replace_induction hne with
  | nil => exact fun h => hne (infix_nil.mp h)
  | found rest ih =>
    rw [replaceChars_pattern hne]
    simp only [cons_append, nil_append, infix_cons_iff, cons_prefix_cons]
    rintro (⟨-, h, -⟩ | ⟨h, -⟩ | ⟨h, -⟩ | h)
    · exact hsb h.symm
    · exact hsa h.symm
    · exact hab h
    · exact ih h
  | other c rest hc ih =>
    rw [replaceChars_cons hc, infix_cons_iff, cons_prefix_cons]
    rintro (⟨rfl, h⟩ | h)
    · have hhead : rest.head? = some b := by
        obtain ⟨more, hmore⟩ := h
        rw [← head?_replaceChars [b] [s, b], ← hmore]
        rfl
      obtain ⟨more, rfl⟩ := head?_eq_some_iff.mp hhead
      exact hc (prefix_append [a, b] more)
    · exact ih h

variable {first : Char} {tail : List Char}

/-- A delimiter that cannot overlap itself stands only at the end of a text to which it is added, if it
is not in the text. -/
theorem prefix_drop_append_iff (hfirst : first ∉ tail) {text : List Char}
    (h : ¬ first :: tail <:+: text) (i : Nat) :
    first :: tail <+: (text ++ first :: tail).drop i ↔ i = text.length := by
  constructor
  · intro hstart
    rcases Nat.lt_trichotomy i text.length with hlt | heq | hgt
    · obtain ⟨c, rest, hdrop⟩ := exists_cons_of_ne_nil (drop_eq_nil_iff.not.mpr (Nat.not_le.mpr hlt))
      rw [drop_append_of_le_length (Nat.le_of_lt hlt), hdrop] at hstart
      refine absurd hstart (not_prefix_append hfirst fun hinside => h ?_)
      rw [← hdrop] at hinside
      exact hinside.isInfix.trans (drop_suffix i text).isInfix
    · exact heq
    · have hlength := hstart.length_le
      simp only [length_drop, length_append, length_cons] at hlength
      omega
  · rintro rfl
    rw [drop_left]

end Text

namespace Latte

theorem toList_comment (text : String) :
    (comment text).toList =
      '{' :: '*' :: (Text.replaceChars ['*', '}'] ['*', ' ', '}'] 0 text.toList ++
        ['*', '}']) := by
  have hreplace : (Text.replace "*\x7d" "* \x7d" text).toList =
      Text.replaceChars ['*', '}'] ['*', ' ', '}'] 0 text.toList := String.toList_ofList
  rw [comment, String.toList_append, String.toList_append, hreplace]
  rfl

/-- The delimiter that ends verbatim text does not begin inside the one that starts it. -/
theorem infix_opened_iff (text : List Char) :
    "\x7b/syntax\x7d".toList <:+: "\x7bsyntax off\x7d".toList ++ text ↔
      "\x7b/syntax\x7d".toList <:+: text := by
  have hopening : "\x7bsyntax off\x7d".toList =
      '{' :: ['s', 'y', 'n', 't', 'a', 'x', ' ', 'o', 'f', 'f', '}'] := rfl
  simp [hopening, infix_cons_iff]

/-- **Only the text of a comment is kept from ending its region.** Behind the opening delimiter of a
comment, the closing one stands at the end and nowhere else, whatever the text is. The delimiter that
ends verbatim text stands nowhere else if and only if the text does not hold it. -/
theorem regions_end_iff (text : String) :
    (∀ i, 2 ≤ i → ("*\x7d".toList <+: (comment text).toList.drop i ↔
      i + 2 = (comment text).toList.length)) ∧
    ((∀ i, "\x7b/syntax\x7d".toList <+: (verbatim text).toList.drop i ↔
        i + 9 = (verbatim text).toList.length) ↔
      ¬ "\x7b/syntax\x7d".toList <:+: text.toList) := by
  have hverbatim : (verbatim text).toList =
      "\x7bsyntax off\x7d".toList ++ text.toList ++ "\x7b/syntax\x7d".toList := by
    rw [verbatim, String.toList_append, String.toList_append]
  have hlength : "\x7b/syntax\x7d".toList.length = 9 := rfl
  refine ⟨fun i hi => ?_, ?_⟩
  · obtain ⟨i, rfl⟩ := Nat.exists_eq_add_of_le' hi
    have hpair := Text.not_infix_replaceChars (a := '*') (b := '}') (s := ' ') (by decide)
      (by decide) (by decide) text.toList
    rw [toList_comment, drop_succ_cons, drop_succ_cons]
    refine (Text.prefix_drop_append_iff (by decide) hpair i).trans ?_
    simp only [length_cons, length_append, length_nil]
    omega
  · constructor
    · rintro h ⟨before, after, htext⟩
      have hearly : "\x7b/syntax\x7d".toList <+:
          (verbatim text).toList.drop ("\x7bsyntax off\x7d".toList ++ before).length := by
        rw [hverbatim, ← htext, ← List.append_assoc, ← List.append_assoc, List.append_assoc,
          List.append_assoc, drop_left]
        exact prefix_append _ _
      have hend := (h _).mp hearly
      rw [hverbatim, ← htext] at hend
      simp only [length_append, hlength] at hend
      omega
    · intro h i
      have hoverlap : '{' ∉ "/syntax\x7d".toList := by decide
      rw [hverbatim]
      refine (Text.prefix_drop_append_iff hoverlap (mt (infix_opened_iff _).mp h) i).trans ?_
      simp only [length_append, hlength]
      omega

/-- Verbatim text that holds the delimiter ends early. -/
theorem verbatim_ends_early :
    (Template.mk [⟨.verbatim "\x7b/syntax\x7d", 1⟩] [] [] none []).convert {} "" =
        .ok ⟨"\x7bsyntax off\x7d\x7b/syntax\x7d\x7b/syntax\x7d", #[(1, 1)]⟩ ∧
      ¬ ∀ i, "\x7b/syntax\x7d".toList <+: (verbatim "\x7b/syntax\x7d").toList.drop i →
        i + 9 = (verbatim "\x7b/syntax\x7d").toList.length := by
  refine ⟨?_, fun h => ?_⟩
  · rw [Template.convert, Dialect.runStages, Dialect.stages_eq]
    decide +kernel
  · exact absurd (h 12 (by decide +kernel)) (by decide +kernel)

end Latte

end TwigToLatte
