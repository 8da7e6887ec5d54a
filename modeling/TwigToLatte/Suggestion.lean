/-!
# Suggestions for unknown names

* `editDistance` — the least number of insertions, deletions and substitutions of characters that
  turn one text into another, computed row by row.
* `suggest` — the candidates near a name: at most a third of its length away, rounded up, or
  holding the name; the nearest first, equally near ones in their given order.
* `hint` — the sentence that offers the suggestions.
-/

namespace TwigToLatte.Suggestion

/-- The rest of a row of the distance table: `left` is the new entry to the left, `diagonal` the
old entry above that, `above` the old entries further right. -/
def rowTail (c : Char) : (left diagonal : Nat) → List Char → List Nat → List Nat
  | left, diagonal, d :: target, up :: above =>
    let entry := min (min (left + 1) (up + 1)) (if c = d then diagonal else diagonal + 1)
    entry :: rowTail c entry up target above
  | _, _, _, _ => []

/-- The next row of the distance table, for one more character of the first text. -/
def nextRow (c : Char) (target : List Char) : List Nat → List Nat
  | [] => []
  | first :: above => (first + 1) :: rowTail c (first + 1) first target above

/-- The edit distance of two texts, over characters. -/
def editDistance (a b : String) : Nat :=
  let target := b.toList
  let row := a.toList.foldl (fun row c => nextRow c target row) (List.range (target.length + 1))
  row.getLastD 0

/-- Whether `part` occurs in the text. -/
def occursIn (part : List Char) : List Char → Bool
  | [] => part.isEmpty
  | c :: rest => part.isPrefixOf (c :: rest) || occursIn part rest

/-- The largest distance at which a candidate still resembles the name. -/
def threshold (name : String) : Nat := (name.length + 2) / 3

/-- The candidates that resemble the name, nearest first. -/
def suggest (name : String) (candidates : List String) : List String :=
  let ranked := candidates.filterMap fun candidate =>
    let distance := editDistance name candidate
    if distance ≤ threshold name || occursIn name.toList candidate.toList then
      some (distance, candidate)
    else none
  (ranked.mergeSort fun a b => decide (a.1 ≤ b.1)).map (·.2)

def quoted (name : String) : String := "\"" ++ name ++ "\""

/-- The offer of suggestions that follows a message; nothing if there are none. -/
def hint (suggestions : List String) : String :=
  match suggestions.reverse with
  | [] => ""
  | [only] => ". Did you mean " ++ quoted only ++ "?"
  | last :: others =>
    ". Did you mean " ++ ", ".intercalate (others.reverse.map quoted) ++ ", or " ++ quoted last
      ++ "?"

end TwigToLatte.Suggestion
