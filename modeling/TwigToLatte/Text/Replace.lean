/-!
# Replacing a part of a text

* `replaceChars`, `replace` — a text in which every occurrence of a pattern gives way to another
  text. Occurrences are found from left to right and do not overlap.
-/

namespace TwigToLatte.Text

/-- Replaces the occurrences of `pattern`, which is not empty, after leaving out the first `skip`
characters, the rest of an occurrence that is already replaced. -/
def replaceChars (pattern replacement : List Char) : Nat → List Char → List Char
  | _, [] => []
  | skip + 1, _ :: rest => replaceChars pattern replacement skip rest
  | 0, c :: rest =>
    if pattern.isPrefixOf (c :: rest) then
      replacement ++ replaceChars pattern replacement (pattern.length - 1) rest
    else c :: replaceChars pattern replacement 0 rest

/-- The text with every occurrence of `pattern` replaced. -/
def replace (pattern replacement text : String) : String :=
  String.ofList (replaceChars pattern.toList replacement.toList 0 text.toList)

end TwigToLatte.Text
