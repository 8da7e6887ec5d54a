import TwigToLatte.Text.Blank
import TwigToLatte.Text.WordTable

/-!
# Words and letter case

* `isWord` — characters that belong to a word.
* `atWordStart` — where a word may start: after nothing, or after a character of no word.
* `sameLetter` — equality of characters that ignores case, by simple case folding.
* `dropCaseless?` — strips a given ASCII beginning from a text, whatever its case.
-/

namespace TwigToLatte.Text

/-- Whether a character belongs to a word. -/
def isWord (c : Char) : Bool := inRanges wordRanges c.toNat

/-- Whether a word may start after `previous`. -/
def atWordStart (previous : Option Char) : Bool := !previous.any isWord

/-- Simple case folding onto ASCII. Besides the capital letters, the long s and the Kelvin sign
are the only characters that fold to an ASCII character. -/
def foldCase (c : Char) : Char :=
  if c = 'ſ' then 's' else if c = 'K' then 'k' else c.toLower

/-- Whether `c` is the ASCII lower-case character `expected` up to case. -/
def sameLetter (expected c : Char) : Bool := foldCase c == expected

/-- The rest of the text after `expected`, a text of ASCII lower-case characters, if it begins
with that up to case. -/
def dropCaseless? : List Char → List Char → Option (List Char)
  | [], rest => some rest
  | _ :: _, [] => none
  | e :: expected, c :: rest => if sameLetter e c then dropCaseless? expected rest else none

end TwigToLatte.Text
