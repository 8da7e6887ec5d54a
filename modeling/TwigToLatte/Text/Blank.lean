/-!
# Blank characters

* `isBlank` — the white-space characters of a template: the Unicode property White_Space, which
  holds the ASCII blanks, the vertical tab, the next-line mark and the typographic spaces.
* `skipBlanks` — a text without its leading blanks.
-/

namespace TwigToLatte.Text

/-- White_Space, as closed ranges of code points. -/
def blankRanges : List (Nat × Nat) :=
  [(0x09, 0x0D), (0x20, 0x20), (0x85, 0x85), (0xA0, 0xA0), (0x1680, 0x1680), (0x2000, 0x200A),
   (0x2028, 0x2029), (0x202F, 0x202F), (0x205F, 0x205F), (0x3000, 0x3000)]

/-- Whether the code point lies in one of the closed ranges. -/
def inRanges (ranges : List (Nat × Nat)) (code : Nat) : Bool :=
  ranges.any fun range => range.1 ≤ code && code ≤ range.2

def isBlank (c : Char) : Bool := inRanges blankRanges c.toNat

/-- The text after its leading blanks. -/
def skipBlanks (text : List Char) : List Char := text.dropWhile isBlank

/-- Whether a text holds blanks only; the empty text does. -/
def isAllBlank (text : String) : Bool := text.toList.all isBlank

end TwigToLatte.Text
