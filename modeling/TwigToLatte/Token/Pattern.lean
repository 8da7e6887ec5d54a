import TwigToLatte.Text.Blank
import TwigToLatte.Decimal.Nearest
import TwigToLatte.Token

/-!
# Patterns of template text

The shapes that the lexer looks for at a position. Each answers with the number of characters
that it covers.

* `textLength` — literal text up to the next opening delimiter.
* `tagEnd?` — blanks, a trim marker and the closing delimiter of a tag.
* `namedTag?`, `verbatimEnd?` — a whole tag that holds just a name, and the next one that ends a
  verbatim region.
* `symbol?`, `operator?` — an operator symbol, and the longest one at a position.
* `numeral` — a number literal with its value.
-/

namespace TwigToLatte.Pattern

open TwigToLatte.Text

/-- Whether a character may start a name: an ASCII letter, an underscore or any character beyond
ASCII. -/
def isNameStart (c : Char) : Bool := c.isAlpha || c == '_' || 128 ≤ c.toNat

/-- Whether a character may continue a name. -/
def isNameChar (c : Char) : Bool := c.isAlphanum || c == '_' || 128 ≤ c.toNat

/-- The number of blanks at the start. -/
def blanks (text : List Char) : Nat := (text.takeWhile isBlank).length

/-- A trim marker, which asks to strip white space beside a tag. -/
def isMarker (c : Char) : Bool := c == '-' || c == '~'

/-- The length of an optional trim marker: one or nothing. -/
def marker (text : List Char) : Nat := if text.head?.any isMarker then 1 else 0

/-- Whether a brace followed by this character opens a tag or a comment. -/
def isDelimiter (c : Char) : Bool := c == '{' || c == '%' || c == '#'

/-- The number of characters before the next opening delimiter. -/
def textLength : List Char → Nat
  | [] => 0
  | c :: rest => if c == '{' && rest.head?.any isDelimiter then 0 else textLength rest + 1

/-- The number of characters before the first `a` that `b` follows. -/
def pair? (a b : Char) : List Char → Option Nat
  | [] => none
  | c :: rest =>
    if c == a && rest.head? == some b then some 0 else (pair? a b rest).map (· + 1)

def startsWith (a b : Char) (text : List Char) : Bool :=
  text.head? == some a && text.tail.head? == some b

/-- The end of a tag: blanks, an optional marker, the closing character and a brace. -/
def tagEnd? (closer : Char) (text : List Char) : Option Nat :=
  let skipped := blanks text
  let text := text.drop skipped
  let marked := marker text
  if startsWith closer '}' (text.drop marked) then some (skipped + marked + 2) else none

/-- What is left of a tag that holds just a name, after its opening delimiter. -/
def tagBody? (name text : List Char) : Option Nat :=
  let before := blanks text
  let after := before + name.length
  if name.isPrefixOf (text.drop before) && !(text.drop after).head?.any isNameChar then
    (tagEnd? '%' (text.drop after)).map (after + ·)
  else none

/-- A whole tag that holds nothing but the given name. -/
def namedTag? (name text : List Char) : Option Nat :=
  if startsWith '{' '%' text then
    let opened := 2 + marker (text.drop 2)
    (tagBody? name (text.drop opened)).map (opened + ·)
  else none

/-- The number of characters before the tag that ends a verbatim region, and its length. -/
def verbatimEnd? : List Char → Option (Nat × Nat)
  | [] => none
  | c :: rest =>
    match namedTag? "endverbatim".toList (c :: rest) with
    | some length => some (0, length)
    | none => (verbatimEnd? rest).map fun found => (found.1 + 1, found.2)

/-- An operator symbol. A space in it stands for any blanks, at least one; text that has ended
reads as NUL. -/
def symbol? : List Char → List Char → Option Nat
  | [], _ => some 0
  | c :: symbol, text =>
    if c = ' ' then
      let skipped := blanks text
      if skipped = 0 then none else (symbol? symbol (text.drop skipped)).map (skipped + ·)
    else if text.headD '\x00' = c then (symbol? symbol text.tail).map (1 + ·)
    else none

/-- Whether a word operator may end before this text: at a blank or a bracket. -/
def endsWord (text : List Char) : Bool :=
  text.head?.any fun c => isBlank c || c == '(' || c == ')' || c == '[' || c == '{'

/-- Whether the symbol stands at the start of the text as an operator. A symbol that starts with a
letter may not follow a dot or a bar, where a name is due, and one that ends with a letter must end
a word. -/
def operatorAt? (previous : Option Char) (text : List Char) (symbol : List Char) : Option Nat :=
  if symbol.head?.any Char.isAlpha && previous.any (fun c => c == '.' || c == '|') then none
  else
    match symbol? symbol text with
    | none => none
    | some length =>
      if symbol.getLast?.any Char.isAlpha && !endsWord (text.drop length) then none
      else some length

/-- The first of the symbols that stands at the start of the text, with its length there. -/
def operator? (symbols : List (List Char)) (previous : Option Char) (text : List Char) :
    Option (List Char × Nat) :=
  symbols.findSome? fun symbol => (operatorAt? previous text symbol).map fun n => (symbol, n)

/-- The symbols that can be matched, longest first, so that a symbol wins over its beginnings. -/
def orderSymbols (symbols : List String) : List (List Char) :=
  ((symbols.map String.toList).filter (!·.isEmpty)).mergeSort fun a b =>
    decide (b.length ≤ a.length)

def digits (text : List Char) : List Char := text.takeWhile Char.isDigit

/-- The number that decimal digits write. -/
def ofDecimal (digits : List Char) : Nat :=
  digits.foldl (fun n c => 10 * n + (c.toNat - '0'.toNat)) 0

/-- The fraction after a point, which must have a digit. -/
def fraction (text : List Char) : List Char :=
  if text.head? == some '.' then digits text.tail else []

/-- An exponent: its length and its value. It needs a digit to count. -/
def exponent (text : List Char) : Nat × Int :=
  if text.head?.any fun c => c == 'e' || c == 'E' then
    let signed := text.tail.head?.any fun c => c == '+' || c == '-'
    let power := digits (if signed then text.drop 2 else text.tail)
    if power.isEmpty then (0, 0)
    else
      let value : Int := ofDecimal power
      ((if signed then 2 else 1) + power.length,
        if text.tail.head? == some '-' then -value else value)
  else (0, 0)

/-- A number literal: its length and its value. Whole numbers that fit are integers. -/
def numeral (text : List Char) : Nat × Number :=
  let whole := digits text
  let text := text.drop whole.length
  let decimals := fraction text
  let decimalLength := if decimals.isEmpty then 0 else decimals.length + 1
  let (exponentLength, power) := exponent (text.drop decimalLength)
  let value := ofDecimal (whole ++ decimals)
  (whole.length + decimalLength + exponentLength,
    if decimalLength + exponentLength = 0 ∧ value < Decimal.signBit then .int (Int64.ofNat value)
    else .float (Decimal.nearest value (power - decimals.length)))

end TwigToLatte.Pattern
