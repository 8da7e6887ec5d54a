import TwigToLatte.Decimal.Style
import TwigToLatte.Value

/-!
# Latte literals

* `isSymbol`, `isIdentifier` — the strings that stand without quotes, and the names of properties.
* `string` — a string as a literal: bare if it is a symbol, in single quotes if it has no control
  characters, in double quotes with escapes otherwise.
* `literal` — a constant as a literal.
-/

namespace TwigToLatte.Latte

/-- An ASCII letter, digit or underscore. -/
def isWordChar (c : Char) : Bool := c.isAlphanum || c == '_'

/-- The words that are not read as strings, whatever their case. -/
def keywords : List String := ["true", "false", "null", "none"]

/-- Words joined by hyphens that read back neither as a number nor as a keyword. -/
def isSymbolChars (cs : List Char) : Bool :=
  !cs.isEmpty && cs.all (fun c => isWordChar c || c == '-') && cs.head? != some '-'
    && cs.getLast? != some '-' && !cs.head?.any Char.isDigit
    && !keywords.any fun keyword => keyword.toList == cs.map Char.toLower

/-- Whether a string literal needs no quotes. -/
def isSymbol (text : String) : Bool := isSymbolChars text.toList

/-- Whether the text is the name of a property. -/
def isIdentifier (text : String) : Bool :=
  match text.toList with
  | [] => false
  | first :: rest => (first.isAlpha || first == '_') && rest.all isWordChar

/-- A character that only double quotes can hold in escaped form. -/
def isControl (c : Char) : Bool := c.toNat < 0x20

/-- Three octal digits. -/
def octal (n : Nat) : List Char :=
  [Nat.digitChar (n / 64 % 8), Nat.digitChar (n / 8 % 8), Nat.digitChar (n % 8)]

/-- A character between double quotes. -/
def escapeDouble (c : Char) : List Char :=
  match c with
  | '\\' => ['\\', '\\']
  | '"' => ['\\', '"']
  | '\n' => ['\\', 'n']
  | '\t' => ['\\', 't']
  | '\r' => ['\\', 'r']
  | '\x07' => ['\\', 'a']
  | '\x08' => ['\\', 'b']
  | '\x0b' => ['\\', 'v']
  | '\x0c' => ['\\', 'f']
  | c => if isControl c then '\\' :: octal c.toNat else [c]

/-- A character between single quotes. -/
def escapeSingle (c : Char) : List Char :=
  if c == '\\' || c == '\'' then ['\\', c] else [c]

/-- The text in quotes. -/
def quotedChars (cs : List Char) : List Char :=
  if cs.any isControl then '"' :: cs.flatMap escapeDouble ++ ['"']
  else '\'' :: cs.flatMap escapeSingle ++ ['\'']

def string (text : String) : String :=
  if isSymbol text then text else String.ofList (quotedChars text.toList)

/-- The arrow between a key and its element. A bare key is followed by a colon. -/
def keyArrow (key : Value) : String := if key.string?.any isSymbol then ": " else " => "

mutual

/-- The literal form of a constant. -/
def literal : Value → String
  | .null => "null"
  | .bool value => if value then "true" else "false"
  | .int value => toString value.toInt
  | .float value => Decimal.literal.write value
  | .string value => string value
  | .array [] => "[]"
  | .array (item :: rest) => "[" ++ literalItem 0 item ++ literalItems 1 rest ++ "]"

/-- One element; its key is left out where it equals the element's position. -/
def literalItem (position : Nat) : Value × Value → String
  | (key, value) =>
    (if key.isInt position then "" else literal key ++ keyArrow key) ++ literal value

/-- Further elements, each after a comma. -/
def literalItems (position : Nat) : List (Value × Value) → String
  | [] => ""
  | item :: rest => ", " ++ literalItem position item ++ literalItems (position + 1) rest

end

end TwigToLatte.Latte
