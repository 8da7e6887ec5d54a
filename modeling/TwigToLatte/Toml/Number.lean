/-!
# Numbers of TOML

* `isNumber` — whether a word passes for an integer or a float.

Settings have no use for the value of a number, so a word is only looked at as far as it takes to
tell it from other words: its size is free, the digits after the mark of a base may be missing, and
of an integer with underscores only what is beside them counts. Underscores stand between digits,
and decimal numbers have no zeros in front.
-/

namespace TwigToLatte.Toml

/-- Every underscore has a digit right before and right after it. -/
def areSpaced (digit : Char → Bool) (word : List Char) : Bool :=
  let groups := word.splitOn '_'
  groups.tail.all (fun group => group.head?.any digit)
    && groups.dropLast.all fun group => group.getLast?.any digit

/-- Nothing but digits of the given kind and underscores. -/
def areDigits (digit : Char → Bool) (word : List Char) : Bool :=
  word.all fun c => digit c || c == '_'

/-- Decimal digits, at least one, and underscores. -/
def isDecimal (word : List Char) : Bool := areDigits Char.isDigit word && word.any Char.isDigit

/-- A zero begins a number only as its single digit. -/
def hasPlainStart (word : List Char) : Bool := word.length == 1 || word.head? != some '0'

/-- The word without a sign in front. -/
def dropSign : List Char → List Char
  | '+' :: rest => rest
  | '-' :: rest => rest
  | word => word

def isHexDigit (c : Char) : Bool := c.isDigit || ('a' ≤ c && c ≤ 'f') || ('A' ≤ c && c ≤ 'F')

def isOctalDigit (c : Char) : Bool := '0' ≤ c && c ≤ '7'

def isBinaryDigit (c : Char) : Bool := c == '0' || c == '1'

/-- What follows the mark of a base: its digits, which may be missing. -/
def areBaseDigits (digit : Char → Bool) (word : List Char) : Bool :=
  areDigits digit word && areSpaced digit word

/-- What tells a float from an integer. -/
def isFloatMark (c : Char) : Bool := c == '.' || c == 'e' || c == 'E'

/-- An integer in base ten. After its first underscore only the mark of a float is looked for. -/
def isDecimalInteger (word : List Char) : Bool :=
  let digits := dropSign word
  hasPlainStart digits && areSpaced isHexDigit word &&
    match digits.dropWhile Char.isDigit with
    | [] => !digits.isEmpty
    | c :: rest => c == '_' && !rest.any isFloatMark

/-- An integer. One in another base than ten has no sign. -/
def isInteger : List Char → Bool
  | '0' :: 'x' :: rest => areBaseDigits isHexDigit rest
  | '0' :: 'o' :: rest => areBaseDigits isOctalDigit rest
  | '0' :: 'b' :: rest => areBaseDigits isBinaryDigit rest
  | word => isDecimalInteger word

/-- A word up to the first character that `stop` marks, and what follows that character. -/
def splitAtFirst (stop : Char → Bool) (word : List Char) : List Char × Option (List Char) :=
  match word.dropWhile (!stop ·) with
  | [] => (word, none)
  | _ :: rest => (word.takeWhile (!stop ·), some rest)

/-- A float: with a fraction, an exponent or both, or a word for one. -/
def isFloat (word : List Char) : Bool :=
  let number := dropSign word
  let (mantissa, exponent) := splitAtFirst (fun c => c == 'e' || c == 'E') number
  let (whole, fraction) := splitAtFirst (· == '.') mantissa
  number == "inf".toList || number == "nan".toList ||
    ((exponent.isSome || fraction.isSome) && areSpaced Char.isDigit word
      && isDecimal whole && hasPlainStart whole
      && fraction.all isDecimal
      && exponent.all fun power => isDecimal (dropSign power))

def isNumber (word : List Char) : Bool := isInteger word || isFloat word

end TwigToLatte.Toml
