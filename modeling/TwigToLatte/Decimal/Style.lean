import TwigToLatte.Decimal.Shortest

/-!
# Written forms of doubles

* `Style` — the decisions of a written form: which magnitudes are positional, whether a whole
  number keeps a fraction, and the words for the numbers that have no digits.
* `literal` — the form of a number in Latte code, which always reads back as a double.
* `plain` — the form of a number in messages and names: positional, the fraction only if needed.
* `Style.write` — writes a double, its digits being the fewest that read back.
-/

namespace TwigToLatte.Decimal

/-- How doubles are written. -/
structure Style where
  /-- Whether a number `d.ddd * 10 ^ e` is written positionally, by `e`. -/
  isPositional : Int → Bool
  /-- Whether a positional whole number ends in `.0`. -/
  keepFraction : Bool
  notANumber : String
  infinity : String
  negativeInfinity : String

/-- Numbers in Latte code: positional from `0.0001` up to below `10 ^ 16`. -/
def literal : Style :=
  ⟨fun e => -4 ≤ e && e < 16, true, "NAN", "INF", "-INF"⟩

/-- Numbers in messages: positional throughout, whole numbers without a fraction. -/
def plain : Style := ⟨fun _ => true, false, "NaN", "inf", "-inf"⟩

/-- The decimal digits of a natural number. -/
def digitsOf (n : Nat) : List Char := Nat.toDigits 10 n

/-- Digits with the decimal point after the first `point` of them; zeros fill the gaps. -/
def positional (keepFraction : Bool) (digits : List Char) (point : Int) : List Char :=
  let whole :=
    if point ≤ 0 then ['0']
    else digits.take point.toNat ++ List.replicate (point.toNat - digits.length) '0'
  let fraction :=
    if point ≤ 0 then List.replicate point.natAbs '0' ++ digits else digits.drop point.toNat
  if fraction.isEmpty then whole ++ (if keepFraction then ['.', '0'] else [])
  else whole ++ '.' :: fraction

/-- One digit before the point, and the power of ten after an `e`. -/
def scientific (digits : List Char) (exponent : Int) : List Char :=
  let mantissa :=
    match digits with
    | first :: (second :: more) => first :: '.' :: second :: more
    | short => short
  mantissa ++ 'e' :: (toString exponent).toList

def Style.writeDigits (style : Style) (d : Digits) : List Char :=
  let digits := digitsOf d.digits
  let exponent := d.exponent + digits.length - 1
  if style.isPositional exponent then positional style.keepFraction digits (exponent + 1)
  else scientific digits exponent

/-- A double in the given style. Zero has a sign. -/
def Style.write (style : Style) (x : Float) : String :=
  let bits := x.toBits.toNat
  let negative := signBit ≤ bits
  let magnitude := bits % signBit
  if magnitude > infinityBits then style.notANumber
  else if magnitude = infinityBits then
    if negative then style.negativeInfinity else style.infinity
  else
    let digits :=
      if magnitude = 0 then positional style.keepFraction ['0'] 1
      else style.writeDigits (shortestOfBits magnitude)
    String.ofList (if negative then '-' :: digits else digits)

end TwigToLatte.Decimal
