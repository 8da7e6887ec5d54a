/-!
# The double nearest to a decimal

* `nearest digits exponent` — the double-precision number closest to `digits * 10 ^ exponent`; a
  decimal half way between two doubles goes to the one with the even significand, and one beyond
  the largest double becomes infinity.

All steps are exact: the decimal is a quotient of natural numbers, and the only rounding is the
division by the unit in the last place.
-/

namespace TwigToLatte.Decimal

/-- The lowest bit of the exponent field, which is also the implied bit of a significand. -/
def exponentUnit : Nat := 0x10000000000000

def signBit : Nat := 0x8000000000000000

def infinityBits : Nat := 0x7FF0000000000000

/-- The quotient rounded to the nearest natural number, a half to the even neighbour. -/
def roundHalfEven (num den : Nat) : Nat :=
  let quotient := num / den
  let twice := 2 * (num % den)
  if twice > den ∨ (twice = den ∧ quotient % 2 = 1) then quotient + 1 else quotient

/-- `num / (den * 2 ^ exponent)` as a pair of numerator and denominator. -/
def scaleDown (num den : Nat) (exponent : Int) : Nat × Nat :=
  if exponent < 0 then (num <<< exponent.natAbs, den) else (num, den <<< exponent.natAbs)

/-- The exponent of the unit in the last place for the positive quotient `num / den`: the
significand then has 53 bits, or fewer where the number is subnormal. -/
def unitExponent (num den : Nat) : Int :=
  let guess := max ((num.log2 : Int) - (den.log2 : Int) - 52) (-1074)
  let (n, d) := scaleDown num den guess
  if n / d < exponentUnit then max (guess - 1) (-1074) else guess

/-- Bits of the double nearest to the positive quotient `num / den`. A significand that rounds up
to the next power of two carries into the exponent field. -/
def nearestBits (num den : Nat) : Nat :=
  let unit := unitExponent num den
  let (n, d) := scaleDown num den unit
  min ((unit + 1074).toNat * exponentUnit + roundHalfEven n d) infinityBits

/-- The double nearest to `digits * 10 ^ exponent`. Decimals whose exponent alone puts them out of
range are answered without computing the power. -/
def nearest (digits : Nat) (exponent : Int) : Float :=
  let bits :=
    if digits = 0 then 0
    else if exponent > 400 then infinityBits
    else if exponent < -(400 + (digits.log2 : Int)) then 0
    else if exponent < 0 then nearestBits digits (Nat.pow 10 exponent.natAbs)
    else nearestBits (digits * Nat.pow 10 exponent.natAbs) 1
  Float.ofBits (UInt64.ofNat bits)

end TwigToLatte.Decimal
