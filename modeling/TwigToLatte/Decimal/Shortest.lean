import TwigToLatte.Decimal.Nearest

/-!
# The shortest decimal of a double

* `Parts` — a finite positive double as `significand * 2 ^ exponent`.
* `Digits` — a decimal `digits * 10 ^ exponent`.
* `shortestOfBits` — the fewest digits that read back as the same double, and of those the nearest
  to it; of two equally near decimals the larger.

The reals that round to a double form an interval around it whose ends count when the significand
is even. On the grid of `n`-digit decimals a double has two neighbours; the first `n` for which one
of them lies in the interval gives the digits. Seventeen digits always suffice.
-/

namespace TwigToLatte.Decimal

/-- A positive double `significand * 2 ^ exponent`; `tight` tells that the next lower double is
only half a unit away. -/
structure Parts where
  significand : Nat
  exponent : Int
  tight : Bool
  deriving DecidableEq, Repr

/-- A positive decimal: `digits` read as an integer, times `10 ^ exponent`. -/
structure Digits where
  digits : Nat
  exponent : Int
  deriving DecidableEq, Repr

/-- The parts of the double with the given bits, sign aside; only for finite non-zero numbers. -/
def Parts.ofBits (bits : Nat) : Parts :=
  let field : Nat := bits / exponentUnit % 2048
  let fraction : Nat := bits % exponentUnit
  if field = 0 then ⟨fraction, -1074, false⟩
  else ⟨exponentUnit + fraction, (field : Int) - 1075, fraction == 0 && 1 < field⟩

/-- The exact value and the ends of its rounding interval, over one denominator. -/
structure Interval where
  low : Nat
  value : Nat
  high : Nat
  den : Nat
  closed : Bool
  deriving DecidableEq, Repr

/-- The reals that round to a double, in quarters of its unit in the last place. -/
def Parts.interval (p : Parts) : Interval :=
  let shift := p.exponent - 2
  let num := if shift < 0 then 1 else 1 <<< shift.natAbs
  let den := if shift < 0 then 1 <<< shift.natAbs else 1
  { low := (4 * p.significand - if p.tight then 1 else 2) * num
    value := 4 * p.significand * num
    high := (4 * p.significand + 2) * num
    den := den
    closed := p.significand % 2 == 0 }

/-- `candidate * 10 ^ exponent` over the denominator of the interval, both sides scaled alike:
the pair of the scaled candidate and the factor for the interval's numbers. -/
def Interval.scale (i : Interval) (candidate : Nat) (exponent : Int) : Nat × Nat :=
  if exponent < 0 then (candidate * i.den, Nat.pow 10 exponent.natAbs)
  else (candidate * Nat.pow 10 exponent.natAbs * i.den, 1)

/-- Whether `candidate * 10 ^ exponent` rounds to the double. -/
def Interval.holds (i : Interval) (candidate : Nat) (exponent : Int) : Bool :=
  let (c, f) := i.scale candidate exponent
  if i.closed then i.low * f ≤ c && c ≤ i.high * f else i.low * f < c && c < i.high * f

/-- The largest `candidate` with `candidate * 10 ^ exponent` at most the value. -/
def Interval.floor (i : Interval) (exponent : Int) : Nat :=
  if exponent < 0 then i.value * Nat.pow 10 exponent.natAbs / i.den
  else i.value / (Nat.pow 10 exponent.natAbs * i.den)

/-- Whether `(candidate + 1) * 10 ^ exponent` is at least as near to the value as
`candidate * 10 ^ exponent`, where the value lies between the two. -/
def Interval.upper (i : Interval) (candidate : Nat) (exponent : Int) : Bool :=
  let (c, f) := i.scale candidate exponent
  let (c', _) := i.scale (candidate + 1) exponent
  c' - i.value * f ≤ i.value * f - c

/-- The decimal chosen on the grid of step `10 ^ exponent`, if one rounds to the double. -/
def Interval.onGrid? (i : Interval) (exponent : Int) : Option Digits :=
  let below := i.floor exponent
  match i.holds below exponent, i.holds (below + 1) exponent with
  | true, true => some ⟨if i.upper below exponent then below + 1 else below, exponent⟩
  | true, false => some ⟨below, exponent⟩
  | false, true => some ⟨below + 1, exponent⟩
  | false, false => none

/-- The number of decimal digits of a natural number. -/
def digitCount (n : Nat) : Nat := (Nat.toDigits 10 n).length

/-- The exponent `e` with `10 ^ e ≤ value < 10 ^ (e + 1)`. -/
def Interval.magnitude (i : Interval) : Int :=
  if i.den ≤ i.value then (digitCount (i.value / i.den) : Int) - 1
  else
    let zeros := digitCount (i.den / i.value)
    if i.den ≤ i.value * Nat.pow 10 (zeros - 1) then 1 - (zeros : Int) else -(zeros : Int)

/-- Searches the grids from coarse to fine. -/
def Interval.search (i : Interval) : Nat → Int → Option Digits
  | 0, _ => none
  | grids + 1, exponent =>
    match i.onGrid? exponent with
    | some d => some d
    | none => i.search grids (exponent - 1)

/-- The decimal without trailing zeros; `fuel` bounds their number. -/
def Digits.strip : Nat → Digits → Digits
  | 0, d => d
  | fuel + 1, d =>
    if d.digits % 10 = 0 ∧ d.digits ≠ 0 then strip fuel ⟨d.digits / 10, d.exponent + 1⟩ else d

/-- The shortest decimal that rounds to the finite non-zero double with the given bits. -/
def shortestOfBits (bits : Nat) : Digits :=
  let i := (Parts.ofBits bits).interval
  let d := (i.search 17 i.magnitude).getD ⟨i.floor (i.magnitude - 16), i.magnitude - 16⟩
  d.strip 20

end TwigToLatte.Decimal
