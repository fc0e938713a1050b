import ManagedCore.Numeric.Binary32

/-!
# Shortest decimal text of a single-precision number

The text of a finite number has the fewest significant decimal digits that still read back as the
same number, and among those the ones nearest to it. It is always positional: no exponent, and no
fraction for whole numbers.

The numbers that read back as `x` form an interval around it, which includes its ends exactly when
the significand is even. A grid `10^k` meets that interval if and only if one of the two grid
points next to `x` lies in it, so the coarsest grid that meets it gives the fewest digits.
-/

namespace ManagedCore

/--
The reals that round to a number, in units of `2 ^ unit`: the number itself is `centre`, and a real
strictly between `low` and `high` reads back as it.
-/
structure RoundingInterval where
  low : Nat
  centre : Nat
  high : Nat
  closed : Bool
  unit : Int

/--
The interval of a positive number. The neighbour below a power of two is half as far away as the
one above.
-/
def Binary32.interval (x : Binary32) : RoundingInterval where
  low := if x.fraction = 0 ∧ 1 < x.biasedExponent then 4 * x.significand - 1
    else 4 * x.significand - 2
  centre := 4 * x.significand
  high := 4 * x.significand + 2
  closed := x.significand % 2 = 0
  unit := x.exponent - 2

/-- Digits `digits` on the grid `10 ^ exponent`: the number they denote is their product. -/
structure Decimal where
  digits : Nat
  exponent : Int
  deriving DecidableEq

namespace RoundingInterval

/-- The factors that compare `a * 2 ^ unit` with `d * 10 ^ k` as `a * scale.1` with `d * scale.2`. -/
def scale (interval : RoundingInterval) (k : Int) : Nat × Nat :=
  (Nat.pow 2 interval.unit.toNat * Nat.pow 10 (-k).toNat,
    Nat.pow 2 (-interval.unit).toNat * Nat.pow 10 k.toNat)

/-- Whether `d * 10 ^ k` reads back as the number. -/
def contains (interval : RoundingInterval) (k : Int) (d : Nat) : Bool :=
  let (binary, decimal) := interval.scale k
  let low := interval.low * binary
  let high := interval.high * binary
  let point := d * decimal
  if interval.closed then low ≤ point && point ≤ high else low < point && point < high

/--
The point of the grid `10 ^ k` that reads back as the number: of the two beside it the nearer one,
and the upper one if both are equally near.
-/
def nearestOn (interval : RoundingInterval) (k : Int) : Option Decimal :=
  let (binary, decimal) := interval.scale k
  let centre := interval.centre * binary
  let below := centre / decimal
  let remainder := centre % decimal
  let lower := interval.contains k below
  let upper := interval.contains k (below + 1)
  if lower && (!upper || 2 * remainder < decimal) then some ⟨below, k⟩
  else if upper then some ⟨below + 1, k⟩
  else none

/-- The point on the coarsest of the grids `10 ^ k`, `10 ^ (k - 1)`, ... that has one. -/
def coarsest (interval : RoundingInterval) : Nat → Int → Option Decimal
  | 0, _ => none
  | fuel + 1, k =>
    match interval.nearestOn k with
    | some decimal => some decimal
    | none => interval.coarsest fuel (k - 1)

end RoundingInterval

/-- Positional notation: zeros fill the places between the digits and the point. -/
def Decimal.positional (d : Decimal) : String :=
  let text := Nat.toDigits 10 d.digits
  if 0 ≤ d.exponent then String.ofList (text ++ List.replicate d.exponent.toNat '0')
  else
    let places := (-d.exponent).toNat
    if places < text.length then
      String.ofList (text.take (text.length - places) ++ '.' :: text.drop (text.length - places))
    else String.ofList ('0' :: '.' :: List.replicate (places - text.length) '0' ++ text)

/-- The largest magnitude is below `10 ^ 39`, and the grid `10 ^ (-46)` meets every interval. -/
def Binary32.shortestDecimal (x : Binary32) : Decimal :=
  (x.interval.coarsest 86 39).getD ⟨0, 0⟩

/-- The text of a number, with names for infinities and for what is not a number. -/
def Binary32.text (x : Binary32) : String :=
  if x.isNaN then "NaN"
  else
    let sign := if x.isNegative then "-" else ""
    if !x.isFinite then sign ++ "inf"
    else if x.significand = 0 then sign ++ "0"
    else sign ++ x.shortestDecimal.positional

example : Binary32.threeQuarters.shortestDecimal = ⟨75, -2⟩ := by decide +kernel

/-- The smallest positive number has one digit, although it denotes 1.4e-45. -/
example : (Binary32.mk 1).shortestDecimal = ⟨1, -45⟩ := by decide +kernel

/-- The largest finite number. -/
example : (Binary32.mk 0x7f7fffff).shortestDecimal = ⟨34028235, 31⟩ := by decide +kernel

end ManagedCore
