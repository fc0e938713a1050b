/-!
# Single-precision numbers

A load factor is a 32-bit binary floating-point number. Only exact questions are asked of it:
whether it is finite and positive, and what the integer part of its product with a whole number
is. Both are answered in natural-number arithmetic on the decoded significand and exponent, so no
rounding happens here.
-/

namespace ManagedCore

/-- A number in the 32-bit interchange format, given by its bit pattern. -/
structure Binary32 where
  bits : UInt32
  deriving DecidableEq, Inhabited

namespace Binary32

/-- The sign bit. -/
def isNegative (x : Binary32) : Bool :=
  decide (0x80000000 ≤ x.bits.toNat)

/-- The eight exponent bits, still biased. -/
def biasedExponent (x : Binary32) : Nat :=
  x.bits.toNat / 0x800000 % 0x100

/-- The 23 fraction bits. -/
def fraction (x : Binary32) : Nat :=
  x.bits.toNat % 0x800000

/-- All exponent bits set mark infinities and values that are not numbers. -/
def isFinite (x : Binary32) : Bool :=
  x.biasedExponent != 255

/-- Neither finite nor infinite. -/
def isNaN (x : Binary32) : Bool :=
  x.biasedExponent == 255 && x.fraction != 0

/-- The integer significand, with the implicit leading bit of normal numbers. -/
def significand (x : Binary32) : Nat :=
  if x.biasedExponent = 0 then x.fraction else x.fraction + 0x800000

/-- The weight of the significand's last bit is two to this power. -/
def exponent (x : Binary32) : Int :=
  (max x.biasedExponent 1 : Nat) - 150

/-- Finite, not zero and not negative. -/
def isPositive (x : Binary32) : Bool :=
  x.isFinite && !x.isNegative && x.significand != 0

/--
The integer part of `n` times the magnitude of a finite `x`. The product of a power of two and a
single-precision number is exact in wider binary arithmetic, so this is also what a computation
that rounds gives there.
-/
def floorMul (x : Binary32) (n : Nat) : Nat :=
  if 0 ≤ x.exponent then (n * x.significand) <<< x.exponent.toNat
  else (n * x.significand) >>> (-x.exponent).toNat

/-- Three quarters. -/
def threeQuarters : Binary32 := ⟨0x3f400000⟩

/-- Three quarters of `n`, rounded down. -/
example : threeQuarters.floorMul 8 = 6 ∧ threeQuarters.floorMul 2 = 1 := by decide

end Binary32

end ManagedCore
