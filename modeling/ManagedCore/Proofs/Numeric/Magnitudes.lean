import ManagedCore.Numeric.Binary32
import Mathlib.Algebra.Order.Floor.Semifield
import Mathlib.Data.Rat.Floor
import Mathlib.Tactic.NormNum

/-!
# The numbers that load factors stand for

A finite single-precision number is its integer significand times a power of two. The integer part
of its product with a whole number, computed by shifts, is the floor of the rational product. For a
power of two the product has the significand of the factor, so double precision holds it exactly and
there is nothing to round.
-/

namespace ManagedCore

/-- The rational is a number of the 64-bit interchange format, zero or positive. -/
def IsBinary64 (q : ℚ) : Prop :=
  ∃ (significand : ℕ) (exponent : ℤ), significand < 2 ^ 53 ∧ -1074 ≤ exponent ∧ exponent ≤ 971 ∧
    q = significand * 2 ^ exponent

namespace Binary32

variable {x : Binary32}

/-- The absolute value of a finite number. -/
def magnitude (x : Binary32) : ℚ := x.significand * 2 ^ x.exponent

/-- What is positive is finite. -/
theorem isFinite_of_isPositive (h : x.isPositive = true) : x.isFinite = true := by
  simp only [isPositive, Bool.and_eq_true] at h
  exact h.1.1

/-- What is positive has a positive magnitude. -/
theorem magnitude_pos (h : x.isPositive = true) : 0 < x.magnitude := by
  simp only [isPositive, Bool.and_eq_true, bne_iff_ne, ne_eq] at h
  have hsignificand : (0 : ℚ) < x.significand := by exact_mod_cast Nat.pos_of_ne_zero h.2
  exact mul_pos hsignificand (zpow_pos (by norm_num) _)

/-- The significand has 24 bits. -/
theorem significand_lt (x : Binary32) : x.significand < 2 ^ 24 := by
  have hfraction : x.fraction < 0x800000 := Nat.mod_lt _ (by decide)
  rw [significand]
  split <;> omega

/-- The exponents of finite numbers. -/
theorem exponent_mem (h : x.isFinite = true) : -149 ≤ x.exponent ∧ x.exponent ≤ 104 := by
  have hbiased : x.biasedExponent < 256 := Nat.mod_lt _ (by decide)
  have hfinite : x.biasedExponent ≠ 255 := by simpa [isFinite] using h
  rw [exponent]
  omega

/-- The shifts compute the integer part of the product. -/
theorem floorMul_eq_floor (x : Binary32) (n : Nat) : x.floorMul n = ⌊(n : ℚ) * x.magnitude⌋₊ := by
  rw [floorMul, magnitude, ← mul_assoc]
  split
  next hexponent =>
    obtain ⟨k, hk⟩ := Int.eq_ofNat_of_zero_le hexponent
    have hproduct : (n : ℚ) * x.significand * 2 ^ x.exponent =
        ((n * x.significand * 2 ^ k : ℕ) : ℚ) := by
      rw [hk]
      push_cast
      rw [zpow_natCast]
    rw [hproduct, Nat.floor_natCast, hk, Int.toNat_natCast, Nat.shiftLeft_eq]
  next hexponent =>
    obtain ⟨k, hk⟩ := Int.eq_ofNat_of_zero_le (show 0 ≤ -x.exponent by omega)
    have hproduct : (n : ℚ) * x.significand * 2 ^ x.exponent =
        ((n * x.significand : ℕ) : ℚ) / ((2 ^ k : ℕ) : ℚ) := by
      rw [show x.exponent = -(k : ℤ) by omega, zpow_neg, zpow_natCast, div_eq_mul_inv]
      push_cast
      rfl
    rw [hproduct, Nat.floor_div_eq_div, hk, Int.toNat_natCast, Nat.shiftRight_eq_div_pow]

/-- The product with a power of two is a double-precision number as it is. -/
theorem isBinary64_mul (h : x.isFinite = true) {k : Nat} (hk : k < 64) :
    IsBinary64 (2 ^ k * x.magnitude) := by
  have hsignificand := x.significand_lt
  obtain ⟨hlow, hhigh⟩ := exponent_mem h
  refine ⟨x.significand, x.exponent + k, by omega, by omega, by omega, ?_⟩
  rw [magnitude, zpow_add₀ (by norm_num), zpow_natCast, mul_left_comm, mul_comm (2 ^ k)]

/-- Twice as many are at least one more, if the product is at least one. -/
theorem floorMul_lt_double {n : Nat} (h : 0 < x.floorMul n) : x.floorMul n < x.floorMul (n * 2) := by
  have hfloor : (x.floorMul n : ℚ) ≤ n * x.magnitude := by
    rw [floorMul_eq_floor] at h ⊢
    exact Nat.floor_le (le_of_lt (Nat.pos_of_floor_pos h))
  have htwice : x.floorMul n * 2 ≤ x.floorMul (n * 2) := by
    rw [floorMul_eq_floor x (n * 2)]
    apply Nat.le_floor
    push_cast
    rw [mul_right_comm]
    exact mul_le_mul_of_nonneg_right hfloor (by norm_num)
  omega

/-- Products grow with the whole number. -/
theorem floorMul_mono (h : x.isPositive = true) {n m : Nat} (hle : n ≤ m) :
    x.floorMul n ≤ x.floorMul m := by
  rw [floorMul_eq_floor, floorMul_eq_floor]
  apply Nat.floor_le_floor
  have hcast : (n : ℚ) ≤ m := by exact_mod_cast hle
  exact mul_le_mul_of_nonneg_right hcast (le_of_lt (magnitude_pos h))

end Binary32

end ManagedCore
