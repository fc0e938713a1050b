import ManagedCore.Violation

/-!
# Word arithmetic

Sizes, offsets and counters are natural numbers below `2 ^ 64`. Where a computation on them may
leave that range, it is a violation.
-/

namespace ManagedCore

/-- The number of 64-bit words, `2 ^ 64`. -/
def wordLimit : Nat := 18446744073709551616

/-- The largest 64-bit word. -/
def maxWord : Nat := wordLimit - 1

/-- An allocation of this many bytes or more, half of the address space, is always refused. -/
def allocationLimit : Nat := 9223372036854775808

/-- The sum of two words, if it is a word. -/
def addWord (a b : Nat) : Except Violation Nat :=
  if a + b < wordLimit then .ok (a + b) else .error .additionOverflow

/-- The product of two words, if it is a word. -/
def mulWord (a b : Nat) : Except Violation Nat :=
  if a * b < wordLimit then .ok (a * b) else .error .multiplicationOverflow

/-- A sum that is a word is computed. -/
theorem addWord_of_lt {a b : Nat} (h : a + b < wordLimit) : addWord a b = .ok (a + b) := if_pos h

/-- A product that is a word is computed. -/
theorem mulWord_of_lt {a b : Nat} (h : a * b < wordLimit) : mulWord a b = .ok (a * b) := if_pos h

end ManagedCore
