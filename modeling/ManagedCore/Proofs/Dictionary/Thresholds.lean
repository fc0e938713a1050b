import ManagedCore.Dictionary.Settings
import ManagedCore.Proofs.Numeric.Magnitudes

/-!
# Thresholds on the way to the maximum

Accepted settings lead from the initial number of buckets by doublings to the maximum. On the way
every threshold is above the one before, because the initial buckets hold at least one entry, and at
the maximum it is out of reach. So there is a first number of buckets for every peak of entries, and
to move a threshold past the peak that meets it, one doubling is enough.
-/

namespace ManagedCore.DictionarySettings

/-- What settings must be for a dictionary to follow them. -/
structure Accepted (settings : DictionarySettings) : Prop where
  initial : ∃ k, settings.initialCapacity = 2 ^ k
  maximum : ∃ k, settings.maximumCapacity = 2 ^ k
  ordered : settings.initialCapacity ≤ settings.maximumCapacity
  positive : settings.loadFactor.isPositive = true
  room : 1 ≤ (settings.initialCapacity : ℚ) * settings.loadFactor.magnitude

/-- The number of buckets after some doublings of the initial one. -/
def bucketsAfter (settings : DictionarySettings) (doublings : Nat) : Nat :=
  settings.initialCapacity * 2 ^ doublings

/-- `count` is the first number of buckets on the way whose threshold is above the peak. -/
def Suits (settings : DictionarySettings) (peak count : Nat) : Prop :=
  ∃ doublings, count = settings.bucketsAfter doublings ∧ peak < settings.threshold count ∧
    ∀ fewer < doublings, settings.threshold (settings.bucketsAfter fewer) ≤ peak

/-- The numbers that pass for powers of two are the powers of two. -/
theorem isPowerOfTwo_iff {n : Nat} : isPowerOfTwo n = true ↔ ∃ k, n = 2 ^ k := by
  rw [isPowerOfTwo, beq_iff_eq, Nat.shiftLeft_eq, Nat.one_mul]
  constructor
  · intro h
    exact ⟨n.log2, h⟩
  · rintro ⟨k, rfl⟩
    rw [Nat.log2_two_pow]

variable {settings : DictionarySettings} {peak count : Nat}

/-- There is room for an entry when the product with the load factor is at least one. -/
theorem floorMul_initial_ne_zero_iff :
    settings.loadFactor.floorMul settings.initialCapacity ≠ 0 ↔
      1 ≤ (settings.initialCapacity : ℚ) * settings.loadFactor.magnitude := by
  rw [Binary32.floorMul_eq_floor, ← Nat.pos_iff_ne_zero, Nat.floor_pos]

/-- The settings that pass are the accepted ones. -/
theorem validate_eq_ok_iff : settings.validate = .ok () ↔ settings.Accepted := by
  constructor
  · intro h
    simp only [validate] at h
    split at h
    next => cases h
    next hinitial =>
      split at h
      next => cases h
      next hmaximum =>
        split at h
        next => cases h
        next hpositive =>
          split at h
          next => cases h
          next hroom =>
            simp only [Bool.not_eq_true', Bool.or_eq_true, decide_eq_true_eq, not_or,
              Bool.not_eq_false, Nat.not_lt] at hinitial hmaximum hpositive
            exact ⟨isPowerOfTwo_iff.mp hinitial, isPowerOfTwo_iff.mp hmaximum.1, hmaximum.2,
              hpositive, floorMul_initial_ne_zero_iff.mp hroom⟩
  · intro h
    have hinitial := isPowerOfTwo_iff.mpr h.initial
    have hmaximum := isPowerOfTwo_iff.mpr h.maximum
    have hroom := floorMul_initial_ne_zero_iff.mpr h.room
    simp only [validate, hinitial, hmaximum, Nat.not_lt.mpr h.ordered, h.positive, hroom,
      Bool.not_true, Bool.false_or, decide_false, Bool.false_eq_true, if_false]
    rfl

/-- The threshold as a share of the buckets. -/
theorem threshold_eq_floor (settings : DictionarySettings) (count : Nat) :
    settings.threshold count =
      if count < settings.maximumCapacity then
        min ⌊(count : ℚ) * settings.loadFactor.magnitude⌋₊ maxWord
      else maxWord := by
  rw [threshold, Binary32.floorMul_eq_floor]
  by_cases hcount : settings.maximumCapacity ≤ count
  · rw [if_pos hcount, if_neg (by omega)]
  · rw [if_neg hcount, if_pos (by omega)]

/-- Thresholds are words. -/
theorem threshold_le (settings : DictionarySettings) (count : Nat) :
    settings.threshold count ≤ maxWord := by
  rw [threshold]
  split
  · exact Nat.le_refl _
  · exact Nat.min_le_right _ _

/-- A threshold in reach is a share of fewer buckets than the maximum. -/
theorem threshold_of_lt (h : settings.threshold count < maxWord) :
    count < settings.maximumCapacity ∧
      settings.threshold count = settings.loadFactor.floorMul count := by
  rw [threshold] at h ⊢
  split at h
  · omega
  next hcount =>
    rw [if_neg hcount]
    omega

/-- One more doubling. -/
theorem bucketsAfter_succ (settings : DictionarySettings) (doublings : Nat) :
    settings.bucketsAfter (doublings + 1) = settings.bucketsAfter doublings * 2 := by
  rw [bucketsAfter, bucketsAfter, Nat.pow_succ, Nat.mul_assoc]

/-- Doublings never lead below the initial number of buckets. -/
theorem initialCapacity_le_bucketsAfter (settings : DictionarySettings) (doublings : Nat) :
    settings.initialCapacity ≤ settings.bucketsAfter doublings :=
  Nat.le_mul_of_pos_right _ (Nat.two_pow_pos doublings)

namespace Accepted

/-- Every number of buckets on the way is a power of two. -/
theorem exists_bucketsAfter_eq (h : settings.Accepted) (doublings : Nat) :
    ∃ k, settings.bucketsAfter doublings = 2 ^ k := by
  obtain ⟨k, hk⟩ := h.initial
  exact ⟨k + doublings, by rw [bucketsAfter, hk, Nat.pow_add]⟩

/-- A doubling leads to the maximum at most. -/
theorem double_le (h : settings.Accepted) {doublings : Nat}
    (hlt : settings.bucketsAfter doublings < settings.maximumCapacity) :
    settings.bucketsAfter doublings * 2 ≤ settings.maximumCapacity := by
  obtain ⟨k, hk⟩ := h.exists_bucketsAfter_eq doublings
  obtain ⟨m, hm⟩ := h.maximum
  rw [hk, hm] at hlt ⊢
  rw [← Nat.pow_succ]
  exact Nat.pow_le_pow_right (by decide) ((Nat.pow_lt_pow_iff_right (by decide)).mp hlt)

/-- All numbers of buckets on the way hold at least one entry. -/
theorem floorMul_pos (h : settings.Accepted) (doublings : Nat) :
    0 < settings.loadFactor.floorMul (settings.bucketsAfter doublings) := by
  have hroom := Nat.pos_of_ne_zero (floorMul_initial_ne_zero_iff.mpr h.room)
  exact Nat.lt_of_lt_of_le hroom
    (Binary32.floorMul_mono h.positive (initialCapacity_le_bucketsAfter settings doublings))

/-- All thresholds on the way are positive. -/
theorem threshold_pos (h : settings.Accepted) (doublings : Nat) :
    0 < settings.threshold (settings.bucketsAfter doublings) := by
  have hpos := h.floorMul_pos doublings
  have hword : 0 < maxWord := by decide
  rw [threshold]
  split <;> omega

/-- A doubling moves a threshold that is in reach. -/
theorem threshold_lt_double (h : settings.Accepted) {doublings : Nat}
    (hlt : settings.threshold (settings.bucketsAfter doublings) < maxWord) :
    settings.threshold (settings.bucketsAfter doublings) <
      settings.threshold (settings.bucketsAfter doublings * 2) := by
  have hdouble := Binary32.floorMul_lt_double (h.floorMul_pos doublings)
  obtain ⟨-, heq⟩ := threshold_of_lt hlt
  rw [threshold.eq_def settings (settings.bucketsAfter doublings * 2)]
  split <;> omega

/-- The initial buckets suit an empty dictionary. -/
theorem suits_zero (h : settings.Accepted) : settings.Suits 0 settings.initialCapacity := by
  have hzero : settings.bucketsAfter 0 = settings.initialCapacity := Nat.mul_one _
  have hpos := h.threshold_pos 0
  rw [hzero] at hpos
  exact ⟨0, hzero.symm, hpos, fun fewer hfewer => absurd hfewer (Nat.not_lt_zero fewer)⟩

end Accepted

namespace Suits

/-- A larger peak that stays below the threshold suits the same number of buckets. -/
theorem mono (h : settings.Suits peak count) {peak' : Nat} (hle : peak ≤ peak')
    (hlt : peak' < settings.threshold count) : settings.Suits peak' count := by
  obtain ⟨doublings, hcount, -, hfewer⟩ := h
  exact ⟨doublings, hcount, hlt, fun fewer hlt => (hfewer fewer hlt).trans hle⟩

/-- A peak that meets the threshold suits twice as many buckets. -/
theorem double (h : settings.Suits peak count) (haccepted : settings.Accepted)
    (hlt : settings.threshold count < maxWord) :
    settings.Suits (settings.threshold count) (count * 2) := by
  obtain ⟨doublings, rfl, hpeak, hfewer⟩ := h
  refine ⟨doublings + 1, (bucketsAfter_succ settings doublings).symm,
    haccepted.threshold_lt_double hlt, fun fewer hlt => ?_⟩
  rcases Nat.lt_succ_iff_lt_or_eq.mp hlt with hlt | rfl
  · exact (hfewer fewer hlt).trans (Nat.le_of_lt hpeak)
  · exact Nat.le_refl _

/-- One number of buckets suits a peak. -/
theorem unique (h : settings.Suits peak count) {count' : Nat} (h' : settings.Suits peak count') :
    count = count' := by
  obtain ⟨doublings, rfl, hpeak, hfewer⟩ := h
  obtain ⟨doublings', rfl, hpeak', hfewer'⟩ := h'
  rcases Nat.lt_trichotomy doublings doublings' with hlt | rfl | hlt
  · exact absurd hpeak (Nat.not_lt.mpr (hfewer' doublings hlt))
  · rfl
  · exact absurd hpeak' (Nat.not_lt.mpr (hfewer doublings' hlt))

/-- The maximum suits every peak that some number of buckets suits. -/
theorem le_maximum (h : settings.Suits peak count) (haccepted : settings.Accepted) :
    count ≤ settings.maximumCapacity := by
  obtain ⟨doublings, rfl, hpeak, hfewer⟩ := h
  cases doublings with
  | zero => exact (Nat.mul_one settings.initialCapacity).le.trans haccepted.ordered
  | succ doublings =>
    -- The threshold before the last doubling was not above the peak; at the maximum it would be.
    have hreach : settings.threshold (settings.bucketsAfter doublings) < maxWord :=
      ((hfewer doublings (Nat.lt_succ_self _)).trans_lt hpeak).trans_le (threshold_le _ _)
    rw [bucketsAfter_succ]
    exact haccepted.double_le (threshold_of_lt hreach).1

end Suits

end ManagedCore.DictionarySettings
