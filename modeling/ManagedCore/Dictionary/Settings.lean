import ManagedCore.Word

/-!
# Growth settings

A dictionary starts with `initialCapacity` buckets and doubles their number whenever the number of
its entries reaches the share `loadFactor` of them, until it has `maximumCapacity` buckets.
-/

namespace ManagedCore

/-- How many buckets a dictionary has. Both capacities are powers of two. -/
structure DictionarySettings where
  initialCapacity : Nat
  loadFactor : Binary32
  maximumCapacity : Nat
  deriving DecidableEq

namespace DictionarySettings

/-- Eight buckets at first. -/
def defaultInitialCapacity : Nat := 8

/-- Three entries in four buckets. -/
def defaultLoadFactor : Binary32 := .threeQuarters

/-- No growth beyond a billion buckets. -/
def defaultMaximumCapacity : Nat := 1073741824

/-- The settings of a dictionary that is given none. -/
def standard : DictionarySettings where
  initialCapacity := defaultInitialCapacity
  loadFactor := defaultLoadFactor
  maximumCapacity := defaultMaximumCapacity

/-- Whether a number is a power of two: the one with as many binary digits. -/
def isPowerOfTwo (n : Nat) : Bool := n == 1 <<< n.log2

/--
Refuses settings that no dictionary can follow. The capacities are looked at before the load
factor, which must leave room for at least one entry in the initial buckets.
-/
def validate (settings : DictionarySettings) : Except Violation Unit :=
  let initial := settings.initialCapacity
  let maximum := settings.maximumCapacity
  let load := settings.loadFactor
  if !isPowerOfTwo initial then throw (.initialNotPowerOfTwo initial)
  else if !isPowerOfTwo maximum || maximum < initial then throw (.maximumUnusable maximum initial)
  else if !load.isPositive then throw (.loadNotPositive load)
  else if load.floorMul initial = 0 then throw (.loadLeavesNoRoom load initial)
  else return ()

/--
The number of entries at which a dictionary with `buckets` buckets grows: the load factor's share
of them, rounded down, and out of reach once there are as many as allowed.
-/
def threshold (settings : DictionarySettings) (buckets : Nat) : Nat :=
  if settings.maximumCapacity ≤ buckets then maxWord
  else min (settings.loadFactor.floorMul buckets) maxWord

/-- Eight buckets grow at six entries. -/
example : standard.threshold 8 = 6 := by decide +kernel

end DictionarySettings

end ManagedCore
