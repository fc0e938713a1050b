import ManagedCore.Dictionary.Basic

/-!
# Numbered keys

A dictionary is filled with numbered keys, and then every other key is taken off again. Its buckets
stay, since a dictionary never shrinks.
-/

namespace ManagedCore.Demonstration

/-- The text that names a key. -/
def keyName (key : Nat) : String := s!"key-{key}"

/-- Gives `count` keys from `key` on their numbers as values. -/
def fillKeys : Nat → Nat → Dictionary String Value → Dictionary String Value
  | 0, _, d => d
  | count + 1, key, d => fillKeys count (key + 1) (d.insert (keyName key) (Value.ofNat key)).2

/-- Takes `count` keys off, every other one from `key` on, and adds to the number of those found. -/
def eraseKeys : Nat → Nat → Nat → Dictionary String Value → Nat × Dictionary String Value
  | 0, _, erased, d => (erased, d)
  | count + 1, key, erased, d =>
    match d.erase (keyName key) with
    | (some _, d) => eraseKeys count (key + 2) (erased + 1) d
    | (none, d) => eraseKeys count (key + 2) erased d

/-- What filling a dictionary and taking keys off again comes to. -/
structure DictionaryTotals where
  keys : Nat
  buckets : Nat
  erased : Nat
  bucketsAfter : Nat
  deriving DecidableEq

/-- Takes every other one of the first `count` keys off, and counts those found. -/
def eraseAlternate (count : Nat) (d : Dictionary String Value) : Nat × Dictionary String Value :=
  eraseKeys ((count + 1) / 2) 0 0 d

/-- Fills an empty dictionary with `count` keys and takes every other one off. -/
def exerciseDictionary (count : Nat) (d : Dictionary String Value) : DictionaryTotals :=
  let filled := fillKeys count 0 d
  let buckets := filled.bucketCount
  let (erased, rest) := eraseAlternate count filled
  { keys := rest.size, buckets := buckets, erased := erased, bucketsAfter := rest.bucketCount }

/-- Reports on the dictionary. -/
def DictionaryTotals.line (totals : DictionaryTotals) : String :=
  s!"dictionary: {totals.keys} keys in {totals.buckets} buckets " ++
    s!"({totals.erased} removed, {totals.bucketsAfter} buckets after removal)\n"

end ManagedCore.Demonstration
