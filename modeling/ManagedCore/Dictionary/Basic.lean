import ManagedCore.Dictionary.Chain
import ManagedCore.Dictionary.Settings

/-!
# Dictionaries

Open hashing with one chain for each bucket. There are no buckets until the first insertion, and
their number only grows. An entry lies in the bucket that the low bits of its hash name; growing
distributes the entries by the hashes they remember, so keys are never hashed twice.

Both policies show in the order of iteration, which goes through the buckets in order and through
each chain from its newest entry.
-/

namespace ManagedCore

/-- A map from keys to values. The bucket array is empty until the first insertion. -/
structure Dictionary (K V : Type) where
  buckets : Array (Chain K V)
  /-- The number of entries. -/
  size : Nat
  /-- The number of entries at which the dictionary grows, 0 while there are no buckets. -/
  threshold : Nat
  settings : DictionarySettings
  hasher : K → UInt64

namespace Dictionary

variable {K V : Type}

/-- Bytes of one bucket. -/
def bucketBytes : Nat := 8

/-- An empty dictionary. -/
def create (settings : DictionarySettings) (hasher : K → UInt64) :
    Except Violation (Dictionary K V) := do
  settings.validate
  return { buckets := #[], size := 0, threshold := 0, settings := settings, hasher := hasher }

/-- The number of buckets, 0 before the first insertion. -/
def bucketCount (d : Dictionary K V) : Nat := d.buckets.size

/-- Whether there is no entry. -/
def isEmpty (d : Dictionary K V) : Bool := d.size == 0

/-- The bucket of a hash among `count` buckets, a power of two: the hash's low bits. -/
def bucketIndex (hash : UInt64) (count : Nat) : Nat := hash.toNat &&& (count - 1)

/-- The chain that an entry with this hash lies in. Without buckets it is empty. -/
def chainOf (d : Dictionary K V) (hash : UInt64) : Chain K V :=
  d.buckets.getD (bucketIndex hash d.bucketCount) []

/-- The dictionary with another chain for a hash. -/
def setChain (d : Dictionary K V) (hash : UInt64) (chain : Chain K V) : Dictionary K V :=
  { d with buckets := d.buckets.setIfInBounds (bucketIndex hash d.bucketCount) chain }

/-- All entries in the order of iteration. -/
def nodes (d : Dictionary K V) : List (Node K V) := d.buckets.toList.flatten

/-- All keys with their values in the order of iteration. -/
def entries (d : Dictionary K V) : List (K × V) := d.nodes.map fun node => (node.key, node.value)

/-- All keys in the order of iteration. -/
def keys (d : Dictionary K V) : List K := d.nodes.map Node.key

/-- Drops all entries and all buckets. -/
def clear (d : Dictionary K V) : Dictionary K V :=
  { d with buckets := #[], size := 0, threshold := 0 }

/-- The dictionary with its initial buckets, if it has none yet. -/
def allocated (d : Dictionary K V) : Dictionary K V :=
  if d.buckets.isEmpty then
    { d with
      buckets := Array.replicate d.settings.initialCapacity []
      threshold := d.settings.threshold d.settings.initialCapacity }
  else d

/-- Puts an entry at the front of the chain that its hash names. -/
def relink (buckets : Array (Chain K V)) (node : Node K V) : Array (Chain K V) :=
  buckets.modify (bucketIndex node.hash buckets.size) (node :: ·)

/--
Twice as many buckets, with every entry relinked in the order of iteration, so that entries that
stay together change their order. At the maximum the threshold moves out of reach instead.
-/
def resize (d : Dictionary K V) : Dictionary K V :=
  let count := d.bucketCount
  if d.settings.maximumCapacity ≤ count then { d with threshold := maxWord }
  else
    { d with
      buckets := d.buckets.foldl (fun buckets chain => chain.foldl relink buckets)
        (Array.replicate (count * 2) [])
      threshold := d.settings.threshold (count * 2) }

/-- Adds an entry at the front of its chain, and grows if that reaches the threshold. -/
def link (d : Dictionary K V) (node : Node K V) : Dictionary K V :=
  let count := d.bucketCount
  let d := { d with
    buckets := d.buckets.modify (bucketIndex node.hash count) (node :: ·)
    size := d.size + 1 }
  if d.threshold ≤ d.size then d.resize else d

variable [DecidableEq K]

/-- The entry for a key. -/
def find (d : Dictionary K V) (key : K) : Option (Node K V) :=
  let hash := d.hasher key
  Chain.find hash key (d.chainOf hash)

/-- The value of a key. -/
def get? (d : Dictionary K V) (key : K) : Option V := (d.find key).map Node.value

/-- Whether a key has a value. -/
def contains (d : Dictionary K V) (key : K) : Bool := (d.find key).isSome

/-- Gives a key a value, and tells the one it had before, if its buckets can be allocated. -/
def insert (d : Dictionary K V) (key : K) (value : V) : Option V × Dictionary K V :=
  let hash := d.hasher key
  let d := d.allocated
  match Chain.exchange hash key value (d.chainOf hash) with
  | some (old, chain) => (some old, d.setChain hash chain)
  | none => (none, d.link { key := key, value := value, hash := hash })

/-- Whether the initial buckets are still to be allocated and are more than can be. -/
def refusesBuckets (d : Dictionary K V) : Bool :=
  d.buckets.isEmpty && allocationLimit ≤ d.settings.initialCapacity * bucketBytes

/--
Gives a key a value, and tells the one it had before. If the initial buckets cannot be allocated,
that is found out after the threshold is set.
-/
def put (key : K) (value : V) : EStateM Violation (Dictionary K V) (Option V) := fun d =>
  if d.refusesBuckets then
    .error .capacityOverflow { d with threshold := d.settings.threshold d.settings.initialCapacity }
  else
    let (old, d) := d.insert key value
    .ok old d

/-- Changes the value of a key, and tells the one it had before. Another key is not added. -/
def modify (d : Dictionary K V) (key : K) (change : V → V) : Option V × Dictionary K V :=
  let hash := d.hasher key
  match Chain.modify hash key change (d.chainOf hash) with
  | some (old, chain) => (some old, d.setChain hash chain)
  | none => (none, d)

/-- Takes a key off the dictionary, and tells the value it had. -/
def erase (d : Dictionary K V) (key : K) : Option V × Dictionary K V :=
  let hash := d.hasher key
  match Chain.extract hash key (d.chainOf hash) with
  | some (old, chain) => (some old, { d.setChain hash chain with size := d.size - 1 })
  | none => (none, d)

end Dictionary

end ManagedCore
