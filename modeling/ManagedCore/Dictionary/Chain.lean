import ManagedCore.Value

/-!
# Chains

The entries of one bucket form a chain, the one inserted last first. An entry remembers the hash of
the key it was inserted with: a later change of the key does not change it.

Every operation on a chain works on the first entry whose hash and key are the ones asked for, and
gives `none` if there is no such entry.
-/

namespace ManagedCore

/-- One entry: a key, its value, and the key's hash at insertion. -/
structure Node (K V : Type) where
  key : K
  value : V
  hash : UInt64
  deriving DecidableEq

variable {K V : Type}

section Lookup

variable [DecidableEq K]

/-- Whether the entry is the one asked for. -/
def Node.answers (node : Node K V) (hash : UInt64) (key : K) : Bool :=
  node.hash == hash && node.key == key

/-- The entries of one bucket. -/
abbrev Chain (K V : Type) := List (Node K V)

namespace Chain

/-- The entry asked for. -/
def find (hash : UInt64) (key : K) : Chain K V → Option (Node K V)
  | [] => none
  | node :: rest => if node.answers hash key then some node else find hash key rest

/-- The value of the entry asked for, and the chain with another value in its place. -/
def exchange (hash : UInt64) (key : K) (value : V) : Chain K V → Option (V × Chain K V)
  | [] => none
  | node :: rest =>
    if node.answers hash key then some (node.value, { node with value := value } :: rest)
    else (exchange hash key value rest).map fun (old, rest) => (old, node :: rest)

/-- The value of the entry asked for, and the chain with that value changed. -/
def modify (hash : UInt64) (key : K) (change : V → V) : Chain K V → Option (V × Chain K V)
  | [] => none
  | node :: rest =>
    if node.answers hash key then
      some (node.value, { node with value := change node.value } :: rest)
    else (modify hash key change rest).map fun (old, rest) => (old, node :: rest)

/-- The value of the entry asked for, and the chain without the entry. -/
def extract (hash : UInt64) (key : K) : Chain K V → Option (V × Chain K V)
  | [] => none
  | node :: rest =>
    if node.answers hash key then some (node.value, rest)
    else (extract hash key rest).map fun (old, rest) => (old, node :: rest)

/-- The value that is exchanged is the one that is found. -/
theorem exchange_map_fst (hash : UInt64) (key : K) (value : V) (chain : Chain K V) :
    (exchange hash key value chain).map Prod.fst = (find hash key chain).map Node.value := by
  induction chain with
  | nil => rfl
  | cons node rest ih =>
    by_cases h : node.answers hash key <;>
      simp [exchange, find, h, ← ih, Option.map_map, Function.comp_def]

/-- The value that is changed is the one that is found. -/
theorem modify_map_fst (hash : UInt64) (key : K) (change : V → V) (chain : Chain K V) :
    (modify hash key change chain).map Prod.fst = (find hash key chain).map Node.value := by
  induction chain with
  | nil => rfl
  | cons node rest ih =>
    by_cases h : node.answers hash key <;>
      simp [modify, find, h, ← ih, Option.map_map, Function.comp_def]

/-- The value that is taken off is the one that is found. -/
theorem extract_map_fst (hash : UInt64) (key : K) (chain : Chain K V) :
    (extract hash key chain).map Prod.fst = (find hash key chain).map Node.value := by
  induction chain with
  | nil => rfl
  | cons node rest ih =>
    by_cases h : node.answers hash key <;>
      simp [extract, find, h, ← ih, Option.map_map, Function.comp_def]

end Chain

end Lookup

end ManagedCore
