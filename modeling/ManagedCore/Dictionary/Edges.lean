import ManagedCore.Collector.Visitor
import ManagedCore.Dictionary.Basic

/-!
# The edges of a dictionary

A collector visits every entry in the order of iteration, the key first and then the value, and may
change both in place. Remembered hashes, and with them the places of the entries, stay as they are:
a key that is changed can only be found again if its hash is still the same.
-/

namespace ManagedCore

variable {K V σ : Type}

/-- Visits the key of an entry and then its value. -/
def Node.visit [Visitable K] [Visitable V] (visitor : Visitor σ) : Visit σ (Node K V) Unit :=
  fun (node, memory) =>
    match visitEdges visitor (node.key, memory) with
    | .error violation (key, memory) => .error violation ({ node with key := key }, memory)
    | .ok _ (key, memory) =>
      Visit.on node.value ({ node with key := key, value := · }) (visitEdges visitor) memory

/-- Visits the entries of a chain from the newest on. -/
def Chain.visit [Visitable K] [Visitable V] (visitor : Visitor σ) : Visit σ (Chain K V) Unit :=
  fun (chain, memory) => Visit.each (Node.visit visitor) chain memory

instance [Visitable K] [Visitable V] : Visitable (Dictionary K V) where
  visitEdges visitor := fun (d, memory) =>
    match Visit.each (Chain.visit visitor) d.buckets.toList memory with
    | .ok _ (buckets, memory) => .ok () ({ d with buckets := buckets.toArray }, memory)
    | .error violation (buckets, memory) =>
      .error violation ({ d with buckets := buckets.toArray }, memory)

/-- Text holds no edge. -/
instance : Visitable String where
  visitEdges _ := fun state => .ok () state

/-- Entries between braces, from the texts of their keys and values. -/
def Dictionary.inspectEntries (key : K → String) (value : V → String) (entries : List (K × V)) :
    String :=
  "\x7b" ++ ", ".intercalate (entries.map fun (k, v) => key k ++ ": " ++ value v) ++ "\x7d"

/-- A dictionary between braces, in the order of iteration. -/
def Dictionary.inspect (key : K → String) (value : V → String) (d : Dictionary K V) : String :=
  Dictionary.inspectEntries key value d.entries

end ManagedCore
