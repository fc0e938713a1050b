import ManagedCore.Dictionary.Chain

/-!
# One place in a chain

The four walks along a chain stop at the same entry: the first one with the hash and the key that
are asked for. `Splits` names this entry and what stands before and after it, and every walk is
described by the two parts.
-/

namespace ManagedCore

variable {K V : Type} [DecidableEq K] {hash : UInt64} {key : K}

/-- An entry is the one asked for when both its hash and its key are. -/
theorem Node.answers_iff {node : Node K V} :
    node.answers hash key = true ↔ node.hash = hash ∧ node.key = key := by
  simp [Node.answers]

namespace Chain

/-- The first entry of a chain with a hash and a key, and what stands before and after it. -/
structure Splits (hash : UInt64) (key : K) (chain before : Chain K V) (node : Node K V)
    (after : Chain K V) : Prop where
  chain_eq : chain = before ++ node :: after
  before : ∀ other ∈ before, other.answers hash key = false
  answers : node.answers hash key = true

/-- No entry of a chain has the hash and the key. -/
def Misses (hash : UInt64) (key : K) (chain : Chain K V) : Prop :=
  ∀ node ∈ chain, node.answers hash key = false

/-- A chain that does not miss an entry splits at the first one. -/
theorem splits_or_misses (hash : UInt64) (key : K) (chain : Chain K V) :
    (∃ before node after, Splits hash key chain before node after) ∨ Misses hash key chain := by
  induction chain with
  | nil => exact .inr (List.forall_mem_nil _)
  | cons first rest ih =>
    by_cases hfirst : first.answers hash key = true
    · exact .inl ⟨[], first, rest, rfl, List.forall_mem_nil _, hfirst⟩
    · have hother : first.answers hash key = false := by simpa using hfirst
      rcases ih with ⟨before, node, after, hsplits⟩ | hmisses
      · refine .inl ⟨first :: before, node, after, ?_, ?_, hsplits.answers⟩
        · rw [hsplits.chain_eq, List.cons_append]
        · exact List.forall_mem_cons.mpr ⟨hother, hsplits.before⟩
      · exact .inr (List.forall_mem_cons.mpr ⟨hother, hmisses⟩)

section Misses

variable {chain : Chain K V}

/-- Nothing is found in a chain without the entry. -/
theorem Misses.find_eq (h : Misses hash key chain) : find hash key chain = none := by
  induction chain with
  | nil => rfl
  | cons first rest ih =>
    obtain ⟨hfirst, hrest⟩ := List.forall_mem_cons.mp h
    simp [find, hfirst, ih hrest]

/-- Nothing is exchanged in a chain without the entry. -/
theorem Misses.exchange_eq (h : Misses hash key chain) (value : V) :
    exchange hash key value chain = none := by
  simpa [h.find_eq] using exchange_map_fst hash key value chain

/-- Nothing is changed in a chain without the entry. -/
theorem Misses.modify_eq (h : Misses hash key chain) (change : V → V) :
    modify hash key change chain = none := by
  simpa [h.find_eq] using modify_map_fst hash key change chain

/-- Nothing is taken off a chain without the entry. -/
theorem Misses.extract_eq (h : Misses hash key chain) : extract hash key chain = none := by
  simpa [h.find_eq] using extract_map_fst hash key chain

end Misses

section Splits

variable {chain before after : Chain K V} {node : Node K V}

/-- The first entry is found. -/
theorem Splits.find_eq (h : Splits hash key chain before node after) :
    find hash key chain = some node := by
  obtain ⟨rfl, hbefore, hnode⟩ := h
  induction before with
  | nil => simp [find, hnode]
  | cons first rest ih =>
    obtain ⟨hfirst, hrest⟩ := List.forall_mem_cons.mp hbefore
    simpa [find, hfirst] using ih hrest

/-- The value of the first entry is exchanged. -/
theorem Splits.exchange_eq (h : Splits hash key chain before node after) (value : V) :
    exchange hash key value chain =
      some (node.value, before ++ { node with value := value } :: after) := by
  obtain ⟨rfl, hbefore, hnode⟩ := h
  induction before with
  | nil => simp [exchange, hnode]
  | cons first rest ih =>
    obtain ⟨hfirst, hrest⟩ := List.forall_mem_cons.mp hbefore
    simp [exchange, hfirst, ih hrest]

/-- The value of the first entry is changed. -/
theorem Splits.modify_eq (h : Splits hash key chain before node after) (change : V → V) :
    modify hash key change chain =
      some (node.value, before ++ { node with value := change node.value } :: after) := by
  obtain ⟨rfl, hbefore, hnode⟩ := h
  induction before with
  | nil => simp [modify, hnode]
  | cons first rest ih =>
    obtain ⟨hfirst, hrest⟩ := List.forall_mem_cons.mp hbefore
    simp [modify, hfirst, ih hrest]

/-- The first entry is taken off. -/
theorem Splits.extract_eq (h : Splits hash key chain before node after) :
    extract hash key chain = some (node.value, before ++ after) := by
  obtain ⟨rfl, hbefore, hnode⟩ := h
  induction before with
  | nil => simp [extract, hnode]
  | cons first rest ih =>
    obtain ⟨hfirst, hrest⟩ := List.forall_mem_cons.mp hbefore
    simp [extract, hfirst, ih hrest]

end Splits

end Chain

end ManagedCore
