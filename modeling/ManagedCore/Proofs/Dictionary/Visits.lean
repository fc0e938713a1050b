import ManagedCore.Dictionary.Edges
import ManagedCore.Proofs.Collector.Visits
import ManagedCore.Proofs.Dictionary.Operations

/-!
# Visits of dictionaries

A collector that visits a dictionary visits its entries as a list, in the order of iteration, the
key of each before its value. Whatever it makes of them, every entry stays in its place and keeps
its remembered hash.
-/

namespace ManagedCore

variable {K V σ : Type}

/-- The key and the value of an entry. -/
def Node.binding (node : Node K V) : K × V := (node.key, node.value)

/-- The entry with another key and value, and the old hash. -/
def Node.withBinding (node : Node K V) (binding : K × V) : Node K V :=
  { node with key := binding.1, value := binding.2 }

/-- Chains of the same lengths with other keys and values. -/
def refill : List (Chain K V) → List (K × V) → List (Chain K V)
  | [], _ => []
  | chain :: rest, bindings =>
    List.zipWith Node.withBinding chain (bindings.take chain.length) ::
      refill rest (bindings.drop chain.length)

/-- The first chain takes as many keys and values as it has entries. -/
theorem refill_append {chain : Chain K V} {first : List (K × V)} (h : first.length = chain.length)
    (rest : List (Chain K V)) (second : List (K × V)) :
    refill (chain :: rest) (first ++ second) =
      List.zipWith Node.withBinding chain first :: refill rest second := by
  rw [refill, List.take_left' h, List.drop_left' h]

/-- Chains filled with their own keys and values are as they were. -/
theorem refill_self (chains : List (Chain K V)) :
    refill chains (chains.flatten.map Node.binding) = chains := by
  induction chains with
  | nil => rfl
  | cons chain rest ih =>
    rw [List.flatten_cons, List.map_append, refill_append (List.length_map ..), ih,
      List.zipWith_map_right, List.zipWith_self]
    simp [Node.withBinding, Node.binding]

/-- Entries filled with keys and values have these, and the old hashes. -/
theorem zipWith_withBinding {chain : Chain K V} {bindings : List (K × V)}
    (h : bindings.length = chain.length) :
    (List.zipWith Node.withBinding chain bindings).map Node.binding = bindings ∧
      (List.zipWith Node.withBinding chain bindings).map Node.hash = chain.map Node.hash := by
  induction chain generalizing bindings with
  | nil => simpa using (List.eq_nil_of_length_eq_zero h).symm
  | cons node rest ih =>
    cases bindings with
    | nil => simp at h
    | cons binding bindings =>
      obtain ⟨hbindings, hhashes⟩ := ih (Nat.succ.inj h)
      rw [List.zipWith_cons_cons, List.map_cons, List.map_cons, List.map_cons, hbindings, hhashes]
      exact ⟨rfl, rfl⟩

/-- Chains filled with keys and values have these, and the old hashes in the old places. -/
theorem refill_spec {chains : List (Chain K V)} {bindings : List (K × V)}
    (h : bindings.length = chains.flatten.length) :
    (refill chains bindings).flatten.map Node.binding = bindings ∧
      (refill chains bindings).map (List.map Node.hash) = chains.map (List.map Node.hash) := by
  induction chains generalizing bindings with
  | nil => simpa [refill] using (List.eq_nil_of_length_eq_zero h).symm
  | cons chain rest ih =>
    rw [List.flatten_cons, List.length_append] at h
    have hchain : (bindings.take chain.length).length = chain.length := by
      rw [List.length_take]
      omega
    have hrest : (bindings.drop chain.length).length = rest.flatten.length := by
      rw [List.length_drop]
      omega
    obtain ⟨hfirst, hhash⟩ := zipWith_withBinding hchain
    obtain ⟨hsecond, hhashes⟩ := ih hrest
    rw [refill, List.flatten_cons, List.map_append, hfirst, hsecond, List.take_append_drop,
      List.map_cons, List.map_cons, hhash, hhashes]
    exact ⟨rfl, rfl⟩

/-- A dictionary with other keys and values in the places of its entries. -/
def Dictionary.refilled (d : Dictionary K V) (bindings : List (K × V)) : Dictionary K V :=
  { d with buckets := (refill d.buckets.toList bindings).toArray }

section Visits

variable [Visitable K] [Visitable V]

/-- Visits a key and then its value. -/
def visitBinding (visitor : Visitor σ) : Visit σ (K × V) Unit := fun ((key, value), memory) =>
  match visitEdges visitor (key, memory) with
  | .error violation (key, memory) => .error violation ((key, value), memory)
  | .ok _ (key, memory) => Visit.on value (fun value => (key, value)) (visitEdges visitor) memory

/-- Visits keys and values from left to right. -/
def visitBindings (visitor : Visitor σ) : Visit σ (List (K × V)) Unit :=
  Visit.items (visitBinding visitor)

/-- An entry is visited through its key and value. -/
theorem Node.visit_eq (visitor : Visitor σ) (node : Node K V) (memory : σ) :
    Node.visit visitor (node, memory) =
      Visit.on node.binding node.withBinding (visitBinding visitor) memory := by
  simp only [Node.visit, visitBinding, Node.binding, Visit.on]
  cases visitEdges visitor (node.key, memory) with
  | error violation state => rfl
  | ok _ state =>
    simp only
    cases visitEdges visitor (node.value, state.2) <;> rfl

/-- A chain is visited through its keys and values. -/
theorem Chain.visit_eq (visitor : Visitor σ) (chain : Chain K V) (memory : σ) :
    Chain.visit visitor (chain, memory) =
      Visit.on (chain.map Node.binding) (List.zipWith Node.withBinding chain)
        (visitBindings visitor) memory :=
  Visit.items_on (visitBinding visitor) Node.binding Node.withBinding (Node.visit visitor)
    (fun _ => rfl) (Node.visit_eq visitor) chain memory

/-- Chains are visited through their keys and values. -/
theorem visitChains_eq (visitor : Visitor σ) (chains : List (Chain K V)) (memory : σ) :
    Visit.items (Chain.visit visitor) (chains, memory) =
      Visit.on (chains.flatten.map Node.binding) (refill chains) (visitBindings visitor) memory := by
  induction chains generalizing memory with
  | nil => rfl
  | cons chain rest ih =>
    have hlength : (outcome (visitBindings visitor (chain.map Node.binding, memory))).2.1.length =
        chain.length := by
      rw [visitBindings, Visit.length_items, List.length_map]
    rw [List.flatten_cons, List.map_append, Visit.on, visitBindings, Visit.items_append,
      ← visitBindings]
    simp only [Visit.items, Visit.each, Chain.visit_eq, Visit.on] at ih ⊢
    cases hfirst : visitBindings visitor (chain.map Node.binding, memory) with
    | error violation state =>
      rw [hfirst] at hlength
      have hstate : state.1.length = chain.length := hlength
      simp only [refill_append hstate, refill_self]
    | ok _ state =>
      rw [hfirst] at hlength
      have hstate : state.1.length = chain.length := hlength
      simp only [ih]
      cases visitBindings visitor (rest.flatten.map Node.binding, state.2) with
      | error violation state' => simp only [refill_append hstate]
      | ok _ state' => simp only [refill_append hstate]

namespace Dictionary

/-- A dictionary is visited through its keys and values. -/
theorem visitEdges_eq (visitor : Visitor σ) (d : Dictionary K V) (memory : σ) :
    visitEdges visitor (d, memory) =
      Visit.on d.entries d.refilled (visitBindings visitor) memory := by
  have hchains := visitChains_eq visitor d.buckets.toList memory
  have hentries : d.entries = d.buckets.toList.flatten.map Node.binding := rfl
  simp only [Visit.items, Visit.on] at hchains
  simp only [visitEdges, hchains, Visit.on, hentries]
  cases visitBindings visitor (d.buckets.toList.flatten.map Node.binding, memory) <;> rfl

/-- A visit leaves the dictionary refilled with what the visited bindings have become. -/
theorem outcome_visitEdges (visitor : Visitor σ) (d : Dictionary K V) (memory : σ) :
    outcome (visitEdges visitor (d, memory)) =
      ((outcome (visitBindings visitor (d.entries, memory))).1,
        d.refilled (outcome (visitBindings visitor (d.entries, memory))).2.1,
        (outcome (visitBindings visitor (d.entries, memory))).2.2) := by
  rw [visitEdges_eq, Visit.outcome_on]

/-- A visit leaves as many keys and values as there were. -/
theorem length_visitBindings (visitor : Visitor σ) (bindings : List (K × V)) (memory : σ) :
    (outcome (visitBindings visitor (bindings, memory))).2.1.length = bindings.length :=
  Visit.length_items _ bindings memory

end Dictionary

end Visits

namespace Dictionary

variable {d : Dictionary K V} {bindings : List (K × V)}

/-- Refilled with as many keys and values, the buckets have these, and the old hashes. -/
theorem refilled_spec (hlength : bindings.length = d.entries.length) :
    (d.refilled bindings).entries = bindings ∧
      (d.refilled bindings).buckets.toList.map (List.map Node.hash) =
        d.buckets.toList.map (List.map Node.hash) := by
  rw [entries, List.length_map] at hlength
  exact refill_spec (show bindings.length = d.buckets.toList.flatten.length from hlength)

/-- Refilled with as many keys and values, a dictionary has these in the old places. -/
theorem Sound.refilled (h : d.Sound) (hlength : bindings.length = d.entries.length) :
    Keeps d (d.refilled bindings) ∧ (d.refilled bindings).entries = bindings ∧
      (d.refilled bindings).nodes.map Node.hash = d.nodes.map Node.hash := by
  obtain ⟨hbindings, hhashes⟩ := refilled_spec hlength
  have hcount : (d.refilled bindings).nodes.length = d.nodes.length := by
    have hbinding := congrArg List.length hbindings
    rwa [hlength, entries, entries, List.length_map, List.length_map] at hbinding
  refine ⟨⟨⟨h.initial, h.placed.congr hhashes, h.size.trans hcount.symm⟩, rfl, rfl⟩, hbindings, ?_⟩
  have hflat := congrArg List.flatten hhashes
  rw [← List.map_flatten, ← List.map_flatten] at hflat
  exact hflat

end Dictionary

end ManagedCore
