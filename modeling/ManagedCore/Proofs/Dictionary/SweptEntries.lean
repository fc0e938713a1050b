import ManagedCore.Proofs.Collector.Sweeps
import ManagedCore.Proofs.Dictionary.FiniteMaps

/-!
# Sweeps over dictionaries

The values in a dictionary are those in its entries, in the order of iteration, first the ones in
the key and then the ones in the value. A collector that visits the dictionary walks its buckets and
chains, and changes them under way.

Main statement: the visit is the sweep over these values. It leaves the entries in their places, with
the shapes and the remembered hashes that they had, also when it halts.
-/

namespace ManagedCore.Dictionary

variable {σ : Type} {k v : Nesting}

/-- The values in a key and then those in its value. -/
def bindingEdges (k v : Nesting) (binding : k.Carrier × v.Carrier) : List Value :=
  k.edges binding.1 ++ v.edges binding.2

/-- Keys of one shape, with values of one shape. -/
def BindingShape (k v : Nesting) (binding binding' : k.Carrier × v.Carrier) : Prop :=
  k.SameShape binding.1 binding'.1 ∧ v.SameShape binding.2 binding'.2

/-- The values in a dictionary, in the order of iteration. -/
def edges (d : Dictionary k.Carrier v.Carrier) : List Value := d.entries.flatMap (bindingEdges k v)

/-- A visit of a key and its value is a sweep over the values in both. -/
theorem sweeps_visitBinding (k v : Nesting) (visitor : Visitor σ) :
    Visit.Sweeps visitor.edge (bindingEdges k v) (BindingShape k v) (visitBinding visitor) where
  meets binding memory := by
    have hkey := (k.sweeps visitor).meets binding.1 memory
    simp only [bindingEdges, visitBinding, Visit.items_append, ← hkey, Visit.on]
    cases visitEdges visitor (binding.1, memory) with
    | error violation state => rfl
    | ok _ state =>
      have hvalue := (v.sweeps visitor).meets binding.2 state.2
      simp only [← hvalue, Visit.on]
      cases visitEdges visitor (binding.2, state.2) <;> rfl
  keeps binding memory := by
    have hkey := (k.sweeps visitor).keeps binding.1 memory
    simp only [visitBinding]
    cases hfirst : visitEdges visitor (binding.1, memory) with
    | error violation state =>
      rw [hfirst] at hkey
      exact ⟨hkey, v.sameShape_refl binding.2⟩
    | ok _ state =>
      rw [hfirst] at hkey
      rw [Visit.outcome_on]
      exact ⟨hkey, (v.sweeps visitor).keeps binding.2 state.2⟩

/-- A visit of keys and values is a sweep over the values in all of them. -/
theorem sweeps_visitBindings (k v : Nesting) (visitor : Visitor σ) :
    Visit.Sweeps visitor.edge (List.flatMap (bindingEdges k v))
      (List.Forall₂ (BindingShape k v)) (visitBindings visitor) :=
  (sweeps_visitBinding k v visitor).items fun binding =>
    ⟨k.sameShape_refl binding.1, v.sameShape_refl binding.2⟩

/--
The dictionary has the values that a sweep has made, in entries of the old shapes, places and
remembered hashes.
-/
structure Swept (d d' : Dictionary k.Carrier v.Carrier) (values : List Value) : Prop where
  values : d'.edges = values
  entries : List.Forall₂ (BindingShape k v) d.entries d'.entries
  hashes : d'.buckets.toList.map (List.map Node.hash) = d.buckets.toList.map (List.map Node.hash)
  bucketCount : d'.bucketCount = d.bucketCount
  size : d'.size = d.size
  threshold : d'.threshold = d.threshold
  settings : d'.settings = d.settings
  hasher : d'.hasher = d.hasher

/--
A collector that visits a dictionary of nested keys and values sweeps over the values in it, in the
order of iteration, and is told no record. If it halts, the values before are as it made them, the
one it halts at is as its own action left it, and those behind are as they were.
-/
theorem visitEdges_sweeps (d : Dictionary k.Carrier v.Carrier) (visitor : Visitor σ) (memory : σ) :
    let sweep := Sweep.run visitor.edge d.edges memory
    ∃ d', outcome (visitEdges visitor (d, memory)) = (sweep.result, d', sweep.memory) ∧
      d.Swept d' sweep.values ∧
      (∀ mark : Nat → Visit σ Value Unit, visitor = .ofMark mark → visitor.edge = mark noRecord) ∧
      ∀ violation, sweep.result = .error violation →
        ∃ before slot after visited between stopped, d.edges = before ++ slot :: after ∧
          Sweep.run visitor.edge before memory = ⟨.ok (), visited, between⟩ ∧
          visitor.edge (slot, between) = .error violation (stopped, sweep.memory) ∧
          sweep.values = visited ++ stopped :: after := by
  intro sweep
  have hsweeps := sweeps_visitBindings k v visitor
  have hlength := length_visitBindings visitor d.entries memory
  obtain ⟨hentries, hhashes⟩ := refilled_spec hlength
  have hvisit : sweep = ⟨(outcome (visitBindings visitor (d.entries, memory))).1,
      (outcome (visitBindings visitor (d.entries, memory))).2.1.flatMap (bindingEdges k v),
      (outcome (visitBindings visitor (d.entries, memory))).2.2⟩ := by
    have hmeets := congrArg outcome (hsweeps.meets d.entries memory)
    rw [Visit.outcome_on] at hmeets
    exact (Sweep.run_eq visitor.edge d.edges memory).trans (by rw [edges, ← hmeets])
  refine ⟨_, outcome_visitEdges visitor d memory |>.trans (by rw [hvisit]), ?_, ?_, fun violation =>
    Sweep.run_of_error⟩
  · exact {
      values := by rw [edges, hentries, hvisit]
      entries := hentries.symm ▸ hsweeps.keeps d.entries memory
      hashes := hhashes
      bucketCount := by simpa [Dictionary.bucketCount] using congrArg List.length hhashes
      size := rfl
      threshold := rfl
      settings := rfl
      hasher := rfl }
  · rintro mark rfl
    rfl

/-- A collector that makes values greater by one, and stumbles over the one after so many. -/
def stumbling : Visitor Nat where
  edge
    | (value, 0) => .error (.raised "stumbled") (⟨value.word + 2⟩, 0)
    | (value, left + 1) => .ok () (⟨value.word + 2⟩, left)

/-- Keys that are sequences of values, with optional values, hashed by their length. -/
def nested : List (Operation (List Value) (Option Value) Nat) :=
  [.put [.ofNat 1, .ofNat 2] (some (.ofNat 3)), .put [] none, .put [.ofNat 4] (some (.ofNat 5))]

/--
The entry of the shortest key comes first, and that of the longest one last. The visit halts in the
last key; its first value is changed, and what stands behind it is not.
-/
theorem visitEdges_sweeps_nested :
    ∃ first d' : Dictionary (List Value) (Option Value),
      create .standard (fun key => key.length.toUInt64) = .ok first ∧
      outcome (visitEdges stumbling ((runAll nested first).2, 2)) =
        (.error (.raised "stumbled"), d', 0) ∧
      edges (k := .sequence .value) (v := .optional .value) (runAll nested first).2 =
        [4, 5, 1, 2, 3].map .ofNat ∧
      edges (k := .sequence .value) (v := .optional .value) d' = [5, 6, 2, 2, 3].map .ofNat ∧
      List.Forall₂ (BindingShape (.sequence .value) (.optional .value))
        (runAll nested first).2.entries d'.entries := by
  have hcreate := create_of_validate (V := Option Value) validate_standard
    fun key : List Value => key.length.toUInt64
  have hedges : edges (k := .sequence .value) (v := .optional .value)
      (runAll nested ⟨#[], 0, 0, .standard, fun key => key.length.toUInt64⟩).2 =
      [4, 5, 1, 2, 3].map .ofNat := by decide +kernel
  have hsweep : Sweep.run stumbling.edge ([4, 5, 1, 2, 3].map .ofNat) 2 =
      ⟨.error (.raised "stumbled"), [5, 6, 2, 2, 3].map .ofNat, 0⟩ := rfl
  obtain ⟨d', hvisit, hswept, -, -⟩ := visitEdges_sweeps (k := .sequence .value)
    (v := .optional .value) (runAll nested _).2 stumbling 2
  rw [hedges, hsweep] at hvisit hswept
  exact ⟨_, d', hcreate, hvisit, hedges, hswept.values, hswept.entries⟩

/-- A collector that makes values greater by one, and then refuses them for a misaligned address. -/
def misaligning : Visitor Unit where
  edge := fun (value, memory) =>
    match Value.ofAddress 3 with
    | .ok reference => .ok () (reference, memory)
    | .error violation => .error violation (⟨value.word + 2⟩, memory)

/--
A visit that halts at the only value of a dictionary has met none before it, and yet the value is
changed: what the collector did to it before it halted stays.
-/
theorem halted_value_changes :
    ∃ first d' : Dictionary Int64 Value,
      create .standard (fun key => key.toUInt64) = .ok first ∧
      (runAll [(.put 1 (.ofNat 5) : Operation Int64 Value Unit)] first).2.entries =
        [(1, .ofNat 5)] ∧
      outcome (visitEdges misaligning
          ((runAll [(.put 1 (.ofNat 5) : Operation Int64 Value Unit)] first).2, ())) =
        (.error (.misalignedAddress 3), d', ()) ∧
      d'.entries = [(1, .ofNat 6)] := by
  refine ⟨_, _, create_of_validate validate_standard _, by decide +kernel,
    Prod.ext (by decide +kernel) rfl, by decide +kernel⟩

end ManagedCore.Dictionary
