import ManagedCore.Proofs.Dictionary.Visits

/-!
# Runs of dictionaries

A client does one operation after another and is told the answer to each. A collector that visits
the dictionary in between keeps a memory of type `σ`. Nothing that a client or a collector does takes
an entry out of the bucket of its remembered hash, or miscounts the entries.
-/

namespace ManagedCore.Dictionary

/-- What a client or a collector does with a dictionary. -/
inductive Operation (K V σ : Type) where
  | put (key : K) (value : V)
  | get (key : K)
  | modify (key : K) (change : V → V)
  | contains (key : K)
  | erase (key : K)
  | clear
  | size
  | isEmpty
  | keys
  | entries
  | visit (visitor : Visitor σ) (memory : σ)

/-- What an operation tells. -/
inductive Answer (K V σ : Type) where
  | value (value : Option V)
  | truth (holds : Bool)
  | number (count : Nat)
  | keys (keys : List K)
  | entries (entries : List (K × V))
  | cleared
  | visited (result : Except Violation Unit) (memory : σ)
  | halted (violation : Violation)
  deriving DecidableEq

variable {K V σ : Type} [DecidableEq K] [Visitable K] [Visitable V]

/-- The answer to an operation and the dictionary that it leaves. -/
def Operation.run : Operation K V σ → Dictionary K V → Answer K V σ × Dictionary K V
  | put key value, d =>
    match Dictionary.put key value d with
    | .ok old d => (.value old, d)
    | .error violation d => (.halted violation, d)
  | get key, d => (.value (d.get? key), d)
  | modify key change, d =>
    let (old, d) := d.modify key change
    (.value old, d)
  | contains key, d => (.truth (d.contains key), d)
  | erase key, d =>
    let (old, d) := d.erase key
    (.value old, d)
  | clear, d => (.cleared, d.clear)
  | size, d => (.number d.size, d)
  | isEmpty, d => (.truth d.isEmpty, d)
  | keys, d => (.keys d.keys, d)
  | entries, d => (.entries d.entries, d)
  | visit visitor memory, d =>
    let (result, d, memory) := outcome (visitEdges visitor (d, memory))
    (.visited result memory, d)

/-- The answers to operations one after another, and the dictionary that they leave. -/
def runAll : List (Operation K V σ) → Dictionary K V → List (Answer K V σ) × Dictionary K V
  | [], d => ([], d)
  | operation :: rest, d =>
    let (answer, d) := operation.run d
    let (answers, d) := runAll rest d
    (answer :: answers, d)

/-- Without buckets to be had, an insertion halts, and the threshold shows that it was tried. -/
theorem run_put_of_refuses {d : Dictionary K V} (h : d.refusesBuckets = true) (key : K)
    (value : V) : (Operation.put key value : Operation K V σ).run d = (.halted .capacityOverflow,
      { d with threshold := d.settings.threshold d.settings.initialCapacity }) := by
  simp [Operation.run, put, h]

/-- With buckets, an insertion tells the old value. -/
theorem run_put {d : Dictionary K V} (h : d.refusesBuckets = false) (key : K) (value : V) :
    (Operation.put key value : Operation K V σ).run d =
      (.value (d.insert key value).1, (d.insert key value).2) := by
  simp [Operation.run, put, h]

/-- Every operation keeps entries in their buckets and counts them. -/
theorem Sound.run {d : Dictionary K V} (h : d.Sound) (operation : Operation K V σ) :
    Keeps d (operation.run d).2 := by
  cases operation with
  | put key value =>
    by_cases hrefuses : d.refusesBuckets = true
    · rw [run_put_of_refuses hrefuses]
      exact ⟨⟨h.initial, h.placed, h.size⟩, rfl, rfl⟩
    · rw [run_put (by simpa using hrefuses)]
      exact (h.insert_spec key value).1
  | modify key change => exact (h.modify_spec key change).1
  | erase key => exact (h.erase_spec key).1
  | clear => exact h.clear
  | visit visitor memory =>
    simp only [Operation.run, outcome_visitEdges]
    exact (h.refilled (length_visitBindings visitor d.entries memory)).1
  | get key => exact ⟨h, rfl, rfl⟩
  | contains key => exact ⟨h, rfl, rfl⟩
  | size => exact ⟨h, rfl, rfl⟩
  | isEmpty => exact ⟨h, rfl, rfl⟩
  | keys => exact ⟨h, rfl, rfl⟩
  | entries => exact ⟨h, rfl, rfl⟩

/-- A run keeps entries in their buckets, and the settings. -/
theorem Sound.runAll {d : Dictionary K V} (h : d.Sound)
    (operations : List (Operation K V σ)) :
    Keeps d (Dictionary.runAll operations d).2 := by
  induction operations generalizing d with
  | nil => exact ⟨h, rfl, rfl⟩
  | cons operation rest ih =>
    have hkeeps := h.run operation
    exact hkeeps.trans (ih hkeeps.sound)

end ManagedCore.Dictionary
