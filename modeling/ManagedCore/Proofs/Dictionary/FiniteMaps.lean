import ManagedCore.Proofs.Dictionary.Bindings
import ManagedCore.Proofs.Dictionary.Runs

/-!
# Dictionaries are finite maps

Whatever the hash function, a dictionary answers as the finite map of its bindings does. Chains,
growth and remembered hashes show in the order of iteration and nowhere else. A borrowed form of a
key hashes and compares as the key does, and stands for it here.

There is one limit: initial buckets that take half of the address space cannot be had, and then
every insertion halts and binds nothing. Growth does not meet this limit before memory runs out: the
buckets to grow from would already take a quarter of the address space.
-/

namespace ManagedCore

/-- Whether the initial buckets can be allocated. -/
def DictionarySettings.allocates (settings : DictionarySettings) : Prop :=
  settings.initialCapacity * Dictionary.bucketBytes < allocationLimit

namespace Dictionary

variable {K V σ : Type} [DecidableEq K]

/--
The answer to an operation that a finite map explains, and the map afterwards. Bindings are listed
in any order, and visited in any order.
-/
inductive Explains [Visitable K] [Visitable V] (allocates : Prop) (m : FiniteMap K V) :
    Operation K V σ → Answer K V σ → FiniteMap K V → Prop
  | put (key : K) (value : V) (h : allocates) :
    Explains allocates m (.put key value) (.value (m.lookup key)) (m.insert key value)
  | refuse (key : K) (value : V) (h : ¬allocates) :
    Explains allocates m (.put key value) (.halted .capacityOverflow) m
  | get (key : K) : Explains allocates m (.get key) (.value (m.lookup key)) m
  | modify (key : K) (change : V → V) :
    Explains allocates m (.modify key change) (.value (m.lookup key))
      (match m.lookup key with
      | some value => m.insert key (change value)
      | none => m)
  | contains (key : K) : Explains allocates m (.contains key) (.truth (decide (key ∈ m))) m
  | erase (key : K) : Explains allocates m (.erase key) (.value (m.lookup key)) (m.erase key)
  | clear : Explains allocates m .clear .cleared ∅
  | size : Explains allocates m .size (.number m.keys.card) m
  | isEmpty : Explains allocates m .isEmpty (.truth (decide (m.keys = ∅))) m
  | keys {keys : List K} (hdistinct : keys.Nodup) (hkeys : ∀ key, key ∈ keys ↔ key ∈ m) :
    Explains allocates m .keys (.keys keys) m
  | entries {bindings : List (K × V)} (h : Lists bindings m) :
    Explains allocates m .entries (.entries bindings) m
  | visit {visitor : Visitor σ} {memory memory' : σ} {result : Except Violation Unit}
    {bindings bindings' : List (K × V)} {m' : FiniteMap K V} (h : Lists bindings m)
    (hvisit : outcome (visitBindings visitor (bindings, memory)) = (result, bindings', memory'))
    (hkeys : bindings'.map Prod.fst = bindings.map Prod.fst) (h' : Lists bindings' m') :
    Explains allocates m (.visit visitor memory) (.visited result memory') m'

/-- The answers to operations that a finite map explains, and the map afterwards. -/
inductive ExplainsAll [Visitable K] [Visitable V] (allocates : Prop) :
    FiniteMap K V → List (Operation K V σ) → List (Answer K V σ) → FiniteMap K V → Prop
  | nil (m : FiniteMap K V) : ExplainsAll allocates m [] [] m
  | cons {m m' m'' : FiniteMap K V} {operation : Operation K V σ}
    {rest : List (Operation K V σ)} {answer : Answer K V σ} {answers : List (Answer K V σ)}
    (h : Explains allocates m operation answer m') (hrest : ExplainsAll allocates m' rest answers m'') :
    ExplainsAll allocates m (operation :: rest) (answer :: answers) m''

/-- The dictionary has the bindings of the map, under the hashes of their keys. -/
structure Represents (d : Dictionary K V) (m : FiniteMap K V) : Prop where
  sound : d.Sound
  hashed : ∀ node ∈ d.nodes, node.hash = d.hasher node.key
  lists : Lists d.entries m
  refused : ¬d.settings.allocates → d.buckets = #[]

/-- A new dictionary represents the empty map. -/
theorem represents_create {settings : DictionarySettings} {hasher : K → UInt64}
    {d : Dictionary K V} (h : create settings hasher = .ok d) : d.Represents ∅ := by
  have hsound := sound_create h
  obtain ⟨-, rfl⟩ := create_eq h
  exact ⟨hsound, List.forall_mem_nil _, .nil, fun _ => rfl⟩

omit [DecidableEq K] in
/-- The keys of the entries are the keys. -/
theorem map_fst_entries (d : Dictionary K V) : d.entries.map Prod.fst = d.keys :=
  List.map_map ..

namespace Represents

variable {d : Dictionary K V} {m : FiniteMap K V} {key : K}

/-- Insertions are refused exactly when the initial buckets cannot be allocated. -/
theorem refusesBuckets_eq (h : d.Represents m) :
    d.refusesBuckets = true ↔ ¬d.settings.allocates := by
  rw [refusesBuckets, DictionarySettings.allocates, Nat.not_lt, Bool.and_eq_true, decide_eq_true_eq]
  constructor
  · exact And.right
  · intro hlimit
    have hbuckets := h.refused (Nat.not_lt.mpr hlimit)
    exact ⟨by rw [hbuckets]; rfl, hlimit⟩

/-- A key without an entry under its hash is not bound. -/
theorem notMem_keys (h : d.Represents m) (hmisses : Chain.Misses (d.hasher key) key d.nodes) :
    key ∉ d.entries.map Prod.fst := by
  rw [map_fst_entries, keys, List.mem_map]
  rintro ⟨node, hmem, rfl⟩
  have hanswers := Node.answers_iff.mpr ⟨h.hashed node hmem, rfl⟩
  rw [hmisses node hmem] at hanswers
  cases hanswers

/-- An entry in its place is a binding in its place. -/
theorem lists_middle (h : d.Represents m) {before after : List (Node K V)} {node : Node K V}
    (hnodes : d.nodes = before ++ node :: after)
    (hanswers : node.answers (d.hasher key) key = true) :
    Lists (before.map Node.binding ++ (key, node.value) :: after.map Node.binding) m := by
  have hlists := h.lists
  obtain ⟨-, rfl⟩ := Node.answers_iff.mp hanswers
  rw [entries, hnodes, List.map_append, List.map_cons] at hlists
  exact hlists

/-- A look-up finds the value that the key is bound to. -/
theorem get?_eq (h : d.Represents m) (key : K) : d.get? key = m.lookup key := by
  rw [get?]
  rcases h.sound.find_spec key with ⟨before, node, after, hnodes, hanswers, hfind⟩ |
    ⟨hmisses, hfind⟩
  · rw [hfind, (h.lists_middle hnodes hanswers).of_middle.1]
    rfl
  · rw [hfind, h.lists.lookup_eq_none (h.notMem_keys hmisses)]
    rfl

/-- A key is found when it is bound. -/
theorem contains_eq (h : d.Represents m) (key : K) : d.contains key = decide (key ∈ m) := by
  have hfind := h.get?_eq key
  rw [get?] at hfind
  rw [contains, ← Option.isSome_map (f := Node.value), hfind, Bool.eq_iff_iff, decide_eq_true_eq]
  exact Finmap.lookup_isSome

/-- There are as many entries as bound keys. -/
theorem size_eq (h : d.Represents m) : d.size = m.keys.card := by
  rw [h.sound.size, ← h.lists.length_eq, entries, List.length_map]

/-- A dictionary is empty when no key is bound. -/
theorem isEmpty_eq (h : d.Represents m) : d.isEmpty = decide (m.keys = ∅) := by
  rw [isEmpty, h.size_eq, Bool.eq_iff_iff, beq_iff_eq, decide_eq_true_eq, Finset.card_eq_zero]

/-- A dictionary with entries could allocate its buckets. -/
theorem allocates_of_mem (h : d.Represents m) {node : Node K V} (hmem : node ∈ d.nodes) :
    d.settings.allocates := by
  by_contra hnot
  rw [nodes, h.refused hnot] at hmem
  cases hmem

/-- Another value in the place of the old one binds the key to it. -/
theorem replaced (h : d.Represents m) {d' : Dictionary K V} (hkeeps : Keeps d d')
    {before after : List (Node K V)} {node : Node K V} (hnodes : d.nodes = before ++ node :: after)
    (hanswers : node.answers (d.hasher key) key = true) {value : V}
    (hnew : d'.nodes = before ++ { node with value := value } :: after) :
    d'.Represents (m.insert key value) := by
  have hmem : node ∈ d.nodes := by simp [hnodes]
  have hallocates := h.allocates_of_mem hmem
  have hlists := (h.lists_middle hnodes hanswers).replace value
  have hhashed := h.hashed
  rw [hnodes, List.forall_mem_append, List.forall_mem_cons] at hhashed
  refine ⟨hkeeps.sound, ?_, ?_, fun hnot => absurd (hkeeps.settings ▸ hallocates) hnot⟩
  · rw [hnew, hkeeps.hasher, List.forall_mem_append, List.forall_mem_cons]
    exact hhashed
  · obtain ⟨-, rfl⟩ := Node.answers_iff.mp hanswers
    rw [entries, hnew, List.map_append, List.map_cons]
    exact hlists

/-- Insertion binds the key, and tells what it was bound to. -/
theorem insert (h : d.Represents m) (hallocates : d.settings.allocates) (key : K) (value : V) :
    (d.insert key value).1 = m.lookup key ∧
      (d.insert key value).2.Represents (m.insert key value) := by
  obtain ⟨hkeeps, ⟨before, node, after, hnodes, hanswers, hold, hnew⟩ | ⟨hmisses, hold, hnew⟩⟩ :=
    h.sound.insert_spec key value
  · refine ⟨?_, h.replaced hkeeps hnodes hanswers hnew⟩
    rw [hold, (h.lists_middle hnodes hanswers).of_middle.1]
  · have hkey := h.notMem_keys hmisses
    refine ⟨?_, hkeeps.sound, ?_, ?_, fun hnot => absurd (hkeeps.settings ▸ hallocates) hnot⟩
    · rw [hold, h.lists.lookup_eq_none hkey]
    · intro node hmem
      rw [hkeeps.hasher]
      rcases List.mem_cons.mp (hnew.mem_iff.mp hmem) with rfl | hmem
      · rfl
      · exact h.hashed node hmem
    · exact (h.lists.cons hkey value).of_perm (hnew.map Node.binding)

/-- A change of a value binds the key to the changed one, if it is bound. -/
theorem modify (h : d.Represents m) (key : K) (change : V → V) :
    (d.modify key change).1 = m.lookup key ∧
      (d.modify key change).2.Represents
        (match m.lookup key with
        | some value => m.insert key (change value)
        | none => m) := by
  obtain ⟨hkeeps, ⟨before, node, after, hnodes, hanswers, hold, hnew⟩ | ⟨hmisses, hsame⟩⟩ :=
    h.sound.modify_spec key change
  · have hlookup := (h.lists_middle hnodes hanswers).of_middle.1
    rw [hold, hlookup]
    exact ⟨rfl, h.replaced hkeeps hnodes hanswers hnew⟩
  · rw [hsame, h.lists.lookup_eq_none (h.notMem_keys hmisses)]
    exact ⟨rfl, h⟩

/-- Removal leaves the key unbound, and tells what it was bound to. -/
theorem erase (h : d.Represents m) (key : K) :
    (d.erase key).1 = m.lookup key ∧ (d.erase key).2.Represents (m.erase key) := by
  obtain ⟨hkeeps, ⟨before, node, after, hnodes, hanswers, hold, hnew⟩ | ⟨hmisses, hsame⟩⟩ :=
    h.sound.erase_spec key
  · have hmem : node ∈ d.nodes := by simp [hnodes]
    have hallocates := h.allocates_of_mem hmem
    obtain ⟨hlookup, -, hlists⟩ := (h.lists_middle hnodes hanswers).of_middle
    have hhashed := h.hashed
    rw [hnodes, List.forall_mem_append, List.forall_mem_cons] at hhashed
    refine ⟨hold.trans hlookup.symm, hkeeps.sound, ?_, ?_,
      fun hnot => absurd (hkeeps.settings ▸ hallocates) hnot⟩
    · rw [hnew, hkeeps.hasher, List.forall_mem_append]
      exact ⟨hhashed.1, hhashed.2.2⟩
    · rw [entries, hnew, List.map_append]
      exact hlists
  · have hlookup := h.lists.lookup_eq_none (h.notMem_keys hmisses)
    have hsame' : m.erase key = m := by
      apply Finmap.ext_lookup
      intro other
      by_cases hother : other = key
      · rw [hother, Finmap.lookup_erase, hlookup]
      · rw [Finmap.lookup_erase_ne hother]
    rw [hsame, hlookup, hsame']
    exact ⟨rfl, h⟩

/-- Other distinct keys under the old hashes, and other values, are those of a finite map. -/
theorem refilled (h : d.Represents m) {bindings : List (K × V)}
    (hlength : bindings.length = d.entries.length) (hdistinct : (bindings.map Prod.fst).Nodup)
    (hhashes : (bindings.map Prod.fst).map d.hasher = d.keys.map d.hasher) :
    ∃ m', Lists bindings m' ∧ (d.refilled bindings).Represents m' := by
  obtain ⟨hkeeps, hentries, hremembered⟩ := h.sound.refilled hlength
  obtain ⟨m', hlists⟩ := Lists.exists_of_distinct hdistinct
  refine ⟨m', hlists, hkeeps.sound, ?_, hentries.symm ▸ hlists, fun hnot => ?_⟩
  · have hhashed : d.nodes.map Node.hash = d.keys.map d.hasher := by
      rw [keys, List.map_map]
      exact List.map_congr_left h.hashed
    have hkeys : bindings.map Prod.fst = (d.refilled bindings).keys := by
      rw [← map_fst_entries, hentries]
    rw [← hremembered, ← hhashes, hkeys, keys, List.map_map] at hhashed
    rw [hkeeps.hasher]
    exact List.map_inj_left.mp hhashed
  · have hbuckets := h.refused (hkeeps.settings ▸ hnot)
    simp only [Dictionary.refilled, hbuckets]
    rfl

section Runs

variable [Visitable K] [Visitable V]

/-- A visit that leaves the keys as they are binds each key to what its value has become. -/
theorem visit (h : d.Represents m) {visitor : Visitor σ} {memory : σ}
    (hkeys : (outcome (visitEdges visitor (d, memory))).2.1.keys = d.keys) :
    ∃ m', Explains d.settings.allocates m (.visit visitor memory)
        (((Operation.visit visitor memory).run d).1) m' ∧
      (outcome (visitEdges visitor (d, memory))).2.1.Represents m' := by
  rw [Operation.run, outcome_visitEdges] at *
  generalize hvisit : outcome (visitBindings visitor (d.entries, memory)) = visited at *
  obtain ⟨result, bindings, memory'⟩ := visited
  have hlength : bindings.length = d.entries.length := by
    have hvisited := length_visitBindings visitor d.entries memory
    rwa [hvisit] at hvisited
  have hentries := (h.sound.refilled hlength).2.1
  have hfirst : bindings.map Prod.fst = d.entries.map Prod.fst := by
    rw [map_fst_entries, ← hkeys, ← map_fst_entries, hentries]
  obtain ⟨m', hlists, hrepresents⟩ := h.refilled hlength (hfirst ▸ h.lists.distinct)
    (by rw [hfirst, map_fst_entries])
  exact ⟨m', .visit h.lists hvisit hfirst hlists, hrepresents⟩

end Runs

end Represents

section Runs

variable [Visitable K] [Visitable V]

/-- Whether the operation leaves the keys of the entries as they are; only a visit may not. -/
def Operation.KeepsKeys : Operation K V σ → Dictionary K V → Prop
  | .visit visitor memory, d => (outcome (visitEdges visitor (d, memory))).2.1.keys = d.keys
  | _, _ => True

/-- Whether all visits of a run leave the keys of the entries as they are. -/
def KeepsKeys : List (Operation K V σ) → Dictionary K V → Prop
  | [], _ => True
  | operation :: rest, d => operation.KeepsKeys d ∧ KeepsKeys rest (operation.run d).2

/-- An operation on a dictionary is explained by the map that it represents. -/
theorem Represents.run {d : Dictionary K V} {m : FiniteMap K V} (h : d.Represents m)
    {operation : Operation K V σ} (hkeys : operation.KeepsKeys d) :
    ∃ m', Explains d.settings.allocates m operation (operation.run d).1 m' ∧
      (operation.run d).2.Represents m' := by
  cases operation with
  | put key value =>
    by_cases hallocates : d.settings.allocates
    · have hbuckets : d.refusesBuckets = false := by
        rw [← Bool.not_eq_true, h.refusesBuckets_eq, not_not]
        exact hallocates
      obtain ⟨hold, hrepresents⟩ := h.insert hallocates key value
      rw [run_put hbuckets, hold]
      exact ⟨_, .put key value hallocates, hrepresents⟩
    · rw [run_put_of_refuses (h.refusesBuckets_eq.mpr hallocates)]
      exact ⟨m, .refuse key value hallocates, ⟨h.sound.initial, h.sound.placed, h.sound.size⟩,
        h.hashed, h.lists, h.refused⟩
  | get key =>
    rw [Operation.run, h.get?_eq key]
    exact ⟨m, .get key, h⟩
  | modify key change =>
    obtain ⟨hold, hrepresents⟩ := h.modify key change
    refine ⟨_, ?_, hrepresents⟩
    show Explains _ _ _ (.value (d.modify key change).1) _
    rw [hold]
    exact .modify key change
  | contains key =>
    rw [Operation.run, h.contains_eq key]
    exact ⟨m, .contains key, h⟩
  | erase key =>
    obtain ⟨hold, hrepresents⟩ := h.erase key
    refine ⟨_, ?_, hrepresents⟩
    show Explains _ _ _ (.value (d.erase key).1) _
    rw [hold]
    exact .erase key
  | clear => exact ⟨∅, .clear, h.sound.clear.sound, List.forall_mem_nil _, .nil, fun _ => rfl⟩
  | size =>
    rw [Operation.run, h.size_eq]
    exact ⟨m, .size, h⟩
  | isEmpty =>
    rw [Operation.run, h.isEmpty_eq]
    exact ⟨m, .isEmpty, h⟩
  | keys =>
    have hdistinct := h.lists.distinct
    have hmem := h.lists.mem_keys_iff
    rw [map_fst_entries] at hdistinct hmem
    exact ⟨m, .keys hdistinct hmem, h⟩
  | entries => exact ⟨m, .entries h.lists, h⟩
  | visit visitor memory => exact h.visit hkeys

/-- A run of a dictionary is explained by the map that it represents. -/
theorem Represents.runAll {d : Dictionary K V} {m : FiniteMap K V} (h : d.Represents m)
    {operations : List (Operation K V σ)} (hkeys : KeepsKeys operations d) :
    ∃ m', ExplainsAll d.settings.allocates m operations (Dictionary.runAll operations d).1 m' ∧
      (Dictionary.runAll operations d).2.Represents m' := by
  induction operations generalizing d m with
  | nil => exact ⟨m, .nil m, h⟩
  | cons operation rest ih =>
    obtain ⟨hfirst, hrest⟩ := hkeys
    obtain ⟨m', hexplains, hrepresents⟩ := h.run hfirst
    obtain ⟨m'', hall, hlast⟩ := ih hrepresents hrest
    rw [(h.sound.run operation).settings] at hall
    exact ⟨m'', .cons hexplains hall, hlast⟩

/--
Whether an operation does the same in any order of the entries: a visit must leave the keys as they
are, end in one way, and make the same of the values. The collector may remember what it likes.
-/
def Operation.Independent : Operation K V σ → Dictionary K V → Prop
  | .visit visitor memory, d => ∃ (result : Except Violation Unit) (after : List (K × V)),
    ∀ bindings, bindings.Perm d.entries → ∃ bindings' memory',
      outcome (visitBindings visitor (bindings, memory)) = (result, bindings', memory') ∧
        bindings'.map Prod.fst = bindings.map Prod.fst ∧ bindings'.Perm after
  | _, _ => True

/-- Whether all operations of a run do the same in any order of the entries. -/
def Independent : List (Operation K V σ) → Dictionary K V → Prop
  | [], _ => True
  | operation :: rest, d => operation.Independent d ∧ Independent rest (operation.run d).2

omit [DecidableEq K] in
/-- Bindings that are rewritten one by one are rewritten all. -/
theorem visitBindings_of_rewrites {visitor : Visitor σ} {rewrite : K → V → V} {possible : σ → Prop}
    {bindings : List (K × V)}
    (h : ∀ binding ∈ bindings, ∀ memory, possible memory → ∃ memory', possible memory' ∧
      visitBinding visitor (binding, memory) =
        .ok () ((binding.1, rewrite binding.1 binding.2), memory'))
    {memory : σ} (hmemory : possible memory) :
    ∃ memory', visitBindings visitor (bindings, memory) =
      .ok () (bindings.map fun (key, value) => (key, rewrite key value), memory') := by
  induction bindings generalizing memory with
  | nil => exact ⟨memory, rfl⟩
  | cons first rest ih =>
    obtain ⟨hhead, htail⟩ := List.forall_mem_cons.mp h
    obtain ⟨memory₁, hpossible, hfirst⟩ := hhead memory hmemory
    obtain ⟨memory₂, hrest⟩ := ih htail hpossible
    refine ⟨memory₂, ?_⟩
    simp only [visitBindings, Visit.items] at hrest ⊢
    simp only [Visit.each, hfirst, hrest, List.map_cons]

omit [DecidableEq K] in
/--
A visit does the same in any order if it makes of every value that is there something that depends
on this value and its key alone.
-/
theorem Operation.independent_of_rewrites {d : Dictionary K V} {visitor : Visitor σ}
    (rewrite : K → V → V) (possible : σ → Prop)
    (h : ∀ binding ∈ d.entries, ∀ memory, possible memory → ∃ memory', possible memory' ∧
      visitBinding visitor (binding, memory) =
        .ok () ((binding.1, rewrite binding.1 binding.2), memory'))
    {memory : σ} (hmemory : possible memory) :
    (Operation.visit visitor memory : Operation K V σ).Independent d := by
  refine ⟨.ok (), d.entries.map fun (key, value) => (key, rewrite key value),
    fun bindings hperm => ?_⟩
  obtain ⟨memory', hvisit⟩ := visitBindings_of_rewrites
    (fun binding hmem => h binding (hperm.mem_iff.mp hmem)) hmemory
  refine ⟨_, memory', by rw [hvisit, outcome], ?_, hperm.map _⟩
  rw [List.map_map]
  rfl

omit [DecidableEq K] in
/-- The order of the entries does not matter to an operation that does the same in any order. -/
theorem Operation.Independent.of_perm {operation : Operation K V σ} {d d' : Dictionary K V}
    (h : operation.Independent d) (hperm : d'.entries.Perm d.entries) :
    operation.Independent d' := by
  cases operation with
  | visit visitor memory =>
    obtain ⟨result, after, hany⟩ := h
    exact ⟨result, after, fun bindings hbindings => hany bindings (hbindings.trans hperm)⟩
  | _ => trivial

omit [DecidableEq K] in
/-- An operation that does the same in any order leaves the keys as they are. -/
theorem Operation.Independent.keepsKeys {operation : Operation K V σ} {d : Dictionary K V}
    (h : operation.Independent d) (hsound : d.Sound) : operation.KeepsKeys d := by
  cases operation with
  | visit visitor memory =>
    obtain ⟨result, after, hany⟩ := h
    obtain ⟨bindings', memory', hvisit, hkeys, -⟩ := hany d.entries (.refl _)
    have hrefilled := hsound.refilled (length_visitBindings visitor d.entries memory)
    rw [hvisit] at hrefilled
    simp only [Operation.KeepsKeys, outcome_visitEdges, hvisit]
    rw [← map_fst_entries, ← map_fst_entries, hrefilled.2.1]
    exact hkeys
  | _ => trivial

/-- A run of operations that do the same in any order leaves the keys as they are. -/
theorem keepsKeys_of_independent {operations : List (Operation K V σ)} {d : Dictionary K V}
    (h : Independent operations d) (hsound : d.Sound) : KeepsKeys operations d := by
  induction operations generalizing d with
  | nil => trivial
  | cons operation rest ih =>
    obtain ⟨hfirst, hrest⟩ := h
    exact ⟨hfirst.keepsKeys hsound, ih hrest (hsound.run operation).sound⟩

/-- Answers that differ at most in the order of what they list, and in a collector's memory. -/
def Answer.Same : Answer K V σ → Answer K V σ → Prop
  | .keys list, .keys list' => list.Perm list'
  | .entries list, .entries list' => list.Perm list'
  | .visited result _, .visited result' _ => result = result'
  | answer, answer' => answer = answer'

/-- A map explains one answer up to its order, and one map afterwards. -/
theorem Explains.same {allocates : Prop} {m m₁ m₂ : FiniteMap K V} {operation : Operation K V σ}
    {answer answer' : Answer K V σ} {d : Dictionary K V} (hindependent : operation.Independent d)
    (hentries : Lists d.entries m) (h : Explains allocates m operation answer m₁)
    (h' : Explains allocates m operation answer' m₂) : answer.Same answer' ∧ m₁ = m₂ := by
  cases h with
  | put key value hallocates =>
    cases h' with
    | put => exact ⟨rfl, rfl⟩
    | refuse _ _ hnot => exact absurd hallocates hnot
  | refuse key value hnot =>
    cases h' with
    | put _ _ hallocates => exact absurd hallocates hnot
    | refuse => exact ⟨rfl, rfl⟩
  | get => cases h'; exact ⟨rfl, rfl⟩
  | modify => cases h'; exact ⟨rfl, rfl⟩
  | contains => cases h'; exact ⟨rfl, rfl⟩
  | erase => cases h'; exact ⟨rfl, rfl⟩
  | clear => cases h'; exact ⟨rfl, rfl⟩
  | size => cases h'; exact ⟨rfl, rfl⟩
  | isEmpty => cases h'; exact ⟨rfl, rfl⟩
  | keys hdistinct hkeys =>
    cases h' with
    | keys hdistinct' hkeys' =>
      refine ⟨(List.perm_ext_iff_of_nodup hdistinct hdistinct').mpr fun key => ?_, rfl⟩
      exact (hkeys key).trans (hkeys' key).symm
  | entries hlists =>
    cases h' with
    | entries hlists' => exact ⟨hlists.perm hlists', rfl⟩
  | visit hlists hvisit hkeys hafter =>
    cases h' with
    | visit hlists' hvisit' hkeys' hafter' =>
      obtain ⟨result, after, hany⟩ := hindependent
      obtain ⟨_, _, heq, -, hperm⟩ := hany _ (hlists.perm hentries)
      obtain ⟨_, _, heq', -, hperm'⟩ := hany _ (hlists'.perm hentries)
      cases hvisit.symm.trans heq
      cases hvisit'.symm.trans heq'
      exact ⟨rfl, (hafter.of_perm (hperm'.trans hperm.symm)).map_eq hafter'⟩

/-- Dictionaries of one map answer an operation alike that does the same in any order. -/
theorem Represents.same_run {d d' : Dictionary K V} {m : FiniteMap K V} (h : d.Represents m)
    (h' : d'.Represents m) (hsettings : d'.settings = d.settings) {operation : Operation K V σ}
    (hindependent : operation.Independent d) :
    (operation.run d).1.Same (operation.run d').1 ∧
      ∃ m', (operation.run d).2.Represents m' ∧ (operation.run d').2.Represents m' := by
  have hindependent' := hindependent.of_perm (h'.lists.perm h.lists)
  obtain ⟨m₁, hexplains, hrepresents⟩ := h.run (hindependent.keepsKeys h.sound)
  obtain ⟨m₂, hexplains', hrepresents'⟩ := h'.run (hindependent'.keepsKeys h'.sound)
  rw [hsettings] at hexplains'
  obtain ⟨hsame, rfl⟩ := hexplains.same hindependent h.lists hexplains'
  exact ⟨hsame, m₁, hrepresents, hrepresents'⟩

/-- Dictionaries of one map answer a run alike that does the same in any order. -/
theorem Represents.same_runAll {d d' : Dictionary K V} {m : FiniteMap K V} (h : d.Represents m)
    (h' : d'.Represents m) (hsettings : d'.settings = d.settings)
    {operations : List (Operation K V σ)} (hindependent : Independent operations d) :
    List.Forall₂ Answer.Same (Dictionary.runAll operations d).1
      (Dictionary.runAll operations d').1 := by
  induction operations generalizing d d' m with
  | nil => exact .nil
  | cons operation rest ih =>
    obtain ⟨hfirst, hrest⟩ := hindependent
    obtain ⟨hsame, m', hrepresents, hrepresents'⟩ := h.same_run h' hsettings hfirst
    have hsettings' : (operation.run d').2.settings = (operation.run d).2.settings := by
      rw [(h'.sound.run operation).settings, (h.sound.run operation).settings, hsettings]
    exact .cons hsame (ih hrepresents hrepresents' hsettings' hrest)

/--
A new dictionary answers every run as the finite map of its bindings does, if the visits leave the
keys as they are. Hence two hash functions lead to the same answers, up to the order of what is
listed, if the visits do the same in any order of the entries that they meet.
-/
theorem answers_of_finite_map {settings : DictionarySettings} {hasher : K → UInt64}
    {d : Dictionary K V} (h : create settings hasher = .ok d)
    (operations : List (Operation K V σ)) :
    (KeepsKeys operations d →
      ∃ m, ExplainsAll settings.allocates ∅ operations (runAll operations d).1 m ∧
        Lists (runAll operations d).2.entries m) ∧
    (Independent operations d →
      ∀ (hasher' : K → UInt64) (d' : Dictionary K V), create settings hasher' = .ok d' →
        List.Forall₂ Answer.Same (runAll operations d).1 (runAll operations d').1) := by
  have hsettings {hasher : K → UInt64} {d : Dictionary K V}
      (h : create settings hasher = .ok d) : d.settings = settings := by
    obtain ⟨-, rfl⟩ := create_eq h
    rfl
  refine ⟨fun hkeys => ?_, fun hindependent hasher' d' h' => ?_⟩
  · obtain ⟨m, hexplains, hrepresents⟩ := (represents_create h).runAll hkeys
    exact ⟨m, hsettings h ▸ hexplains, hrepresents.lists⟩
  · exact (represents_create h).same_runAll (represents_create h')
      ((hsettings h').trans (hsettings h).symm) hindependent

end Runs

omit [DecidableEq K] in
/-- What a new dictionary is, with accepted settings. -/
theorem create_of_validate {settings : DictionarySettings} (h : settings.validate = .ok ())
    (hasher : K → UInt64) :
    create settings hasher = .ok (⟨#[], 0, 0, settings, hasher⟩ : Dictionary K V) := by
  rw [create, h]
  rfl

/-- The standard settings are accepted. -/
theorem validate_standard : DictionarySettings.standard.validate = .ok () := by decide +kernel

/-- A collector that counts the values that it meets, and makes each of them greater by one. -/
def raising : Visitor Nat where
  edge := fun (value, count) => .ok () (⟨value.word + 2⟩, count + 1)

/-- A collector that moves every object, and counts the references that it meets. -/
def relocating : Visitor Nat where
  edge := fun (value, count) =>
    match value.address? with
    | none => .ok () (value, count)
    | some address =>
      match Value.ofAddress (address + 0x100) with
      | .ok moved => .ok () (moved, count + 1)
      | .error violation => .error violation (value, count + 1)

/-- Two keys of one bucket with objects. One is removed after a collection has moved the objects. -/
def sharedBucket : List (Operation Value Value Nat) :=
  [.put (.ofNat 1) ⟨0x11⟩, .put (.ofNat 9) ⟨0x21⟩, .put (.ofNat 1) ⟨0x31⟩, .visit relocating 0,
    .erase (.ofNat 9), .get (.ofNat 1), .keys]

/-- The visit of the run moves each object in any order, and leaves the keys, which are numbers. -/
theorem independent_sharedBucket :
    Independent sharedBucket ⟨#[], 0, 0, .standard, fun key => key.word⟩ := by
  refine ⟨trivial, trivial, trivial, ?_, trivial, trivial, trivial, trivial⟩
  have hentries : (runAll (sharedBucket.take 3)
      (⟨#[], 0, 0, .standard, fun key => key.word⟩ : Dictionary Value Value)).2.entries =
        [(.ofNat 9, ⟨0x21⟩), (.ofNat 1, ⟨0x31⟩)] := by decide +kernel
  refine Operation.independent_of_rewrites (fun _ value => ⟨value.word + 0x100⟩) (fun _ => True)
    (fun binding hmem memory _ => ?_) trivial
  have hmem' : binding ∈ [(Value.ofNat 9, (⟨0x21⟩ : Value)), (.ofNat 1, ⟨0x31⟩)] := hentries ▸ hmem
  rw [List.mem_cons, List.mem_singleton] at hmem'
  rcases hmem' with rfl | rfl
  · exact ⟨memory + 1, trivial, rfl⟩
  · exact ⟨memory + 1, trivial, rfl⟩

/-- Hashed to their words or all to one bucket, the keys of the run lead to the same answers. -/
theorem answers_of_finite_map_sharedBucket :
    ∃ d d' : Dictionary Value Value,
      create .standard (fun key => key.word) = .ok d ∧ create .standard (fun _ => 0) = .ok d' ∧
      (runAll sharedBucket d).1 = [.value none, .value none, .value (some ⟨0x11⟩),
        .visited (.ok ()) 2, .value (some ⟨0x121⟩), .value (some ⟨0x131⟩), .keys [.ofNat 1]] ∧
      (∃ m, ExplainsAll DictionarySettings.standard.allocates ∅ sharedBucket
          (runAll sharedBucket d).1 m ∧ Lists (runAll sharedBucket d).2.entries m) ∧
      List.Forall₂ Answer.Same (runAll sharedBucket d).1 (runAll sharedBucket d').1 := by
  have hcreate (hasher : Value → UInt64) := create_of_validate (V := Value) validate_standard hasher
  have hkeys := keepsKeys_of_independent independent_sharedBucket
    (sound_create (hcreate fun key => key.word))
  have hanswers := answers_of_finite_map (hcreate fun key => key.word) sharedBucket
  refine ⟨_, _, hcreate _, hcreate _, ?_, hanswers.1 hkeys,
    hanswers.2 independent_sharedBucket _ _ (hcreate _)⟩
  decide +kernel

/-- Settings that are accepted, and ask for half of the address space at once. -/
def oversized : DictionarySettings where
  initialCapacity := 2 ^ 60
  loadFactor := .threeQuarters
  maximumCapacity := 2 ^ 60

/-- A collector that counts the values that it meets, and puts the count in their place. -/
def numbering : Visitor Nat where
  edge := fun (_, count) => .ok () (.ofNat (count + 1), count + 1)

/-- Two keys, and a collection that makes their values depend on its order. -/
def numbered : List (Operation Int64 Value Nat) :=
  [.put 1 .zero, .put 2 .zero, .visit numbering 0, .get 1]

/--
Two ways out of the finite map: settings that are accepted although no insertion can follow them,
and a collection that changes values alone but tells two hash functions apart.
-/
theorem answers_beyond_finite_map :
    (∃ d : Dictionary Int64 Value, create oversized (fun key => key.toUInt64) = .ok d ∧
      (runAll [(.put 1 (.ofNat 2) : Operation Int64 Value Nat)] d).1 =
        [.halted .capacityOverflow]) ∧
    ∃ d d' : Dictionary Int64 Value,
      create .standard (fun key => key.toUInt64) = .ok d ∧ create .standard (fun _ => 0) = .ok d' ∧
      (runAll numbered d).2.keys = [1, 2] ∧ (runAll numbered d').2.keys = [2, 1] ∧
      (runAll numbered d).1.getLast? = some (.value (some (.ofNat 1))) ∧
      (runAll numbered d').1.getLast? = some (.value (some (.ofNat 2))) := by
  have hvalid : oversized.validate = .ok () := by decide +kernel
  refine ⟨⟨_, create_of_validate hvalid _, by decide +kernel⟩, _, _,
    create_of_validate validate_standard _, create_of_validate validate_standard _, ?_⟩
  decide +kernel

end Dictionary

end ManagedCore
