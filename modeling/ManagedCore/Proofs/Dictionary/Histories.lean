import ManagedCore.Proofs.Dictionary.FiniteMaps

/-!
# Histories of entries

A collector may make of the keys of a dictionary what it likes: keys may become equal, and no longer
have the hashes that their entries remember. What becomes of the entries can be told all the same.
Each is followed from the insertion that adds it, together with the key of that insertion, to the
removal that takes it off.

A remembered hash is that of the key at insertion, whatever the key is now. It alone decides in
which bucket the entry lies, so that no step loses an entry, doubles one, or looks for one outside
the buckets.
-/

namespace ManagedCore

/-- An entry with the key that it was inserted with. -/
structure Traced (K V : Type) where
  node : Node K V
  origin : K

variable {K V σ : Type}

/-- The entry with another value. -/
def Traced.withValue (entry : Traced K V) (value : V) : Traced K V :=
  { entry with node := { entry.node with value := value } }

namespace Dictionary

section Tracing

/-- Entries in one place of a list are traced in the same place. -/
theorem exists_traced_split {entries : List (Traced K V)} {front back : List (Node K V)}
    {node : Node K V} (h : entries.map Traced.node = front ++ node :: back) :
    ∃ front' entry back', entries = front' ++ entry :: back' ∧ front'.map Traced.node = front ∧
      entry.node = node ∧ back'.map Traced.node = back := by
  obtain ⟨front', rest, rfl, hfront, hrest⟩ := List.map_eq_append_iff.mp h
  obtain ⟨entry, back', rfl, hentry, hback⟩ := List.map_eq_cons_iff.mp hrest
  exact ⟨front', entry, back', rfl, hfront, hentry, hback⟩

/-- A permutation of entries is traced by a permutation of what traces them. -/
theorem exists_traced_perm {entries : List (Traced K V)} {nodes : List (Node K V)}
    (h : nodes.Perm (entries.map Traced.node)) :
    ∃ entries' : List (Traced K V), entries'.map Traced.node = nodes ∧ entries'.Perm entries := by
  have hcomp := congrFun (congrFun (List.eq_map_comp_perm Traced.node) nodes) entries
  obtain ⟨entries', hnodes, hperm⟩ := hcomp.mpr h
  exact ⟨entries', hnodes.symm, hperm⟩

/-- Other entries in the same places have the same origins. -/
theorem exists_traced_same {entries : List (Traced K V)} {nodes : List (Node K V)}
    (h : nodes.length = entries.length) :
    ∃ entries' : List (Traced K V), entries'.map Traced.node = nodes ∧
      entries'.map Traced.origin = entries.map Traced.origin := by
  refine ⟨(nodes.zip (entries.map Traced.origin)).map fun pair => ⟨pair.1, pair.2⟩, ?_, ?_⟩
  · rw [List.map_map]
    exact List.map_fst_zip (by rw [List.length_map, h])
  · rw [List.map_map]
    exact List.map_snd_zip (by rw [List.length_map, h])

end Tracing

/-- An operation that only asks. -/
def Operation.IsQuestion : Operation K V σ → Prop
  | .get _ | .contains _ | .size | .isEmpty | .keys | .entries => True
  | _ => False

variable [DecidableEq K]

/--
What an operation with this answer makes of the entries. An insertion adds one entry, under the hash
of its key, or changes the value of one, or halts where no buckets can be had. A removal takes off
one. A collection changes keys and values, and nothing that the entries remember.
-/
inductive Evolves (settings : DictionarySettings) (hasher : K → UInt64) :
    Operation K V σ → Answer K V σ → List (Traced K V) → List (Traced K V) → Prop
  | add {key : K} {value : V} {before after : List (Traced K V)}
    (hmisses : ∀ entry ∈ before, entry.node.answers (hasher key) key = false)
    (hafter : after.Perm (⟨⟨key, value, hasher key⟩, key⟩ :: before)) :
    Evolves settings hasher (.put key value) (.value none) before after
  | replace {key : K} {value : V} {front back : List (Traced K V)} {entry : Traced K V}
    (hanswers : entry.node.answers (hasher key) key = true) :
    Evolves settings hasher (.put key value) (.value (some entry.node.value))
      (front ++ entry :: back) (front ++ entry.withValue value :: back)
  | refuse (key : K) (value : V) (hrefuses : ¬settings.allocates) :
    Evolves settings hasher (.put key value) (.halted .capacityOverflow) [] []
  | modify {key : K} {change : V → V} {front back : List (Traced K V)} {entry : Traced K V}
    (hanswers : entry.node.answers (hasher key) key = true) :
    Evolves settings hasher (.modify key change) (.value (some entry.node.value))
      (front ++ entry :: back) (front ++ entry.withValue (change entry.node.value) :: back)
  | modifyNone {key : K} {change : V → V} {entries : List (Traced K V)}
    (hmisses : ∀ entry ∈ entries, entry.node.answers (hasher key) key = false) :
    Evolves settings hasher (.modify key change) (.value none) entries entries
  | erase {key : K} {front back : List (Traced K V)} {entry : Traced K V}
    (hanswers : entry.node.answers (hasher key) key = true) :
    Evolves settings hasher (.erase key) (.value (some entry.node.value))
      (front ++ entry :: back) (front ++ back)
  | eraseNone {key : K} {entries : List (Traced K V)}
    (hmisses : ∀ entry ∈ entries, entry.node.answers (hasher key) key = false) :
    Evolves settings hasher (.erase key) (.value none) entries entries
  | clear (entries : List (Traced K V)) : Evolves settings hasher .clear .cleared entries []
  | visit {visitor : Visitor σ} {memory memory' : σ} {result : Except Violation Unit}
    {before after : List (Traced K V)}
    (horigins : after.map Traced.origin = before.map Traced.origin)
    (hhashes : (after.map Traced.node).map Node.hash = (before.map Traced.node).map Node.hash) :
    Evolves settings hasher (.visit visitor memory) (.visited result memory') before after
  | ask (operation : Operation K V σ) (h : operation.IsQuestion) (answer : Answer K V σ)
    (entries : List (Traced K V)) : Evolves settings hasher operation answer entries entries

/-- Every entry remembers the hash of the key that it was inserted with. -/
def Hashed (hasher : K → UInt64) (entries : List (Traced K V)) : Prop :=
  ∀ entry ∈ entries, entry.node.hash = hasher entry.origin

/-- No operation makes an entry remember another hash. -/
theorem Evolves.hashed {settings : DictionarySettings} {hasher : K → UInt64}
    {operation : Operation K V σ} {answer : Answer K V σ} {before after : List (Traced K V)}
    (h : Evolves settings hasher operation answer before after) (hbefore : Hashed hasher before) :
    Hashed hasher after := by
  cases h with
  | add hmisses hafter =>
    intro entry hmem
    rcases List.mem_cons.mp (hafter.mem_iff.mp hmem) with rfl | hold
    · rfl
    · exact hbefore entry hold
  | replace hanswers =>
    rw [Hashed, List.forall_mem_append, List.forall_mem_cons] at hbefore ⊢
    exact hbefore
  | modify hanswers =>
    rw [Hashed, List.forall_mem_append, List.forall_mem_cons] at hbefore ⊢
    exact hbefore
  | erase hanswers =>
    rw [Hashed, List.forall_mem_append, List.forall_mem_cons] at hbefore
    rw [Hashed, List.forall_mem_append]
    exact ⟨hbefore.1, hbefore.2.2⟩
  | visit horigins hhashes =>
    -- An entry is only known by its place here, so hashes and origins are compared as lists.
    have hmapped : before.map (Node.hash ∘ Traced.node) = before.map (hasher ∘ Traced.origin) :=
      List.map_congr_left hbefore
    rw [List.map_map, List.map_map, hmapped, ← List.map_map (g := hasher), ← horigins,
      List.map_map] at hhashes
    exact List.map_inj_left.mp hhashes
  | clear => exact List.forall_mem_nil _
  | refuse => exact hbefore
  | modifyNone => exact hbefore
  | eraseNone => exact hbefore
  | ask => exact hbefore

section Steps

variable {d : Dictionary K V} {before : List (Traced K V)}

/-- What misses among the entries misses among what traces them. -/
theorem forall_traced_of_misses {hash : UInt64} {key : K} (hnodes : before.map Traced.node = d.nodes)
    (hmisses : Chain.Misses hash key d.nodes) :
    ∀ entry ∈ before, entry.node.answers hash key = false := by
  rw [← hnodes, Chain.Misses, List.forall_mem_map] at hmisses
  exact hmisses

/-- A change of a value changes that of one entry, if there is one with the key and its hash. -/
theorem Sound.evolves_modify (h : d.Sound) (hnodes : before.map Traced.node = d.nodes) (key : K)
    (change : V → V) :
    ∃ after : List (Traced K V), after.map Traced.node = (d.modify key change).2.nodes ∧
      Evolves (σ := σ) d.settings d.hasher (.modify key change) (.value (d.modify key change).1)
        before after := by
  obtain ⟨-, ⟨front, node, back, hsplit, hanswers, hold, hnew⟩ | ⟨hmisses, hsame⟩⟩ :=
    h.modify_spec key change
  · obtain ⟨front', entry, back', rfl, rfl, rfl, rfl⟩ := exists_traced_split (hnodes.trans hsplit)
    rw [hold, hnew]
    exact ⟨front' ++ entry.withValue (change entry.node.value) :: back', by simp [Traced.withValue],
      .modify hanswers⟩
  · rw [hsame]
    exact ⟨before, hnodes, .modifyNone (forall_traced_of_misses hnodes hmisses)⟩

/-- A removal takes off one entry, if there is one with the key and its hash. -/
theorem Sound.evolves_erase (h : d.Sound) (hnodes : before.map Traced.node = d.nodes) (key : K) :
    ∃ after : List (Traced K V), after.map Traced.node = (d.erase key).2.nodes ∧
      Evolves (σ := σ) d.settings d.hasher (.erase key) (.value (d.erase key).1) before
        after := by
  obtain ⟨-, ⟨front, node, back, hsplit, hanswers, hold, hnew⟩ | ⟨hmisses, hsame⟩⟩ :=
    h.erase_spec key
  · obtain ⟨front', entry, back', rfl, rfl, rfl, rfl⟩ := exists_traced_split (hnodes.trans hsplit)
    rw [hold, hnew]
    exact ⟨front' ++ back', List.map_append, .erase hanswers⟩
  · rw [hsame]
    exact ⟨before, hnodes, .eraseNone (forall_traced_of_misses hnodes hmisses)⟩

variable [Visitable K] [Visitable V]

/-- An insertion adds an entry, changes the value of one, or halts. -/
theorem Sound.evolves_put (h : d.Sound) (hnodes : before.map Traced.node = d.nodes) (key : K)
    (value : V) :
    ∃ after : List (Traced K V),
      after.map Traced.node = ((Operation.put key value : Operation K V σ).run d).2.nodes ∧
      Evolves d.settings d.hasher (.put key value)
        ((Operation.put key value : Operation K V σ).run d).1 before after := by
  by_cases hrefuses : d.refusesBuckets = true
  · rw [run_put_of_refuses hrefuses]
    rw [refusesBuckets, Bool.and_eq_true, decide_eq_true_eq] at hrefuses
    rw [nodes_of_isEmpty hrefuses.1, List.map_eq_nil_iff] at hnodes
    rw [hnodes]
    exact ⟨[], (nodes_of_isEmpty hrefuses.1).symm, .refuse key value (Nat.not_lt.mpr hrefuses.2)⟩
  · rw [run_put (by simpa using hrefuses)]
    obtain ⟨-, ⟨front, node, back, hsplit, hanswers, hold, hnew⟩ | ⟨hmisses, hold, hnew⟩⟩ :=
      h.insert_spec key value
    · obtain ⟨front', entry, back', rfl, rfl, rfl, rfl⟩ :=
        exists_traced_split (hnodes.trans hsplit)
      rw [hold, hnew]
      exact ⟨front' ++ entry.withValue value :: back', by simp [Traced.withValue],
        .replace hanswers⟩
    · -- Growing may have permuted the entries, and what traces them is permuted along.
      have htraced : (d.insert key value).2.nodes.Perm
          ((⟨⟨key, value, d.hasher key⟩, key⟩ :: before : List (Traced K V)).map Traced.node) := by
        rwa [List.map_cons, hnodes]
      obtain ⟨after, hafter, hperm⟩ := exists_traced_perm htraced
      rw [hold]
      exact ⟨after, hafter, .add (forall_traced_of_misses hnodes hmisses) hperm⟩

/-- A collection leaves every entry in its place, with its hash. -/
theorem Sound.evolves_visit (h : d.Sound) (hnodes : before.map Traced.node = d.nodes)
    (visitor : Visitor σ) (memory : σ) :
    ∃ after : List (Traced K V),
      after.map Traced.node = ((Operation.visit visitor memory).run d).2.nodes ∧
      Evolves d.settings d.hasher (.visit visitor memory)
        ((Operation.visit visitor memory).run d).1 before after := by
  simp only [Operation.run, outcome_visitEdges]
  obtain ⟨-, -, hhashes⟩ := h.refilled (length_visitBindings visitor d.entries memory)
  have hlength := congrArg List.length hhashes
  rw [List.length_map, List.length_map, ← hnodes, List.length_map] at hlength
  obtain ⟨after, hafter, horigins⟩ := exists_traced_same hlength
  refine ⟨after, hafter, .visit horigins ?_⟩
  rw [hafter, hnodes]
  exact hhashes

/-- After every operation, what traces the entries has evolved from what traced them before. -/
theorem Sound.evolves (h : d.Sound) (hnodes : before.map Traced.node = d.nodes)
    (operation : Operation K V σ) :
    ∃ after : List (Traced K V), after.map Traced.node = (operation.run d).2.nodes ∧
      Evolves d.settings d.hasher operation (operation.run d).1 before after := by
  cases operation with
  | put key value => exact h.evolves_put hnodes key value
  | modify key change => exact h.evolves_modify hnodes key change
  | erase key => exact h.evolves_erase hnodes key
  | clear => exact ⟨[], rfl, .clear before⟩
  | visit visitor memory => exact h.evolves_visit hnodes visitor memory
  | get key => exact ⟨before, hnodes, .ask (.get key) trivial _ before⟩
  | contains key => exact ⟨before, hnodes, .ask (.contains key) trivial _ before⟩
  | size => exact ⟨before, hnodes, .ask .size trivial _ before⟩
  | isEmpty => exact ⟨before, hnodes, .ask .isEmpty trivial _ before⟩
  | keys => exact ⟨before, hnodes, .ask .keys trivial _ before⟩
  | entries => exact ⟨before, hnodes, .ask .entries trivial _ before⟩

end Steps

/-- What holds of a dictionary with these entries, whatever has become of their keys. -/
structure Intact (d : Dictionary K V) (entries : List (Traced K V)) : Prop where
  nodes : entries.map Traced.node = d.nodes
  placed : ∀ i, ∀ node ∈ d.buckets.getD i [], node.hash.toNat &&& (d.bucketCount - 1) = i
  hashed : ∀ entry ∈ entries, entry.node.hash = d.hasher entry.origin
  size : d.size = d.nodes.length
  listed : d.entries.length = d.size
  /-- With buckets, a look-up or a removal finds its chain in one of them. -/
  searched : 0 < d.bucketCount → ∀ hash,
    d.buckets[bucketIndex hash d.bucketCount]? = some (d.chainOf hash)
  /-- An insertion finds its chain in one of the buckets, the initial ones if there were none. -/
  linked : ∀ hash, bucketIndex hash d.allocated.bucketCount < d.allocated.bucketCount
  /-- Growing after an insertion puts every entry into one of the new buckets. -/
  relinked : ∀ hash, bucketIndex hash (d.allocated.bucketCount * 2) < d.allocated.bucketCount * 2
  /-- Growing neither loses nor doubles an entry. -/
  resized : d.allocated.resize.nodes.Perm d.nodes
  /-- What a removal takes off was counted. -/
  counted : ∀ key value, (d.erase key).1 = some value → (d.erase key).2.size + 1 = d.size

/-- A sound dictionary is intact, with entries that remember the hashes of their first keys. -/
theorem Sound.intact {d : Dictionary K V} (h : d.Sound) {entries : List (Traced K V)}
    (hnodes : entries.map Traced.node = d.nodes) (hhashed : Hashed d.hasher entries) :
    d.Intact entries := by
  obtain ⟨hallocated, hsame, hcount⟩ := h.allocated
  refine ⟨hnodes, h.placed, hhashed, h.size, ?_, fun hpos hash => ?_,
    fun hash => bucketIndex_lt hash hcount, fun hash => bucketIndex_lt hash (by omega), ?_, ?_⟩
  · rw [Dictionary.entries, List.length_map, h.size]
  · have hindex : bucketIndex hash d.bucketCount < d.buckets.size := bucketIndex_lt hash hpos
    rw [chainOf, Array.getD_eq_getD_getElem?, Array.getElem?_eq_getElem hindex, Option.getD_some]
  · exact hsame ▸ (hallocated.sound.resize hcount).2
  · intro key value herased
    obtain ⟨hkeeps, ⟨front, node, back, hsplit, -, -, hnew⟩ | ⟨-, hmissed⟩⟩ := h.erase_spec key
    · rw [hkeeps.sound.size, h.size, hnew, hsplit, List.length_append, List.length_append,
        List.length_cons, Nat.add_assoc]
    · rw [hmissed] at herased
      cases herased

section Runs

variable [Visitable K] [Visitable V]

/-- What operations make of the entries one after another, the dictionary's own at every step. -/
inductive History : List (Operation K V σ) → Dictionary K V → List (Traced K V) →
    List (Traced K V) → Prop
  | nil (d : Dictionary K V) (entries : List (Traced K V)) : History [] d entries entries
  | cons {operation : Operation K V σ} {rest : List (Operation K V σ)} {d : Dictionary K V}
    {before between after : List (Traced K V)}
    (hevolves : Evolves d.settings d.hasher operation (operation.run d).1 before between)
    (hnodes : between.map Traced.node = (operation.run d).2.nodes)
    (hrest : History rest (operation.run d).2 between after) :
    History (operation :: rest) d before after

/-- A run of a sound dictionary follows its entries, and keeps them intact. -/
theorem Sound.exists_history {d : Dictionary K V} (h : d.Sound) {before : List (Traced K V)}
    (hnodes : before.map Traced.node = d.nodes) (hhashed : Hashed d.hasher before)
    (operations : List (Operation K V σ)) :
    ∃ after, History operations d before after ∧ (Dictionary.runAll operations d).2.Intact after := by
  induction operations generalizing d before with
  | nil => exact ⟨before, .nil d before, h.intact hnodes hhashed⟩
  | cons operation rest ih =>
    have hkeeps := h.run operation
    obtain ⟨between, hbetween, hevolves⟩ := h.evolves hnodes operation
    obtain ⟨after, hrest, hintact⟩ := ih hkeeps.sound hbetween
      (hkeeps.hasher ▸ hevolves.hashed hhashed)
    exact ⟨after, .cons hevolves hbetween hrest, hintact⟩

/--
In every run, with any settings that are accepted, any hash function and any collectors, every entry
is followed from its insertion to its removal, and lies in the bucket of the hash of the key that it
was inserted with. The dictionary counts its entries, and searches inside its buckets.
-/
theorem intact_of_run {settings : DictionarySettings} {hasher : K → UInt64} {d : Dictionary K V}
    (h : create settings hasher = .ok d) (operations : List (Operation K V σ)) :
    ∃ entries, History operations d [] entries ∧ (runAll operations d).2.Intact entries := by
  have hsound := sound_create h
  obtain ⟨-, rfl⟩ := create_eq h
  exact hsound.exists_history rfl (List.forall_mem_nil _) operations

end Runs

/-- Settings of a dictionary with one bucket at first, and one for each entry later. -/
def single : DictionarySettings where
  initialCapacity := 1
  loadFactor := ⟨0x3f800000⟩
  maximumCapacity := 16

/-- A collector that makes all values equal. -/
def merging : Visitor Nat where
  edge := fun (_, count) => .ok () (.ofNat 7, count + 1)

/--
Two entries, whose keys a collector makes equal and unlike their hashes; then more insertions that
make the table grow, one of them with the key that the entries now have, and its removal.
-/
def merged : List (Operation Value Value Nat) :=
  [.put (.ofNat 1) .zero, .put (.ofNat 2) .zero, .visit merging 0, .put (.ofNat 7) .zero,
    .put (.ofNat 9) .zero, .erase (.ofNat 7), .erase (.ofNat 1)]

/-- The two entries with equal keys stay where their hashes put them, and none is found any more. -/
theorem intact_of_run_merged :
    ∃ d : Dictionary Value Value, create single (fun key => key.word) = .ok d ∧
      (runAll merged d).1 = [.value none, .value none, .visited (.ok ()) 4, .value none, .value none,
        .value (some .zero), .value none] ∧
      (runAll merged d).2.nodes = [⟨.ofNat 7, .ofNat 7, 2⟩, ⟨.ofNat 9, .zero, 18⟩,
        ⟨.ofNat 7, .ofNat 7, 4⟩] ∧
      ∃ entries, History merged d [] entries ∧ (runAll merged d).2.Intact entries := by
  have hvalid : single.validate = .ok () := by decide +kernel
  have hcreate := create_of_validate (V := Value) hvalid fun key : Value => key.word
  exact ⟨_, hcreate, by decide +kernel, by decide +kernel, intact_of_run hcreate merged⟩

end Dictionary

end ManagedCore
