import ManagedCore.Proofs.Dictionary.Histories

/-!
# The entry that operations select

A collector may make the keys of several entries equal, or unlike the hashes that the entries
remember. A key then has no finite map to be looked up in. What the operations on a key still have
in common is the entry that they work on: the first one of the chain that the hash of the key names
which remembers this hash and has this key now.

Main statement: in every state of every run, all operations on a key select this entry, or find
none; they tell its value, and leave all other entries as they are. An insertion that finds none
adds an entry, which is then found.
-/

namespace ManagedCore.Dictionary

variable {K V σ : Type} [DecidableEq K] {d : Dictionary K V} {key : K}

omit [DecidableEq K] in
/-- The chain of a hash is the one that was put in its place. -/
theorem chainOf_setChain {hash : UInt64} (h : 0 < d.bucketCount) (chain : Chain K V) :
    (d.setChain hash chain).chainOf hash = chain := by
  have hlt : bucketIndex hash d.bucketCount < d.buckets.size := bucketIndex_lt hash h
  rw [chainOf, bucketCount, setChain, Array.size_setIfInBounds, Array.getD_eq_getD_getElem?,
    ← bucketCount, Array.getElem?_setIfInBounds, if_pos rfl, if_pos hlt]
  rfl

omit [DecidableEq K] in
/-- A dictionary with buckets need not allocate any. -/
theorem isEmpty_buckets_of_pos (h : 0 < d.bucketCount) : d.buckets.isEmpty = false := by
  rw [bucketCount, Nat.pos_iff_ne_zero] at h
  simpa using h

/--
The entry that all operations on a key select, between those that are before and after it in its
chain: they look its value up, change it, exchange it, or take the entry off. Among all entries it
stands at one place, and the others stay in theirs.
-/
structure Selects (d : Dictionary K V) (key : K) (before : Chain K V) (node : Node K V)
    (after : Chain K V) : Prop where
  splits : Chain.Splits (d.hasher key) key
    (d.buckets.getD ((d.hasher key).toNat &&& (d.bucketCount - 1)) []) before node after
  find : d.find key = some node
  get : d.get? key = some node.value
  contains : d.contains key = true
  modify : ∀ change : V → V, d.modify key change = (some node.value,
    d.setChain (d.hasher key) (before ++ { node with value := change node.value } :: after))
  put : ∀ value : V, Dictionary.put key value d = .ok (some node.value)
    (d.setChain (d.hasher key) (before ++ { node with value := value } :: after))
  erase : d.erase key = (some node.value,
    { d.setChain (d.hasher key) (before ++ after) with size := d.size - 1 })
  updated : ∀ value : V, (d.setChain (d.hasher key)
    (before ++ { node with value := value } :: after)).get? key = some value
  place : ∃ front back, d.nodes = front ++ node :: back ∧
    (∀ value : V, (d.setChain (d.hasher key)
      (before ++ { node with value := value } :: after)).nodes =
        front ++ { node with value := value } :: back) ∧
    (d.setChain (d.hasher key) (before ++ after)).nodes = front ++ back

/--
What the operations on a key do that find no entry. A change and a removal do nothing; an insertion
adds the entry that is found from then on, if buckets can be had, and otherwise halts without one.
-/
structure SelectsNone (d : Dictionary K V) (key : K) : Prop where
  misses : Chain.Misses (d.hasher key) key
    (d.buckets.getD ((d.hasher key).toNat &&& (d.bucketCount - 1)) [])
  find : d.find key = none
  get : d.get? key = none
  contains : d.contains key = false
  modify : ∀ change : V → V, d.modify key change = (none, d)
  put : d.refusesBuckets = false → ∀ value : V, ∃ d', Dictionary.put key value d = .ok none d' ∧
    d'.nodes.Perm (⟨key, value, d.hasher key⟩ :: d.nodes) ∧ d'.get? key = some value
  refused : d.refusesBuckets = true → ∀ value : V, ∃ threshold,
    Dictionary.put key value d = .error .capacityOverflow { d with threshold := threshold }
  erase : d.erase key = (none, d)

/-- The first entry with the hash and the key is selected. -/
theorem Sound.selects (h : d.Sound) {before after : Chain K V} {node : Node K V}
    (hsplits : Chain.Splits (d.hasher key) key (d.chainOf (d.hasher key)) before node after) :
    d.Selects key before node after := by
  have hfind : d.find key = some node := hsplits.find_eq
  have hcount : 0 < d.bucketCount := bucketCount_pos_of_chainOf hsplits.chain_eq
  have hbuckets := isEmpty_buckets_of_pos hcount
  obtain ⟨front, back, hnodes, hset, -, herased⟩ := h.exists_place hsplits.chain_eq
  refine {
    splits := hsplits
    find := hfind
    get := by rw [get?, hfind, Option.map_some]
    contains := by rw [contains, hfind, Option.isSome_some]
    modify := fun change => ?modify
    put := fun value => ?put
    erase := ?erase
    updated := fun value => ?updated
    place := ⟨front, back, hnodes,
      fun value => (hset { node with value := value } rfl).2, herased⟩ }
  case modify => simp only [Dictionary.modify, hsplits.modify_eq]
  case put =>
    have hallocated : d.allocated = d := by
      rw [Dictionary.allocated, hbuckets, if_neg Bool.false_ne_true]
    simp only [Dictionary.put, refusesBuckets, hbuckets, Bool.false_and, Bool.false_eq_true,
      if_false, Dictionary.insert, hallocated, hsplits.exchange_eq]
  case erase => simp only [Dictionary.erase, hsplits.extract_eq]
  case updated =>
    have hupdated : Chain.Splits (d.hasher key) key
        ((d.setChain (d.hasher key) (before ++ { node with value := value } :: after)).chainOf
          (d.hasher key)) before { node with value := value } after :=
      ⟨chainOf_setChain hcount _, hsplits.before, hsplits.answers⟩
    have hfound : (d.setChain (d.hasher key)
        (before ++ { node with value := value } :: after)).find key = some { node with
          value := value } := hupdated.find_eq
    rw [get?, hfound, Option.map_some]

/-- An inserted entry is found if the entry was not there before. -/
theorem Sound.get?_of_perm (h : d.Sound) {value : V} {nodes : List (Node K V)}
    (hperm : d.nodes.Perm (⟨key, value, d.hasher key⟩ :: nodes))
    (hmisses : Chain.Misses (d.hasher key) key nodes) : d.get? key = some value := by
  have hanswers : (⟨key, value, d.hasher key⟩ : Node K V).answers (d.hasher key) key = true :=
    Node.answers_iff.mpr ⟨rfl, rfl⟩
  rw [get?]
  rcases h.find_spec key with ⟨before, node, after, hnodes, hnode, hfind⟩ | ⟨hnone, -⟩
  · have hmem : node ∈ d.nodes := by simp [hnodes]
    rcases List.mem_cons.mp (hperm.mem_iff.mp hmem) with rfl | hold
    · rw [hfind, Option.map_some]
    · rw [hmisses node hold] at hnode
      cases hnode
  · have hnew := hnone _ (hperm.mem_iff.mpr List.mem_cons_self)
    rw [hanswers] at hnew
    cases hnew

/-- Without an entry with the hash and the key, none is selected. -/
theorem Sound.selectsNone (h : d.Sound)
    (hmisses : Chain.Misses (d.hasher key) key (d.chainOf (d.hasher key))) :
    d.SelectsNone key := by
  have hfind : d.find key = none := hmisses.find_eq
  refine {
    misses := hmisses
    find := hfind
    get := by rw [get?, hfind, Option.map_none]
    contains := by rw [contains, hfind, Option.isSome_none]
    modify := fun change => by simp only [Dictionary.modify, hmisses.modify_eq]
    put := fun hbuckets value => ?put
    refused := fun hrefuses _ => ⟨_, if_pos hrefuses⟩
    erase := by simp only [Dictionary.erase, hmisses.extract_eq] }
  case put =>
    have hput : Dictionary.put key value d = .ok (d.insert key value).1 (d.insert key value).2 := by
      rw [Dictionary.put, if_neg (Bool.eq_false_iff.mp hbuckets)]
    have hnone := h.misses hmisses
    obtain ⟨hkeeps, ⟨before, node, after, hnodes, hanswers, -⟩ | ⟨-, hold, hperm⟩⟩ :=
      h.insert_spec key value
    · rw [hnone node (by simp [hnodes])] at hanswers
      cases hanswers
    · rw [← hkeeps.hasher] at hperm hnone
      exact ⟨_, by rw [hput, hold], by rwa [hkeeps.hasher] at hperm,
        hkeeps.sound.get?_of_perm hperm hnone⟩

/--
In every state of every run, whatever collectors made of the keys, all operations on a key select
the first entry that remembers its hash and has this key, or none. Only settings that ask for half
of the address space at once refuse an insertion.
-/
theorem operations_select_first [Visitable K] [Visitable V] {settings : DictionarySettings}
    {hasher : K → UInt64} {first : Dictionary K V} (h : create settings hasher = .ok first)
    (operations : List (Operation K V σ)) (key : K) :
    let d := (runAll operations first).2
    d.hasher = hasher ∧ (settings.allocates → d.refusesBuckets = false) ∧
      ((∃ before node after, d.Selects key before node after) ∨ d.SelectsNone key) := by
  obtain ⟨hsound, hsettings, hhasher⟩ := (sound_create h).runAll operations
  obtain ⟨-, rfl⟩ := create_eq h
  refine ⟨hhasher, fun hallocates => ?_, ?_⟩
  · rw [DictionarySettings.allocates, ← Nat.not_le] at hallocates
    rw [refusesBuckets, hsettings, decide_eq_false hallocates, Bool.and_false]
  · rcases Chain.splits_or_misses _ key (Dictionary.chainOf _ _) with
      ⟨before, node, after, hsplits⟩ | hmisses
    · exact .inl ⟨before, node, after, hsound.selects hsplits⟩
    · exact .inr (hsound.selectsNone hmisses)

/-- Two entries, whose keys a collector makes equal. -/
def mergedKeys : List (Operation Value Int64 Nat) :=
  [.put (.ofNat 1) 10, .put (.ofNat 2) 20, .visit merging 0]

/--
Under one hash for all keys, the newer of the two entries is selected until it is removed. Under
different ones neither is, although both have the key.
-/
theorem operations_select_first_mergedKeys :
    (∃ first : Dictionary Value Int64, create .standard (fun _ => 0) = .ok first ∧
      (∃ before node after, (runAll mergedKeys first).2.Selects (.ofNat 7) before node after ∧
        node.value = 20) ∧
      ∃ before node after, (runAll (mergedKeys ++ [.erase (.ofNat 7)]) first).2.Selects (.ofNat 7)
        before node after ∧ node.value = 10) ∧
    ∃ first : Dictionary Value Int64, create .standard (fun key => key.word) = .ok first ∧
      (runAll mergedKeys first).2.keys = [.ofNat 7, .ofNat 7] ∧
      (runAll mergedKeys first).2.SelectsNone (.ofNat 7) := by
  have hcreate (hasher : Value → UInt64) :=
    create_of_validate (V := Int64) validate_standard hasher
  have hselect (hasher : Value → UInt64) (operations : List (Operation Value Int64 Nat)) :=
    (operations_select_first (hcreate hasher) operations (.ofNat 7)).2.2
  have hfound {d : Dictionary Value Int64} {value : Int64}
      (hget : d.get? (.ofNat 7) = some value)
      (hselects : (∃ before node after, d.Selects (.ofNat 7) before node after) ∨
        d.SelectsNone (.ofNat 7)) :
      ∃ before node after, d.Selects (.ofNat 7) before node after ∧ node.value = value := by
    rcases hselects with ⟨before, node, after, hnode⟩ | hnone
    · exact ⟨before, node, after, hnode, Option.some.inj (hnode.get.symm.trans hget)⟩
    · cases hnone.get.symm.trans hget
  refine ⟨⟨_, hcreate _, hfound (by decide +kernel) (hselect _ _),
    hfound (by decide +kernel) (hselect _ _)⟩, _, hcreate _, by decide +kernel, ?_⟩
  refine (hselect _ _).resolve_left ?_
  rintro ⟨before, node, after, hnode⟩
  have hnone : (runAll mergedKeys ⟨#[], 0, 0, .standard, fun key => key.word⟩).2.get?
      (.ofNat 7) = none := by decide +kernel
  cases hnode.get.symm.trans hnone

/--
Settings that ask for half of the address space at once are accepted. No key has a value then, and
an insertion does not tell so: it halts, and the key has no value afterwards.
-/
theorem insertion_halts_oversized :
    ∃ d : Dictionary Int64 Int64, create oversized (fun key => key.toUInt64) = .ok d ∧
      d.get? 1 = none ∧ (¬∃ d', Dictionary.put 1 2 d = .ok (d.get? 1) d') ∧
      (outcome (Dictionary.put 1 2 d)).2.get? 1 = none := by
  have hvalid : oversized.validate = .ok () := by decide +kernel
  have hput : Dictionary.put 1 2 (⟨#[], 0, 0, oversized, fun key => key.toUInt64⟩ :
      Dictionary Int64 Int64) = .error .capacityOverflow _ := if_pos (by decide +kernel)
  refine ⟨_, create_of_validate hvalid _, rfl, ?_, ?_⟩
  · rintro ⟨d', hd'⟩
    cases hput.symm.trans hd'
  · rw [hput]
    rfl

end ManagedCore.Dictionary
