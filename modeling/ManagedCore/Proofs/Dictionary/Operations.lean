import ManagedCore.Proofs.Dictionary.Buckets
import ManagedCore.Proofs.Dictionary.Chains

/-!
# The entries that operations leave

One statement for each operation of a dictionary: which entries it leaves, in which places, and what
it tells. An operation that finds an entry works on it where it is. An insertion that finds none
adds an entry, and may permute all of them when the buckets grow.

No statement asks that a remembered hash is that of its key, or that keys are distinct.
-/

namespace ManagedCore.Dictionary

variable {K V : Type}

/-- Entries lie where their remembered hashes put them, and are counted. -/
structure Sound (d : Dictionary K V) : Prop where
  initial : 0 < d.settings.initialCapacity
  placed : Placed d.buckets
  size : d.size = d.nodes.length

/-- The dictionary is sound, and hashes and grows as the other one. -/
structure Keeps (d d' : Dictionary K V) : Prop where
  sound : d'.Sound
  settings : d'.settings = d.settings
  hasher : d'.hasher = d.hasher

/-- What is kept twice is kept. -/
theorem Keeps.trans {d d' d'' : Dictionary K V} (h : Keeps d d') (h' : Keeps d' d'') : Keeps d d'' :=
  ⟨h'.sound, h'.settings.trans h.settings, h'.hasher.trans h.hasher⟩

/-- A power of two is not zero. -/
theorem pos_of_isPowerOfTwo {n : Nat} (h : DictionarySettings.isPowerOfTwo n) : 0 < n := by
  have hn : n = 1 <<< n.log2 := by simpa [DictionarySettings.isPowerOfTwo] using h
  rw [hn, Nat.shiftLeft_eq, Nat.one_mul]
  exact Nat.two_pow_pos _

/-- Accepted settings start with at least one bucket. -/
theorem initial_pos {settings : DictionarySettings} (h : settings.validate = .ok ()) :
    0 < settings.initialCapacity := by
  apply pos_of_isPowerOfTwo
  by_contra hpower
  rw [DictionarySettings.validate, if_pos (by simpa using hpower)] at h
  cases h

/-- What a new dictionary is. -/
theorem create_eq {settings : DictionarySettings} {hasher : K → UInt64} {d : Dictionary K V}
    (h : create settings hasher = .ok d) : settings.validate = .ok () ∧ d = ⟨#[], 0, 0, settings,
      hasher⟩ := by
  rw [create] at h
  cases hvalid : settings.validate with
  | error violation => simp [hvalid, bind, Except.bind] at h
  | ok _ =>
    simp only [hvalid, bind, Except.bind, pure, Except.pure, Except.ok.injEq] at h
    exact ⟨rfl, h.symm⟩

/-- A new dictionary is sound. -/
theorem sound_create {settings : DictionarySettings} {hasher : K → UInt64} {d : Dictionary K V}
    (h : create settings hasher = .ok d) : d.Sound := by
  obtain ⟨hvalid, rfl⟩ := create_eq h
  exact ⟨initial_pos hvalid, placed_empty, rfl⟩

variable {d : Dictionary K V}

/-- A dictionary without buckets has no entry. -/
theorem nodes_of_isEmpty (h : d.buckets.isEmpty) : d.nodes = [] := by
  have hbuckets : d.buckets = #[] := by simpa using h
  rw [nodes, hbuckets]
  rfl

/-- Without entries and buckets, a dictionary is sound. -/
theorem Sound.clear (h : d.Sound) : Keeps d d.clear :=
  ⟨⟨h.initial, placed_empty, rfl⟩, rfl, rfl⟩

/-- Initial buckets change no entry. -/
theorem Sound.allocated (h : d.Sound) :
    Keeps d d.allocated ∧ d.allocated.nodes = d.nodes ∧ 0 < d.allocated.bucketCount := by
  rw [Dictionary.allocated]
  by_cases hempty : d.buckets.isEmpty
  · have hnodes := nodes_of_isEmpty hempty
    rw [if_pos hempty, hnodes]
    refine ⟨⟨⟨h.initial, placed_replicate _, ?_⟩, rfl, rfl⟩, listed_replicate _, ?_⟩
    · have hlisted := listed_replicate (K := K) (V := V) d.settings.initialCapacity
      rw [listed] at hlisted
      rw [nodes, hlisted, h.size, hnodes]
    · rw [bucketCount, Array.size_replicate]
      exact h.initial
  · rw [if_neg hempty]
    refine ⟨⟨h, rfl, rfl⟩, rfl, ?_⟩
    rw [bucketCount, Nat.pos_iff_ne_zero]
    simpa using hempty

/-- Growing only permutes the entries. -/
theorem Sound.resize (h : d.Sound) (hcount : 0 < d.bucketCount) :
    Keeps d d.resize ∧ d.resize.nodes.Perm d.nodes := by
  simp only [Dictionary.resize]
  split
  · exact ⟨⟨⟨h.initial, h.placed, h.size⟩, rfl, rfl⟩, .refl _⟩
  · rw [foldl_relink]
    have hpos : 0 < (Array.replicate (d.bucketCount * 2) ([] : Chain K V)).size := by
      rw [Array.size_replicate]
      omega
    obtain ⟨hplaced, hperm⟩ := relinkAll (listed d.buckets) (placed_replicate _) hpos
    rw [listed_replicate, List.append_nil] at hperm
    exact ⟨⟨⟨h.initial, hplaced, h.size.trans hperm.length_eq.symm⟩, rfl, rfl⟩, hperm⟩

/-- Linking adds one entry. -/
theorem Sound.link (h : d.Sound) (hcount : 0 < d.bucketCount) (node : Node K V) :
    Keeps d (d.link node) ∧ (d.link node).nodes.Perm (node :: d.nodes) := by
  have hperm := listed_relink hcount node
  have hsound : Sound { d with buckets := relink d.buckets node, size := d.size + 1 } :=
    ⟨h.initial, h.placed.relink node, by
      show d.size + 1 = (listed (relink d.buckets node)).length
      rw [hperm.length_eq, List.length_cons, h.size]
      rfl⟩
  have hcount' : 0 < (relink d.buckets node).size := by rwa [size_relink]
  simp only [Dictionary.link]
  split
  · obtain ⟨hkeeps, hresized⟩ := hsound.resize hcount'
    exact ⟨⟨hkeeps.sound, hkeeps.settings, hkeeps.hasher⟩, hresized.trans hperm⟩
  · exact ⟨⟨hsound, rfl, rfl⟩, hperm⟩

/-- The entries with a remembered hash are in its chain. -/
theorem Sound.mem_chainOf (h : d.Sound) {node : Node K V} :
    node ∈ d.chainOf node.hash ↔ node ∈ d.nodes :=
  h.placed.mem_listed.symm

/-- A chain with the same remembered hashes, or fewer, may replace the chain of a hash. -/
theorem Sound.setChain (h : d.Sound) {hash : UInt64} {chain : Chain K V} {size : Nat}
    (hchain : ∀ node ∈ chain, bucketIndex node.hash d.bucketCount =
      bucketIndex hash d.bucketCount)
    (hsize : size = (d.setChain hash chain).nodes.length) :
    Keeps d { d.setChain hash chain with size := size } :=
  ⟨⟨h.initial, h.placed.set hchain, hsize⟩, rfl, rfl⟩

/-- The chain of a hash in its place among all entries. -/
theorem exists_nodes_setChain (hash : UInt64) (hcount : 0 < d.bucketCount) :
    ∃ before after, d.nodes = before ++ d.chainOf hash ++ after ∧
      ∀ chain, (d.setChain hash chain).nodes = before ++ chain ++ after :=
  exists_listed_set (bucketIndex_lt hash hcount)

/-- A chain with an entry has a bucket. -/
theorem bucketCount_pos_of_chainOf {hash : UInt64} {front back : Chain K V} {node : Node K V}
    (hchain : d.chainOf hash = front ++ node :: back) : 0 < d.bucketCount := by
  rw [bucketCount, Nat.pos_iff_ne_zero]
  intro hzero
  rw [chainOf, Array.eq_empty_of_size_eq_zero hzero] at hchain
  simp at hchain

/-- An entry of a chain in its place among all entries, where it may be replaced or taken off. -/
theorem Sound.exists_place (h : d.Sound) {hash : UInt64} {front back : Chain K V} {node : Node K V}
    (hchain : d.chainOf hash = front ++ node :: back) :
    ∃ before after, d.nodes = before ++ node :: after ∧
      (∀ node' : Node K V, node'.hash = node.hash →
        Keeps d (d.setChain hash (front ++ node' :: back)) ∧
        (d.setChain hash (front ++ node' :: back)).nodes = before ++ node' :: after) ∧
      Keeps d { d.setChain hash (front ++ back) with size := d.size - 1 } ∧
        (d.setChain hash (front ++ back)).nodes = before ++ after := by
  have hcount := bucketCount_pos_of_chainOf hchain
  have hmem : ∀ other ∈ front ++ node :: back, bucketIndex other.hash d.bucketCount =
      bucketIndex hash d.bucketCount := by
    rw [← hchain]
    exact h.placed _
  rw [List.forall_mem_append, List.forall_mem_cons] at hmem
  obtain ⟨hfront, hnode, hback⟩ := hmem
  obtain ⟨before, after, hnodes, hset⟩ := exists_nodes_setChain hash hcount
  have hplace : d.nodes = (before ++ front) ++ node :: (back ++ after) := by
    rw [hnodes, hchain]
    simp
  have hreplaced (node' : Node K V) : (d.setChain hash (front ++ node' :: back)).nodes =
      (before ++ front) ++ node' :: (back ++ after) := by
    rw [hset]
    simp
  have htaken : (d.setChain hash (front ++ back)).nodes = (before ++ front) ++ (back ++ after) := by
    rw [hset]
    simp
  have hsize : d.size = ((before ++ front) ++ node :: (back ++ after)).length := hplace ▸ h.size
  refine ⟨before ++ front, back ++ after, hplace, fun node' hhash => ⟨?_, hreplaced node'⟩, ?_,
    htaken⟩
  · apply h.setChain (List.forall_mem_append.mpr ⟨hfront, List.forall_mem_cons.mpr ⟨?_, hback⟩⟩)
    · rw [hreplaced, hsize]
      simp
    · rwa [hhash]
  · apply h.setChain (List.forall_mem_append.mpr ⟨hfront, hback⟩)
    rw [htaken, hsize]
    simp
    omega

section Lookup

variable [DecidableEq K]

/-- A hash and a key that no entry has in the chain of the hash, none has at all. -/
theorem Sound.misses (h : d.Sound) {hash : UInt64} {key : K}
    (hmisses : Chain.Misses hash key (d.chainOf hash)) : Chain.Misses hash key d.nodes := by
  intro node hmem
  by_contra hanswers
  have hnode := Node.answers_iff.mp (by simpa using hanswers)
  have hchain := h.mem_chainOf.mpr hmem
  rw [hnode.1] at hchain
  exact hanswers (hmisses node hchain)

/-- A look-up gives an entry with the key and its hash, if there is one. -/
theorem Sound.find_spec (h : d.Sound) (key : K) :
    (∃ before node after, d.nodes = before ++ node :: after ∧
      node.answers (d.hasher key) key = true ∧ d.find key = some node) ∨
    (Chain.Misses (d.hasher key) key d.nodes ∧ d.find key = none) := by
  rcases Chain.splits_or_misses (d.hasher key) key (d.chainOf (d.hasher key)) with
    ⟨front, node, back, hsplits⟩ | hmisses
  · obtain ⟨before, after, hnodes, -⟩ := h.exists_place hsplits.chain_eq
    exact .inl ⟨before, node, after, hnodes, hsplits.answers, hsplits.find_eq⟩
  · exact .inr ⟨h.misses hmisses, hmisses.find_eq⟩

/-- A change of a value changes that of an entry with the key and its hash, if there is one. -/
theorem Sound.modify_spec (h : d.Sound) (key : K) (change : V → V) :
    Keeps d (d.modify key change).2 ∧
      ((∃ before node after, d.nodes = before ++ node :: after ∧
        node.answers (d.hasher key) key = true ∧ (d.modify key change).1 = some node.value ∧
        (d.modify key change).2.nodes =
          before ++ { node with value := change node.value } :: after) ∨
      (Chain.Misses (d.hasher key) key d.nodes ∧ d.modify key change = (none, d))) := by
  simp only [Dictionary.modify]
  rcases Chain.splits_or_misses (d.hasher key) key (d.chainOf (d.hasher key)) with
    ⟨front, node, back, hsplits⟩ | hmisses
  · obtain ⟨before, after, hnodes, hset, -⟩ := h.exists_place hsplits.chain_eq
    obtain ⟨hkeeps, hresult⟩ := hset { node with value := change node.value } rfl
    simp only [hsplits.modify_eq]
    exact ⟨hkeeps, .inl ⟨before, node, after, hnodes, hsplits.answers, rfl, hresult⟩⟩
  · simp only [hmisses.modify_eq]
    exact ⟨⟨h, rfl, rfl⟩, .inr ⟨h.misses hmisses, trivial⟩⟩

/-- A removal takes off an entry with the key and its hash, if there is one. -/
theorem Sound.erase_spec (h : d.Sound) (key : K) :
    Keeps d (d.erase key).2 ∧
      ((∃ before node after, d.nodes = before ++ node :: after ∧
        node.answers (d.hasher key) key = true ∧ (d.erase key).1 = some node.value ∧
        (d.erase key).2.nodes = before ++ after) ∨
      (Chain.Misses (d.hasher key) key d.nodes ∧ d.erase key = (none, d))) := by
  simp only [Dictionary.erase]
  rcases Chain.splits_or_misses (d.hasher key) key (d.chainOf (d.hasher key)) with
    ⟨front, node, back, hsplits⟩ | hmisses
  · obtain ⟨before, after, hnodes, -, hkeeps, hresult⟩ := h.exists_place hsplits.chain_eq
    simp only [hsplits.extract_eq]
    exact ⟨hkeeps, .inl ⟨before, node, after, hnodes, hsplits.answers, rfl, hresult⟩⟩
  · simp only [hmisses.extract_eq]
    exact ⟨⟨h, rfl, rfl⟩, .inr ⟨h.misses hmisses, trivial⟩⟩

/-- An insertion changes an entry with the key and its hash, or else adds one. -/
theorem Sound.insert_spec (h : d.Sound) (key : K) (value : V) :
    Keeps d (d.insert key value).2 ∧
      ((∃ before node after, d.nodes = before ++ node :: after ∧
        node.answers (d.hasher key) key = true ∧ (d.insert key value).1 = some node.value ∧
        (d.insert key value).2.nodes = before ++ { node with value := value } :: after) ∨
      (Chain.Misses (d.hasher key) key d.nodes ∧ (d.insert key value).1 = none ∧
        (d.insert key value).2.nodes.Perm (⟨key, value, d.hasher key⟩ :: d.nodes))) := by
  obtain ⟨hallocated, hnodes, hcount⟩ := h.allocated
  have hsound := hallocated.sound
  simp only [Dictionary.insert]
  rcases Chain.splits_or_misses (d.hasher key) key (d.allocated.chainOf (d.hasher key)) with
    ⟨front, node, back, hsplits⟩ | hmisses
  · obtain ⟨before, after, hplace, hset, -⟩ := hsound.exists_place hsplits.chain_eq
    obtain ⟨hkeeps, hresult⟩ := hset { node with value := value } rfl
    simp only [hsplits.exchange_eq]
    exact ⟨hallocated.trans hkeeps, .inl ⟨before, node, after, hnodes ▸ hplace, hsplits.answers,
      rfl, hresult⟩⟩
  · obtain ⟨hkeeps, hperm⟩ := hsound.link hcount ⟨key, value, d.hasher key⟩
    simp only [hmisses.exchange_eq]
    exact ⟨hallocated.trans hkeeps, .inr ⟨hnodes ▸ hsound.misses hmisses, trivial, hnodes ▸ hperm⟩⟩

end Lookup

end ManagedCore.Dictionary
