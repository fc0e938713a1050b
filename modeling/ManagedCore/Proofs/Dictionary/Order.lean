import ManagedCore.Proofs.Dictionary.Growth
import ManagedCore.Proofs.Dictionary.Histories
import ManagedCore.Proofs.Dictionary.Payloads
import Mathlib.Algebra.Group.Nat.Even

/-!
# The order of iteration follows from history

Iteration goes through the buckets in order. Inside a bucket a new entry stands in front, and every
doubling of the buckets turns around the entries that stay together. So which of two entries of a
bucket comes first is told by the number of doublings since the later one was inserted.

To say which entry is which, values carry the date of their entry's insertion. Nothing that a
dictionary does looks at it: without the dates, it is the dictionary of the same run.
-/

namespace ManagedCore

/-- A moment of a run. -/
structure Date where
  /-- The number of operations before. -/
  time : Nat
  /-- How often the buckets were doubled before. -/
  doublings : Nat

/-- A value with the date of its entry's insertion. -/
structure Dated (V : Type) where
  value : V
  date : Date

/-- How often the buckets are doubled from one moment to another. -/
def Date.doublingsUntil (date now : Date) : Nat := now.doublings - date.doublings

/--
Whether an entry stands in front of another one of its bucket, by their dates. The number of
doublings since the later insertion decides.
-/
def Date.InFront (now first second : Date) : Prop :=
  second.time < first.time ∧ Even (first.doublingsUntil now) ∨
    first.time < second.time ∧ ¬Even (second.doublingsUntil now)

/-- One more doubling turns two entries around. -/
theorem Date.InFront.turned {now first second : Date} (h : now.InFront first second)
    (hfirst : first.doublings ≤ now.doublings) (hsecond : second.doublings ≤ now.doublings)
    (time : Nat) : Date.InFront ⟨time, now.doublings + 1⟩ second first := by
  have hmore (date : Date) (hdate : date.doublings ≤ now.doublings) :
      date.doublingsUntil ⟨time, now.doublings + 1⟩ = date.doublingsUntil now + 1 := by
    simp only [Date.doublingsUntil]
    omega
  rcases h with ⟨htime, heven⟩ | ⟨htime, hodd⟩
  · refine .inr ⟨htime, ?_⟩
    rwa [hmore first hfirst, Nat.even_add_one, not_not]
  · refine .inl ⟨htime, ?_⟩
    rwa [hmore second hsecond, Nat.even_add_one]

variable {K V σ : Type}

/-- A date holds no edge. -/
instance [Visitable V] : Visitable (Dated V) where
  visitEdges visitor := fun (dated, memory) =>
    Visit.on dated.value (⟨·, dated.date⟩) (visitEdges visitor) memory

/-- What fixes the place of an entry: its hash, and the date of its insertion. -/
def Node.mark (node : Node K (Dated V)) : UInt64 × Date := (node.hash, node.value.date)

namespace Dictionary

/-- Marks in the order of iteration: by buckets, and by dates inside a bucket. -/
def Arranged (now : Date) (count : Nat) (marks : List (UInt64 × Date)) : Prop :=
  marks.Pairwise fun first second =>
    bucketIndex first.1 count < bucketIndex second.1 count ∨
      bucketIndex first.1 count = bucketIndex second.1 count ∧ now.InFront first.2 second.2

/-- A dictionary of dated values at some moment of a run. -/
structure Chronicle (K V : Type) where
  dictionary : Dictionary K (Dated V)
  now : Date

/-- A new dictionary, at the beginning of a run. -/
def Chronicle.start (settings : DictionarySettings) (hasher : K → UInt64) : Chronicle K V where
  dictionary := ⟨#[], 0, 0, settings, hasher⟩
  now := ⟨0, 0⟩

section Steps

variable [DecidableEq K]

/-- The operation on dated values. A key that is there keeps the date of its entry. -/
def Operation.dated (c : Chronicle K V) : Operation K V σ → Operation K (Dated V) σ
  | put key value =>
    if c.dictionary.contains key then .modify key fun dated => ⟨value, dated.date⟩
    else .put key ⟨value, c.now⟩
  | get key => .get key
  | modify key change => .modify key fun dated => ⟨change dated.value, dated.date⟩
  | contains key => .contains key
  | erase key => .erase key
  | clear => .clear
  | size => .size
  | isEmpty => .isEmpty
  | keys => .keys
  | entries => .entries
  | visit visitor memory => .visit visitor memory

/--
The dictionary and the moment after an operation. The buckets are doubled if there are more of them
than there were, the initial ones counted in.
-/
def Chronicle.next [Visitable K] [Visitable V] (c : Chronicle K V) (operation : Operation K V σ) :
    Chronicle K V :=
  let after := ((operation.dated c).run c.dictionary).2
  { dictionary := after
    now := {
      time := c.now.time + 1
      doublings := c.now.doublings +
        if c.dictionary.allocated.bucketCount < after.bucketCount then 1 else 0 } }

end Steps

section Undated

variable [DecidableEq K] [Visitable K] [Visitable V]

end Undated

/-- The entries of a dictionary lie in the order of their dates, which are past. -/
structure InOrder (d : Dictionary K (Dated V)) (now : Date) : Prop where
  sound : d.Sound
  initial : ∃ k, d.settings.initialCapacity = 2 ^ k
  count : 0 < d.bucketCount → ∃ k, d.bucketCount = 2 ^ k
  past : ∀ mark ∈ d.nodes.map Node.mark,
    mark.2.time < now.time ∧ mark.2.doublings ≤ now.doublings
  distinct : ((d.nodes.map Node.mark).map fun mark => mark.2.time).Nodup
  arranged : Arranged now d.bucketCount (d.nodes.map Node.mark)

/-- Entries are in order when the chains are. -/
theorem arranged_iff {buckets : Array (Chain K (Dated V))} (h : Placed buckets) (now : Date) :
    Arranged now buckets.size ((listed buckets).map Node.mark) ↔
      ∀ i, (buckets.getD i []).Pairwise fun first second =>
        now.InFront first.value.date second.value.date := by
  rw [Arranged, List.pairwise_map]
  exact h.pairwise_listed

/-- Twice as many buckets only divide buckets. -/
theorem bucketIndex_eq_of_double {first second : UInt64} {count : Nat} (hcount : ∃ k, count = 2 ^ k)
    (h : bucketIndex first (count * 2) = bucketIndex second (count * 2)) :
    bucketIndex first count = bucketIndex second count := by
  obtain ⟨k, rfl⟩ := hcount
  have hmod (hash : UInt64) (k : Nat) : bucketIndex hash (2 ^ k) = hash.toNat % 2 ^ k :=
    Nat.and_two_pow_sub_one_eq_mod _ _
  rw [← Nat.pow_succ, hmod, hmod] at h
  rw [hmod, hmod, ← Nat.mod_mod_of_dvd _ (Nat.pow_dvd_pow 2 (Nat.le_succ k)), h,
    Nat.mod_mod_of_dvd _ (Nat.pow_dvd_pow 2 (Nat.le_succ k))]

namespace InOrder

variable {d : Dictionary K (Dated V)} {now : Date}

/-- Initial buckets are in order. -/
theorem allocated (h : d.InOrder now) :
    d.allocated.InOrder now ∧ 0 < d.allocated.bucketCount := by
  obtain ⟨hkeeps, hnodes, hcount⟩ := h.sound.allocated
  refine ⟨⟨hkeeps.sound, hkeeps.settings ▸ h.initial, fun _ => ?_, hnodes ▸ h.past,
    hnodes ▸ h.distinct, ?_⟩, hcount⟩
  · by_cases hempty : d.buckets.isEmpty = true
    · rw [Dictionary.allocated, if_pos hempty, bucketCount, Array.size_replicate]
      exact h.initial
    · rw [Dictionary.allocated, if_neg hempty] at hcount ⊢
      exact h.count hcount
  · by_cases hempty : d.buckets.isEmpty = true
    · rw [hnodes, nodes_of_isEmpty hempty]
      exact .nil
    · rw [Dictionary.allocated, if_neg hempty]
      exact h.arranged

/-- A new entry in front of its chain is in order. -/
theorem relinked (h : d.InOrder now) (hcount : 0 < d.bucketCount) {node : Node K (Dated V)}
    (hnode : node.value.date = now) :
    InOrder { d with buckets := relink d.buckets node, size := d.size + 1 }
      ⟨now.time + 1, now.doublings⟩ := by
  have hperm := listed_relink hcount node
  have hplaced := h.sound.placed.relink node
  have hsize : (relink d.buckets node).size = d.buckets.size := size_relink _ _
  refine ⟨⟨h.sound.initial, hplaced, ?_⟩, h.initial, fun _ => ?_, ?_, ?_, ?_⟩
  · show d.size + 1 = (listed (relink d.buckets node)).length
    rw [hperm.length_eq, List.length_cons, h.sound.size]
    rfl
  · rw [bucketCount, hsize]
    exact h.count hcount
  · show ∀ mark ∈ (listed (relink d.buckets node)).map Node.mark, _
    intro mark hmem
    rcases List.mem_cons.mp ((hperm.map Node.mark).mem_iff.mp hmem) with rfl | hold
    · simp [Node.mark, hnode]
    · have hpast := h.past mark hold
      exact ⟨Nat.lt_succ_of_lt hpast.1, hpast.2⟩
  · have htimes := ((hperm.map Node.mark).map fun mark => mark.2.time).nodup_iff
    refine htimes.mpr (List.nodup_cons.mpr ⟨fun hmem => ?_, h.distinct⟩)
    obtain ⟨mark, hmark, htime⟩ := List.mem_map.mp hmem
    have hpast := (h.past mark hmark).1
    rw [htime, Node.mark, hnode] at hpast
    exact Nat.lt_irrefl _ hpast
  · refine (arranged_iff hplaced _).mpr fun i => ?_
    have hchains := (arranged_iff h.sound.placed now).mp h.arranged
    rw [relink_eq, Array.getD_eq_getD_getElem?, Array.getElem?_setIfInBounds]
    have hlt : bucketIndex node.hash d.buckets.size < d.buckets.size := bucketIndex_lt node.hash hcount
    by_cases hi : bucketIndex node.hash d.buckets.size = i
    · rw [if_pos hi, if_pos hlt, Option.getD_some, hi]
      refine (hchains i).cons fun other hother => .inl ?_
      have hpast := h.past other.mark (List.mem_map_of_mem (mem_listed.mpr ⟨i, hother⟩))
      rw [hnode]
      exact ⟨hpast.1, by simp [Date.doublingsUntil]⟩
    · rw [if_neg hi, ← Array.getD_eq_getD_getElem?]
      exact hchains i

/-- Doubling the buckets turns every chain around, and so keeps the entries in order. -/
theorem resize (h : d.InOrder now) (hcount : 0 < d.bucketCount) :
    d.resize.InOrder
      ⟨now.time, now.doublings + if d.bucketCount < d.resize.bucketCount then 1 else 0⟩ := by
  obtain ⟨hkeeps, hperm⟩ := h.sound.resize hcount
  have hpower := h.count hcount
  by_cases hmaximum : d.settings.maximumCapacity ≤ d.bucketCount
  · have hsame : d.resize = { d with threshold := maxWord } := by
      rw [Dictionary.resize, if_pos hmaximum]
    have hstays : ¬d.bucketCount < d.resize.bucketCount := by
      rw [bucketCount_resize, if_pos hmaximum]
      exact Nat.lt_irrefl _
    rw [if_neg hstays, hsame]
    exact ⟨hsame ▸ hkeeps.sound, h.initial, h.count, h.past, h.distinct, h.arranged⟩
  · have hdoubled : d.resize.bucketCount = d.bucketCount * 2 := by
      rw [bucketCount_resize, if_neg hmaximum]
    have hmore : d.bucketCount < d.resize.bucketCount := by omega
    have hbuckets : d.resize.buckets =
        (listed d.buckets).foldl relink (Array.replicate (d.bucketCount * 2) []) := by
      simp only [Dictionary.resize, if_neg hmaximum, foldl_relink]
    rw [if_pos hmore]
    refine ⟨hkeeps.sound, hkeeps.settings ▸ h.initial, fun _ => ?_, ?_,
      ((hperm.map Node.mark).map _).nodup_iff.mpr h.distinct, ?_⟩
    · obtain ⟨k, hk⟩ := hpower
      exact ⟨k + 1, by rw [hdoubled, hk, Nat.pow_succ]⟩
    · intro mark hmem
      have hpast := h.past mark ((hperm.map Node.mark).mem_iff.mp hmem)
      exact ⟨hpast.1, Nat.le_succ_of_le hpast.2⟩
    · refine (arranged_iff hkeeps.sound.placed _).mpr fun i => ?_
      have hempty : (Array.replicate (d.bucketCount * 2) ([] : Chain K (Dated V))).getD i [] = [] := by
        rw [Array.getD_eq_getD_getElem?, Array.getElem?_replicate]
        split <;> rfl
      have hpos : 0 < (Array.replicate (d.bucketCount * 2) ([] : Chain K (Dated V))).size := by
        rw [Array.size_replicate]
        omega
      rw [hbuckets, getD_foldl_relink _ hpos, hempty, List.append_nil, List.pairwise_reverse,
        Array.size_replicate]
      -- What shares a new bucket shared an old one, where it stood the other way round.
      have harranged := List.pairwise_map.mp h.arranged
      refine (harranged.filter _).imp_of_mem fun {first second} hfirst hsecond hrelated => ?_
      rw [List.mem_filter, decide_eq_true_eq] at hfirst hsecond
      have hold := bucketIndex_eq_of_double hpower (hfirst.2.trans hsecond.2.symm)
      have hfront := (hrelated.resolve_left (by rw [Node.mark, Node.mark, hold]; exact Nat.lt_irrefl _)).2
      exact hfront.turned (h.past _ (List.mem_map_of_mem hfirst.1)).2
        (h.past _ (List.mem_map_of_mem hsecond.1)).2 now.time

/-- A new entry is in order, whether the buckets are doubled for it or not. -/
theorem link (h : d.InOrder now) (hcount : 0 < d.bucketCount) {node : Node K (Dated V)}
    (hnode : node.value.date = now) :
    (d.link node).InOrder ⟨now.time + 1,
      now.doublings + if d.bucketCount < (d.link node).bucketCount then 1 else 0⟩ := by
  have hrelinked := h.relinked hcount hnode
  have hsame : bucketCount { d with buckets := relink d.buckets node, size := d.size + 1 } =
      d.bucketCount := size_relink _ _
  have hlink : d.link node = if d.threshold ≤ d.size + 1
      then Dictionary.resize { d with buckets := relink d.buckets node, size := d.size + 1 }
      else { d with buckets := relink d.buckets node, size := d.size + 1 } := rfl
  rw [hlink]
  split
  · rw [← hsame] at hcount ⊢
    exact hrelinked.resize hcount
  · rw [hsame, if_neg (Nat.lt_irrefl _)]
    exact hrelinked

end InOrder

section Runs

variable [DecidableEq K]

variable [Visitable K] [Visitable V] {c : Chronicle K V}

/-- The dictionary and the moment after a run. -/
def Chronicle.run (c : Chronicle K V) (operations : List (Operation K V σ)) : Chronicle K V :=
  operations.foldl Chronicle.next c

end Runs

/-- Of two entries of one bucket, dates tell which one is listed first. -/
theorem InOrder.turned {d : Dictionary K (Dated V)} {now : Date} (h : d.InOrder now) {i j : Nat}
    {older newer : Node K (Dated V)} (hi : d.nodes[i]? = some older) (hj : d.nodes[j]? = some newer)
    (hbucket : bucketIndex older.hash d.bucketCount = bucketIndex newer.hash d.bucketCount)
    (htime : older.value.date.time < newer.value.date.time) :
    j < i ↔ Even (newer.value.date.doublingsUntil now) := by
  obtain ⟨hilt, rfl⟩ := List.getElem?_eq_some_iff.mp hi
  obtain ⟨hjlt, rfl⟩ := List.getElem?_eq_some_iff.mp hj
  have harranged := List.pairwise_iff_getElem.mp (List.pairwise_map.mp h.arranged)
  rcases Nat.lt_trichotomy i j with hlt | rfl | hgt
  · have hrelated := harranged i j hilt hjlt hlt
    rcases (hrelated.resolve_left (Nat.not_lt.mpr hbucket.ge)).2 with ⟨hafter, -⟩ | ⟨-, hodd⟩
    · exact absurd hafter (Nat.lt_asymm htime)
    · exact iff_of_false (Nat.lt_asymm hlt) hodd
  · exact absurd htime (Nat.lt_irrefl _)
  · have hrelated := harranged j i hjlt hilt hgt
    rcases (hrelated.resolve_left (Nat.not_lt.mpr hbucket.le)).2 with ⟨-, heven⟩ | ⟨hafter, -⟩
    · exact iff_of_true hgt heven
    · exact absurd hafter (Nat.lt_asymm htime)

section History

variable [DecidableEq K]

variable {d : Dictionary K V} {key : K}

/-- A key without an entry under its hash is not there. -/
theorem Sound.contains_eq_false (h : d.Sound) (hmisses : Chain.Misses (d.hasher key) key d.nodes) :
    d.contains key = false := by
  obtain ⟨before, node, after, hnodes, hanswers, -⟩ | ⟨-, hfind⟩ := h.find_spec key
  · have hmem : node ∈ d.nodes := by simp [hnodes]
    rw [hmisses node hmem] at hanswers
    cases hanswers
  · rw [contains, hfind]
    rfl

/-- A removal leaves the others in their order. -/
theorem Sound.erased (h : d.Sound) (key : K) :
    (∃ front node back, d.nodes = front ++ node :: back ∧
      node.answers (d.hasher key) key = true ∧ (d.erase key).2.nodes = front ++ back) ∨
    d.contains key = false ∧ d.erase key = (none, d) := by
  obtain ⟨-, ⟨front, node, back, hnodes, hanswers, -, hnew⟩ | ⟨hmisses, hsame⟩⟩ := h.erase_spec key
  · exact .inl ⟨front, node, back, hnodes, hanswers, hnew⟩
  · exact .inr ⟨h.contains_eq_false hmisses, hsame⟩

/-- A key that is there keeps the place of its entry when it is put again. -/
theorem Sound.replaced (h : d.Sound) (value : V) (hcontains : d.contains key = true) :
    ∃ front node back after, d.nodes = front ++ node :: back ∧
      node.answers (d.hasher key) key = true ∧ put key value d = .ok (some node.value) after ∧
      after.nodes = front ++ { node with value := value } :: back := by
  have hrefuses : d.refusesBuckets = false := by
    rw [refusesBuckets, isEmpty_of_contains hcontains, Bool.false_and]
  obtain ⟨-, ⟨front, node, back, hnodes, hanswers, hold, hnew⟩ | ⟨hmisses, -⟩⟩ :=
    h.modify_spec key fun _ => value
  · refine ⟨front, node, back, _, hnodes, hanswers, ?_, hnew⟩
    rw [put, hrefuses, insert_of_contains hcontains, ← hold]
    rfl
  · rw [h.contains_eq_false hmisses] at hcontains
    cases hcontains

variable [Visitable K] [Visitable V]

end History

/--
Four keys that stay in one bucket while it is divided three times, with a value that is put again
in between, and the removal of the first key.
-/
def crowded : List (Operation Value Value Nat) :=
  [.put (.ofNat 0) .zero, .put (.ofNat 8) .zero, .put (.ofNat 16) .zero,
    .put (.ofNat 8) (.ofNat 1), .put (.ofNat 32) .zero, .erase (.ofNat 0), .put (.ofNat 64) .zero]

end Dictionary

end ManagedCore
