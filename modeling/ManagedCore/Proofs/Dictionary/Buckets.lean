import ManagedCore.Dictionary.Basic
import Mathlib.Data.List.Perm.Basic

/-!
# Buckets and their entries

The entries of a dictionary are those of its buckets, one chain after another. A change of one chain
leaves what is listed before and after it, and relinking an entry adds it to the list at some place.
All of this only needs the remembered hashes: it holds whatever became of the keys.
-/

namespace ManagedCore.Dictionary

variable {K V : Type}

/-- The entries of buckets in the order of iteration. -/
def listed (buckets : Array (Chain K V)) : List (Node K V) := buckets.toList.flatten

/-- Every entry lies in the bucket that its remembered hash names. -/
def Placed (buckets : Array (Chain K V)) : Prop :=
  ∀ i, ∀ node ∈ buckets.getD i [], bucketIndex node.hash buckets.size = i

/-- A hash names one of the buckets. -/
theorem bucketIndex_lt (hash : UInt64) {count : Nat} (h : 0 < count) :
    bucketIndex hash count < count := by
  have hle : bucketIndex hash count ≤ count - 1 := Nat.and_le_right
  omega

/-- New buckets have no entry. -/
@[simp] theorem listed_replicate (count : Nat) :
    listed (Array.replicate count ([] : Chain K V)) = [] := by
  simp [listed]

/-- New buckets have no misplaced entry. -/
theorem placed_replicate (count : Nat) : Placed (Array.replicate count ([] : Chain K V)) := by
  intro i node hmem
  rw [Array.getD_eq_getD_getElem?, Array.getElem?_replicate] at hmem
  split at hmem
  · cases hmem
  · cases hmem

/-- No buckets have no misplaced entry. -/
theorem placed_empty : Placed (#[] : Array (Chain K V)) := placed_replicate 0

variable {buckets : Array (Chain K V)}

/-- A listed entry is one of some bucket. -/
theorem mem_listed {node : Node K V} : node ∈ listed buckets ↔ ∃ i, node ∈ buckets.getD i [] := by
  rw [listed, List.mem_flatten]
  constructor
  · rintro ⟨chain, hchain, hmem⟩
    obtain ⟨i, hi⟩ := List.getElem?_of_mem hchain
    refine ⟨i, ?_⟩
    rw [Array.getD_eq_getD_getElem?, ← Array.getElem?_toList, hi]
    exact hmem
  · rintro ⟨i, hmem⟩
    rw [Array.getD_eq_getD_getElem?, ← Array.getElem?_toList] at hmem
    cases hi : buckets.toList[i]? with
    | none => simp [hi] at hmem
    | some chain =>
      rw [hi] at hmem
      exact ⟨chain, List.mem_of_getElem? hi, hmem⟩

/-- In placed buckets, an entry can only be in the bucket of its hash. -/
theorem Placed.mem_listed (h : Placed buckets) {node : Node K V} :
    node ∈ listed buckets ↔ node ∈ buckets.getD (bucketIndex node.hash buckets.size) [] := by
  rw [Dictionary.mem_listed]
  constructor
  · rintro ⟨i, hmem⟩
    rwa [h i node hmem]
  · intro hmem
    exact ⟨_, hmem⟩

/-- The hashes of one bucket, in a table of the hashes of all buckets. -/
theorem map_hash_getD (buckets : Array (Chain K V)) (i : Nat) :
    (buckets.getD i []).map Node.hash =
      ((buckets.toList.map (List.map Node.hash))[i]?).getD [] := by
  rw [Array.getD_eq_getD_getElem?, List.getElem?_map, Array.getElem?_toList]
  cases buckets[i]? <;> rfl

/-- Other keys and values with the same remembered hashes are as well placed. -/
theorem Placed.congr (h : Placed buckets) {buckets' : Array (Chain K V)}
    (hhashes : buckets'.toList.map (List.map Node.hash) =
      buckets.toList.map (List.map Node.hash)) : Placed buckets' := by
  have hsize : buckets'.size = buckets.size := by
    simpa using congrArg List.length hhashes
  intro i node hmem
  have hhash : node.hash ∈ (buckets.getD i []).map Node.hash := by
    rw [map_hash_getD, ← hhashes, ← map_hash_getD]
    exact List.mem_map_of_mem hmem
  obtain ⟨old, hold, heq⟩ := List.mem_map.mp hhash
  rw [hsize, ← heq]
  exact h i old hold

/-- Another chain in one bucket leaves the entries before and after it. -/
theorem exists_listed_set {i : Nat} (h : i < buckets.size) :
    ∃ before after, listed buckets = before ++ buckets.getD i [] ++ after ∧
      ∀ chain, listed (buckets.setIfInBounds i chain) = before ++ chain ++ after := by
  have hi : i < buckets.toList.length := by rwa [Array.length_toList]
  refine ⟨(buckets.toList.take i).flatten, (buckets.toList.drop (i + 1)).flatten, ?_, ?_⟩
  · have hsplit : buckets.toList = buckets.toList.take i ++ buckets.getD i [] ::
        buckets.toList.drop (i + 1) := by
      rw [Array.getD_eq_getD_getElem?, Array.getElem?_eq_getElem h, Option.getD_some,
        ← Array.getElem_toList, ← List.drop_eq_getElem_cons, List.take_append_drop]
    rw [listed]
    conv_lhs => rw [hsplit]
    simp
  · intro chain
    rw [listed, Array.toList_setIfInBounds, List.set_eq_take_append_cons_drop, if_pos hi]
    simp

/-- A chain of entries with the bucket's hashes may be put in its place. -/
theorem Placed.set (h : Placed buckets) {i : Nat} {chain : Chain K V}
    (hchain : ∀ node ∈ chain, bucketIndex node.hash buckets.size = i) :
    Placed (buckets.setIfInBounds i chain) := by
  intro j node hmem
  rw [Array.size_setIfInBounds]
  rw [Array.getD_eq_getD_getElem?, Array.getElem?_setIfInBounds] at hmem
  by_cases hij : i = j
  · subst hij
    by_cases hi : i < buckets.size
    · rw [if_pos rfl, if_pos hi] at hmem
      exact hchain node hmem
    · rw [if_pos rfl, if_neg hi] at hmem
      cases hmem
  · rw [if_neg hij, ← Array.getD_eq_getD_getElem?] at hmem
    exact h j node hmem

/-- Relinking an entry puts it in front of the chain of its hash. -/
theorem relink_eq (buckets : Array (Chain K V)) (node : Node K V) :
    relink buckets node = buckets.setIfInBounds (bucketIndex node.hash buckets.size)
      (node :: buckets.getD (bucketIndex node.hash buckets.size) []) := by
  apply Array.ext_getElem?
  intro i
  rw [relink, Array.getElem?_modify, Array.getElem?_setIfInBounds, Array.getD_eq_getD_getElem?]
  by_cases hi : bucketIndex node.hash buckets.size = i
  · rw [if_pos hi, if_pos hi, hi]
    by_cases hlt : i < buckets.size
    · rw [if_pos hlt, Array.getElem?_eq_getElem hlt]
      rfl
    · rw [if_neg hlt, Array.getElem?_eq_none (Nat.not_lt.mp hlt)]
      rfl
  · rw [if_neg hi, if_neg hi]

/-- Relinking adds no bucket. -/
@[simp] theorem size_relink (buckets : Array (Chain K V)) (node : Node K V) :
    (relink buckets node).size = buckets.size :=
  Array.size_modify

/-- A relinked entry is placed. -/
theorem Placed.relink (h : Placed buckets) (node : Node K V) :
    Placed (relink buckets node) := by
  rw [relink_eq]
  exact h.set (List.forall_mem_cons.mpr ⟨rfl, h _⟩)

/-- Relinking lists one more entry. -/
theorem listed_relink (h : 0 < buckets.size) (node : Node K V) :
    (listed (relink buckets node)).Perm (node :: listed buckets) := by
  obtain ⟨before, after, hlisted, hset⟩ := exists_listed_set (bucketIndex_lt node.hash h)
  rw [relink_eq, hset, hlisted, List.append_assoc, List.append_assoc, List.cons_append]
  exact List.perm_middle

/-- Relinking entries of a list adds no bucket. -/
theorem size_foldl_relink (nodes : List (Node K V)) (buckets : Array (Chain K V)) :
    (nodes.foldl relink buckets).size = buckets.size := by
  induction nodes generalizing buckets with
  | nil => rfl
  | cons node rest ih => rw [List.foldl_cons, ih, size_relink]

/-- The buckets after every entry of a list is relinked. -/
theorem relinkAll (nodes : List (Node K V)) (hplaced : Placed buckets) (hsize : 0 < buckets.size) :
    Placed (nodes.foldl relink buckets) ∧
      (listed (nodes.foldl relink buckets)).Perm (nodes ++ listed buckets) := by
  induction nodes generalizing buckets with
  | nil => exact ⟨hplaced, .refl _⟩
  | cons node rest ih =>
    have hsize' : 0 < (relink buckets node).size := by rwa [size_relink]
    obtain ⟨hplaced', hperm⟩ := ih (hplaced.relink node) hsize'
    refine ⟨hplaced', ?_⟩
    have hfirst : (rest ++ listed (relink buckets node)).Perm (rest ++ node :: listed buckets) :=
      (listed_relink hsize node).append_left rest
    exact hperm.trans (hfirst.trans List.perm_middle)

/-- Relinking bucket after bucket is relinking all that they list. -/
theorem foldl_relink (old buckets : Array (Chain K V)) :
    old.foldl (fun buckets chain => chain.foldl relink buckets) buckets =
      (listed old).foldl relink buckets := by
  rw [listed, List.foldl_flatten, Array.foldl_toList]

/-- A bucket after entries of a list are relinked: those with its hashes, the last one in front. -/
theorem getD_foldl_relink (nodes : List (Node K V)) (hsize : 0 < buckets.size) (i : Nat) :
    (nodes.foldl relink buckets).getD i [] =
      (nodes.filter fun node => bucketIndex node.hash buckets.size = i).reverse ++
        buckets.getD i [] := by
  induction nodes generalizing buckets with
  | nil => rfl
  | cons node rest ih =>
    have hlt := bucketIndex_lt node.hash hsize
    rw [List.foldl_cons, ih (by rwa [size_relink]), size_relink, relink_eq, List.filter_cons,
      Array.getD_eq_getD_getElem?, Array.getElem?_setIfInBounds]
    by_cases hi : bucketIndex node.hash buckets.size = i
    · subst hi
      simp [hlt]
    · rw [if_neg hi, if_neg (by simpa using hi), ← Array.getD_eq_getD_getElem?]

/-- A relation of entries holds along every chain exactly when it holds of a bucket's entries along the list. -/
theorem Placed.pairwise_listed (h : Placed buckets) {related : Node K V → Node K V → Prop} :
    ((listed buckets).Pairwise fun first second =>
      bucketIndex first.hash buckets.size < bucketIndex second.hash buckets.size ∨
        bucketIndex first.hash buckets.size = bucketIndex second.hash buckets.size ∧
          related first second) ↔
      ∀ i, (buckets.getD i []).Pairwise related := by
  have hindex {i : Nat} (hi : i < buckets.toList.length) {node : Node K V}
      (hmem : node ∈ buckets.toList[i]) : bucketIndex node.hash buckets.size = i := by
    apply h i
    rwa [Array.getD_eq_getD_getElem?, ← Array.getElem?_toList, List.getElem?_eq_getElem hi]
  rw [listed, List.pairwise_flatten]
  constructor
  · rintro ⟨hchains, -⟩ i
    by_cases hi : i < buckets.toList.length
    · rw [Array.getD_eq_getD_getElem?, ← Array.getElem?_toList, List.getElem?_eq_getElem hi]
      refine (hchains _ (List.getElem_mem hi)).imp_of_mem fun hfirst hsecond hrelated => ?_
      rw [hindex hi hfirst, hindex hi hsecond] at hrelated
      exact (hrelated.resolve_left (Nat.lt_irrefl i)).2
    · rw [Array.getD_eq_getD_getElem?, ← Array.getElem?_toList,
        List.getElem?_eq_none (Nat.not_lt.mp hi)]
      exact .nil
  · intro hchains
    refine ⟨fun chain hmem => ?_, ?_⟩
    · obtain ⟨i, hi, rfl⟩ := List.getElem_of_mem hmem
      have hchain := hchains i
      rw [Array.getD_eq_getD_getElem?, ← Array.getElem?_toList, List.getElem?_eq_getElem hi] at hchain
      refine hchain.imp_of_mem fun hfirst hsecond hrelated => ?_
      exact .inr ⟨(hindex hi hfirst).trans (hindex hi hsecond).symm, hrelated⟩
    · rw [List.pairwise_iff_getElem]
      intro i j hi hj hij first hfirst second hsecond
      rw [hindex hi hfirst, hindex hj hsecond]
      exact .inl hij

end ManagedCore.Dictionary
