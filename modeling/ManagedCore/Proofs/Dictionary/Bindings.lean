import ManagedCore.Dictionary.Basic
import Mathlib.Data.Finmap

/-!
# Finite maps and their bindings

A dictionary stands for a finite map when its entries list the bindings of the map, each exactly
once and in any order. A list of bindings with distinct keys belongs to one map only, and two lists
of the same bindings differ in their order.
-/

namespace ManagedCore

/-- The values of finitely many keys. -/
abbrev FiniteMap (K V : Type) := Finmap fun _ : K => V

variable {K V : Type} [DecidableEq K] {bindings : List (K × V)} {m : FiniteMap K V}

/-- The list has every binding of the map exactly once. -/
structure Lists (bindings : List (K × V)) (m : FiniteMap K V) : Prop where
  distinct : (bindings.map Prod.fst).Nodup
  mem_iff : ∀ key value, (key, value) ∈ bindings ↔ m.lookup key = some value

namespace Lists

/-- A key is listed when it is bound. -/
theorem mem_keys_iff (h : Lists bindings m) (key : K) :
    key ∈ bindings.map Prod.fst ↔ key ∈ m := by
  rw [Finmap.mem_iff, List.mem_map]
  constructor
  · rintro ⟨⟨_, value⟩, hmem, rfl⟩
    exact ⟨value, (h.mem_iff _ value).mp hmem⟩
  · rintro ⟨value, hvalue⟩
    exact ⟨(key, value), (h.mem_iff key value).mpr hvalue, rfl⟩

/-- A key that is not listed is not bound. -/
theorem lookup_eq_none (h : Lists bindings m) {key : K} (hkey : key ∉ bindings.map Prod.fst) :
    m.lookup key = none := by
  rwa [Finmap.lookup_eq_none, ← h.mem_keys_iff]

/-- The empty list has the bindings of the empty map. -/
theorem nil : Lists [] (∅ : FiniteMap K V) :=
  ⟨List.nodup_nil, by simp⟩

/-- The order of a list does not matter. -/
theorem of_perm (h : Lists bindings m) {bindings' : List (K × V)} (hperm : bindings'.Perm bindings) :
    Lists bindings' m :=
  ⟨(hperm.map Prod.fst).nodup_iff.mpr h.distinct, fun key value => by
    rw [hperm.mem_iff, h.mem_iff]⟩

/-- A binding of a new key may be added. -/
theorem cons (h : Lists bindings m) {key : K} (hkey : key ∉ bindings.map Prod.fst) (value : V) :
    Lists ((key, value) :: bindings) (m.insert key value) := by
  refine ⟨List.nodup_cons.mpr ⟨hkey, h.distinct⟩, fun other found => ?_⟩
  rw [List.mem_cons]
  by_cases hother : other = key
  · subst hother
    have hnot : (other, found) ∉ bindings := fun hmem => hkey (List.mem_map_of_mem hmem)
    rw [Finmap.lookup_insert]
    simp [hnot, eq_comm]
  · rw [Finmap.lookup_insert_of_ne _ hother, ← h.mem_iff]
    simp [hother]

/-- What a key is bound to, and the map without the key. -/
theorem of_middle {before after : List (K × V)} {key : K} {value : V}
    (h : Lists (before ++ (key, value) :: after) m) :
    m.lookup key = some value ∧ key ∉ (before ++ after).map Prod.fst ∧
      Lists (before ++ after) (m.erase key) := by
  have hlisted := h.of_perm List.perm_middle.symm
  obtain ⟨hkey, hdistinct⟩ := List.nodup_cons.mp hlisted.distinct
  refine ⟨(hlisted.mem_iff key value).mp List.mem_cons_self, hkey, hdistinct, fun other found => ?_⟩
  by_cases hother : other = key
  · subst hother
    rw [Finmap.lookup_erase]
    simp only [reduceCtorEq, iff_false]
    exact fun hmem => hkey (List.mem_map.mpr ⟨_, hmem, rfl⟩)
  · rw [Finmap.lookup_erase_ne hother, ← hlisted.mem_iff]
    simp [hother]

/-- The value of a listed key may be replaced where it is. -/
theorem replace {before after : List (K × V)} {key : K} {old : V}
    (h : Lists (before ++ (key, old) :: after) m) (value : V) :
    Lists (before ++ (key, value) :: after) (m.insert key value) := by
  obtain ⟨-, hkey, hrest⟩ := h.of_middle
  have hinsert : (m.erase key).insert key value = m.insert key value := by
    apply Finmap.ext_lookup
    intro other
    by_cases hother : other = key
    · rw [hother, Finmap.lookup_insert, Finmap.lookup_insert]
    · rw [Finmap.lookup_insert_of_ne _ hother, Finmap.lookup_insert_of_ne _ hother,
        Finmap.lookup_erase_ne hother]
  exact hinsert ▸ (hrest.cons hkey value).of_perm List.perm_middle

/-- There are as many listed bindings as bound keys. -/
theorem length_eq (h : Lists bindings m) : bindings.length = m.keys.card := by
  have hkeys : (bindings.map Prod.fst).toFinset = m.keys := by
    ext key
    rw [List.mem_toFinset, h.mem_keys_iff, Finmap.mem_keys]
  rw [← hkeys, List.toFinset_card_of_nodup h.distinct, List.length_map]

/-- Bindings of distinct keys are those of some map. -/
theorem exists_of_distinct (h : (bindings.map Prod.fst).Nodup) :
    ∃ m : FiniteMap K V, Lists bindings m := by
  induction bindings with
  | nil => exact ⟨∅, nil⟩
  | cons first rest ih =>
    obtain ⟨hkey, hrest⟩ := List.nodup_cons.mp h
    obtain ⟨m, hm⟩ := ih hrest
    exact ⟨m.insert first.1 first.2, hm.cons hkey first.2⟩

/-- One list belongs to one map. -/
theorem map_eq (h : Lists bindings m) {m' : FiniteMap K V} (h' : Lists bindings m') : m = m' := by
  apply Finmap.ext_lookup
  intro key
  apply Option.ext
  intro value
  exact (h.mem_iff key value).symm.trans (h'.mem_iff key value)

/-- Two lists of one map's bindings differ in their order. -/
theorem perm (h : Lists bindings m) {bindings' : List (K × V)} (h' : Lists bindings' m) :
    bindings.Perm bindings' := by
  rw [List.perm_ext_iff_of_nodup (.of_map _ h.distinct) (.of_map _ h'.distinct)]
  rintro ⟨key, value⟩
  exact (h.mem_iff key value).trans (h'.mem_iff key value).symm

end Lists

end ManagedCore
