import ManagedCore.Proofs.Threads.Links
import Mathlib.Data.List.Nodup
import Mathlib.Data.List.Perm.Subperm

/-!
# Registries are lists of threads

A registry shows a list of places, newest first, when its table links exactly them. Registering adds
a place to the front, unregistering takes one out of the middle, and every question is answered from
the list. No link leads to a vacant slot, and the list is as long as the number of live threads.
-/

namespace ManagedCore

/-- The item right behind the first occurrence of another one. -/
def rightAfter {α : Type} [DecidableEq α] (item : α) (list : List α) : Option α :=
  list[list.idxOf item + 1]?

/-- Nothing is behind an item that is not in the list. -/
theorem rightAfter_of_notMem {α : Type} [DecidableEq α] {item : α} {list : List α}
    (h : item ∉ list) : rightAfter item list = none := by
  rw [rightAfter, List.idxOf_eq_length_iff.mpr h]
  exact List.getElem?_eq_none (Nat.le_succ _)

/-- The item behind a place is the first one of what follows. -/
theorem rightAfter_append {α : Type} [DecidableEq α] {item : α} {before : List α}
    (h : item ∉ before) (after : List α) :
    rightAfter item (before ++ item :: after) = after.head? := by
  rw [rightAfter, List.idxOf_append_of_notMem h, List.idxOf_cons_self, Nat.add_zero,
    List.getElem?_append_right (Nat.le_succ _), Nat.succ_sub (Nat.le_refl _), Nat.sub_self,
    List.getElem?_cons_succ, List.head?_eq_getElem?]

namespace Registry

/-- The registry links these places, and its vacant slots are the free ones. -/
structure Shows (r : Registry) (places : List Place) : Prop where
  linked : Linked r.entries none none places
  head : r.head = newestSlot places none
  live : r.live = places.length
  distinct : (places.map Prod.fst).Nodup
  vacant : ∀ slot, slot ∈ r.free ↔ r.entries[slot]? = some none
  freeDistinct : r.free.Nodup
  occupied : ∀ slot entry, r.entries[slot]? = some (some entry) → slot ∈ places.map Prod.fst

/-- A registry without threads shows none. -/
theorem shows_empty : Registry.empty.Shows [] where
  linked := trivial
  head := rfl
  live := rfl
  distinct := List.nodup_nil
  vacant slot := by simp [Registry.empty]
  freeDistinct := List.nodup_nil
  occupied slot entry h := by simp [Registry.empty] at h

/-- The registry links these places, and one vacant slot that is not free is set aside. -/
structure SetsAside (r : Registry) (slot : Nat) (places : List Place) : Prop where
  linked : Linked r.entries none none places
  head : r.head = newestSlot places none
  live : r.live = places.length
  distinct : ((slot :: places.map Prod.fst)).Nodup
  bound : slot < r.entries.size
  vacant : ∀ other, other ∈ r.free ↔ other ≠ slot ∧ r.entries[other]? = some none
  freeDistinct : r.free.Nodup
  occupied : ∀ other entry, r.entries[other]? = some (some entry) → other ∈ places.map Prod.fst

variable {r : Registry} {places : List Place}

/-- The slots of the places are occupied. -/
theorem Shows.not_vacant (h : r.Shows places) {slot : Nat} (hslot : slot ∈ places.map Prod.fst) :
    r.entries[slot]? ≠ some none := by
  obtain ⟨place, hmem, rfl⟩ := List.mem_map.mp hslot
  obtain ⟨before, next, hentry⟩ := h.linked.exists_entry hmem
  simp [hentry]

/-- The slot that a new thread gets: the one freed last, or else a new one. -/
def slotToTake (r : Registry) : Nat := r.free.headD r.entries.size

/-- The slot freed last can be set aside. -/
theorem Shows.setsAside_free (h : r.Shows places) {slot : Nat} {free : List Nat}
    (hfree : r.free = slot :: free) : { r with free := free }.SetsAside slot places := by
  have hdistinct := h.freeDistinct
  rw [hfree, List.nodup_cons] at hdistinct
  have hvacant : r.entries[slot]? = some none := (h.vacant slot).mp (by simp [hfree])
  refine ⟨h.linked, h.head, h.live, List.nodup_cons.mpr ⟨?_, h.distinct⟩, ?_, fun other => ?_,
    hdistinct.2, h.occupied⟩
  · exact fun hmem => h.not_vacant hmem hvacant
  · exact (Array.getElem?_eq_some_iff.mp hvacant).1
  · rw [← h.vacant other, hfree, List.mem_cons]
    constructor
    · intro hmem
      exact ⟨fun heq => hdistinct.1 (heq ▸ hmem), .inr hmem⟩
    · rintro ⟨hne, heq | hmem⟩
      · exact absurd heq hne
      · exact hmem

/-- A new slot at the end of the table can be set aside. -/
theorem Shows.setsAside_new (h : r.Shows places) :
    { r with entries := r.entries.push none }.SetsAside r.entries.size places := by
  have hsame (other : Nat) (hother : other ≠ r.entries.size) :
      (r.entries.push none)[other]? = r.entries[other]? := by
    rw [Array.getElem?_push, if_neg hother]
  have hbound (slot : Nat) (hmem : slot ∈ places.map Prod.fst) : slot ≠ r.entries.size := by
    obtain ⟨place, hplace, rfl⟩ := List.mem_map.mp hmem
    obtain ⟨before, next, hentry⟩ := h.linked.exists_entry hplace
    exact Nat.ne_of_lt (Array.getElem?_eq_some_iff.mp hentry).1
  refine ⟨h.linked.congr fun slot hmem => hsame slot (hbound slot hmem), h.head, h.live,
    List.nodup_cons.mpr ⟨fun hmem => hbound _ hmem rfl, h.distinct⟩, ?_, fun other => ?_,
    h.freeDistinct, fun other entry hentry => ?_⟩
  · rw [Array.size_push]
    exact Nat.lt_succ_self _
  · rw [h.vacant other]
    by_cases hother : other = r.entries.size
    · simp [hother]
    · simp [hsame other hother, hother]
  · by_cases hother : other = r.entries.size
    · simp [hother] at hentry
    · rw [hsame other hother] at hentry
      exact h.occupied other entry hentry

/-- Taking a slot sets it aside. -/
theorem Shows.takeSlot (h : r.Shows places) :
    ∃ r', r.takeSlot = (r.slotToTake, r') ∧ r'.SetsAside r.slotToTake places := by
  rw [Registry.takeSlot, slotToTake]
  cases hfree : r.free with
  | nil => exact ⟨_, rfl, by simpa [hfree] using h.setsAside_new⟩
  | cons slot free => exact ⟨_, rfl, h.setsAside_free hfree⟩

/-- Registering adds a thread to the front, in the slot freed last or in a new one. -/
theorem Shows.register (h : r.Shows places) (thread : ThreadRef) :
    ∃ r', r.register thread = .ok (r.slotToTake, r') ∧
      r'.Shows ((r.slotToTake, thread) :: places) := by
  obtain ⟨r₁, htake, haside⟩ := h.takeSlot
  generalize r.slotToTake = slot at htake haside ⊢
  obtain ⟨hslot, hplaces⟩ := List.nodup_cons.mp haside.distinct
  obtain ⟨entries, hadjust, hlinked, hchanged⟩ :=
    adjust_newest haside.linked hplaces (some slot)
  have hsize : slot < entries.size := hchanged.size ▸ haside.bound
  have hvacant (other : Nat) := hchanged.vacant_iff haside.linked hlinked other
  rw [← haside.head] at hadjust
  refine ⟨⟨entries.setIfInBounds slot (some ⟨thread, r₁.head, none⟩), r₁.free, some slot,
    r₁.live + 1⟩, ?_, ⟨⟨?_, ?_⟩, rfl, ?_, haside.distinct, fun other => ?_, haside.freeDistinct,
    fun other entry hentry => ?_⟩⟩
  · rw [Registry.register, htake]
    simp only [hadjust]
    rfl
  · rw [Array.getElem?_setIfInBounds_self_of_lt hsize, haside.head]
  · apply hlinked.changed (changedIn_set entries (List.mem_singleton_self slot) _)
    intro other hother heq
    exact hslot (List.mem_singleton.mp heq ▸ hother)
  · rw [haside.live, List.length_cons]
  · rw [haside.vacant other]
    by_cases hother : slot = other
    · subst hother
      simp [hsize]
    · rw [Array.getElem?_setIfInBounds_ne hother, hvacant other]
      simp [Ne.symm hother]
  · rw [List.map_cons, List.mem_cons]
    by_cases hother : slot = other
    · exact .inl hother.symm
    · rw [Array.getElem?_setIfInBounds_ne hother] at hentry
      by_cases hmem : other ∈ places.map Prod.fst
      · exact .inr hmem
      · rw [hchanged.same other hmem] at hentry
        exact .inr (haside.occupied other entry hentry)

/-- The parts of a list on both sides of a slot, joined around the vacated slot. -/
theorem join_around {newer older : List Place} {slot : Nat} {thread : ThreadRef}
    (hlinked : Linked r.entries none none (newer ++ (slot, thread) :: older))
    (hslots : slot ∉ (newer ++ older).map Prod.fst)
    (hdistinct : ((newer ++ older).map Prod.fst).Nodup) :
    ∃ entries₁ entries₂,
      { r with entries := r.entries.setIfInBounds slot none }.adjustLinked (newestSlot older none)
          (fun entry => { entry with next := oldestSlot none newer }) =
        .ok { r with entries := entries₁ } ∧
      { r with entries := entries₁ }.adjustLinked (oldestSlot none newer)
          (fun entry => { entry with before := newestSlot older none }) =
        .ok { r with entries := entries₂ } ∧
      Linked entries₂ none none (newer ++ older) ∧
      (∀ other, entries₂[other]? = some none ↔ other = slot ∨ r.entries[other]? = some none) ∧
      ∀ other ∉ (newer ++ older).map Prod.fst, other ≠ slot →
        entries₂[other]? = r.entries[other]? := by
  obtain ⟨hnewer, hentry, holder⟩ := (linked_append newer ((slot, thread) :: older)).mp hlinked
  have hbound : slot < r.entries.size := (Array.getElem?_eq_some_iff.mp hentry).1
  rw [List.map_append, List.nodup_append] at hdistinct
  obtain ⟨hnewerSlots, holderSlots, hapart⟩ := hdistinct
  rw [List.map_append, List.mem_append, not_or] at hslots
  -- the slot is vacated first, then the older part is joined to the newer one, then the other way
  have hvacated := changedIn_set r.entries (List.mem_singleton_self slot) none
  have hnewer₀ := hnewer.changed hvacated fun other hother heq =>
    hslots.1 (List.mem_singleton.mp heq ▸ hother)
  have holder₀ := holder.changed hvacated fun other hother heq =>
    hslots.2 (List.mem_singleton.mp heq ▸ hother)
  obtain ⟨entries₁, hadjust₁, holder₁, hchanged₁⟩ := adjust_newest
    (r := { r with entries := r.entries.setIfInBounds slot none }) holder₀ holderSlots
    (oldestSlot none newer)
  have hnewer₁ := hnewer₀.changed hchanged₁ fun other hother hmem =>
    hapart other hother other hmem rfl
  obtain ⟨entries₂, hadjust₂, hnewer₂, hchanged₂⟩ := adjust_oldest
    (r := { r with entries := entries₁ }) hnewer₁ hnewerSlots (newestSlot older none)
  have holder₂ := holder₁.changed hchanged₂ fun other hother hmem =>
    hapart other hmem other hother rfl
  refine ⟨entries₁, entries₂, hadjust₁, hadjust₂,
    (linked_append newer older).mpr ⟨hnewer₂, holder₂⟩, fun other => ?_, fun other hother hne => ?_⟩
  · rw [hchanged₂.vacant_iff hnewer₁ hnewer₂, hchanged₁.vacant_iff holder₀ holder₁]
    by_cases hother : slot = other
    · subst hother
      simp [hbound]
    · rw [Array.getElem?_setIfInBounds_ne hother]
      simp [Ne.symm hother]
  · rw [List.map_append, List.mem_append, not_or] at hother
    rw [hchanged₂.same other hother.1, hchanged₁.same other hother.2]
    exact Array.getElem?_setIfInBounds_ne hne.symm

/-- Unregistering takes a thread out of the middle, and frees its slot. -/
theorem Shows.unregister {newer older : List Place} {slot : Nat} {thread : ThreadRef}
    (h : r.Shows (newer ++ (slot, thread) :: older)) :
    ∃ r', r.unregister slot = .ok r' ∧ r'.Shows (newer ++ older) ∧ r'.free = slot :: r.free := by
  have hentry := ((linked_append newer ((slot, thread) :: older)).mp h.linked).2.1
  have hdistinct := h.distinct
  rw [List.map_append, List.map_cons, List.nodup_middle, ← List.map_append] at hdistinct
  obtain ⟨hslot, hrest⟩ := List.nodup_cons.mp hdistinct
  obtain ⟨entries₁, entries₂, hadjust₁, hadjust₂, hlinked, hvacant, hsame⟩ :=
    join_around h.linked hslot hrest
  have hhead : (if (oldestSlot none newer).isNone then newestSlot older none else r.head) =
      newestSlot (newer ++ older) none := by
    rw [h.head]
    cases newer with
    | nil => rfl
    | cons place rest =>
      rw [isNone_oldestSlot]
      rfl
  refine ⟨⟨entries₂, slot :: r.free, newestSlot (newer ++ older) none, r.live - 1⟩, ?_,
    ⟨hlinked, rfl, ?_, hrest, fun other => ?_, ?_, fun other entry hother => ?_⟩, rfl⟩
  · rw [Registry.unregister, hentry]
    simp only [hadjust₁, hadjust₂, bind, Except.bind, pure, Except.pure, hhead]
  · rw [h.live]
    simp
  · rw [List.mem_cons, h.vacant other, hvacant other]
  · refine List.nodup_cons.mpr ⟨fun hmem => ?_, h.freeDistinct⟩
    rw [h.vacant slot, hentry] at hmem
    cases hmem
  · by_contra hnot
    have hne : other ≠ slot := by
      rintro rfl
      rw [(hvacant other).mpr (.inl rfl)] at hother
      cases hother
    have hmem := h.occupied other entry (hsame other hnot hne ▸ hother)
    rw [List.map_append, List.map_cons, List.mem_append, List.mem_cons] at hmem
    rw [List.map_append, List.mem_append] at hnot
    rcases hmem with hmem | heq | hmem
    · exact hnot (.inl hmem)
    · exact hne heq
    · exact hnot (.inr hmem)

/-- The walk from a place on meets the threads of the list. -/
theorem follow_eq {newer : Option Nat} (h : Linked r.entries none newer places) {fuel : Nat}
    (hfuel : places.length ≤ fuel) :
    r.follow fuel (newestSlot places none) = .ok (places.map Prod.snd) := by
  induction places generalizing newer fuel with
  | nil => rw [newestSlot, follow, List.map_nil]
  | cons place rest ih =>
    obtain ⟨slot, thread⟩ := place
    obtain ⟨hplace, hrest⟩ := h
    rw [List.length_cons] at hfuel
    obtain ⟨fuel, rfl⟩ : ∃ less, fuel = less + 1 := ⟨fuel - 1, by omega⟩
    rw [newestSlot, follow, Registry.entry, hplace]
    simp only [bind, Except.bind, ih hrest (Nat.le_of_succ_le_succ hfuel)]
    rfl

/-- A list without repeated slots is not longer than the table. -/
theorem Shows.length_le (h : r.Shows places) : places.length ≤ r.entries.size := by
  have hsubset : places.map Prod.fst ⊆ List.range r.entries.size := by
    intro slot hmem
    obtain ⟨place, hplace, rfl⟩ := List.mem_map.mp hmem
    obtain ⟨before, next, hentry⟩ := h.linked.exists_entry hplace
    exact List.mem_range.mpr (Array.getElem?_eq_some_iff.mp hentry).1
  simpa using (h.distinct.subperm hsubset).length_le

/-- The live threads are those of the list. -/
theorem Shows.threads_eq (h : r.Shows places) : r.threads = .ok (places.map Prod.snd) := by
  rw [threads, h.head, follow_eq h.linked h.length_le]
  simp [bind, Except.bind, h.live]
  rfl

/-- The link to the newest place leads to its thread. -/
theorem linkedThread_newestSlot {newer : Option Nat} (h : Linked r.entries none newer places) :
    r.linkedThread (newestSlot places none) = .ok (places.map Prod.snd).head? := by
  cases places with
  | nil => rfl
  | cons place rest =>
    rw [newestSlot, linkedThread, Registry.entry, h.1]
    rfl

/-- The link to the oldest place leads to its thread. -/
theorem linkedThread_oldestSlot {older : Option Nat} (h : Linked r.entries older none places) :
    r.linkedThread (oldestSlot none places) = .ok (places.map Prod.snd).reverse.head? := by
  rcases List.eq_nil_or_concat' places with rfl | ⟨init, ⟨slot, thread⟩, rfl⟩
  · rfl
  · obtain ⟨-, hplace, -⟩ := (linked_append init [(slot, thread)]).mp h
    have hlink : oldestSlot none (init ++ [(slot, thread)]) = some slot := oldestSlot_append ..
    rw [hlink, linkedThread, Registry.entry, hplace]
    simp

/-- The newest thread is the first one of the list. -/
theorem Shows.newest_eq (h : r.Shows places) : r.newest = .ok (places.map Prod.snd).head? := by
  rw [newest, h.head, linkedThread_newestSlot h.linked]

section Neighbours

variable {slot : Nat} {thread : ThreadRef}

/-- The thread in a slot is looked up there. -/
theorem lookup_eq {entry : RegistryEntry} (h : r.entries[slot]? = some (some entry)) :
    r.lookup slot entry.thread = some entry := by
  simp [lookup, h, Option.filter]

/-- A thread that is not listed is not looked up, even if its slot holds another one. -/
theorem Shows.lookup_eq_none (h : r.Shows places) (hthread : thread ∉ places.map Prod.snd) :
    r.lookup slot thread = none := by
  rw [lookup]
  rcases hentry : r.entries[slot]? with _ | _ | entry
  · rfl
  · rfl
  · obtain ⟨place, hmem, rfl⟩ := List.mem_map.mp (h.occupied slot entry hentry)
    obtain ⟨before, next, hplace⟩ := h.linked.exists_entry hmem
    rw [hplace] at hentry
    cases hentry
    have hne : place.2 ≠ thread := fun heq => hthread (heq ▸ List.mem_map_of_mem hmem)
    simp [hne]

/-- The thread registered before another one is the next of the list, if both are listed. -/
theorem Shows.before_eq (h : r.Shows places) (hthreads : (places.map Prod.snd).Nodup)
    (hslot : thread ∈ places.map Prod.snd → (slot, thread) ∈ places) :
    r.before slot thread = .ok (rightAfter thread (places.map Prod.snd)) := by
  by_cases hthread : thread ∈ places.map Prod.snd
  · obtain ⟨newer, older, rfl⟩ := List.append_of_mem (hslot hthread)
    obtain ⟨-, hentry, holder⟩ := (linked_append newer ((slot, thread) :: older)).mp h.linked
    rw [List.map_append, List.map_cons, List.nodup_middle, List.nodup_cons, List.mem_append,
      not_or] at hthreads
    rw [List.map_append, List.map_cons, rightAfter_append hthreads.1.1,
      ← linkedThread_newestSlot holder, before, lookup_eq hentry]
    rfl
  · rw [rightAfter_of_notMem hthread, before, h.lookup_eq_none hthread]
    rfl

/-- The thread registered after another one is the one in front of it, if both are listed. -/
theorem Shows.next_eq (h : r.Shows places) (hthreads : (places.map Prod.snd).Nodup)
    (hslot : thread ∈ places.map Prod.snd → (slot, thread) ∈ places) :
    r.next slot thread = .ok (rightAfter thread (places.map Prod.snd).reverse) := by
  by_cases hthread : thread ∈ places.map Prod.snd
  · obtain ⟨newer, older, rfl⟩ := List.append_of_mem (hslot hthread)
    obtain ⟨hnewer, hentry, -⟩ := (linked_append newer ((slot, thread) :: older)).mp h.linked
    rw [List.map_append, List.map_cons, List.nodup_middle, List.nodup_cons, List.mem_append,
      not_or] at hthreads
    have hreverse : (newer.map Prod.snd ++ thread :: older.map Prod.snd).reverse =
        (older.map Prod.snd).reverse ++ thread :: (newer.map Prod.snd).reverse := by simp
    have hnot : thread ∉ (older.map Prod.snd).reverse := by
      rw [List.mem_reverse]
      exact hthreads.1.2
    rw [List.map_append, List.map_cons, hreverse, rightAfter_append hnot,
      ← linkedThread_oldestSlot hnewer, next, lookup_eq hentry]
    rfl
  · rw [rightAfter_of_notMem (by simpa using hthread), next, h.lookup_eq_none hthread]
    rfl

end Neighbours

end Registry

end ManagedCore
