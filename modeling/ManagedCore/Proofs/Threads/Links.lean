import ManagedCore.Threads.Registry
import Mathlib.Data.List.Basic

/-!
# Doubly linked segments

A piece of the list of threads is a list of slots with their threads, newest first. It is linked in
a table when every entry names its neighbours in the piece, and the entries at the two ends name
what the piece is to be joined to. Two pieces that are joined are one piece, and an entry that does
not belong to a piece may be changed at will.
-/

namespace ManagedCore

/-- A slot and the thread in it. -/
abbrev Place := Nat × ThreadRef

/-- The slot of the newest place, or what the piece is joined to if it is empty. -/
def newestSlot (piece : List Place) (older : Option Nat) : Option Nat :=
  match piece with
  | [] => older
  | place :: _ => some place.1

/-- The slot of the oldest place, or what the piece is joined to if it is empty. -/
def oldestSlot (newer : Option Nat) : List Place → Option Nat
  | [] => newer
  | place :: rest => oldestSlot (some place.1) rest

/-- The piece is linked in the table, from the slot `newer` above it to the slot `older` below. -/
def Linked (entries : Array (Option RegistryEntry)) (older : Option Nat) :
    Option Nat → List Place → Prop
  | _, [] => True
  | newer, (slot, thread) :: rest =>
    entries[slot]? = some (some ⟨thread, newestSlot rest older, newer⟩) ∧
      Linked entries older (some slot) rest

variable {entries entries' : Array (Option RegistryEntry)} {newer older : Option Nat}
  {piece : List Place}

/-- A piece is joined to the newest place of the next one. -/
theorem newestSlot_append (first second : List Place) (older : Option Nat) :
    newestSlot (first ++ second) older = newestSlot first (newestSlot second older) := by
  cases first <;> rfl

/-- A piece ends where its last part ends. -/
theorem oldestSlot_append (newer : Option Nat) (first second : List Place) :
    oldestSlot newer (first ++ second) = oldestSlot (oldestSlot newer first) second := by
  induction first generalizing newer with
  | nil => rfl
  | cons place rest ih => exact ih (some place.1)

/-- A piece that is not empty has an oldest slot. -/
theorem isNone_oldestSlot (newer : Option Nat) (place : Place) (rest : List Place) :
    (oldestSlot newer (place :: rest)).isNone = false := by
  induction rest generalizing newer place with
  | nil => rfl
  | cons next rest ih => exact ih (some place.1) next

/-- Joined pieces are linked when both are, each to the other's end. -/
theorem linked_append (first second : List Place) :
    Linked entries older newer (first ++ second) ↔
      Linked entries (newestSlot second older) newer first ∧
        Linked entries older (oldestSlot newer first) second := by
  induction first generalizing newer with
  | nil => simp [Linked, oldestSlot]
  | cons place rest ih =>
    obtain ⟨slot, thread⟩ := place
    rw [List.cons_append, Linked, Linked, ih, newestSlot_append, oldestSlot, and_assoc]

/-- A piece stays linked when the entries in its slots stay. -/
theorem Linked.congr (h : Linked entries older newer piece)
    (hentries : ∀ slot ∈ piece.map Prod.fst, entries'[slot]? = entries[slot]?) :
    Linked entries' older newer piece := by
  induction piece generalizing newer with
  | nil => trivial
  | cons place rest ih =>
    obtain ⟨slot, thread⟩ := place
    obtain ⟨hplace, hrest⟩ := h
    obtain ⟨hslot, hslots⟩ := List.forall_mem_cons.mp hentries
    exact ⟨hslot.trans hplace, ih hrest hslots⟩

/-- The slots of a linked piece are occupied by its threads. -/
theorem Linked.exists_entry (h : Linked entries older newer piece) {place : Place}
    (hmem : place ∈ piece) :
    ∃ before next, entries[place.1]? = some (some ⟨place.2, before, next⟩) := by
  induction piece generalizing newer with
  | nil => cases hmem
  | cons first rest ih =>
    obtain ⟨hplace, hrest⟩ := h
    rcases List.mem_cons.mp hmem with rfl | hmem
    · exact ⟨_, _, hplace⟩
    · exact ih hrest hmem

/-- The table with changes in some slots only. -/
structure ChangedIn (slots : List Nat) (entries entries' : Array (Option RegistryEntry)) :
    Prop where
  size : entries'.size = entries.size
  same : ∀ slot ∉ slots, entries'[slot]? = entries[slot]?

/-- Another entry in one slot changes that slot only. -/
theorem changedIn_set (entries : Array (Option RegistryEntry)) {slot : Nat} {slots : List Nat}
    (hslot : slot ∈ slots) (entry : Option RegistryEntry) :
    ChangedIn slots entries (entries.setIfInBounds slot entry) := by
  refine ⟨Array.size_setIfInBounds, fun other hother => ?_⟩
  have hne : slot ≠ other := fun heq => hother (heq ▸ hslot)
  exact Array.getElem?_setIfInBounds_ne hne

/-- Changes in the slots of a piece that stays linked make no slot vacant and occupy none. -/
theorem ChangedIn.vacant_iff (h : ChangedIn (piece.map Prod.fst) entries entries')
    (hlinked : Linked entries older newer piece) {newer' older' : Option Nat}
    (hlinked' : Linked entries' older' newer' piece) (slot : Nat) :
    entries'[slot]? = some none ↔ entries[slot]? = some none := by
  by_cases hslot : slot ∈ piece.map Prod.fst
  · obtain ⟨place, hmem, rfl⟩ := List.mem_map.mp hslot
    obtain ⟨before, next, hentry⟩ := hlinked.exists_entry hmem
    obtain ⟨before', next', hentry'⟩ := hlinked'.exists_entry hmem
    simp [hentry, hentry']
  · rw [h.same slot hslot]

/-- A piece without the changed slots stays linked. -/
theorem Linked.changed (h : Linked entries older newer piece) {slots : List Nat}
    (hchanged : ChangedIn slots entries entries')
    (hdisjoint : ∀ slot ∈ piece.map Prod.fst, slot ∉ slots) :
    Linked entries' older newer piece :=
  h.congr fun slot hslot => hchanged.same slot (hdisjoint slot hslot)

namespace Registry

variable {r : Registry}

/-- An entry in an occupied slot is changed. -/
theorem adjust_eq {slot : Nat} {entry : RegistryEntry} (h : r.entries[slot]? = some (some entry))
    (change : RegistryEntry → RegistryEntry) :
    r.adjust slot change =
      .ok { r with entries := r.entries.setIfInBounds slot (some (change entry)) } := by
  rw [adjust, Registry.entry, h]
  rfl

/-- The newest entry of a piece is joined to another one above. -/
theorem adjust_newest (h : Linked r.entries older newer piece) (hslots : (piece.map Prod.fst).Nodup)
    (newer' : Option Nat) :
    ∃ entries', r.adjustLinked (newestSlot piece none) (fun entry => { entry with next := newer' }) =
        .ok { r with entries := entries' } ∧
      Linked entries' older newer' piece ∧ ChangedIn (piece.map Prod.fst) r.entries entries' := by
  cases piece with
  | nil => exact ⟨r.entries, rfl, trivial, rfl, fun _ _ => rfl⟩
  | cons place rest =>
    obtain ⟨slot, thread⟩ := place
    obtain ⟨hplace, hrest⟩ := h
    obtain ⟨hslot, -⟩ := List.nodup_cons.mp hslots
    have hlt : slot < r.entries.size := (Array.getElem?_eq_some_iff.mp hplace).1
    refine ⟨_, adjust_eq hplace _, ⟨?_, ?_⟩, changedIn_set _ List.mem_cons_self _⟩
    · exact Array.getElem?_setIfInBounds_self_of_lt hlt
    · apply hrest.changed (changedIn_set r.entries (List.mem_singleton_self slot) _)
      intro other hother heq
      exact hslot (List.mem_singleton.mp heq ▸ hother)

/-- The oldest entry of a piece is joined to another one below. -/
theorem adjust_oldest (h : Linked r.entries older newer piece) (hslots : (piece.map Prod.fst).Nodup)
    (older' : Option Nat) :
    ∃ entries', r.adjustLinked (oldestSlot none piece) (fun entry => { entry with before := older' }) =
        .ok { r with entries := entries' } ∧
      Linked entries' older' newer piece ∧ ChangedIn (piece.map Prod.fst) r.entries entries' := by
  rcases List.eq_nil_or_concat' piece with rfl | ⟨init, ⟨slot, thread⟩, rfl⟩
  · exact ⟨r.entries, rfl, trivial, rfl, fun _ _ => rfl⟩
  · obtain ⟨hinit, hplace, -⟩ := (linked_append init [(slot, thread)]).mp h
    have hlt : slot < r.entries.size := (Array.getElem?_eq_some_iff.mp hplace).1
    have hslot : slot ∉ init.map Prod.fst := by
      rw [List.map_append, List.nodup_append] at hslots
      intro hmem
      exact hslots.2.2 slot hmem slot (by simp) rfl
    have hlink : oldestSlot none (init ++ [(slot, thread)]) = some slot := oldestSlot_append ..
    rw [hlink]
    refine ⟨_, adjust_eq hplace _, ?_, changedIn_set _ (by simp) _⟩
    refine (linked_append init [(slot, thread)]).mpr ⟨?_, ?_, trivial⟩
    · apply hinit.changed (changedIn_set r.entries (List.mem_singleton_self slot) _)
      intro other hother heq
      exact hslot (List.mem_singleton.mp heq ▸ hother)
    · exact Array.getElem?_setIfInBounds_self_of_lt hlt

end Registry

end ManagedCore
