import ManagedCore.Stack.Calls
import Mathlib.Algebra.GroupWithZero.Nat
import Mathlib.Data.List.Induction

/-!
# The frame table

What a frame's header says about its place is fixed by the frames below it: the cursors that it
saves are the last position and the last committed position of the table at its reservation, and
its address is what their bytes and its own leave of the arena.

Frames below a frame of the table never become committed, because only the last frame of a table
can be. So a saved link stays the last committed position below its frame, as long as the frame is
in the table.
-/

namespace ManagedCore

/-- The last position of a table with `count` entries. -/
def lastPosition : Nat → Option Nat
  | 0 => none
  | count + 1 => some count

/-- The last position of a table that holds a committed frame. -/
def lastCommitted : List Frame → Option Nat
  | [] => none
  | frame :: rest =>
    match lastCommitted rest with
    | some id => some (id + 1)
    | none => if frame.isCommitted then some 0 else none

/-- The bytes that the frames of a table take. -/
def tableBytes (frames : List Frame) : Nat :=
  (frames.map Frame.bytes).sum

/-- The frames of a table with their positions, last frame first. -/
def tableChain (frames : List Frame) : List (Nat × Frame) :=
  (frames.zipIdx.map Prod.swap).reverse

/-- A header that fits its place above the frames `below`, in an arena of `capacity` bytes. -/
structure Frame.PlacedOn (frame : Frame) (capacity : Nat) (below : List Frame) : Prop where
  future : frame.returnFuture = lastPosition below.length
  link : frame.returnLink = lastCommitted below
  tiles : frame.address + frame.bytes + tableBytes below = capacity
  filled : ∀ count, frame.state = .reserved count → count ≤ frame.size

/-- Every header of a table fits its place. -/
def TablePlaced (capacity : Nat) (frames : List Frame) : Prop :=
  ∀ (id : Nat) (frame : Frame), frames[id]? = some frame →
    frame.PlacedOn capacity (frames.take id)

/-- A frame added to a table is its last committed one, or leaves that as it was. -/
theorem lastCommitted_concat (frames : List Frame) (frame : Frame) :
    lastCommitted (frames ++ [frame]) =
      if frame.isCommitted then some frames.length else lastCommitted frames := by
  induction frames with
  | nil => rfl
  | cons first rest ih =>
    rw [List.cons_append, lastCommitted, ih, lastCommitted]
    by_cases h : frame.isCommitted
    · simp only [if_pos h, List.length_cons]
    · simp only [if_neg h]

/-- The last committed position is one of the table. -/
theorem lt_of_lastCommitted {frames : List Frame} {id : Nat}
    (h : lastCommitted frames = some id) : id < frames.length := by
  induction frames generalizing id with
  | nil => cases h
  | cons frame rest ih =>
    rw [lastCommitted] at h
    rw [List.length_cons]
    cases hrest : lastCommitted rest with
    | some last =>
      rw [hrest, Option.some_inj] at h
      have hlast := ih hrest
      omega
    | none =>
      by_cases hframe : frame.isCommitted
      · simp only [hrest, hframe, if_true, Option.some_inj] at h
        omega
      · simp [hrest, hframe] at h

/-- Which position is committed last depends only on which frames are committed. -/
theorem lastCommitted_congr {frames frames' : List Frame}
    (h : frames.map Frame.isCommitted = frames'.map Frame.isCommitted) :
    lastCommitted frames = lastCommitted frames' := by
  induction frames generalizing frames' with
  | nil =>
    cases frames' with
    | nil => rfl
    | cons _ _ => cases h
  | cons frame rest ih =>
    cases frames' with
    | nil => cases h
    | cons frame' rest' =>
      rw [List.map_cons, List.map_cons, List.cons.injEq] at h
      rw [lastCommitted, lastCommitted, ih h.2, h.1]

/-- A frame added to a table comes first. -/
theorem tableChain_concat (frames : List Frame) (frame : Frame) :
    tableChain (frames ++ [frame]) = (frames.length, frame) :: tableChain frames := by
  simp [tableChain, List.zipIdx_append]

/-- The chain has every frame of the table at its position. -/
theorem mem_tableChain {frames : List Frame} {id : Nat} {frame : Frame} :
    (id, frame) ∈ tableChain frames ↔ frames[id]? = some frame := by
  rw [tableChain, List.mem_reverse, List.mem_map]
  constructor
  · rintro ⟨⟨frame', id'⟩, hmem, heq⟩
    cases heq
    exact List.mem_zipIdx_iff_getElem?.mp hmem
  · intro h
    exact ⟨(frame, id), List.mem_zipIdx_iff_getElem?.mpr h, rfl⟩

/-- The chain is as long as the table. -/
@[simp] theorem length_tableChain (frames : List Frame) :
    (tableChain frames).length = frames.length := by
  simp [tableChain]

/-- An empty table takes nothing of the arena. -/
@[simp] theorem tableBytes_nil : tableBytes [] = 0 := rfl

/-- A frame added to a table adds its own bytes. -/
@[simp] theorem tableBytes_concat (frames : List Frame) (frame : Frame) :
    tableBytes (frames ++ [frame]) = tableBytes frames + frame.bytes := by
  simp [tableBytes]

/-- Frames take whole cells. -/
theorem tableBytes_mod (frames : List Frame) : tableBytes frames % cellBytes = 0 := by
  induction frames with
  | nil => rfl
  | cons frame rest ih =>
    have hsum : tableBytes (frame :: rest) = frame.bytes + tableBytes rest := by simp [tableBytes]
    rw [hsum, Frame.bytes, footprint, headerBytes, cellBytes]
    rw [cellBytes] at ih
    omega

/-- The part of a table up to a frame ends with the frame. -/
theorem take_succ_eq_concat {frames : List Frame} {id : Nat} {frame : Frame}
    (h : frames[id]? = some frame) : frames.take (id + 1) = frames.take id ++ [frame] := by
  rw [List.take_add_one, h, Option.toList_some]

/-- A longer part of a table takes at least as many bytes. -/
theorem tableBytes_take_le (frames : List Frame) {count count' : Nat} (h : count ≤ count') :
    tableBytes (frames.take count) ≤ tableBytes (frames.take count') := by
  obtain ⟨more, rfl⟩ := Nat.exists_eq_add_of_le h
  simp [tableBytes, List.take_add]

/-- Replacing an entry keeps what the new entry has in common with the old one. -/
theorem map_set_eq {α β : Type} (f : α → β) {entries : List α} {i : Nat} {old new : α}
    (h : entries[i]? = some old) (hnew : f new = f old) :
    (entries.set i new).map f = entries.map f := by
  obtain ⟨hi, rfl⟩ := List.getElem?_eq_some_iff.mp h
  rw [List.map_set, hnew, ← List.getElem_map f (h := by simpa using hi), List.set_getElem_self]

/-- Of the frames below, a header's place depends on which are committed and on their bytes. -/
theorem Frame.PlacedOn.congr {frame : Frame} {capacity : Nat} {below below' : List Frame}
    (h : frame.PlacedOn capacity below)
    (hcommitted : below'.map Frame.isCommitted = below.map Frame.isCommitted)
    (hbytes : below'.map Frame.bytes = below.map Frame.bytes) : frame.PlacedOn capacity below' where
  future := by
    have hlength : below'.length = below.length := by simpa using congrArg List.length hbytes
    rw [hlength, h.future]
  link := by rw [lastCommitted_congr hcommitted, h.link]
  tiles := by rw [tableBytes, hbytes]; exact h.tiles
  filled := h.filled

namespace TablePlaced

variable {capacity : Nat} {frames : List Frame}

/-- An empty table is placed. -/
theorem nil (capacity : Nat) : TablePlaced capacity [] := by
  intro id frame h
  cases h

/-- A frame that fits on top of a placed table may be added. -/
theorem concat (h : TablePlaced capacity frames) {frame : Frame}
    (hframe : frame.PlacedOn capacity frames) : TablePlaced capacity (frames ++ [frame]) := by
  intro id found hfound
  have hlength := (List.getElem?_eq_some_iff.mp hfound).1
  rw [List.length_append, List.length_singleton] at hlength
  by_cases hid : id < frames.length
  · rw [List.getElem?_append_left hid] at hfound
    rw [List.take_append_of_le_length (by omega)]
    exact h id found hfound
  · obtain rfl : id = frames.length := by omega
    rw [List.getElem?_concat_length, Option.some_inj] at hfound
    subst hfound
    rwa [List.take_append_of_le_length (by omega), List.take_length]

/-- The lower part of a placed table is placed. -/
theorem take (h : TablePlaced capacity frames) (count : Nat) :
    TablePlaced capacity (frames.take count) := by
  intro id frame hframe
  rw [List.getElem?_take] at hframe
  split at hframe
  next hid =>
    rw [List.take_take, Nat.min_eq_left (by omega)]
    exact h id frame hframe
  next => cases hframe

/-- A placed table fits its arena. -/
theorem tableBytes_le (h : TablePlaced capacity frames) : tableBytes frames ≤ capacity := by
  induction frames using List.reverseRecOn with
  | nil => exact Nat.zero_le capacity
  | append_singleton frames frame _ =>
    have hframe := h frames.length frame List.getElem?_concat_length
    rw [List.take_append_of_le_length (by omega), List.take_length] at hframe
    rw [tableBytes_concat]
    have htiles := hframe.tiles
    omega

/--
A header may be replaced by one that keeps its place and its size, and that is committed only if the
old one was. The last header may become committed as well.
-/
theorem set (h : TablePlaced capacity frames) {id : Nat} {frame frame' : Frame}
    (hid : frames[id]? = some frame) (hframe : frame'.PlacedOn capacity (frames.take id))
    (hbytes : frame'.bytes = frame.bytes)
    (hstate : frame'.isCommitted = frame.isCommitted ∨ id + 1 = frames.length) :
    TablePlaced capacity (frames.set id frame') := by
  intro other found hfound
  rw [List.getElem?_set] at hfound
  by_cases heq : id = other
  · subst heq
    rw [if_pos rfl] at hfound
    split at hfound
    next =>
      cases hfound
      rwa [List.take_set_of_le (by omega)]
    next => cases hfound
  · rw [if_neg heq] at hfound
    have hold := h other found hfound
    by_cases hlt : other < id
    · rwa [List.take_set_of_le (by omega)]
    · have hlength := (List.getElem?_eq_some_iff.mp hfound).1
      have hstate : frame'.isCommitted = frame.isCommitted := hstate.resolve_right (by omega)
      have hbelow : (frames.take other)[id]? = some frame := by
        rw [List.getElem?_take, if_pos (by omega), hid]
      rw [List.take_set]
      exact hold.congr (map_set_eq _ hbelow hstate) (map_set_eq _ hbelow hbytes)

end TablePlaced

end ManagedCore
