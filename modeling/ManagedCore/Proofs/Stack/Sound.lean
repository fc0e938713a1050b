import ManagedCore.Proofs.Stack.Table
import ManagedCore.Proofs.Stack.Windows

/-!
# Sound stacks

A stack is sound when its table is placed in its arena and its cursors are the table's last position
and its last committed position. Then the frames tile the upper part of the arena: a frame's window
ends where the frame below it begins, so no two windows share a cell, and what is left below the
last frame is `available`.
-/

namespace ManagedCore

/-- In an arena of whole cells, a placed frame's window ends where the frames below it begin. -/
theorem Frame.PlacedOn.window_end {frame : Frame} {count : Nat} {below : List Frame}
    (h : frame.PlacedOn (count * cellBytes) below) :
    (frame.firstCell + frame.size) * cellBytes + tableBytes below = count * cellBytes := by
  have htiles := h.tiles
  have hbelow := tableBytes_mod below
  rw [Frame.bytes, footprint] at htiles
  rw [Frame.firstCell]
  simp only [cellBytes, headerBytes] at *
  omega

namespace Stack

/-- The headers of all frames, oldest frame first. -/
def headers (s : Stack) : List Frame := s.frames.toList

/-- The table is placed in the arena, and the cursors point to its last positions. -/
structure Sound (s : Stack) : Prop where
  granted : s.capacity < allocationLimit
  placed : TablePlaced s.capacity s.headers
  future : s.future = lastPosition s.headers.length
  current : s.current = lastCommitted s.headers

/-- The entries of the frame table are the headers. -/
@[simp] theorem getElem?_frames (s : Stack) (id : Nat) : s.frames[id]? = s.headers[id]? :=
  Array.getElem?_toList.symm

/-- The frame table has as many entries as there are headers. -/
@[simp] theorem size_frames (s : Stack) : s.frames.size = s.headers.length :=
  Array.length_toList.symm

/-- A fresh stack is sound. -/
theorem sound_create {size : Option Nat} {s : Stack} (h : create size = .ok s) : s.Sound := by
  unfold create at h
  simp only at h
  split at h
  next => cases h
  next hlimit =>
    cases h
    refine ⟨?_, TablePlaced.nil _, rfl, rfl⟩
    simp only [capacity, Array.size_replicate, cellBytes] at hlimit ⊢
    omega

/-- A fresh stack has no frame. -/
theorem headers_create {size : Option Nat} {s : Stack} (h : create size = .ok s) :
    s.headers = [] := by
  unfold create at h
  simp only at h
  split at h
  · cases h
  · cases h
    rfl

/-- A fresh stack is empty, and its arena has the whole cells of what was asked for. -/
theorem isEmpty_create {size : Option Nat} {s : Stack} (h : create size = .ok s) :
    s.isEmpty = true ∧ s.capacity = size.getD defaultStackBytes / cellBytes * cellBytes := by
  unfold create at h
  simp only at h
  split at h
  · cases h
  · cases h
    exact ⟨rfl, by rw [capacity, Array.size_replicate]⟩

/-- A stack without room is sound. -/
theorem sound_empty : Stack.empty.Sound := sound_create (show create (some 0) = .ok .empty from rfl)

namespace Sound

variable {s : Stack}

/-- What the frames leave of the arena is available. -/
theorem available_eq (h : s.Sound) : s.available = s.capacity - tableBytes s.headers := by
  rw [available, h.future]
  cases hheaders : s.headers using List.reverseRecOn with
  | nil => simp [lastPosition]
  | append_singleton frames frame _ =>
    have hframe : s.headers[frames.length]? = some frame := by
      rw [hheaders, List.getElem?_concat_length]
    have htiles := (h.placed _ _ hframe).tiles
    rw [hheaders, List.take_append_of_le_length (Nat.le_refl _), List.take_length] at htiles
    have hfuture : lastPosition (frames ++ [frame]).length = some frames.length := by
      rw [List.length_append, List.length_singleton, lastPosition]
    rw [hfuture, Option.bind_some, getElem?_frames, hframe, tableBytes_concat]
    show frame.address = s.capacity - (tableBytes frames + frame.bytes)
    omega

/-- A frame's window lies inside the arena, and ends where the frames below it begin. -/
theorem window_end (h : s.Sound) {id : Nat} {frame : Frame} (hid : s.headers[id]? = some frame) :
    (frame.firstCell + frame.size) * cellBytes + tableBytes (s.headers.take id) = s.capacity :=
  (h.placed id frame hid).window_end

/-- A frame's window lies inside the arena. -/
theorem window_le (h : s.Sound) {id : Nat} {frame : Frame} (hid : s.headers[id]? = some frame) :
    frame.firstCell + frame.size ≤ s.cells.size := by
  have hend := h.window_end hid
  rw [capacity, cellBytes] at hend
  omega

/-- A younger frame's window ends before an older one's begins. -/
theorem window_lt (h : s.Sound) {older younger : Nat} {frame frame' : Frame}
    (hlt : older < younger) (hold : s.headers[older]? = some frame)
    (hyoung : s.headers[younger]? = some frame') :
    frame'.firstCell + frame'.size ≤ frame.firstCell := by
  have hend := h.window_end hold
  have hend' := h.window_end hyoung
  have hbytes : tableBytes (s.headers.take (older + 1)) ≤ tableBytes (s.headers.take younger) :=
    tableBytes_take_le s.headers hlt
  rw [take_succ_eq_concat hold, tableBytes_concat, Frame.bytes, footprint] at hbytes
  simp only [cellBytes, headerBytes] at *
  omega

/-- A cell of one frame's window is not a cell of another's. -/
theorem eq_of_shared_cell (h : s.Sound) {id id' cell : Nat} {frame frame' : Frame}
    (hid : s.headers[id]? = some frame) (hid' : s.headers[id']? = some frame')
    (hcell : frame.firstCell ≤ cell ∧ cell < frame.firstCell + frame.size)
    (hcell' : frame'.firstCell ≤ cell ∧ cell < frame'.firstCell + frame'.size) : id = id' := by
  by_contra hne
  rcases Nat.lt_or_gt_of_ne hne with hlt | hlt
  · have hwindow := h.window_lt hlt hid hid'
    omega
  · have hwindow := h.window_lt hlt hid' hid
    omega

end Sound

end Stack

end ManagedCore
