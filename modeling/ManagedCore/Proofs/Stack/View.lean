import ManagedCore.Proofs.Stack.Private
import ManagedCore.Proofs.Stack.Sound

/-!
# Private frames in the arena

The view of a stack gives every frame the values in its window. It is how a stack with an arena
stands for one with private frames: cells that no window holds are not seen, and since windows share
no cell, a change in one frame's window is a change of that frame alone.
-/

namespace ManagedCore

/-- A header with the values in its window. -/
def Frame.activation (frame : Frame) (cells : Arena) : Activation where
  header := frame
  locals := cells.window frame.firstCell frame.size

namespace Stack

/-- The frames of a stack, each with the values in its window. -/
def view (s : Stack) : PrivateStack where
  capacity := s.capacity
  frames := s.headers.map (Frame.activation · s.cells)

/-- A view keeps the headers. -/
@[simp] theorem headers_view (s : Stack) : s.view.headers = s.headers := by
  simp [view, PrivateStack.headers, Frame.activation, Function.comp_def]

/-- A view has as many frames as there are headers. -/
@[simp] theorem length_frames_view (s : Stack) : s.view.frames.length = s.headers.length :=
  List.length_map ..

/-- A frame of the view is a header with the values in its window. -/
theorem getElem?_frames_view (s : Stack) (id : Nat) :
    s.view.frames[id]? = s.headers[id]?.map (Frame.activation · s.cells) :=
  List.getElem?_map ..

/-- A fresh stack shows no frame. -/
theorem view_create {size : Option Nat} {s : Stack} (h : create size = .ok s) :
    s.view = .fresh s.capacity := by
  rw [view, headers_create h]
  rfl

namespace Sound

variable {s : Stack}

/-- The saved cursor is the last position of the view. -/
theorem view_future (h : s.Sound) : s.view.future = s.future := by
  rw [PrivateStack.future, length_frames_view, h.future]

/-- The saved cursor is the last committed position of the view. -/
theorem view_current (h : s.Sound) : s.view.current = s.current := by
  rw [PrivateStack.current, headers_view, h.current]

/-- The room below the last frame is what the frames of the view leave. -/
theorem view_available (h : s.Sound) : s.view.available = s.available := by
  rw [PrivateStack.available, PrivateStack.usedBytes, headers_view, h.available_eq]
  rfl

/-- A frame's window shows as many values as the frame has variables. -/
theorem length_locals (h : s.Sound) {id : Nat} {frame : Frame}
    (hid : s.headers[id]? = some frame) : (frame.activation s.cells).locals.length = frame.size :=
  Arena.length_window (h.window_le hid)

/-- Soundness does not depend on the values of the cells. -/
theorem withCells (h : s.Sound) {cells : Arena} (hsize : cells.size = s.cells.size) :
    Sound { s with cells := cells } := by
  have hcapacity : capacity { s with cells := cells } = s.capacity := by
    simp only [capacity, hsize]
  exact ⟨by rw [hcapacity]; exact h.granted, by rw [hcapacity]; exact h.placed, h.future,
    h.current⟩

end Sound

/-- The stack is sound, and shows these private frames. -/
structure Shows (s : Stack) (p : PrivateStack) : Prop where
  sound : s.Sound
  view : s.view = p

variable {s : Stack}

/-- A change of cells in one window changes the variables of its frame alone. -/
theorem shows_cells (h : s.Sound) {id : Nat} {frame : Frame} (hid : s.headers[id]? = some frame)
    (cells : Arena) (hsize : cells.size = s.cells.size)
    (houtside : ∀ i, ¬(frame.firstCell ≤ i ∧ i < frame.firstCell + frame.size) →
      cells[i]? = s.cells[i]?) :
    Shows { s with cells := cells } (s.view.setFrame id (frame.activation cells)) := by
  refine ⟨h.withCells hsize, ?_⟩
  have hframes : s.headers.map (Frame.activation · cells) =
      (s.headers.map (Frame.activation · s.cells)).set id (frame.activation cells) := by
    apply List.ext_getElem?
    intro other
    rw [List.getElem?_map, List.getElem?_set, List.length_map, List.getElem?_map]
    by_cases heq : id = other
    · subst heq
      rw [if_pos rfl, if_pos (List.getElem?_eq_some_iff.mp hid).1, hid, Option.map_some]
    · rw [if_neg heq]
      cases hother : s.headers[other]? with
      | none => rfl
      | some frame' =>
        rw [Option.map_some, Option.map_some, Frame.activation, Frame.activation]
        congr 2
        apply Arena.window_congr
        intro i hlow hhigh
        apply houtside i
        intro hin
        exact heq (h.eq_of_shared_cell hid hother hin ⟨hlow, hhigh⟩)
  simp only [view, PrivateStack.setFrame, capacity, hsize, headers] at hframes ⊢
  rw [hframes]

/-- What a new header keeps of the old one while its frame is in the table. -/
structure KeepsPlace (frame frame' : Frame) : Prop where
  address : frame'.address = frame.address
  size : frame'.size = frame.size
  future : frame'.returnFuture = frame.returnFuture
  link : frame'.returnLink = frame.returnLink
  filled : ∀ count, frame'.state = .reserved count → count ≤ frame'.size

/-- A header that keeps its place keeps its window. -/
theorem KeepsPlace.window_eq {frame frame' : Frame} (h : KeepsPlace frame frame')
    (cells : Arena) :
    cells.window frame'.firstCell frame'.size = cells.window frame.firstCell frame.size := by
  rw [Frame.firstCell, h.address, h.size, Frame.firstCell]

/-- A header that keeps its place fits it. -/
theorem KeepsPlace.placedOn {frame frame' : Frame} (h : KeepsPlace frame frame') {capacity : Nat}
    {below : List Frame} (hframe : frame.PlacedOn capacity below) :
    frame'.PlacedOn capacity below where
  future := h.future.trans hframe.future
  link := h.link.trans hframe.link
  tiles := by rw [h.address, Frame.bytes, h.size]; exact hframe.tiles
  filled := h.filled

/-- Replacing a header is replacing an entry of the table. -/
@[simp] theorem headers_setFrame (s : Stack) (id : Nat) (frame : Frame) :
    (s.setFrame id frame).headers = s.headers.set id frame :=
  Array.toList_setIfInBounds ..

/-- A new header in the place of an old one changes no variable. -/
theorem view_setFrame (id : Nat) {frame frame' : Frame} (hkeeps : KeepsPlace frame frame') :
    (s.setFrame id frame').view =
      s.view.setFrame id { frame.activation s.cells with header := frame' } := by
  have hactivation : frame'.activation s.cells =
      { frame.activation s.cells with header := frame' } := by
    rw [Frame.activation, hkeeps.window_eq]
    rfl
  rw [view, headers_setFrame, capacity_setFrame, cells_setFrame, List.map_set, hactivation]
  rfl

/-- A new header that is committed only if the old one was leaves the stack sound. -/
theorem shows_setFrame (h : s.Sound) {id : Nat} {frame frame' : Frame}
    (hid : s.headers[id]? = some frame) (hkeeps : KeepsPlace frame frame')
    (hstate : frame'.isCommitted = frame.isCommitted) :
    Shows (s.setFrame id frame')
      (s.view.setFrame id { frame.activation s.cells with header := frame' }) := by
  have hbytes : frame'.bytes = frame.bytes := by rw [Frame.bytes, hkeeps.size, Frame.bytes]
  refine ⟨⟨h.granted, ?_, ?_, ?_⟩, view_setFrame id hkeeps⟩
  · rw [headers_setFrame]
    exact h.placed.set hid (hkeeps.placedOn (h.placed id frame hid)) hbytes (.inl hstate)
  · rw [headers_setFrame, List.length_set]
    exact h.future
  · rw [headers_setFrame, lastCommitted_congr (map_set_eq _ hid hstate)]
    exact h.current

end Stack

end ManagedCore
