import ManagedCore.Proofs.Stack.Refinement
import ManagedCore.Proofs.Stack.Walk

/-!
# Questions to a stack

What a stack tells about itself: its headers, its variables, its cursors, its chains, and the room
that is left. A sound stack answers each question as the private frames that it shows.
-/

namespace ManagedCore

/-- A question that changes nothing. -/
inductive Query : Type → Type where
  | frame (id : Nat) : Query Frame
  | currentFrame : Query (Option Frame)
  | currentContext : Query Value
  | locals (id : Nat) : Query (List Value)
  | load (id index : Nat) : Query Value
  | loadCurrent (index : Nat) : Query Value
  | walk : Query (List (Nat × Frame))
  | callChain : Query (List (Nat × Frame))
  | depth : Query Nat
  | isEmpty : Query Bool
  | capacity : Query Nat
  | available : Query Nat
  | usedBytes : Query Nat
  | current : Query (Option Nat)
  | future : Query (Option Nat)

namespace Query

variable {α : Type}

/-- The answer of a stack. -/
def answer (s : Stack) : Query α → Except Violation α
  | frame id => s.frame id
  | currentFrame => s.currentFrame
  | currentContext => s.currentContext
  | locals id => s.locals id
  | load id index => s.load id index
  | loadCurrent index => s.loadCurrent index
  | walk => .ok s.walk
  | callChain => .ok s.callChain
  | depth => .ok s.depth
  | isEmpty => .ok s.isEmpty
  | capacity => .ok s.capacity
  | available => .ok s.available
  | usedBytes => .ok s.usedBytes
  | current => .ok s.current
  | future => .ok s.future

/-- The answer of private frames. -/
def privateAnswer (p : PrivateStack) : Query α → Except Violation α
  | frame id => p.frame id
  | currentFrame => p.currentFrame
  | currentContext => p.ofCurrent fun id => Frame.context <$> p.frame id
  | locals id => p.locals id
  | load id index => p.load id index
  | loadCurrent index => p.ofCurrent fun id => p.load id index
  | walk => .ok p.walk
  | callChain => .ok p.callChain
  | depth => .ok p.callChain.length
  | isEmpty => .ok p.frames.isEmpty
  | capacity => .ok p.capacity
  | available => .ok p.available
  | usedBytes => .ok p.usedBytes
  | current => .ok p.current
  | future => .ok p.future

end Query

namespace Stack.Sound

variable {s : Stack}

/-- A frame of the view has the header of the table. -/
theorem view_frame (s : Stack) (id : Nat) : s.view.frame id = s.frame id := by
  rw [PrivateStack.frame, Stack.frame, getElem?_frames]
  cases hid : s.headers[id]? with
  | none => rw [activation_view_none hid]; rfl
  | some frame => rw [activation_view hid]; rfl

/-- A frame of the view has the values of the frame's window. -/
theorem view_locals (s : Stack) (id : Nat) : s.view.locals id = s.locals id := by
  rw [PrivateStack.locals, locals, Stack.frame, getElem?_frames]
  cases hid : s.headers[id]? with
  | none => rw [activation_view_none hid]; rfl
  | some frame => rw [activation_view hid]; rfl

/-- A variable of the view has the value of its cell. -/
theorem view_load (h : s.Sound) (id index : Nat) : s.view.load id index = s.load id index := by
  rw [PrivateStack.load, load]
  cases hid : s.headers[id]? with
  | none => rw [activation_view_none hid, cellOf_none hid]; rfl
  | some frame =>
    have hlength := h.length_locals hid
    have hwindow := h.window_le hid
    have hlocal : (frame.activation s.cells).locals[index]? =
        if index < frame.size then s.cells[frame.firstCell + index]? else none :=
      Arena.getElem?_window ..
    rw [activation_view hid, cellOf_eq hid]
    by_cases hindex : index < frame.size
    · have hcell : frame.firstCell + index < s.cells.size := by omega
      rw [if_pos hindex, Array.getElem?_eq_getElem hcell] at hlocal
      simp only [bind, Except.bind, pure, Except.pure, hlocal, if_pos hindex,
        Array.getD_eq_getD_getElem?, Array.getElem?_eq_getElem hcell, Option.getD_some]
    · rw [if_neg hindex] at hlocal
      simp only [bind, Except.bind, hlocal, if_neg hindex, hlength]
      rfl

/-- The view is empty when no frame is innermost. -/
theorem view_isEmpty (h : s.Sound) : s.view.frames.isEmpty = s.isEmpty := by
  rw [isEmpty, h.future, ← length_frames_view]
  cases s.view.frames with
  | nil => rfl
  | cons first rest => rfl

/-- The frames of the view take what is not available. -/
theorem view_usedBytes (h : s.Sound) : s.view.usedBytes = s.usedBytes := by
  have hle := h.placed.tableBytes_le
  rw [PrivateStack.usedBytes, headers_view, usedBytes, h.available_eq]
  omega

/-- A stack answers every question as its private frames do. -/
theorem answer_view (h : s.Sound) {α : Type} (query : Query α) :
    query.privateAnswer s.view = query.answer s := by
  cases query with
  | frame id => exact view_frame s id
  | currentFrame =>
    simp only [Query.privateAnswer, Query.answer, PrivateStack.currentFrame, h.view_current,
      view_frame]
    rfl
  | currentContext =>
    simp only [Query.privateAnswer, Query.answer, PrivateStack.ofCurrent, h.view_current,
      view_frame]
    rfl
  | locals id => exact view_locals s id
  | load id index => exact h.view_load id index
  | loadCurrent index =>
    simp only [Query.privateAnswer, Query.answer, PrivateStack.ofCurrent, h.view_current,
      h.view_load]
    rfl
  | walk =>
    simp only [Query.privateAnswer, Query.answer, PrivateStack.walk, headers_view, h.walk_eq]
  | callChain =>
    simp only [Query.privateAnswer, Query.answer, PrivateStack.callChain, PrivateStack.walk,
      headers_view, h.callChain_eq]
  | depth =>
    simp only [Query.privateAnswer, Query.answer, PrivateStack.callChain, PrivateStack.walk,
      headers_view, depth, h.callChain_eq]
  | isEmpty => simp only [Query.privateAnswer, Query.answer, h.view_isEmpty]
  | capacity => rfl
  | available => simp only [Query.privateAnswer, Query.answer, h.view_available]
  | usedBytes => simp only [Query.privateAnswer, Query.answer, h.view_usedBytes]
  | current => simp only [Query.privateAnswer, Query.answer, h.view_current]
  | future => simp only [Query.privateAnswer, Query.answer, h.view_future]

end Stack.Sound

end ManagedCore
