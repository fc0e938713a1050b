import ManagedCore.Proofs.Stack.Sound

/-!
# Walking down a stack

Both chains of a sound stack end, and neither leaves out a frame nor meets one twice: along the
saved innermost frames lies the whole table, and along the saved current frames lie its committed
frames, last frame first.
-/

namespace ManagedCore.Stack

variable {s : Stack}

/-- From no frame nothing is met. -/
@[simp] theorem follow_none (s : Stack) (link : Frame → Option FrameId) (fuel : Nat) :
    s.follow link fuel none = [] := by
  cases fuel <;> rfl

/-- From a frame of the table the frame is met first. -/
theorem follow_some {id : Nat} {frame : Frame} (hid : s.headers[id]? = some frame)
    (link : Frame → Option FrameId) (fuel : Nat) :
    s.follow link (fuel + 1) (some id) = (id, frame) :: s.follow link fuel (link frame) := by
  rw [follow, getElem?_frames, hid]

namespace Sound

/-- The saved innermost frames lead through the lower part of the table. -/
theorem follow_returnFuture (h : s.Sound) {count fuel : Nat} (hcount : count ≤ s.headers.length)
    (hfuel : count ≤ fuel) :
    s.follow Frame.returnFuture fuel (lastPosition count) = tableChain (s.headers.take count) := by
  induction count generalizing fuel with
  | zero => rw [lastPosition, follow_none, List.take_zero]; rfl
  | succ count ih =>
    obtain ⟨fuel, rfl⟩ := Nat.exists_eq_add_of_le' hfuel
    have hid : s.headers[count]? = some s.headers[count] := List.getElem?_eq_getElem hcount
    have hlength : (s.headers.take count).length = count := List.length_take_of_le (by omega)
    have hlink := (h.placed count _ hid).future
    rw [hlength] at hlink
    rw [lastPosition, show fuel + (count + 1) = fuel + count + 1 by omega, follow_some hid, hlink,
      ih (by omega) (by omega), take_succ_eq_concat hid, tableChain_concat, hlength]

/-- The saved current frames lead through the committed frames of the lower part of the table. -/
theorem follow_returnLink (h : s.Sound) {count fuel : Nat} (hcount : count ≤ s.headers.length)
    (hfuel : count ≤ fuel) :
    s.follow Frame.returnLink fuel (lastCommitted (s.headers.take count)) =
      (tableChain (s.headers.take count)).filter (·.2.isCommitted) := by
  induction count generalizing fuel with
  | zero => rw [List.take_zero, lastCommitted, follow_none]; rfl
  | succ count ih =>
    have hid : s.headers[count]? = some s.headers[count] := List.getElem?_eq_getElem hcount
    have hlength : (s.headers.take count).length = count := List.length_take_of_le (by omega)
    have hlink := (h.placed count _ hid).link
    rw [take_succ_eq_concat hid, tableChain_concat, lastCommitted_concat, hlength]
    by_cases hcommitted : s.headers[count].isCommitted
    · obtain ⟨fuel, rfl⟩ := Nat.exists_eq_add_of_le' hfuel
      rw [if_pos hcommitted, List.filter_cons, if_pos hcommitted,
        show fuel + (count + 1) = fuel + count + 1 by omega, follow_some hid, hlink,
        ih (by omega) (by omega)]
    · rw [if_neg hcommitted, List.filter_cons, if_neg hcommitted, ih (by omega) (by omega)]

/-- A walk meets every frame of the table once, last frame first. -/
theorem walk_eq (h : s.Sound) : s.walk = tableChain s.headers := by
  rw [walk, h.future, size_frames, h.follow_returnFuture (Nat.le_refl _) (Nat.le_refl _),
    List.take_length]

/-- The call chain meets every committed frame once, last frame first. -/
theorem callChain_eq (h : s.Sound) :
    s.callChain = (tableChain s.headers).filter (·.2.isCommitted) := by
  have hchain : s.follow Frame.returnLink s.headers.length
      (lastCommitted (s.headers.take s.headers.length)) = _ :=
    h.follow_returnLink (Nat.le_refl _) (Nat.le_refl _)
  rw [List.take_length] at hchain
  rw [callChain, h.current, size_frames, hchain]

end Sound

end ManagedCore.Stack
