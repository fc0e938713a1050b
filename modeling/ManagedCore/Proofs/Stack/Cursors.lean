import ManagedCore.Proofs.Stack.Programs
import Mathlib.Order.Bounds.Basic

/-!
# Cursors and saved links

Both cursors of a reachable stack, and both links that a frame saves, lead as far up the table as
they can: to the last frame, or to the last committed one, of all frames or of those below. So the
two chains end on their own, without the bound that the definitions put on them, and the cursors tell
in advance which commits and returns are refused.
-/

namespace ManagedCore

/-- The greatest of some positions, or none if there are no such positions. -/
def LastOf (positions : Set Nat) : Option Nat → Prop
  | none => positions = ∅
  | some id => IsGreatest positions id

/-- The positions of a table's committed frames. -/
def committedAt (frames : List Frame) : Set Nat :=
  {id | ∃ frame, frames[id]? = some frame ∧ frame.isCommitted = true}

/-- A position is that of a committed frame. -/
theorem mem_committedAt {frames : List Frame} {id : Nat} :
    id ∈ committedAt frames ↔ ∃ frame, frames[id]? = some frame ∧ frame.isCommitted = true :=
  Iff.rfl

/-- The last position of a table is the last of its positions. -/
theorem lastOf_lastPosition (count : Nat) : LastOf {id | id < count} (lastPosition count) := by
  cases count with
  | zero => exact Set.eq_empty_of_forall_notMem fun id hid => Nat.not_lt_zero id hid
  | succ count => exact ⟨Nat.lt_succ_self count, fun id hid => Nat.le_of_lt_succ hid⟩

/-- A frame on top of a table is committed at the table's length. -/
theorem mem_committedAt_concat {frames : List Frame} {frame : Frame} {id : Nat} :
    id ∈ committedAt (frames ++ [frame]) ↔
      id ∈ committedAt frames ∨ id = frames.length ∧ frame.isCommitted = true := by
  simp only [mem_committedAt]
  rcases Nat.lt_trichotomy id frames.length with hlt | rfl | hgt
  · have hne : id ≠ frames.length := Nat.ne_of_lt hlt
    rw [List.getElem?_append_left hlt]
    simp [hne]
  · have hnone : frames[frames.length]? = none := List.getElem?_eq_none (Nat.le_refl _)
    rw [List.getElem?_concat_length, hnone]
    simp
  · have hnone : frames[id]? = none := List.getElem?_eq_none (Nat.le_of_lt hgt)
    have hnone' : (frames ++ [frame])[id]? = none :=
      List.getElem?_eq_none (by rw [List.length_append, List.length_singleton]; exact hgt)
    have hne : id ≠ frames.length := Nat.ne_of_gt hgt
    simp [hnone, hnone', hne]

/-- The last committed position is the last position of a committed frame. -/
theorem lastOf_lastCommitted (frames : List Frame) :
    LastOf (committedAt frames) (lastCommitted frames) := by
  induction frames using List.reverseRecOn with
  | nil => exact Set.eq_empty_of_forall_notMem fun id ⟨_, hid, _⟩ => by cases hid
  | append_singleton frames frame ih =>
    rw [lastCommitted_concat]
    by_cases hframe : frame.isCommitted = true
    · rw [if_pos hframe]
      refine ⟨mem_committedAt_concat.mpr (.inr ⟨rfl, hframe⟩), fun id ⟨other, hid, _⟩ => ?_⟩
      have hlength := (List.getElem?_eq_some_iff.mp hid).1
      rw [List.length_append, List.length_singleton] at hlength
      exact Nat.le_of_lt_succ hlength
    · have hsame : committedAt (frames ++ [frame]) = committedAt frames := by
        ext id
        simp [mem_committedAt_concat, hframe]
      rwa [if_neg hframe, hsame]

/-- The committed positions of the lower part of a table. -/
theorem committedAt_take (frames : List Frame) (count : Nat) :
    committedAt (frames.take count) = {id | id ∈ committedAt frames ∧ id < count} := by
  ext id
  show id ∈ committedAt (frames.take count) ↔ id ∈ committedAt frames ∧ id < count
  simp only [mem_committedAt, List.getElem?_take]
  by_cases hid : id < count
  · simp [hid]
  · simp [hid]

namespace Stack

/-- What is met from a cursor on along a link, until the link leads to no frame any more. -/
inductive Leads (s : Stack) (link : Frame → Option FrameId) :
    Option FrameId → List (FrameId × Frame) → Prop
  | done : Leads s link none []
  | step {id : FrameId} {frame : Frame} {rest : List (FrameId × Frame)}
    (hid : s.frames[id]? = some frame) (hrest : Leads s link (link frame) rest) :
    Leads s link (some id) ((id, frame) :: rest)

/-- Either the condition holds and the operation is a violation, or it does not and it completes. -/
def ViolatesIff {α : Type} (operation : StackM α) (s : Stack) (condition : Prop) : Prop :=
  (condition ∧ ∃ violation, operation s = .error (.violation violation) s) ∨
    (¬condition ∧ ∃ result after, operation s = .ok result after)

variable {s : Stack}

/-- Along a link to older frames, no bound on the number of steps is needed. -/
theorem leads_follow {link : Frame → Option FrameId}
    (hlink : ∀ (id : Nat) (frame : Frame), s.headers[id]? = some frame →
      ∀ next, link frame = some next → next < id)
    {fuel : Nat} {start : Option FrameId} (hfuel : fuel ≤ s.headers.length)
    (hstart : ∀ id, start = some id → id < fuel) :
    s.Leads link start (s.follow link fuel start) := by
  -- The positions fall below the fuel together with it, so that it is never what ends the walk.
  induction fuel generalizing start with
  | zero =>
    cases start with
    | none => exact .done
    | some id => exact absurd (hstart id rfl) (Nat.not_lt_zero id)
  | succ fuel ih =>
    cases start with
    | none => exact .done
    | some id =>
      have hlt : id < s.headers.length := Nat.lt_of_lt_of_le (hstart id rfl) hfuel
      have hid : s.headers[id]? = some s.headers[id] := List.getElem?_eq_getElem hlt
      rw [follow_some hid]
      refine .step ((getElem?_frames s id).trans hid) (ih (by omega) fun next hnext => ?_)
      exact Nat.lt_of_lt_of_le (hlink id _ hid next hnext) (Nat.le_of_lt_succ (hstart id rfl))

namespace Sound

/-- A saved innermost frame is older. -/
theorem returnFuture_lt (h : s.Sound) {id next : Nat} {frame : Frame}
    (hid : s.headers[id]? = some frame) (hnext : frame.returnFuture = some next) : next < id := by
  have hlast := lastOf_lastPosition (s.headers.take id).length
  rw [← (h.placed id frame hid).future, hnext] at hlast
  have hlt : next < (s.headers.take id).length := hlast.1
  rw [List.length_take] at hlt
  omega

/-- A saved current frame is older. -/
theorem returnLink_lt (h : s.Sound) {id next : Nat} {frame : Frame}
    (hid : s.headers[id]? = some frame) (hnext : frame.returnLink = some next) : next < id := by
  have hlt := lt_of_lastCommitted ((h.placed id frame hid).link ▸ hnext)
  rw [List.length_take] at hlt
  omega

/-- The innermost frame is the last of the table. -/
theorem lastOf_future (h : s.Sound) : LastOf {id | id < s.headers.length} s.future :=
  h.future ▸ lastOf_lastPosition _

/-- The current frame is the last committed one. -/
theorem lastOf_current (h : s.Sound) : LastOf (committedAt s.headers) s.current :=
  h.current ▸ lastOf_lastCommitted _

/-- The saved innermost frame is the one right below. -/
theorem lastOf_returnFuture (h : s.Sound) {id : Nat} {frame : Frame}
    (hid : s.headers[id]? = some frame) : LastOf {other | other < id} frame.returnFuture := by
  have hlength : (s.headers.take id).length = id :=
    List.length_take_of_le (Nat.le_of_lt (List.getElem?_eq_some_iff.mp hid).1)
  have hlast := lastOf_lastPosition (s.headers.take id).length
  rwa [← (h.placed id frame hid).future, hlength] at hlast

/-- The saved current frame is the last committed one below. -/
theorem lastOf_returnLink (h : s.Sound) {id : Nat} {frame : Frame}
    (hid : s.headers[id]? = some frame) :
    LastOf {other | other ∈ committedAt s.headers ∧ other < id} frame.returnLink := by
  have hlast := lastOf_lastCommitted (s.headers.take id)
  rwa [← (h.placed id frame hid).link, committedAt_take] at hlast

/-- The walk follows the saved innermost frames to their end. -/
theorem leads_walk (h : s.Sound) : s.Leads Frame.returnFuture s.future s.walk := by
  rw [walk, size_frames]
  refine leads_follow (fun _ _ hid _ => h.returnFuture_lt hid) (Nat.le_refl _) fun id hid => ?_
  have hlast := h.lastOf_future
  rw [hid] at hlast
  exact hlast.1

/-- The call chain follows the saved current frames to their end. -/
theorem leads_callChain (h : s.Sound) : s.Leads Frame.returnLink s.current s.callChain := by
  rw [callChain, size_frames]
  refine leads_follow (fun _ _ hid _ => h.returnLink_lt hid) (Nat.le_refl _) fun id hid => ?_
  exact lt_of_lastCommitted (h.current ▸ hid)

/-- There are as many committed frames as the call chain has. -/
theorem depth_eq (h : s.Sound) : s.depth = s.headers.countP Frame.isCommitted := by
  rw [depth, h.callChain_eq, ← List.countP_eq_length_filter, tableChain, List.countP_reverse,
    List.countP_map]
  conv_rhs => rw [← List.zipIdx_map_fst 0 s.headers, List.countP_map]
  rfl

/-- A commit is refused without a frame, and when the last one is committed already. -/
theorem violatesIff_commit (h : s.Sound) :
    ViolatesIff commit s
      (s.headers = [] ∨ ∃ frame, s.headers.getLast? = some frame ∧ frame.isCommitted = true) := by
  cases hheaders : s.headers using List.reverseRecOn with
  | nil =>
    have hcommit : commit s = violate .nothingToCommit s := by
      rw [commit, h.future, hheaders]
      rfl
    exact .inl ⟨.inl rfl, _, hcommit⟩
  | append_singleton frames frame _ =>
    have hfuture : s.future = some frames.length := by
      rw [h.future, hheaders, List.length_append, List.length_singleton, lastPosition]
    have hid : s.frames[frames.length]? = some frame := by
      rw [getElem?_frames, hheaders, List.getElem?_concat_length]
    rw [List.getLast?_concat]
    by_cases hcommitted : frame.isCommitted = true
    · have hcommit : commit s = violate (.alreadyCommitted frames.length) s := by
        simp only [commit, hfuture, hid, if_pos hcommitted]
      exact .inl ⟨.inr ⟨frame, rfl, hcommitted⟩, _, hcommit⟩
    · have hcommit : commit s =
          .ok () { s.setFrame frames.length { frame with state := .committed } with
            current := some frames.length } := by
        simp only [commit, hfuture, hid, if_neg hcommitted]
      refine .inr ⟨?_, _, _, hcommit⟩
      rintro (hnil | ⟨other, hother, hcommitted'⟩)
      · exact List.append_ne_nil_of_right_ne_nil _ (List.cons_ne_nil _ _) hnil
      · exact hcommitted (Option.some.inj hother ▸ hcommitted')

/-- A return is refused when no frame is committed. -/
theorem violatesIff_pop (h : s.Sound) :
    ViolatesIff pop s (∀ frame ∈ s.headers, frame.isCommitted = false) := by
  have hlast := h.lastOf_current
  cases hcurrent : s.current with
  | none =>
    rw [hcurrent] at hlast
    have hpop : pop s = violate .poppingEmptyStack s := by rw [pop, hcurrent]
    refine .inl ⟨fun frame hmem => ?_, _, hpop⟩
    obtain ⟨id, hid⟩ := List.getElem?_of_mem hmem
    by_contra hcommitted
    have hmem : id ∈ committedAt s.headers := ⟨frame, hid, by simpa using hcommitted⟩
    rw [hlast] at hmem
    exact hmem
  | some id =>
    rw [hcurrent] at hlast
    obtain ⟨frame, hid, hcommitted⟩ := hlast.1
    have hpop : pop s = .ok frame (s.truncate id frame) := by
      rw [pop, hcurrent]
      simp only [getElem?_frames, hid]
    refine .inr ⟨fun hnone => ?_, _, _, hpop⟩
    rw [hnone frame (List.mem_of_getElem? hid)] at hcommitted
    cases hcommitted

end Sound

/--
In every reachable stack the cursors and the saved links lead to the last frame, or to the last
committed frame, of the table or of the part below. Both chains end: one lists every frame once,
last frame first, the other the committed ones of them. A commit is refused exactly when there is no
frame or the last one is committed, a return exactly when no frame is.
-/
theorem chains_of_reachable {s : Stack} (h : s.Reachable) :
    LastOf {id | id < s.headers.length} s.future ∧
      LastOf (committedAt s.headers) s.current ∧
      (∀ (id : Nat) (frame : Frame), s.headers[id]? = some frame →
        LastOf {other | other < id} frame.returnFuture ∧
        LastOf {other | other ∈ committedAt s.headers ∧ other < id} frame.returnLink) ∧
      (s.Leads Frame.returnFuture s.future s.walk ∧
        s.walk = (s.headers.zipIdx.map Prod.swap).reverse) ∧
      (s.Leads Frame.returnLink s.current s.callChain ∧
        s.callChain = s.walk.filter fun entry => entry.2.isCommitted) ∧
      s.depth = s.headers.countP Frame.isCommitted ∧
      ViolatesIff commit s
        (s.headers = [] ∨ ∃ frame, s.headers.getLast? = some frame ∧ frame.isCommitted = true) ∧
      ViolatesIff pop s (∀ frame ∈ s.headers, frame.isCommitted = false) := by
  have hsound := h.sound
  have hchain : s.callChain = s.walk.filter fun entry => entry.2.isCommitted := by
    rw [hsound.walk_eq, hsound.callChain_eq]
  exact ⟨hsound.lastOf_future, hsound.lastOf_current,
    fun id frame hid => ⟨hsound.lastOf_returnFuture hid, hsound.lastOf_returnLink hid⟩,
    ⟨hsound.leads_walk, hsound.walk_eq⟩, ⟨hsound.leads_callChain, hchain⟩, hsound.depth_eq,
    hsound.violatesIff_commit, hsound.violatesIff_pop⟩

/-- A call in a call's argument, which then breaks off and leaves the outer frame reserved. -/
def leftReserved : Program Unit :=
  let call : Call := ⟨.zero, Program.identity, .discard, none⟩
  .perform (.push call []) fun _ =>
  .pushWithArguments call 1 1 ()
    (fun _ =>
      .perform (.push call []) fun _ => .done (.error (.violation (.raised "broken off")), ()))
    (fun _ _ => .done ())

/-- The inner call returns past the reserved frame, and cannot be committed again. -/
theorem chains_of_reachable_leftReserved :
    ∃ s : Stack, s.Reachable ∧
      s.headers.map (fun frame => (frame.isCommitted, frame.returnFuture, frame.returnLink)) =
        [(true, none, none), (false, some 0, some 0), (true, some 1, some 0)] ∧
      s.future = some 2 ∧ s.current = some 2 ∧ IsGreatest (committedAt s.headers) 2 ∧
      s.walk.map Prod.fst = [2, 1, 0] ∧ s.callChain.map Prod.fst = [2, 0] ∧
      s.Leads Frame.returnLink (some 2) s.callChain ∧ s.depth = 2 ∧
      ViolatesIff commit s
        (s.headers = [] ∨ ∃ frame, s.headers.getLast? = some frame ∧ frame.isCommitted = true) := by
  have hfirst : create (some 512) = .ok { empty with cells := Array.replicate 64 .zero } := rfl
  have hreachable := reachable_final leftReserved hfirst
  obtain ⟨-, hcurrent, -, -, ⟨hchain, -⟩, -, hcommit, -⟩ := chains_of_reachable hreachable
  exact ⟨_, hreachable, by decide +kernel, by decide +kernel, by decide +kernel, hcurrent,
    by decide +kernel, by decide +kernel, hchain, by decide +kernel, hcommit⟩

end Stack

end ManagedCore
