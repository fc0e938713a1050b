import ManagedCore.Proofs.Stack.FilledCalls
import ManagedCore.Proofs.Stack.Origins

/-!
# The frame that a call commits

After each argument a call looks whether the innermost frame is at the position of its own one. A
position does not tell frames apart: a program for an argument may take the call's frame off the
table, and reserve another one in its place. Then the call fills and commits that one, and reports
it as its own.

So the frame at the reported position is the one that was reserved there last, by the call or by one
of its programs. As long as the programs leave the call's frame in the table, it is the call's.
-/

namespace ManagedCore

/-- Of a reserved frame's states only the filling may come before another reserved one. -/
theorem FrameState.Precedes.eq_reserved {state : FrameState} {filled : Nat}
    (h : state.Precedes (.reserved filled)) : ∃ filled', state = .reserved filled' := by
  cases h with
  | reserved _ => exact ⟨_, rfl⟩

/-- Only the current frame's instruction offset is changed. -/
theorem Action.current_of_names_resume {s : Stack} {action : Action} {id : Nat}
    (hnames : action.Names s id .resume) : s.current = some id := by
  cases action with
  | release _ => exact hnames.elim
  | perform operation =>
    cases operation with
    | setResume resume => exact hnames.1
    | _ => simp [Names, Operation.Names] at hnames

namespace Stack

section

variable {s caller : Stack} {actions : List Action} {id : Nat} {call : Call} {size : Nat}

/-- The current frame is committed. -/
theorem Sound.isCommitted_of_current (h : s.Sound) {frame : Frame} (hcurrent : s.current = some id)
    (hid : s.headers[id]? = some frame) : frame.isCommitted = true := by
  have hlast := h.lastOf_current
  rw [hcurrent] at hlast
  obtain ⟨frame', hid', hcommitted⟩ := mem_committedAt.mp hlast.1
  cases hid.symm.trans hid'
  exact hcommitted

/-- A frame that is reserved after an action was so before, and keeps all but its fill counter. -/
theorem Sound.header_on_of_reserved (h : s.Sound) {action : Action} {old new : Frame}
    (hid : s.headers[id]? = some old) (hnew : (action.on s).headers[id]? = some new) {filled : Nat}
    (hreserved : new.state = .reserved filled) : new = { old with state := new.state } := by
  have hold : s.view.frames[id]? = some (old.activation s.cells) := by
    rw [getElem?_frames_view, hid, Option.map_some]
  have hnew' : (action.on s).view.frames[id]? = some (new.activation (action.on s).cells) := by
    rw [getElem?_frames_view, hnew, Option.map_some]
  have hkeeps := (action.evolves h).2.keeps id _ _ hold hnew'
  have hforward : old.state.Precedes new.state := hkeeps.forward
  obtain ⟨filled', hfilled'⟩ := (hreserved ▸ hforward).eq_reserved
  have hheader : new = { old with state := new.state, resume := new.resume } := hkeeps.header
  have hresume : new.resume = old.resume := by
    refine hkeeps.resume.resolve_right fun hnames => ?_
    have hcommitted := h.isCommitted_of_current (Action.current_of_names_resume hnames) hid
    rw [Frame.isCommitted, hfilled'] at hcommitted
    cases hcommitted
  rw [hresume] at hheader
  exact hheader

/-- A frame that stays reserved keeps its header, but for its fill counter. -/
theorem Sound.header_of_reserved (h : s.Sound) {old new : Frame} (hid : s.headers[id]? = some old)
    (hkept : ∀ step ∈ s.steps actions, id < step.after.headers.length)
    (hnew : (s.after actions).headers[id]? = some new) {filled : Nat}
    (hreserved : new.state = .reserved filled) : new = { old with state := new.state } := by
  induction actions generalizing s old with
  | nil =>
    obtain rfl := Option.some_inj.mp (hid.symm.trans hnew)
    rfl
  | cons action rest ih =>
    have hsound := (action.evolves h).1
    have hlt : id < (action.on s).headers.length := hkept ⟨s, action⟩ List.mem_cons_self
    have hkept' := fun step hstep => hkept step (List.mem_cons_of_mem _ hstep)
    have hmiddle := List.getElem?_eq_getElem hlt
    -- The frame is reserved in between, because it is so in the end.
    obtain ⟨_, hnew', hforward, -⟩ := hsound.header_kept hmiddle hkept'
    cases hnew.symm.trans hnew'
    obtain ⟨filled', hfilled'⟩ := (hreserved ▸ hforward).eq_reserved
    rw [ih hsound hmiddle hkept' hnew, h.header_on_of_reserved hid hmiddle hfilled']

/-- A reservation goes on top of all frames that are there. -/
theorem Reserves.future_eq (h : s.Reserves actions id call size caller) (hsound : s.Sound) :
    caller.future = lastPosition id := by
  obtain ⟨before, _, _, -, rfl, -, rfl, -⟩ := h
  exact (hsound.after before).future

/-- A frame that has not been committed since its reservation has the header of its call. -/
theorem Reserves.header_of_reserved (h : s.Reserves actions id call size caller)
    (hsound : s.Sound) {frame : Frame} (hid : (s.after actions).headers[id]? = some frame)
    {filled : Nat} (hreserved : frame.state = .reserved filled) :
    frame = call.header caller size (.reserved filled) := by
  obtain ⟨added, rest, state, hadded, hheader, hafter, hkept⟩ := h.exists_added hsound
  rw [hafter] at hid
  rw [hadded.header_of_reserved hheader hkept hid hreserved, hreserved]
  rfl

end

section

variable {τ : Type} {id : Nat} {produce : τ → Program (Except Halt (List Value) × τ)}
  {s s' start : Stack} {memory current : τ} {passed passed' : List Stack} {call : Call}
  {size count : Nat}

/-- Written arguments leave the cursors. -/
theorem future_of_writeArguments {values : List Value} (h : writeArguments id values s = .ok () s') :
    s'.future = s.future := by
  simp only [writeArguments] at h
  split at h
  · cases h
  · split at h
    · cases h
    · split at h <;> cases h
      rfl

/-- The header of a frame of the table. -/
theorem frame_of_headers {frame : Frame} (hid : s.headers[id]? = some frame) :
    s.frame id = .ok frame := by
  rw [Stack.frame, getElem?_frames, hid]

/-- The frame that is committed was the innermost one, and reserved. -/
theorem frame_of_commit (hfuture : s.future = some id) (h : commit s = .ok () s') :
    ∃ frame filled, s.headers[id]? = some frame ∧ frame.state = .reserved filled ∧
      s'.frame id = .ok { frame with state := .committed } := by
  rw [commit, hfuture] at h
  simp only [getElem?_frames] at h
  cases hid : s.headers[id]? with
  | none =>
    rw [hid] at h
    cases h
  | some frame =>
    simp only [hid] at h
    cases hstate : frame.state with
    | committed =>
      have hcommitted : frame.isCommitted = true := by
        rw [Frame.isCommitted, hstate]
        rfl
      rw [if_pos hcommitted] at h
      cases h
    | reserved filled =>
      have hcommitted : frame.isCommitted = false := by
        rw [Frame.isCommitted, hstate]
        rfl
      rw [hcommitted, if_neg Bool.false_ne_true] at h
      cases h
      have hlt : id < s.headers.length := (List.getElem?_eq_some_iff.mp hid).1
      have hid' : (s.setFrame id { frame with state := .committed }).headers[id]? =
          some { frame with state := .committed } := by
        rw [headers_setFrame, List.getElem?_set_self hlt]
      exact ⟨frame, filled, rfl, hstate, frame_of_headers hid'⟩

/-- When all arguments are filled, what is left to do is the commit of the innermost frame. -/
theorem actions_of_fillArguments
    (h : fillArguments id (producer produce) count (s, memory, passed) =
      .ok () (start, current, passed')) (hfuture : s.future = some id) :
    ∃ front, argumentActions id (fun memory => (produce memory).run)
        (fun memory => (produce memory).actions) count memory s = front ++ [.perform .commit] ∧
      s.after front = start ∧ start.future = some id := by
  induction count generalizing s memory passed with
  | zero =>
    cases h
    exact ⟨[], rfl, rfl, hfuture⟩
  | succ count ih =>
    obtain ⟨values, memory', s', passed'', hvalues, hlast, hwritten, hrest⟩ :=
      values_of_fillArguments h
    obtain ⟨front, hactions, hafter, hstart⟩ :=
      ih hrest ((future_of_writeArguments hwritten).trans hlast)
    refine ⟨(produce memory).actions s ++ .perform (.writeArguments id values) :: front, ?_, ?_,
      hstart⟩
    · rw [argumentActions]
      simp only [hvalues, if_pos hlast, hwritten, hactions, List.append_assoc, List.cons_append]
    · rw [after_append, ← Program.final_eq_after, after_cons,
        on_of_ok (.writeArguments id values) hwritten, hafter]

/-- A call that succeeds has reserved its frame, filled it and committed the innermost frame. -/
theorem phases_of_pushWithArguments {memory' : τ}
    (h : pushWithArguments call size count (producer produce) (s, memory, []) =
      .ok id (s', memory', passed)) :
    ∃ s₁ start, reserve call size s = .ok id s₁ ∧
      fillArguments id (producer produce) count (s₁, memory, []) = .ok () (start, memory', passed) ∧
      commit start = .ok () s' := by
  simp only [pushWithArguments, bind, EStateM.bind, beside] at h
  cases hreserve : reserve call size s with
  | error halt s₁ =>
    rw [hreserve] at h
    cases h
  | ok id' s₁ =>
    simp only [hreserve] at h
    cases hfill : fillArguments id' (producer produce) count (s₁, memory, []) with
    | error halt state =>
      rw [hfill] at h
      cases h
    | ok _ state =>
      obtain ⟨start, memory'', passed'⟩ := state
      simp only [hfill] at h
      cases hcommit : commit start with
      | error halt s'' =>
        rw [hcommit] at h
        cases h
      | ok _ s'' =>
        rw [hcommit] at h
        cases h
        exact ⟨s₁, start, rfl, hfill, hcommit⟩

end

end Stack

/-- What is done for a call whose arguments programs produce, with what the programs do. -/
def Call.actions {τ : Type} (call : Call) (size count : Nat)
    (produce : τ → Program (Except Halt (List Value) × τ)) (memory : τ) (s : Stack) : List Action :=
  callActions call size count (fun memory => (produce memory).run)
    (fun memory => (produce memory).actions) memory s

namespace Stack

/-- A call that succeeds begins with its reservation and ends with a commit of the innermost frame. -/
theorem Sound.actions_of_pushWithArguments {τ : Type} {s : Stack} (h : s.Sound) {call : Call}
    {size count : Nat} {produce : τ → Program (Except Halt (List Value) × τ)} {memory : τ} {id : Nat}
    {s' : Stack} {memory' : τ} {passed : List Stack}
    (hpush : pushWithArguments call size count (producer produce) (s, memory, []) =
      .ok id (s', memory', passed)) :
    s.headers.length = id ∧ ∃ front,
      call.actions size count produce memory s =
        (.perform (.reserve call size) :: front) ++ [.perform .commit] ∧
      (s.after (.perform (.reserve call size) :: front)).future = some id ∧
      commit (s.after (.perform (.reserve call size) :: front)) = .ok () s' := by
  obtain ⟨s₁, start, hreserve, hfill, hcommit⟩ := phases_of_pushWithArguments hpush
  obtain ⟨hsound₁, hid, -, hlength₁, -⟩ := h.retains_reserve hreserve
  have hfuture₁ : s₁.future = some id := by rw [hsound₁.future, hlength₁, lastPosition]
  obtain ⟨front, hactions, rfl, hfuture⟩ := actions_of_fillArguments hfill hfuture₁
  have hstart : s₁.after front = s.after (.perform (.reserve call size) :: front) := by
    rw [after_cons, on_of_ok (.reserve call size) hreserve]
  refine ⟨hid, front, ?_, hstart ▸ hfuture, hstart ▸ hcommit⟩
  rw [Call.actions, callActions, hreserve]
  exact congrArg (_ :: ·) hactions

/--
When a call with produced arguments succeeds, the frame that it reports is the innermost and the
current one. It is committed, at the position that the call has reserved, and it is the frame that
was reserved last at this position, by the call or by one of its programs: it has the header that
the reservation gave to it, with the cursors from then. If the position stays in the table all the
time, it is the frame of the call itself, with the cursors from before the call.
-/
theorem commits_last_reserved {τ : Type} {s : Stack} (h : s.Reachable) (call : Call)
    (size count : Nat) (produce : τ → Program (Except Halt (List Value) × τ)) (memory : τ) {id : Nat}
    {s' : Stack} {memory' : τ} {passed : List Stack}
    (hpush : pushWithArguments call size count (producer produce) (s, memory, []) =
      .ok id (s', memory', passed)) :
    id = s.headers.length ∧ s'.current = some id ∧ s'.future = some id ∧
      s' = s.after (call.actions size count produce memory s) ∧
      (∃ call' size' caller,
        s.Reserves (call.actions size count produce memory s) id call' size' caller ∧
          caller.future = s.future ∧ s'.frame id = .ok (call'.header caller size' .committed)) ∧
      ((∀ step ∈ s.steps (call.actions size count produce memory s),
          id < step.after.headers.length) →
        s'.frame id = .ok (call.header s size .committed)) := by
  have hsound := h.sound
  obtain ⟨rfl, front, hactions, hfuture, hcommit⟩ := hsound.actions_of_pushWithArguments hpush
  obtain ⟨hcurrent', hfuture'⟩ := cursors_of_commit hfuture hcommit
  obtain ⟨frame, filled, hframe, hstate, hframe'⟩ := frame_of_commit hfuture hcommit
  have hlast : s' = s.after (call.actions size count produce memory s) := by
    rw [hactions, after_append]
    exact (on_of_ok .commit hcommit).symm
  -- Until the commit the frame is a reserved one, so its header is the one from its reservation.
  have hheader {call' : Call} {size' : Nat} {caller : Stack}
      (hreserves : s.Reserves (.perform (.reserve call size) :: front) s.headers.length call' size'
        caller) :
      s'.frame s.headers.length = .ok (call'.header caller size' .committed) := by
    rw [hframe', hreserves.header_of_reserved hsound hframe hstate]
    rfl
  refine ⟨rfl, hcurrent', hfuture', hlast, ?_, fun hkept => ?_⟩
  · rcases hsound.kept_or_reserves (List.getElem?_eq_some_iff.mp hframe).1 with
      ⟨hold, -⟩ | ⟨call', size', caller, hreserves⟩
    · exact absurd hold (Nat.lt_irrefl _)
    · have hinnermost := (hsound.after (call.actions size count produce memory s)).lastOf_future
      rw [← hlast, hfuture', hlast, hactions] at hinnermost
      refine ⟨call', size', caller, hactions ▸ hreserves.concat hinnermost.1, ?_, hheader hreserves⟩
      rw [hreserves.future_eq hsound, hsound.future]
  · refine hheader ⟨[], .perform (.reserve call size), front, rfl, rfl, rfl, rfl, fun step hstep => ?_⟩
    refine hkept step ?_
    rw [hactions, steps_append]
    exact List.mem_append_left _ hstep

/-- Programs that only work on top of the call's frame leave it for the call to commit. -/
theorem commits_last_reserved_widening :
    ∃ (s' : Stack) (memory' : Nat) (passed : List Stack),
      pushWithArguments identityCall 3 3 (producer widening) (waitingStack, 0, []) =
          .ok 2 (s', memory', passed) ∧
        s'.current = some 2 ∧ s'.future = some 2 ∧
        s'.frame 2 = .ok (identityCall.header waitingStack 3 .committed) := by
  obtain ⟨⟨s', memory', passed⟩, hpush⟩ : ∃ state,
      pushWithArguments identityCall 3 3 (producer widening) (waitingStack, 0, []) = .ok 2 state :=
    ⟨_, eq_ok_of_outcome (by decide +kernel)⟩
  obtain ⟨-, hcurrent, hfuture, -, -, hframe⟩ :=
    commits_last_reserved reachable_waitingStack identityCall 3 3 widening 0 hpush
  exact ⟨s', memory', passed, hpush, hcurrent, hfuture, hframe (by decide +kernel)⟩

/-- A program that commits the call's frame, returns from it and reserves another one in its place. -/
def swapping : Nat → Program (Except Halt (List Value) × Nat) := fun memory =>
  .perform .commit fun _ =>
  .perform .pop fun _ =>
  .perform .commit fun _ =>
  .perform (.reserve { identityCall with context := .ofNat 9, resume := some 4 } 2) fun _ =>
  .done (.ok [], memory + 1)

/-- A call reports a frame as its own that it has not reserved, and that says nothing of it. -/
theorem commits_foreign_frame_swapping :
    waitingStack.Reachable ∧ waitingStack.current = some 0 ∧
      ∃ (s' : Stack) (memory' : Nat) (passed : List Stack) (frame : Frame),
        pushWithArguments identityCall 1 1 (producer swapping) (waitingStack, 0, []) =
            .ok 2 (s', memory', passed) ∧
          s'.frame 2 = .ok frame ∧ frame.isCommitted = true ∧
          frame.context ≠ identityCall.context ∧ frame.size ≠ 1 ∧
          frame.resume ≠ identityCall.resume ∧ frame.returnLink = some 1 := by
  obtain ⟨⟨s', memory', passed⟩, hpush⟩ : ∃ state,
      pushWithArguments identityCall 1 1 (producer swapping) (waitingStack, 0, []) = .ok 2 state :=
    ⟨_, eq_ok_of_outcome (by decide +kernel)⟩
  have hframe : (outcome (pushWithArguments identityCall 1 1 (producer swapping)
      (waitingStack, 0, []))).2.1.frame 2 = .ok {
        context := .ofNat 9, returnLink := some 1, returnFuture := some 1, resume := some 4,
        destination := .discard, function := Program.identity, state := .committed,
        address := 608, size := 2 } := by decide +kernel
  rw [hpush] at hframe
  exact ⟨reachable_waitingStack, by decide +kernel, s', memory', passed, _, hpush, hframe,
    by decide, by decide, by decide, by decide, rfl⟩

end Stack

end ManagedCore
