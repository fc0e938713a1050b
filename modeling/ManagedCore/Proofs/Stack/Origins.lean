import ManagedCore.Proofs.Stack.ArgumentCalls

/-!
# Where frames come from

A position of the frame table is used again when its frame is gone. Every frame that is in the table
after a run was put there by one reservation of the run, on top of the frames below it, and has
stayed from then on. So its header says what that reservation asked for, and the frames below it are
the very ones that were there at the time.
-/

namespace ManagedCore

/-- The call that an operation reserves a frame for, with the size of the frame. -/
def Operation.call? {α : Type} : Operation α → Option (Call × Nat)
  | .reserve call size => some (call, size)
  | .push call _ => some (call, call.function.frameSize)
  | _ => none

/-- The call that an action reserves a frame for, with the size of the frame. -/
def Action.call? : Action → Option (Call × Nat)
  | .perform operation => operation.call?
  | .release _ => none

namespace PrivateStack

variable {p : PrivateStack}

/-- A cut adds no frame. -/
theorem length_cut_le (id : Nat) : (outcome (cut id p)).2.frames.length ≤ p.frames.length := by
  rw [cut]
  cases p.frame id with
  | ok header => exact List.length_take_le' id p.frames
  | error violation => exact Nat.le_refl _

/-- A return adds no frame. -/
theorem length_pop_le : (outcome (pop p)).2.frames.length ≤ p.frames.length := by
  rw [pop]
  cases p.current with
  | none => exact Nat.le_refl _
  | some id => exact length_cut_le id

/-- A return with a result adds no frame. -/
theorem length_returnValue_le (value : Value) :
    (outcome (returnValue value p)).2.frames.length ≤ p.frames.length := by
  have hpop : (outcome (pop p)).2.frames.length ≤ p.frames.length := length_pop_le
  show (outcome (EStateM.bind pop _ p)).2.frames.length ≤ p.frames.length
  unfold EStateM.bind
  cases hresult : pop p with
  | error halt p' =>
    rw [hresult] at hpop
    exact hpop
  | ok frame p' =>
    rw [hresult] at hpop
    cases hdestination : frame.destination with
    | discard =>
      simp only [hdestination]
      exact hpop
    | slot target index =>
      simp only [hdestination]
      have hstore : p'.Alters (fun _ _ => True)
          (outcome ((store target index value >>= fun _ => pure frame) p')).2 :=
        alters_bind (alters_store trivial) fun _ p'' _ => .refl _ p''
      exact Nat.le_trans (Nat.le_of_eq hstore.length) hpop

/-- A call changes the frame that it reserves, but not its instruction offset. -/
theorem alters_fillAndCommit (p : PrivateStack) (id : FrameId) (arguments : List Value) :
    p.Alters (fun _ part => part ≠ .resume)
      (outcome ((writeArguments id arguments >>= fun _ => commit >>= fun _ => pure id) p)).2 := by
  refine alters_bind (alters_writeArguments nofun fun _ _ _ _ _ _ => nofun) fun _ p' _ => ?_
  exact alters_bind (alters_commit fun _ _ => nofun) fun _ p'' _ => .refl _ p''

end PrivateStack

/-- An operation that reserves nothing adds no frame. -/
theorem Operation.length_runPrivate_le {α : Type} {operation : Operation α} (p : PrivateStack)
    (h : operation.call? = none) :
    (outcome (operation.runPrivate p)).2.frames.length ≤ p.frames.length := by
  have halters {p' : PrivateStack} (halters : p.Alters (fun _ _ => True) p') :
      p'.frames.length ≤ p.frames.length := Nat.le_of_eq halters.length
  cases operation with
  | reserve call size => cases h
  | push call arguments => cases h
  | pop => exact PrivateStack.length_pop_le
  | returnValue value => exact PrivateStack.length_returnValue_le value
  | ask query =>
    simp only [runPrivate]
    cases query.privateAnswer p with
    | ok answer => exact Nat.le_refl _
    | error violation => exact Nat.le_refl _
  | commit => exact halters (PrivateStack.alters_commit fun _ _ => trivial)
  | writeArguments id values =>
    exact halters (PrivateStack.alters_writeArguments trivial fun _ _ _ _ _ _ => trivial)
  | store id index value => exact halters (PrivateStack.alters_store trivial)
  | storeCurrent index value =>
    exact halters (PrivateStack.alters_onCurrent fun _ _ => PrivateStack.alters_store trivial)
  | storeAll id values => exact halters (PrivateStack.alters_storeAll fun _ _ => trivial)
  | setResume resume => exact halters (PrivateStack.alters_setResume fun _ _ => trivial)
  | scan visitor memory =>
    rw [runPrivate, outcome_collected]
    exact halters (PrivateStack.alters_scan visitor memory fun _ _ => trivial)

namespace Action

variable {s : Stack} {action : Action} {call : Call} {size : Nat}

/-- An action that reserves nothing adds no frame. -/
theorem length_on_le (h : s.Sound) (hcall : action.call? = none) :
    (action.on s).headers.length ≤ s.headers.length := by
  cases action with
  | perform operation =>
    have hshows := (operation.run_refines s h).outcome
    have hle := Operation.length_runPrivate_le s.view hcall
    rw [← hshows.view, Stack.length_frames_view, Stack.length_frames_view] at hle
    exact hle
  | release id =>
    have hshows := (Stack.release_refines id s h).outcome
    have hle : (outcome (PrivateStack.release id s.view)).2.frames.length ≤
        s.view.frames.length := by
      have hcut : (outcome (PrivateStack.cut id s.view)).2.frames.length ≤ s.view.frames.length :=
        PrivateStack.length_cut_le id
      rw [PrivateStack.release]
      cases hresult : PrivateStack.cut id s.view <;> rw [hresult] at hcut <;> exact hcut
    rw [← hshows.view, Stack.length_frames_view, Stack.length_frames_view] at hle
    exact hle

end Action

namespace Stack

variable {s s₁ : Stack} {call : Call} {size : Nat} {id : Nat}

/-- A refused reservation changes nothing. -/
theorem eq_of_reserve_error {halt : Halt} (h : reserve call size s = .error halt s₁) : s₁ = s := by
  simp only [reserve] at h
  split at h
  · cases h
  · cases h
    rfl

/-- A call puts its header on top of the table, even if it then breaks off. -/
theorem Sound.header_of_push (h : s.Sound)
    (hreserve : reserve call call.function.frameSize s = .ok id s₁) (arguments : List Value) :
    (outcome (push call arguments s)).2.headers.length = s.headers.length + 1 ∧
      ∃ state, (outcome (push call arguments s)).2.headers[s.headers.length]? =
        some (call.header s call.function.frameSize state) := by
  obtain ⟨hsound, rfl, hview⟩ := h.view_of_reserve hreserve
  have hpush : push call arguments s =
      (writeArguments s.headers.length arguments >>= fun _ => commit >>= fun _ =>
        pure s.headers.length) s₁ := by
    simp only [push, bind, EStateM.bind, hreserve]
  have hshows := ((writeArguments_refines s.headers.length arguments).bind fun _ =>
    commit_refines.bind fun _ => .pure s.headers.length) s₁ hsound |>.outcome
  have halters := PrivateStack.alters_fillAndCommit s₁.view s.headers.length arguments
  rw [← hshows.view, ← hpush] at halters
  have hlength := halters.length
  rw [length_frames_view, hview, List.length_append, length_frames_view, List.length_singleton]
    at hlength
  refine ⟨hlength, ?_⟩
  have hold : s₁.view.frames[s.headers.length]? =
      some ⟨call.header s call.function.frameSize (.reserved 0),
        List.replicate call.function.frameSize .zero⟩ := by
    rw [hview, ← length_frames_view, List.getElem?_concat_length]
  obtain ⟨new, hnew⟩ : ∃ new, (outcome (push call arguments s)).2.view.frames[s.headers.length]? =
      some new := ⟨_, List.getElem?_eq_getElem (by rw [length_frames_view]; omega)⟩
  have hkeeps := halters.keeps _ _ _ hold hnew
  have hresume := hkeeps.resume.resolve_right fun hne => hne rfl
  refine ⟨new.header.state, ?_⟩
  rw [getElem?_headers hnew, hkeeps.header, hresume]
  rfl

end Stack

namespace Action

variable {s : Stack} {action : Action} {call : Call} {size : Nat}

/-- An action that reserves changes nothing, or adds one frame with the header of its call. -/
theorem on_of_call? (h : s.Sound) (hcall : action.call? = some (call, size)) :
    action.on s = s ∨ (action.on s).headers.length = s.headers.length + 1 ∧
      ∃ state, (action.on s).headers[s.headers.length]? = some (call.header s size state) := by
  cases action with
  | release id => cases hcall
  | perform operation =>
    cases operation with
    | reserve call' size' =>
      cases hcall
      simp only [on, Operation.run]
      cases hreserve : Stack.reserve call size s with
      | error halt s₁ => exact .inl (Stack.eq_of_reserve_error hreserve)
      | ok id s₁ =>
        rw [outcome, h.headers_of_reserve hreserve, List.length_append]
        exact .inr ⟨rfl, .reserved 0, List.getElem?_concat_length⟩
    | push call' arguments =>
      cases hcall
      simp only [on, Operation.run]
      cases hreserve : Stack.reserve call call.function.frameSize s with
      | error halt s₁ =>
        obtain rfl := Stack.eq_of_reserve_error hreserve
        simp only [Stack.push, bind, EStateM.bind, hreserve]
        exact .inl rfl
      | ok id s₁ => exact .inr (h.header_of_push hreserve arguments)
    | _ => cases hcall

/-- An action adds one frame at most. -/
theorem length_on_le_succ (h : s.Sound) (action : Action) :
    (action.on s).headers.length ≤ s.headers.length + 1 := by
  cases hcall : action.call? with
  | none => exact Nat.le_succ_of_le (length_on_le h hcall)
  | some entry =>
    rcases on_of_call? h hcall with heq | ⟨hlength, -⟩
    · rw [heq]
      exact Nat.le_succ _
    · exact Nat.le_of_eq hlength

/-- A frame that an action adds has the header of the call that the action reserves for. -/
theorem header_of_added (h : s.Sound) (hadded : s.headers.length < (action.on s).headers.length) :
    ∃ call size state, action.call? = some (call, size) ∧
      (action.on s).headers[s.headers.length]? = some (call.header s size state) := by
  cases hcall : action.call? with
  | none => exact absurd hadded (Nat.not_lt.mpr (length_on_le h hcall))
  | some entry =>
    rcases on_of_call? h hcall with heq | ⟨-, state, hheader⟩
    · exact absurd (heq ▸ hadded) (Nat.lt_irrefl _)
    · exact ⟨entry.1, entry.2, state, rfl, hheader⟩

end Action

namespace Stack

/--
The run has reserved the frame at a position for a call, on top of the frames of `caller`, and has
kept it in the table ever since.
-/
def Reserves (s : Stack) (actions : List Action) (id : Nat) (call : Call) (size : Nat)
    (caller : Stack) : Prop :=
  ∃ before action rest, actions = before ++ action :: rest ∧ caller = s.after before ∧
    action.call? = some (call, size) ∧ caller.headers.length = id ∧
    ∀ step ∈ caller.steps (action :: rest), id < step.after.headers.length

variable {s caller : Stack} {actions : List Action} {id : Nat} {call : Call} {size : Nat}

/-- A reservation of the rest of a run is one of the whole run. -/
theorem Reserves.cons {action : Action} (h : (action.on s).Reserves actions id call size caller) :
    s.Reserves (action :: actions) id call size caller := by
  obtain ⟨before, added, rest, hactions, hcaller, hadded⟩ := h
  exact ⟨action :: before, added, rest, congrArg (action :: ·) hactions, hcaller, hadded⟩

/-- A frame that stays to the end of a longer run is reserved by it. -/
theorem Reserves.concat {action : Action} (h : s.Reserves actions id call size caller)
    (hstay : id < (s.after (actions ++ [action])).headers.length) :
    s.Reserves (actions ++ [action]) id call size caller := by
  obtain ⟨before, added, rest, rfl, rfl, hcall, hid, hkept⟩ := h
  refine ⟨before, added, rest ++ [action], ?_, rfl, hcall, hid, ?_⟩
  · rw [List.append_assoc, List.cons_append]
  · intro step hstep
    rw [← List.cons_append, steps_append, List.mem_append] at hstep
    rcases hstep with hstep | hstep
    · exact hkept step hstep
    · rw [after_append, after_append] at hstay
      obtain rfl := List.mem_singleton.mp hstep
      exact hstay

/-- Every frame after a run was there before it or is reserved by it, and has been kept. -/
theorem Sound.kept_or_reserves (h : s.Sound) (hid : id < (s.after actions).headers.length) :
    (id < s.headers.length ∧ ∀ step ∈ s.steps actions, id < step.after.headers.length) ∨
      ∃ call size caller, s.Reserves actions id call size caller := by
  induction actions generalizing s with
  | nil => exact .inl ⟨hid, fun _ hstep => nomatch hstep⟩
  | cons action rest ih =>
    rcases ih (action.evolves h).1 hid with ⟨hlt, hkept⟩ | ⟨call, size, caller, hreserves⟩
    · have hkept' : ∀ step ∈ s.steps (action :: rest), id < step.after.headers.length := by
        intro step hstep
        rcases List.mem_cons.mp hstep with rfl | hstep
        · exact hlt
        · exact hkept step hstep
      rcases Nat.lt_or_ge id s.headers.length with hold | hnew
      · exact .inl ⟨hold, hkept'⟩
      · -- A frame that was not there is the one that the action has added.
        have hle := Action.length_on_le_succ h action
        obtain rfl : s.headers.length = id := by omega
        obtain ⟨call, size, -, hcall, -⟩ := Action.header_of_added h hlt
        exact .inr ⟨call, size, s, [], action, rest, rfl, rfl, hcall, rfl, hkept'⟩
    · exact .inr ⟨call, size, caller, hreserves.cons⟩

/-- A reserved frame goes on top of the frames that are there. -/
theorem Reserves.length_eq (h : s.Reserves actions id call size caller) :
    caller.headers.length = id := by
  obtain ⟨_, _, _, -, -, -, hid, -⟩ := h
  exact hid

/-- A frame that stays keeps its header, but for its state, which moves forward, and its offset. -/
theorem Sound.header_kept (h : s.Sound) {old : Frame} (hid : s.headers[id]? = some old)
    (hkept : ∀ step ∈ s.steps actions, id < step.after.headers.length) :
    ∃ new, (s.after actions).headers[id]? = some new ∧ old.state.Precedes new.state ∧
      new = { old with state := new.state, resume := new.resume } := by
  have hlt : id < s.headers.length := (List.getElem?_eq_some_iff.mp hid).1
  obtain ⟨activation, activation', hold, hnew, hkeeps⟩ :=
    h.retains_after (Nat.succ_le_of_lt hlt) (fun step hstep => Nat.succ_le_of_lt (hkept step hstep))
      id (Nat.lt_succ_self id)
  obtain rfl := Option.some_inj.mp (hid.symm.trans (getElem?_headers hold))
  exact ⟨activation'.header, getElem?_headers hnew, hkeeps.forward, hkeeps.header⟩

/-- The reservation has put the header of the call on top of the table. -/
theorem Reserves.exists_added (h : s.Reserves actions id call size caller) (hsound : s.Sound) :
    ∃ (added : Stack) (rest : List Action) (state : FrameState), added.Sound ∧
      added.headers[id]? = some (call.header caller size state) ∧
      s.after actions = added.after rest ∧
      ∀ step ∈ added.steps rest, id < step.after.headers.length := by
  obtain ⟨before, action, rest, rfl, rfl, hcall, rfl, hkept⟩ := h
  have hcaller := hsound.after before
  have hadded : (s.after before).headers.length < (action.on (s.after before)).headers.length :=
    hkept ⟨s.after before, action⟩ List.mem_cons_self
  obtain ⟨call', size', state, hcall', hheader⟩ := Action.header_of_added hcaller hadded
  cases hcall.symm.trans hcall'
  exact ⟨action.on (s.after before), rest, state, (action.evolves hcaller).1, hheader,
    after_append s before (action :: rest), fun step hstep =>
      hkept step (List.mem_cons_of_mem _ hstep)⟩

/-- A reserved frame has the header of its call, but for its state and its instruction offset. -/
theorem Reserves.header_eq (h : s.Reserves actions id call size caller) (hsound : s.Sound)
    {frame : Frame} (hid : (s.after actions).headers[id]? = some frame) :
    frame = { call.header caller size frame.state with resume := frame.resume } := by
  obtain ⟨added, rest, state, hadded, hheader, hafter, hkept⟩ := h.exists_added hsound
  obtain ⟨new, hnew, -, heq⟩ := hadded.header_kept hheader hkept
  rw [hafter] at hid
  cases hnew.symm.trans hid
  exact heq

/-- The frames below a frame are those that were there when it was reserved. -/
theorem Reserves.below (h : s.Reserves actions id call size caller) (hsound : s.Sound)
    {other : Nat} (hother : other < id) {old : Frame} (hold : caller.headers[other]? = some old) :
    ∃ new, (s.after actions).headers[other]? = some new ∧
      new = { old with state := new.state, resume := new.resume } := by
  obtain ⟨before, action, rest, rfl, rfl, -, rfl, hkept⟩ := h
  obtain ⟨new, hnew, -, heq⟩ := (hsound.after before).header_kept hold fun step hstep =>
    Nat.lt_trans hother (hkept step hstep)
  rw [after_append]
  exact ⟨new, hnew, heq⟩

end Stack

end ManagedCore
