import ManagedCore.Proofs.Stack.Origins

/-!
# Return destinations

A call may say which variable its result goes to, and its frame keeps this destination. If the
variable is there when the frame is reserved, it is there for as long as the frame is: the frame
that it belongs to lies below, and goes only together with all that is above it. So a return never
misses its destination, although it takes the frame off the table first, and it makes no difference
if it stores the result before that.
-/

namespace ManagedCore

/-- The destination is a variable of a frame in the table, or none is asked for. -/
def Destination.IsIn (headers : List Frame) : Destination → Prop
  | .discard => True
  | .slot target index => ∃ frame ∈ headers[target]?, index < frame.size

/-- Whether a destination is in a table can be looked up. -/
instance Destination.decidableIsIn (headers : List Frame) (destination : Destination) :
    Decidable (destination.IsIn headers) :=
  match destination with
  | .discard => .isTrue trivial
  | .slot target index => inferInstanceAs (Decidable (∃ frame ∈ headers[target]?, index < frame.size))

/-- If the step asks for a frame, the destination of the call is in the table. -/
def Step.Directed (step : Step) : Prop :=
  ∀ asked ∈ step.action.call?, asked.1.destination.IsIn step.before.headers

/-- Whether a step asks for a destination in the table can be looked up. -/
instance Step.decidableDirected (step : Step) : Decidable step.Directed :=
  inferInstanceAs
    (Decidable (∀ asked ∈ step.action.call?, asked.1.destination.IsIn step.before.headers))

namespace Stack

/-- The run comes to this stack after some of its actions. -/
def Passes (s : Stack) (actions : List Action) (state : Stack) : Prop :=
  ∃ front rest, actions = front ++ rest ∧ s.after front = state

/-- Stores a result where the current frame's call wanted it, and then returns from the frame. -/
def storeThenPop (value : Value) : StackM Frame := fun s =>
  match s.current with
  | none => violate .poppingEmptyStack s
  | some id =>
    match s.frames[id]? with
    | none => violate (s.noSuchFrame id) s
    | some frame =>
      match frame.destination with
      | .discard => pop s
      | .slot target index =>
        match store target index value s with
        | .ok _ s => pop s
        | .error halt s => .error halt s

section

variable {s state : Stack} {actions more : List Action}

namespace Passes

/-- A run passes its first stack. -/
theorem start (s : Stack) (actions : List Action) : s.Passes actions s := ⟨[], actions, rfl, rfl⟩

/-- A run passes its last stack. -/
theorem final (s : Stack) (actions : List Action) : s.Passes actions (s.after actions) :=
  ⟨actions, [], (List.append_nil actions).symm, rfl⟩

/-- What the first part of a run passes the whole run passes. -/
theorem append_right (h : s.Passes actions state) (more : List Action) :
    s.Passes (actions ++ more) state := by
  obtain ⟨front, rest, rfl, hstate⟩ := h
  exact ⟨front, rest ++ more, List.append_assoc .., hstate⟩

/-- What the rest of a run passes the whole run passes. -/
theorem append_left (h : (s.after actions).Passes more state) : s.Passes (actions ++ more) state := by
  obtain ⟨front, rest, rfl, hstate⟩ := h
  exact ⟨actions ++ front, rest, (List.append_assoc ..).symm, (after_append ..).trans hstate⟩

end Passes

/-- The states that the programs for the arguments of a frame pass are passed when it is filled. -/
theorem passes_fillArguments {τ : Type} (id : FrameId)
    {run : τ → Stack → Run Stack (Except Halt (List Value) × τ)}
    {actions : τ → Stack → List Action}
    (hfinal : ∀ memory (s : Stack), s.after (actions memory s) = (run memory s).final)
    (hpassed : ∀ memory (s : Stack), ∀ state ∈ (run memory s).passed,
      s.Passes (actions memory s) state)
    (count : Nat) (memory : τ) (s : Stack) (passed : List Stack) :
    ∀ state ∈ (outcome (fillArguments id (producing run) count (s, memory, passed))).2.2.2,
      state ∈ passed ∨ s.Passes (argumentActions id run actions count memory s) state := by
  induction count generalizing memory s passed with
  | zero => exact fun state hstate => .inl hstate
  | succ count ih =>
    -- What is new of the passed states is the start of the next program, and what this one passes.
    have hown (tail : List Action) (state : Stack)
        (hstate : state ∈ passed ++ s :: (run memory s).passed) :
        state ∈ passed ∨ s.Passes (actions memory s ++ tail) state := by
      rw [List.mem_append, List.mem_cons] at hstate
      rcases hstate with hold | rfl | hnew
      · exact .inl hold
      · exact .inr (.start _ _)
      · exact .inr ((hpassed memory s state hnew).append_right tail)
    have hlast := hfinal memory s
    rw [argumentActions]
    simp only [fillArguments, produceFor, producing] at ih ⊢
    generalize run memory s = made at hown hlast ⊢
    obtain ⟨⟨values, memory'⟩, final, passed'⟩ := made
    cases values with
    | error halt =>
      cases halt with
      | violation violation => exact hown _
      | fault fault =>
        simp only [beside]
        cases release id final <;> exact hown _
    | ok values =>
      simp only
      by_cases hfuture : final.future = some id
      · rw [if_pos hfuture, if_pos hfuture]
        cases hwritten : writeArguments id values final with
        | error halt s' => exact hown _
        | ok _ s' =>
          intro state hstate
          rcases ih memory' s' _ state hstate with hstate | hrest
          · exact hown _ state hstate
          · have hwrite : final.after [.perform (.writeArguments id values)] = s' :=
              on_of_ok _ hwritten
            have hwritten : final.Passes ([.perform (.writeArguments id values)] ++
                argumentActions id run actions count memory' s') state := by
              refine Passes.append_left ?_
              rw [hwrite]
              exact hrest
            refine .inr (Passes.append_left ?_)
            rw [hlast]
            exact hwritten
      · rw [if_neg hfuture, if_neg hfuture]
        exact hown _

/-- The states that the programs for a call's arguments pass are passed by the call. -/
theorem passes_pushWithArguments {τ : Type} (call : Call) (size count : Nat)
    {run : τ → Stack → Run Stack (Except Halt (List Value) × τ)}
    {actions : τ → Stack → List Action}
    (hfinal : ∀ memory (s : Stack), s.after (actions memory s) = (run memory s).final)
    (hpassed : ∀ memory (s : Stack), ∀ state ∈ (run memory s).passed,
      s.Passes (actions memory s) state) (memory : τ) (s : Stack) :
    ∀ state ∈ (outcome (pushWithArguments call size count (producing run) (s, memory, []))).2.2.2,
      s.Passes (callActions call size count run actions memory s) state := by
  have hfill := fun (id : FrameId) (s : Stack) =>
    passes_fillArguments id hfinal hpassed count memory s []
  simp only [pushWithArguments, bind, EStateM.bind, beside, callActions]
  cases hreserve : reserve call size s with
  | error halt s₁ => exact fun _ hstate => absurd hstate List.not_mem_nil
  | ok id s₁ =>
    have hfirst : s.after [.perform (.reserve call size)] = s₁ := on_of_ok _ hreserve
    have hcall : ∀ state ∈
        (outcome (fillArguments id (producing run) count (s₁, memory, []))).2.2.2,
        s.Passes (.perform (.reserve call size) ::
          argumentActions id run actions count memory s₁) state := by
      intro state hstate
      have hrest := (hfill id s₁ state hstate).resolve_left List.not_mem_nil
      have hreserved : s.Passes ([.perform (.reserve call size)] ++
          argumentActions id run actions count memory s₁) state := by
        refine Passes.append_left ?_
        rw [hfirst]
        exact hrest
      exact hreserved
    simp only
    cases hresult : fillArguments id (producing run) count (s₁, memory, []) with
    | error halt state =>
      rw [hresult] at hcall
      exact hcall
    | ok _ state =>
      rw [hresult] at hcall
      simp only
      cases commit state.1 <;> exact hcall

end

end Stack

namespace Program

/-- The stacks between the first and the last one of a program are passed by its actions. -/
theorem passes_of_mem_passed {α : Type} (program : Program α) (s : Stack) :
    ∀ state ∈ (program.run s).passed, s.Passes (program.actions s) state := by
  induction program generalizing s with
  | done result => exact fun _ hstate => nomatch hstate
  | perform operation next ih =>
    intro state hstate
    show s.Passes ([.perform operation] ++ (next _).actions (s.after [.perform operation])) state
    refine Stack.Passes.append_left ?_
    rcases List.mem_cons.mp hstate with rfl | hstate
    · exact .start _ _
    · exact ih _ _ state hstate
  | pushWithArguments call size count memory produce next ihProduce ihNext =>
    have hfinal (memory) (s : Stack) := ((produce memory).final_eq_after s).symm
    have hcall := Stack.passes_pushWithArguments call size count hfinal
      (fun memory => ihProduce memory) memory s
    have hend := Stack.after_callActions call size count hfinal memory s
    intro state hstate
    simp only [run, List.mem_append, List.mem_cons] at hstate
    show s.Passes (callActions call size count (fun memory => (produce memory).run)
      (fun memory => (produce memory).actions) memory s ++ (next _ _).actions _) state
    rcases hstate with hstate | rfl | hstate
    · exact (hcall state hstate).append_right _
    · refine Stack.Passes.append_left ?_
      rw [hend]
      exact .start _ _
    · refine Stack.Passes.append_left ?_
      rw [hend]
      exact ihNext _ _ _ state hstate

/-- Every stack that a program comes to is passed by its actions. -/
theorem passes_of_mem_states {α : Type} {program : Program α} {s state : Stack}
    (hmem : state ∈ program.states s) : s.Passes (program.actions s) state := by
  simp only [states, List.cons_append, List.mem_cons, List.mem_append, List.not_mem_nil,
    or_false] at hmem
  rcases hmem with rfl | hstate | rfl
  · exact .start _ _
  · exact program.passes_of_mem_passed s state hstate
  · rw [program.final_eq_after]
    exact .final _ _

end Program

namespace Stack

/--
The return from a frame takes it and everything above it off the table, restores the cursors that it
saved, and changes the variable that the result goes to, if there is one, and no other cell.
-/
structure Returns (s : Stack) (id : Nat) (value : Value) (frame : Frame) (s' : Stack) : Prop where
  taken : s.headers[id]? = some frame
  headers : s'.headers = s.headers.take id
  current : s'.current = frame.returnLink
  future : s'.future = frame.returnFuture
  discard : frame.destination = .discard → s'.cells = s.cells
  slot : ∀ target index, frame.destination = .slot target index →
    ∃ named, s.headers[target]? = some named ∧ named.firstCell + index < s.cells.size ∧
      s'.cells = s.cells.setIfInBounds (named.firstCell + index) value ∧
      s'.load target index = .ok value

variable {s caller : Stack} {actions : List Action} {id : Nat} {call : Call} {size : Nat}
  {frame : Frame}

/-- A reservation of a run that only asks for destinations in the table asks for such a one. -/
theorem Reserves.isIn (h : s.Reserves actions id call size caller)
    (hdirected : ∀ step ∈ s.steps actions, step.Directed) :
    call.destination.IsIn caller.headers := by
  obtain ⟨before, action, rest, rfl, rfl, hcall, -, -⟩ := h
  have hstep : (⟨s.after before, action⟩ : Step) ∈ s.steps (before ++ action :: rest) := by
    rw [steps_append]
    exact List.mem_append_right _ List.mem_cons_self
  exact hdirected _ hstep (call, size) hcall

/-- After a run that only asks for destinations in the table, all frames have such a one. -/
theorem Sound.destination_named (h : s.Sound) (hempty : s.headers = [])
    (hdirected : ∀ step ∈ s.steps actions, step.Directed)
    (hid : (s.after actions).headers[id]? = some frame) {target index : Nat}
    (hdestination : frame.destination = .slot target index) :
    target < id ∧ ∃ call size caller old new, s.Reserves actions id call size caller ∧
      call.destination = .slot target index ∧ caller.headers[target]? = some old ∧
      (s.after actions).headers[target]? = some new ∧ index < new.size ∧
      new = { old with state := new.state, resume := new.resume } := by
  rcases h.kept_or_reserves (List.getElem?_eq_some_iff.mp hid).1 with ⟨hold, -⟩ | hreserves
  · rw [hempty] at hold
    exact absurd hold (Nat.not_lt_zero id)
  · obtain ⟨call, size, caller, hreserves⟩ := hreserves
    have hcall : call.destination = .slot target index := by
      rw [← hdestination, hreserves.header_eq h hid]
      rfl
    have hin := hreserves.isIn hdirected
    rw [hcall] at hin
    obtain ⟨old, hold, hindex⟩ := hin
    have htarget : target < id := by
      rw [← hreserves.length_eq]
      exact (List.getElem?_eq_some_iff.mp hold).1
    obtain ⟨new, hnew, heq⟩ := hreserves.below h htarget hold
    refine ⟨htarget, call, size, caller, old, new, hreserves, hcall, hold, hnew, ?_, heq⟩
    rw [heq]
    exact hindex

/-- A return takes the current frame. -/
theorem pop_eq (hcurrent : s.current = some id) (hid : s.headers[id]? = some frame) :
    pop s = .ok frame (s.truncate id frame) := by
  simp only [pop, hcurrent, getElem?_frames, hid]

/-- A store to a variable of a frame in the table changes its cell. -/
theorem store_eq (hid : s.headers[id]? = some frame) {index : Nat} (hindex : index < frame.size)
    (value : Value) :
    store id index value s = .ok () (s.setCell (frame.firstCell + index) value) := by
  rw [store, cellOf_eq hid, if_pos hindex]

/-- A frame that is taken off leaves the frames below. -/
theorem headers_truncate (s : Stack) (id : Nat) (frame : Frame) :
    (s.truncate id frame).headers = s.headers.take id := Array.toList_shrink ..

/-- A frame below the current one gets its result by a store after the return, or before it. -/
theorem returnValue_of_slot (hcurrent : s.current = some id) (hid : s.headers[id]? = some frame)
    {target index : Nat} (hdestination : frame.destination = .slot target index)
    (htarget : target < id) {named : Frame} (hnamed : s.headers[target]? = some named)
    (hindex : index < named.size) (value : Value) :
    returnValue value s =
        .ok frame ((s.truncate id frame).setCell (named.firstCell + index) value) ∧
      storeThenPop value s =
        .ok frame ((s.truncate id frame).setCell (named.firstCell + index) value) := by
  have hleft : (s.truncate id frame).headers[target]? = some named := by
    rw [headers_truncate, List.getElem?_take, if_pos htarget, hnamed]
  have hafter := store_eq hleft hindex value
  have hbefore := store_eq hnamed hindex value
  have hpop : pop (s.setCell (named.firstCell + index) value) =
      .ok frame ((s.truncate id frame).setCell (named.firstCell + index) value) :=
    pop_eq hcurrent hid
  constructor
  · simp only [returnValue, bind, EStateM.bind, pop_eq hcurrent hid, hdestination, hafter]
    rfl
  · simp only [storeThenPop, hcurrent, getElem?_frames, hid, hdestination, hbefore, hpop]

/-- Without a destination a return with a result is a return. -/
theorem returnValue_of_discard (hcurrent : s.current = some id) (hid : s.headers[id]? = some frame)
    (hdestination : frame.destination = .discard) (value : Value) :
    returnValue value s = .ok frame (s.truncate id frame) ∧
      storeThenPop value s = .ok frame (s.truncate id frame) := by
  constructor
  · simp only [returnValue, bind, EStateM.bind, pop_eq hcurrent hid, hdestination]
    rfl
  · simp only [storeThenPop, hcurrent, getElem?_frames, hid, hdestination, pop_eq hcurrent hid]

/-- Without a current frame there is no return, in either order. -/
theorem returnValue_of_none (hcurrent : s.current = none) (value : Value) :
    returnValue value s = violate .poppingEmptyStack s ∧
      storeThenPop value s = violate .poppingEmptyStack s := by
  constructor
  · simp only [returnValue, bind, EStateM.bind, pop, hcurrent, violate]
  · simp only [storeThenPop, hcurrent]

/-- A return goes well if the destination is a variable of a frame below, and in either order. -/
theorem Sound.returns (h : s.Sound) (hcurrent : s.current = some id)
    (hid : s.headers[id]? = some frame)
    (hnamed : ∀ target index, frame.destination = .slot target index →
      target < id ∧ ∃ named, s.headers[target]? = some named ∧ index < named.size)
    (value : Value) :
    ∃ s', returnValue value s = .ok frame s' ∧ storeThenPop value s = .ok frame s' ∧
      s.Returns id value frame s' := by
  cases hdestination : frame.destination with
  | discard =>
    obtain ⟨hreturn, hreturn'⟩ := returnValue_of_discard hcurrent hid hdestination value
    refine ⟨_, hreturn, hreturn', hid, headers_truncate s id frame, rfl, rfl, fun _ => rfl,
      fun target index hslot => ?_⟩
    cases hdestination.symm.trans hslot
  | slot target index =>
    obtain ⟨htarget, named, htaken, hindex⟩ := hnamed target index hdestination
    obtain ⟨hreturn, hreturn'⟩ :=
      returnValue_of_slot hcurrent hid hdestination htarget htaken hindex value
    have hcell : named.firstCell + index < s.cells.size :=
      Nat.lt_of_lt_of_le (Nat.add_lt_add_left hindex _) (h.window_le htaken)
    refine ⟨_, hreturn, hreturn', hid, headers_truncate s id frame, rfl, rfl,
      fun hnone => ?_, fun target' index' hslot => ?_⟩
    · cases hdestination.symm.trans hnone
    · cases hdestination.symm.trans hslot
      have hleft : ((s.truncate id frame).setCell (named.firstCell + index) value).headers[target]? =
          some named := by
        show (s.truncate id frame).headers[target]? = some named
        rw [headers_truncate, List.getElem?_take, if_pos htarget, htaken]
      refine ⟨named, htaken, hcell, rfl, ?_⟩
      have hvalue : (s.cells.setIfInBounds (named.firstCell + index) value).getD
          (named.firstCell + index) .zero = value := by
        rw [Array.getD_eq_getD_getElem?, Array.getElem?_setIfInBounds_self_of_lt hcell,
          Option.getD_some]
      rw [load, cellOf_eq hleft, if_pos hindex]
      exact congrArg Except.ok hvalue

/--
When all frames of a program on a fresh stack are reserved with destinations that are in the table
at the time, no destination is ever lost. In every state that the program comes to, the frame that a
destination belongs to lies below, has the variable, and is the very one that the reservation named:
it has stayed in the table, and differs from it in its state and its instruction offset at most. So
a return from the current frame goes well, changes one cell at most, and is the same if the result is
stored before the frame is taken off.
-/
theorem destinations_of_directed {size : Option Nat} {first : Stack} (hfirst : create size = .ok first)
    {α : Type} (program : Program α)
    (hdirected : ∀ step ∈ first.steps (program.actions first), step.Directed) {s : Stack}
    (hs : s ∈ program.states first) :
    ∃ actions rest, program.actions first = actions ++ rest ∧ first.after actions = s ∧
      (∀ (id : Nat) (frame : Frame) (target index : Nat), s.headers[id]? = some frame →
        frame.destination = .slot target index →
          target < id ∧ ∃ call size caller old new, first.Reserves actions id call size caller ∧
            call.destination = .slot target index ∧ caller.headers[target]? = some old ∧
            s.headers[target]? = some new ∧ index < new.size ∧
            new = { old with state := new.state, resume := new.resume }) ∧
      (∀ (value : Value) (id : Nat), s.current = some id →
        ∃ frame s', returnValue value s = .ok frame s' ∧ s.Returns id value frame s') ∧
      ∀ value : Value, storeThenPop value s = returnValue value s := by
  have hsound := sound_create hfirst
  obtain ⟨actions, rest, hactions, rfl⟩ := Program.passes_of_mem_states hs
  have hdirected' : ∀ step ∈ first.steps actions, step.Directed := by
    rw [hactions, steps_append] at hdirected
    exact fun step hstep => hdirected step (List.mem_append_left _ hstep)
  have hnamed {id : Nat} {frame : Frame} (hid : (first.after actions).headers[id]? = some frame)
      {target index : Nat} (hdestination : frame.destination = .slot target index) :=
    hsound.destination_named (headers_create hfirst) hdirected' hid hdestination
  have hreturns {id : Nat} (hcurrent : (first.after actions).current = some id) (value : Value) :
      ∃ frame s', returnValue value (first.after actions) = .ok frame s' ∧
        storeThenPop value (first.after actions) = .ok frame s' ∧
        (first.after actions).Returns id value frame s' := by
    have hlt : id < (first.after actions).headers.length :=
      lt_of_lastCommitted ((hsound.after actions).current ▸ hcurrent)
    have hid := List.getElem?_eq_getElem hlt
    refine ⟨_, (hsound.after actions).returns hcurrent hid (fun target index hdestination => ?_) value⟩
    obtain ⟨htarget, _, _, _, _, new, -, -, -, hnew, hindex, -⟩ := hnamed hid hdestination
    exact ⟨htarget, new, hnew, hindex⟩
  refine ⟨actions, rest, hactions, rfl, fun id frame target index hid => hnamed hid,
    fun value id hcurrent => ?_, fun value => ?_⟩
  · obtain ⟨frame, s', hreturn, -, hreturned⟩ := hreturns hcurrent value
    exact ⟨frame, s', hreturn, hreturned⟩
  · cases hcurrent : (first.after actions).current with
    | none =>
      obtain ⟨hreturn, hreturn'⟩ := returnValue_of_none hcurrent value
      exact hreturn'.trans hreturn.symm
    | some id =>
      obtain ⟨frame, s', hreturn, hreturn', -⟩ := hreturns hcurrent value
      exact hreturn'.trans hreturn.symm

/--
A call gets its first argument by way of a call that returns to its second variable. The program for
the other argument reserves a frame and fails, so both frames go. A last call takes their place, and
wants its result where the first call had wanted it.
-/
def redirected : Program Unit :=
  .perform (.push identityCall [.ofNat 5]) fun _ =>
  .pushWithArguments { identityCall with destination := .slot 0 0 } 2 2 0
    (fun
      | 0 =>
        .perform (.push { identityCall with destination := .slot 1 1 } [.ofNat 3]) fun _ =>
        .perform (.returnValue (.ofNat 8)) fun _ => .done (.ok [.ofNat 4], 1)
      | _ + 1 =>
        .perform (.reserve { identityCall with destination := .slot 1 0 } 1) fun _ =>
        .done (.error (.fault (.arenaAllocation 0)), 2))
    (fun _ (_ : Nat) =>
      .perform (.push { identityCall with destination := .slot 0 0 } [.ofNat 6]) fun _ => .done ())

/-- A stack of 1024 bytes without frames. -/
def kilobyte : Stack := { empty with cells := Array.replicate 128 .zero }

/-- The stack that the last call has been made on. -/
def redirectedStack : Stack := (redirected.run kilobyte).final

/-- The last call finds its destination, although its position has been another frame's before. -/
theorem destinations_of_directed_redirected :
    create (some 1024) = .ok kilobyte ∧
      (∀ step ∈ kilobyte.steps (redirected.actions kilobyte), step.Directed) ∧
      redirectedStack.headers.map Frame.destination = [.discard, .slot 0 0] ∧
      ∃ frame s', returnValue (.ofNat 9) redirectedStack = .ok frame s' ∧
        storeThenPop (.ofNat 9) redirectedStack = .ok frame s' ∧
        s'.headers.length = 1 ∧ s'.current = some 0 ∧ s'.load 0 0 = .ok (.ofNat 9) := by
  have hfirst : create (some 1024) = .ok kilobyte := rfl
  have hdirected : ∀ step ∈ kilobyte.steps (redirected.actions kilobyte), step.Directed := by
    decide +kernel
  have hlast : redirectedStack ∈ redirected.states kilobyte :=
    List.mem_append_right _ (List.mem_singleton_self redirectedStack)
  obtain ⟨-, -, -, -, -, hreturns, hsame⟩ :=
    destinations_of_directed hfirst redirected hdirected hlast
  obtain ⟨frame, s', hreturn, hreturned⟩ := hreturns (.ofNat 9) 1 (by decide +kernel)
  have hframe : redirectedStack.headers[1]?.map (fun frame => (frame.destination, frame.returnLink)) =
      some (.slot 0 0, some 0) := by decide +kernel
  rw [hreturned.taken, Option.map_some, Option.some_inj, Prod.mk.injEq] at hframe
  obtain ⟨-, -, -, -, hload⟩ := hreturned.slot 0 0 hframe.1
  refine ⟨hfirst, hdirected, by decide +kernel, frame, s', hreturn, (hsame _).trans hreturn, ?_,
    hreturned.current.trans hframe.2, hload⟩
  rw [hreturned.headers]
  decide +kernel

end Stack

end ManagedCore
