import ManagedCore.Proofs.Stack.Prefixes

/-!
# Calls whose arguments are produced

The programs that produce the arguments of a call run one after another, on the stack that has the
call's frame reserved. What they do to the frames below stays when one of them fails, but the frame
itself goes, with all that was built on top of it, and the cursors are those from before the call.
-/

namespace ManagedCore

namespace Stack

/-- The producer that runs a program for each argument. -/
abbrev producer {τ : Type} (produce : τ → Program (Except Halt (List Value) × τ)) :
    EStateM Halt (Stack × τ × List Stack) (List Value) :=
  producing fun memory => (produce memory).run

/--
Where the program for an argument starts: the programs before it have given their values, and these
are written to the frame.
-/
inductive ArgumentStart {τ : Type} (id : FrameId)
    (produce : τ → Program (Except Halt (List Value) × τ)) (s : Stack) (memory : τ) :
    Nat → Stack → τ → Prop
  | first : ArgumentStart id produce s memory 0 s memory
  | next {index : Nat} {start s' : Stack} {current memory' : τ} {values : List Value}
    (hstart : ArgumentStart id produce s memory index start current)
    (hvalues : ((produce current).run start).result = (.ok values, memory'))
    (hlast : ((produce current).run start).final.future = some id)
    (hwritten : writeArguments id values ((produce current).run start).final = .ok () s') :
    ArgumentStart id produce s memory (index + 1) s' memory'

/-- A step of the program for an argument. -/
def ArgumentStep {τ : Type} (id : FrameId) (produce : τ → Program (Except Halt (List Value) × τ))
    (s : Stack) (memory : τ) (index : Nat) (step : Step) : Prop :=
  ∃ start current, ArgumentStart id produce s memory index start current ∧
    step ∈ start.steps ((produce current).actions start)

variable {τ : Type} {id : Nat} {produce : τ → Program (Except Halt (List Value) × τ)}
  {s start : Stack} {memory current memory' : τ} {index : Nat}

/-- One more argument is written when its program gives values that fit. -/
theorem fillArguments_of_values {values : List Value} {s' : Stack}
    (hvalues : ((produce current).run start).result = (.ok values, memory'))
    (hlast : ((produce current).run start).final.future = some id)
    (hwritten : writeArguments id values ((produce current).run start).final = .ok () s')
    (count : Nat) (passed : List Stack) :
    ∃ passed', fillArguments id (producer produce) (count + 1)
        (start, current, passed) =
      fillArguments id (producer produce) count
        (s', memory', passed') := by
  refine ⟨passed ++ start :: ((produce current).run start).passed, ?_⟩
  simp only [fillArguments, produceFor, producer, producing, hvalues, if_pos hlast, hwritten]

/-- What is left to fill when the program for an argument starts. -/
theorem ArgumentStart.fillArguments_add
    (h : ArgumentStart id produce s memory index start current) (count : Nat)
    (passed : List Stack) :
    ∃ passed', fillArguments id (producer produce) (index + count)
        (s, memory, passed) =
      fillArguments id (producer produce) count
        (start, current, passed') := by
  induction h generalizing count with
  | first => exact ⟨passed, by rw [Nat.zero_add]⟩
  | @next index start s' current memory' values _ hvalues hlast hwritten ih =>
    obtain ⟨passed', hfill⟩ := ih (count + 1)
    obtain ⟨passed'', hnext⟩ := fillArguments_of_values hvalues hlast hwritten count passed'
    rw [show index + 1 + count = index + (count + 1) by omega]
    exact ⟨passed'', hfill.trans hnext⟩

/-- Arguments are filled only by programs that give values which fit. -/
theorem values_of_fillArguments {count : Nat} {passed : List Stack}
    {state : Stack × τ × List Stack}
    (h : fillArguments id (producer produce) (count + 1)
      (start, current, passed) = .ok () state) :
    ∃ values memory' s' passed', ((produce current).run start).result = (.ok values, memory') ∧
      ((produce current).run start).final.future = some id ∧
      writeArguments id values ((produce current).run start).final = .ok () s' ∧
      fillArguments id (producer produce) count (s', memory', passed') =
        .ok () state := by
  simp only [fillArguments, produceFor, producer, producing] at h
  cases hresult : ((produce current).run start).result with
  | mk values memory' =>
    rw [hresult] at h
    cases values with
    | error halt =>
      cases halt with
      | violation violation => cases h
      | fault fault =>
        cases hrelease : release id ((produce current).run start).final with
        | error halt s' =>
          simp only [beside, hrelease] at h
          cases h
        | ok _ s' =>
          simp only [beside, hrelease] at h
          cases h
    | ok values =>
      simp only at h
      by_cases hlast : ((produce current).run start).final.future = some id
      · rw [if_pos hlast] at h
        cases hwritten : writeArguments id values ((produce current).run start).final with
        | error halt s' =>
          rw [hwritten] at h
          cases h
        | ok _ s' =>
          rw [hwritten] at h
          exact ⟨values, memory', s', _, rfl, hlast, hwritten, h⟩
      · rw [if_neg hlast] at h
        cases h

/-- The program for an argument starts where filling the arguments before it has led. -/
theorem argumentStart_iff :
    ArgumentStart id produce s memory index start current ↔
      ∃ passed, fillArguments id (producer produce) index
        (s, memory, []) = .ok () (start, current, passed) := by
  constructor
  · intro h
    obtain ⟨passed, hfill⟩ := h.fillArguments_add 0 []
    exact ⟨passed, hfill⟩
  · rintro ⟨passed, hfill⟩
    -- The arguments are filled from the first on, so the start of the run is what is generalized.
    have hfrom : ∀ (count first : Nat) (s' : Stack) (memory' : τ) (passed' : List Stack),
        ArgumentStart id produce s memory first s' memory' →
        fillArguments id (producer produce) count
          (s', memory', passed') = .ok () (start, current, passed) →
        ArgumentStart id produce s memory (first + count) start current := by
      intro count
      induction count with
      | zero =>
        intro first s' memory' passed' hstart hfill
        cases hfill
        exact hstart
      | succ count ih =>
        intro first s' memory' passed' hstart hfill
        obtain ⟨values, memory'', s'', passed'', hvalues, hlast, hwritten, hrest⟩ :=
          values_of_fillArguments hfill
        rw [show first + (count + 1) = first + 1 + count by omega]
        exact ih (first + 1) s'' memory'' passed'' (hstart.next hvalues hlast hwritten) hrest
    rw [← Nat.zero_add index]
    exact hfrom index 0 s memory [] .first hfill

/-- The program for an argument starts in one way. -/
theorem ArgumentStart.unique {start' : Stack} {current' : τ}
    (h : ArgumentStart id produce s memory index start current)
    (h' : ArgumentStart id produce s memory index start' current') :
    start = start' ∧ current = current' := by
  obtain ⟨passed, hfill⟩ := argumentStart_iff.mp h
  obtain ⟨passed', hfill'⟩ := argumentStart_iff.mp h'
  cases hfill.symm.trans hfill'
  exact ⟨rfl, rfl⟩

/-- The parts of frames that the programs for the first `count` arguments name. -/
def ArgumentsName (id : FrameId) (produce : τ → Program (Except Halt (List Value) × τ)) (s : Stack)
    (memory : τ) (count : Nat) (other : FrameId) (part : Part) : Prop :=
  ∃ index < count, ∃ step, ArgumentStep id produce s memory index step ∧ step.Names other part

/-- Written arguments change their own frame alone. -/
theorem Sound.alters_writeArguments (h : s.Sound) {values : List Value} {s' : Stack}
    (hwritten : writeArguments id values s = .ok () s') :
    s'.Sound ∧ s.view.Alters (fun other _ => other = id) s'.view := by
  have hshows := (writeArguments_refines id values s h).outcome
  have halters : s.view.Alters (fun other _ => other = id)
      (outcome (PrivateStack.writeArguments id values s.view)).2 :=
    PrivateStack.alters_writeArguments rfl fun _ _ _ _ _ _ => rfl
  rw [hwritten] at hshows
  rw [← hshows.view] at halters
  exact ⟨hshows.sound, halters⟩

/-- What a state with the frame in the table has kept after the programs for `count` arguments. -/
structure ArgumentsKept (id : FrameId) (produce : τ → Program (Except Halt (List Value) × τ))
    (s : Stack) (memory : τ) (count : Nat) (s' : Stack) : Prop where
  sound : s'.Sound
  capacity : s'.capacity = s.capacity
  length : id < s'.headers.length
  retains : s.Retains id (ArgumentsName id produce s memory count) s'

/-- A program that leaves the frame in the table changes the frames below in what it names. -/
theorem ArgumentsKept.final (h : ArgumentsKept id produce s memory index start)
    (hstart : ArgumentStart id produce s memory index start current)
    (hstay : ∀ step, ArgumentStep id produce s memory index step → id < step.after.headers.length) :
    ArgumentsKept id produce s memory (index + 1) ((produce current).run start).final := by
  have hstay' : ∀ step ∈ start.steps ((produce current).actions start),
      id + 1 ≤ step.after.headers.length :=
    fun step hstep => hstay step ⟨start, current, hstart, hstep⟩
  have hrun := h.sound.retains_after (Nat.le_of_lt h.length) fun step hstep =>
    Nat.le_of_succ_le (hstay' step hstep)
  rw [Program.final_eq_after]
  refine ⟨h.sound.after _, (h.sound.capacity_after _).trans h.capacity,
    (le_length_of_steps h.length hstay').2, ?_⟩
  refine (h.retains.mono fun other _ part hnamed => ?_).trans
    (hrun.mono fun other _ part hnamed => ?_)
  · obtain ⟨earlier, hearlier, hstep⟩ := hnamed
    exact ⟨earlier, Nat.lt_succ_of_lt hearlier, hstep⟩
  · obtain ⟨step, hstep, hnames⟩ := hnamed
    exact ⟨index, Nat.lt_succ_self index, step, ⟨start, current, hstart, hstep⟩, hnames⟩

/-- Programs that leave the frame in the table change the frames below in what they name. -/
theorem ArgumentStart.kept (h : ArgumentStart id produce s memory index start current)
    (hsound : s.Sound) (hlength : id < s.headers.length)
    (hstay : ∀ earlier < index, ∀ step, ArgumentStep id produce s memory earlier step →
      id < step.after.headers.length) :
    ArgumentsKept id produce s memory index start := by
  induction h with
  | first =>
    have hrefl := (PrivateStack.Alters.refl (ArgumentsName id produce s memory 0) s.view).toEvolves
    exact ⟨hsound, rfl, hlength, .of_evolves hrefl (Nat.le_of_lt hlength) (Nat.le_of_lt hlength)⟩
  | @next index start s' current memory' values hstart _ _ hwritten ih =>
    have hfinal := (ih fun earlier hearlier => hstay earlier (Nat.lt_succ_of_lt hearlier)).final
      hstart (hstay index (Nat.lt_succ_self index))
    obtain ⟨hsound', halters⟩ := hfinal.sound.alters_writeArguments hwritten
    have hlength' : id < s'.headers.length := by
      have hsame := halters.length
      rw [length_frames_view, length_frames_view] at hsame
      exact hsame ▸ hfinal.length
    have hwrite := Retains.of_evolves halters.toEvolves (Nat.le_of_lt hfinal.length)
      (Nat.le_of_lt hlength')
    refine ⟨hsound', halters.capacity.trans hfinal.capacity, hlength', hfinal.retains.trans ?_⟩
    exact hwrite.mono fun other hother _ heq => absurd heq (Nat.ne_of_lt hother)

/-- A program that leaves the frame in the table commits no frame below it. -/
theorem ArgumentStep.not_names_commitment {step : Step} {other : Nat}
    (h : ArgumentStep id produce s memory index step) (hsound : s.Sound)
    (hlength : id < s.headers.length)
    (hstay : ∀ earlier ≤ index, ∀ step, ArgumentStep id produce s memory earlier step →
      id < step.after.headers.length) (hother : other < id) : ¬step.Names other .commitment := by
  obtain ⟨start, current, hstart, hstep⟩ := h
  have hkept := hstart.kept hsound hlength fun earlier hearlier =>
    hstay earlier (Nat.le_of_lt hearlier)
  have hbefore := (le_length_of_steps hkept.length fun step hstep =>
    hstay index (Nat.le_refl _) step ⟨start, current, hstart, hstep⟩).1 step hstep
  intro hnames
  have hlast := (Action.last_of_names_commitment (hkept.sound.before_of_steps step hstep) hnames).1
  omega

end Stack

/-- The header of a call's frame on top of a stack. -/
def Call.header (call : Call) (s : Stack) (size : Nat) (state : FrameState) : Frame where
  context := call.context
  returnLink := s.current
  returnFuture := s.future
  resume := call.resume
  destination := call.destination
  function := call.function
  state := state
  address := s.available - footprint size
  size := size

namespace Stack

variable {τ : Type} {id : Nat} {produce : τ → Program (Except Halt (List Value) × τ)}
  {s s₁ start : Stack} {memory current memory' : τ} {index size : Nat} {call : Call}

/-- A reservation adds the call's frame, with zero variables, on top of the table. -/
theorem Sound.view_of_reserve (h : s.Sound) (hreserve : reserve call size s = .ok id s₁) :
    s₁.Sound ∧ s.headers.length = id ∧ s₁.view = { s.view with
      frames := s.view.frames ++
        [⟨call.header s size (.reserved 0), List.replicate size .zero⟩] } := by
  have hrefines := reserve_refines call size s h
  rw [hreserve, PrivateStack.reserve, h.view_available, h.view_current, h.view_future] at hrefines
  split at hrefines
  · cases hrefines with
    | ok _ hshows => exact ⟨hshows.sound, (length_frames_view s).symm, hshows.view⟩
  · cases hrefines

/-- A reservation puts the header of its call on top of the table. -/
theorem Sound.headers_of_reserve (h : s.Sound) (hreserve : reserve call size s = .ok id s₁) :
    s₁.headers = s.headers ++ [call.header s size (.reserved 0)] := by
  obtain ⟨-, -, hview⟩ := h.view_of_reserve hreserve
  rw [← headers_view, hview, PrivateStack.headers, List.map_append, ← PrivateStack.headers,
    headers_view]
  rfl

/-- A call halts where one of its arguments cannot be filled. -/
theorem ArgumentStart.pushWithArguments_of_halt {count : Nat} {halt : Halt}
    {s' : Stack} (hreserve : reserve call size s = .ok id s₁)
    (hstart : ArgumentStart id produce s₁ memory index start current) (hindex : index < count)
    (hhalt : ∀ rest passed, ∃ passed', fillArguments id (producer produce) (rest + 1)
      (start, current, passed) = .error halt (s', memory', passed')) :
    ∃ passed, pushWithArguments call size count (producer produce) (s, memory, []) =
      .error halt (s', memory', passed) := by
  obtain ⟨rest, rfl⟩ := Nat.exists_eq_add_of_lt hindex
  obtain ⟨passed, hfill⟩ := hstart.fillArguments_add (rest + 1) []
  obtain ⟨passed', hhalt⟩ := hhalt rest passed
  refine ⟨passed', ?_⟩
  simp only [pushWithArguments, bind, EStateM.bind, beside, hreserve,
    show index + rest + 1 = index + (rest + 1) from rfl, hfill, hhalt]

/-- A program that fails after the programs before it drops the frame and is reported. -/
theorem ArgumentStart.pushWithArguments_of_fault {fault : Fault} {count : Nat} {frame : Frame}
    (hreserve : reserve call size s = .ok id s₁)
    (hstart : ArgumentStart id produce s₁ memory index start current) (hindex : index < count)
    (hfault : ((produce current).run start).result = (.error (.fault fault), memory'))
    (hframe : ((produce current).run start).final.headers[id]? = some frame) :
    ∃ passed, pushWithArguments call size count (producer produce) (s, memory, []) =
      .error (.fault fault)
        (((produce current).run start).final.truncate id frame, memory', passed) := by
  have hrelease : release id ((produce current).run start).final =
      .ok () (((produce current).run start).final.truncate id frame) := by
    simp only [release, getElem?_frames, hframe]
  refine hstart.pushWithArguments_of_halt hreserve hindex fun rest passed =>
    ⟨passed ++ start :: ((produce current).run start).passed, ?_⟩
  simp only [fillArguments, produceFor, producer, producing, hfault, beside, hrelease]

/-- A release keeps the frames below. -/
theorem Sound.retains_truncate (h : s.Sound) {frame : Frame} (hid : s.headers[id]? = some frame) :
    (s.truncate id frame).Sound ∧ (s.truncate id frame).headers.length = id ∧
      s.Retains id (fun _ _ => False) (s.truncate id frame) := by
  have hshows := shows_truncate h hid
  have hle : id ≤ s.headers.length := Nat.le_of_lt (List.getElem?_eq_some_iff.mp hid).1
  have hlength : (s.truncate id frame).headers.length = id := by
    rw [← length_frames_view, hshows.view, List.length_take, length_frames_view]
    exact Nat.min_eq_left hle
  refine ⟨hshows.sound, hlength, .of_evolves ?_ hle (Nat.le_of_eq hlength.symm)⟩
  rw [hshows.view]
  exact .take _ s.view id

/-- A reservation keeps the frames below. -/
theorem Sound.retains_reserve (h : s.Sound) (hreserve : reserve call size s = .ok id s₁) :
    s₁.Sound ∧ s.headers.length = id ∧ s₁.capacity = s.capacity ∧ s₁.headers.length = id + 1 ∧
      s.Retains id (fun _ _ => False) s₁ := by
  obtain ⟨hsound, hid, hview⟩ := h.view_of_reserve hreserve
  have hcapacity : s₁.capacity = s.capacity := congrArg PrivateStack.capacity hview
  have hlength : s₁.headers.length = id + 1 := by
    rw [h.headers_of_reserve hreserve, List.length_append, hid, List.length_singleton]
  refine ⟨hsound, hid, hcapacity, hlength, .of_evolves ?_ (Nat.le_of_eq hid.symm) (by omega)⟩
  rw [hview]
  exact .concat _ s.view _

/--
When the program for an argument fails, and the programs up to then have left the call's frame in
the table, the call reports the fault. The frames from before the call are there, changed at most in
what these programs name, and the cursors, the depth and the room are those from before the call.
-/
theorem restores_of_fault {τ : Type} {s : Stack} (h : s.Reachable) (call : Call)
    (size count : Nat) (produce : τ → Program (Except Halt (List Value) × τ)) (memory : τ)
    {id : FrameId} {s₁ : Stack} (hreserve : reserve call size s = .ok id s₁) {index : Nat}
    (hindex : index < count) {start : Stack} {current : τ}
    (hstart : ArgumentStart id produce s₁ memory index start current) {fault : Fault} {memory' : τ}
    (hfault : ((produce current).run start).result = (.error (.fault fault), memory'))
    (hstay : ∀ earlier ≤ index, ∀ step, ArgumentStep id produce s₁ memory earlier step →
      id < step.after.headers.length) :
    ∃ s' passed,
      pushWithArguments call size count (producer produce)
          (s, memory, []) = .error (.fault fault) (s', memory', passed) ∧
        s.headers.length = id ∧ s'.headers.length = id ∧
        s.Retains id (ArgumentsName id produce s₁ memory (index + 1)) s' ∧
        (∀ other < id, s'.headers[other]?.map Frame.isCommitted =
          s.headers[other]?.map Frame.isCommitted) ∧
        s.Restores s' := by
  obtain ⟨hsound₁, hid, hcapacity₁, hlength₁, hreserved⟩ := h.sound.retains_reserve hreserve
  have hlt : id < s₁.headers.length := hlength₁ ▸ Nat.lt_succ_self id
  have hfinal := (hstart.kept hsound₁ hlt fun earlier hearlier =>
    hstay earlier (Nat.le_of_lt hearlier)).final hstart (hstay index (Nat.le_refl _))
  have hframe := List.getElem?_eq_getElem hfinal.length
  obtain ⟨passed, hpush⟩ := hstart.pushWithArguments_of_fault hreserve hindex hfault hframe
  obtain ⟨hsound', hlength', hreleased⟩ := hfinal.sound.retains_truncate hframe
  have hretains : s.Retains id (ArgumentsName id produce s₁ memory (index + 1))
      (((produce current).run start).final.truncate id _) :=
    (hreserved.mono fun _ _ _ hfalse => hfalse.elim).trans
      (hfinal.retains.trans (hreleased.mono fun _ _ _ hfalse => hfalse.elim))
  have hcommitment : ∀ other < id,
      ¬ArgumentsName id produce s₁ memory (index + 1) other .commitment := by
    rintro other hother ⟨earlier, hearlier, step, hstep, hnames⟩
    refine hstep.not_names_commitment hsound₁ hlt (fun earlier' hle => ?_) hother hnames
    exact hstay earlier' (Nat.le_trans hle (Nat.le_of_lt_succ hearlier))
  refine ⟨_, passed, hpush, hid, hlength', hretains,
    fun other hother => hretains.isCommitted_eq hother (hcommitment other hother), ?_⟩
  subst hid
  exact h.sound.restores hsound' (hfinal.capacity.trans hcapacity₁) hlength' hretains hcommitment

/--
A producer that gives one value, and the next time breaks off in the middle: it fills the frame that
it works for, commits it, changes a frame below, calls a function that does not return, and runs out
of room in the argument of another call.
-/
def overflowing : Nat → Program (Except Halt (List Value) × Nat)
  | 0 => .done (.ok [.ofNat 6], 1)
  | _ + 1 =>
    .perform (.writeArguments 2 [.ofNat 7]) fun _ =>
    .perform .commit fun _ =>
    .perform (.store 0 0 (.ofNat 8)) fun _ =>
    .perform (.push identityCall []) fun _ =>
    .pushWithArguments identityCall 1 1 ()
      (fun _ => .perform (.reserve identityCall 100) fun answer =>
        .done (answer.map fun _ => [], ()))
      (fun answer _ => .done (answer.map fun _ => [], 2))

/-- The call reports the overflow in its argument's argument, and only the store below it stays. -/
theorem restores_of_fault_overflowing :
    ∃ (s' : Stack) (passed : List Stack),
      waitingStack.load 0 0 = .ok (.ofNat 5) ∧
      pushWithArguments identityCall 2 3
          (producer overflowing) (waitingStack, 0, []) =
        .error (.fault (.stackOverflow 928 336)) (s', 2, passed) ∧
      s'.headers.length = 2 ∧ s'.load 0 0 = .ok (.ofNat 8) ∧ waitingStack.Restores s' := by
  have hreserve : reserve identityCall 2 waitingStack = .ok 2 _ :=
    eq_ok_of_outcome (by decide +kernel)
  have hvalues : ((overflowing 0).run (outcome (reserve identityCall 2 waitingStack)).2).result =
      (.ok [.ofNat 6], 1) := rfl
  have hlast : ((overflowing 0).run
      (outcome (reserve identityCall 2 waitingStack)).2).final.future = some 2 := by decide +kernel
  have hwritten : writeArguments 2 [.ofNat 6] ((overflowing 0).run
      (outcome (reserve identityCall 2 waitingStack)).2).final = .ok () _ :=
    eq_ok_of_outcome (by decide +kernel)
  have hstart := ArgumentStart.first.next hvalues hlast hwritten
  have hfault : ((overflowing 1).run (outcome (writeArguments 2 [.ofNat 6] ((overflowing 0).run
      (outcome (reserve identityCall 2 waitingStack)).2).final)).2).result =
      (.error (.fault (.stackOverflow 928 336)), 2) := by decide +kernel
  have hstay : ∀ earlier ≤ 1, ∀ step, ArgumentStep 2 overflowing
      (outcome (reserve identityCall 2 waitingStack)).2 0 earlier step →
      2 < step.after.headers.length := by
    rintro earlier hle step ⟨start, current, hother, hstep⟩
    rcases Nat.le_one_iff_eq_zero_or_eq_one.mp hle with rfl | rfl
    · obtain ⟨hsame, hsame'⟩ := hother.unique .first
      rw [hsame, hsame'] at hstep
      revert step
      decide +kernel
    · obtain ⟨hsame, hsame'⟩ := hother.unique hstart
      rw [hsame, hsame'] at hstep
      revert step
      decide +kernel
  obtain ⟨s', passed, hpush, -, hlength, -, -, hrestores⟩ := restores_of_fault
    reachable_waitingStack identityCall 2 3 overflowing 0 hreserve (by decide) hstart hfault hstay
  have hload : (outcome (pushWithArguments identityCall 2 3
      (producer overflowing) (waitingStack, 0, []))).2.1.load 0 0 =
      .ok (.ofNat 8) := by decide +kernel
  rw [hpush] at hload
  exact ⟨s', passed, by decide +kernel, hpush, hlength, hload, hrestores⟩

end Stack

end ManagedCore
