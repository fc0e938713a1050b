import ManagedCore.Proofs.Stack.Cursors
import ManagedCore.Proofs.Stack.Footprints
import ManagedCore.Proofs.Stack.Geometry

/-!
# Runs and the frames below them

A run is a list of actions on a stack. The actions of a program are those that it performs itself,
those of the programs that produce its arguments, and what the calls around them do: the writing of
the arguments, the commit, and the release of a frame whose producer fails.

As long as a run leaves the first frames of the table there, they change in the parts that its
actions name and nowhere else, and none of them but the last can be committed. So a run that adds a
frame, and takes it off again at its end, leads back to the cursors and to the room from before,
although it goes by the links that the frame saved at its reservation.
-/

namespace ManagedCore

/-- An operation, or the release of a frame whose arguments could not be produced. -/
inductive Action : Type 1 where
  | perform {α : Type} (operation : Operation α)
  | release (id : FrameId)

namespace Action

/-- The stack after an action, also when it halts. -/
def on (s : Stack) : Action → Stack
  | perform operation => (outcome (operation.run s)).2
  | release id => (outcome (Stack.release id s)).2

/-- The parts of frames that an action names. A release names none, it drops frames. -/
def Names (s : Stack) : Action → FrameId → Part → Prop
  | perform operation => operation.Names s.headers s.current
  | release _ => fun _ _ => False

end Action

/-- An action of a run and the stack that it meets. -/
structure Step where
  before : Stack
  action : Action

namespace Step

/-- The stack after the step. -/
def after (step : Step) : Stack := step.action.on step.before

/-- The parts of frames that the step names. -/
def Names (step : Step) : FrameId → Part → Prop := step.action.Names step.before

end Step

namespace Stack

/-- The stack after a run. -/
def after (s : Stack) (actions : List Action) : Stack := actions.foldl Action.on s

/-- The steps of a run. -/
def steps (s : Stack) : List Action → List Step
  | [] => []
  | action :: rest => ⟨s, action⟩ :: (action.on s).steps rest

/-- The parts of frames that some step of a run names. -/
def Named (s : Stack) (actions : List Action) (id : FrameId) (part : Part) : Prop :=
  ∃ step ∈ s.steps actions, step.Names id part

/-- The first `count` frames are still there, and have changed in named parts only. -/
def Retains (s : Stack) (count : Nat) (named : FrameId → Part → Prop) (s' : Stack) : Prop :=
  ∀ id < count, ∃ old new, s.view.frames[id]? = some old ∧ s'.view.frames[id]? = some new ∧
    old.Keeps (named id) new

/-- A stack with the cursors, the depth and the room of another one. -/
structure Restores (s s' : Stack) : Prop where
  current : s'.current = s.current
  future : s'.future = s.future
  depth : s'.depth = s.depth
  available : s'.available = s.available
  usedBytes : s'.usedBytes = s.usedBytes

variable {s s' s'' : Stack} {named named' : FrameId → Part → Prop} {count : Nat}

/-- The header of a frame of the view. -/
theorem getElem?_headers {id : Nat} {activation : Activation}
    (hid : s.view.frames[id]? = some activation) : s.headers[id]? = some activation.header := by
  rw [← headers_view, PrivateStack.headers, List.getElem?_map, hid, Option.map_some]

/-- The stack after an operation that goes well. -/
theorem on_of_ok {α : Type} (operation : Operation α) {answer : α}
    (h : operation.run s = .ok answer s') : (Action.perform operation).on s = s' :=
  congrArg (fun result => (outcome result).2) h

/-- An action before a run is a run. -/
theorem after_cons (s : Stack) (action : Action) (rest : List Action) :
    s.after (action :: rest) = (action.on s).after rest := rfl

/-- Two runs in a row are a run. -/
theorem after_append (s : Stack) (actions more : List Action) :
    s.after (actions ++ more) = (s.after actions).after more :=
  List.foldl_append

/-- The steps of two runs in a row. -/
theorem steps_append (s : Stack) (actions more : List Action) :
    s.steps (actions ++ more) = s.steps actions ++ (s.after actions).steps more := by
  induction actions generalizing s with
  | nil => rfl
  | cons action rest ih => exact congrArg (_ :: ·) (ih (action.on s))

namespace Retains

/-- More parts may be named. -/
theorem mono (h : s.Retains count named s')
    (hnamed : ∀ id < count, ∀ part, named id part → named' id part) :
    s.Retains count named' s' := by
  intro id hid
  obtain ⟨old, new, hold, hnew, hkeeps⟩ := h id hid
  exact ⟨old, new, hold, hnew, hkeeps.mono (hnamed id hid)⟩

/-- Frames that are retained twice are retained. -/
theorem trans (h : s.Retains count named s') (h' : s'.Retains count named s'') :
    s.Retains count named s'' := by
  intro id hid
  obtain ⟨old, new, hold, hnew, hkeeps⟩ := h id hid
  obtain ⟨_, newest, hnew', hnewest, hkeeps'⟩ := h' id hid
  cases hnew.symm.trans hnew'
  exact ⟨old, newest, hold, hnewest, hkeeps.trans hkeeps'⟩

/-- Frames that are in the table before and after a change are retained. -/
theorem of_evolves (h : s.view.Evolves named s'.view) (hcount : count ≤ s.headers.length)
    (hcount' : count ≤ s'.headers.length) : s.Retains count named s' := by
  intro id hid
  have hlt : id < s.view.frames.length :=
    (length_frames_view s).symm ▸ Nat.lt_of_lt_of_le hid hcount
  have hlt' : id < s'.view.frames.length :=
    (length_frames_view s').symm ▸ Nat.lt_of_lt_of_le hid hcount'
  have hold := List.getElem?_eq_getElem hlt
  have hnew := List.getElem?_eq_getElem hlt'
  exact ⟨_, _, hold, hnew, h.keeps id _ _ hold hnew⟩

/-- A retained frame whose commitment is not named is committed if and only if it was. -/
theorem isCommitted_eq (h : s.Retains count named s') {id : FrameId} (hid : id < count)
    (hcommitment : ¬named id .commitment) :
    s'.headers[id]?.map Frame.isCommitted = s.headers[id]?.map Frame.isCommitted := by
  obtain ⟨old, new, hold, hnew, hkeeps⟩ := h id hid
  rw [getElem?_headers hold, getElem?_headers hnew, Option.map_some, Option.map_some,
    hkeeps.commitment.resolve_right hcommitment]

end Retains

end Stack

/-- What both of two agreeing computations leave. -/
theorem Agree.outcome {ε σ σ' α : Type} {related : σ → σ' → Prop} {result : EStateM.Result ε σ α}
    {result' : EStateM.Result ε σ' α} (h : Agree related result result') :
    related (ManagedCore.outcome result).2 (ManagedCore.outcome result').2 := by
  cases h with
  | ok _ h => exact h
  | error _ h => exact h

namespace Action

variable {s : Stack}

/-- An action leaves a sound stack, and has changed what it names of the frames that stay. -/
theorem evolves (h : s.Sound) (action : Action) :
    (action.on s).Sound ∧ s.view.Evolves (action.Names s) (action.on s).view := by
  cases action with
  | perform operation =>
    have hshows := (operation.run_refines s h).outcome
    have hevolves := operation.evolves s.view
    rw [Stack.headers_view, h.view_current, ← hshows.view] at hevolves
    exact ⟨hshows.sound, hevolves⟩
  | release id =>
    have hshows := (Stack.release_refines id s h).outcome
    have hevolves : s.view.Evolves ((Action.release id).Names s)
        (outcome (PrivateStack.release id s.view)).2 := PrivateStack.evolves_release id
    rw [← hshows.view] at hevolves
    exact ⟨hshows.sound, hevolves⟩

/-- Only the last frame of a table can be committed, and a commit adds no frame. -/
theorem last_of_names_commitment (h : s.Sound) {action : Action} {id : Nat}
    (hnames : action.Names s id .commitment) :
    id + 1 = s.headers.length ∧ (action.on s).headers.length = s.headers.length := by
  cases action with
  | release _ => exact hnames.elim
  | perform operation =>
    cases operation with
    | commit =>
      have hshows := (Stack.commit_refines s h).outcome
      have hcommit : s.view.Alters (fun _ _ => True) (outcome (PrivateStack.commit s.view)).2 :=
        PrivateStack.alters_commit fun _ _ => trivial
      have hlength := hcommit.length
      rw [← hshows.view, Stack.length_frames_view, Stack.length_frames_view] at hlength
      exact ⟨hnames.2, hlength⟩
    | _ => simp [Names, Operation.Names] at hnames

end Action

namespace Stack.Sound

variable {s s' : Stack} {actions : List Action} {count : Nat}

/-- A run leaves a sound stack. -/
theorem after (h : s.Sound) (actions : List Action) : (s.after actions).Sound := by
  induction actions generalizing s with
  | nil => exact h
  | cons action rest ih => exact ih (action.evolves h).1

/-- A run does not resize the arena. -/
theorem capacity_after (h : s.Sound) (actions : List Action) :
    (s.after actions).capacity = s.capacity := by
  induction actions generalizing s with
  | nil => rfl
  | cons action rest ih =>
    obtain ⟨hsound, hevolves⟩ := action.evolves h
    exact (ih hsound).trans hevolves.capacity

/-- A run changes the frames that stay in parts that its steps name. -/
theorem retains_after (h : s.Sound) (hcount : count ≤ s.headers.length)
    (hstay : ∀ step ∈ s.steps actions, count ≤ step.after.headers.length) :
    s.Retains count (s.Named actions) (s.after actions) := by
  induction actions generalizing s with
  | nil =>
    exact .of_evolves (PrivateStack.Alters.refl _ s.view).toEvolves hcount hcount
  | cons action rest ih =>
    obtain ⟨hsound, hevolves⟩ := action.evolves h
    have hcount' : count ≤ (action.on s).headers.length := hstay ⟨s, action⟩ List.mem_cons_self
    have hfirst := Retains.of_evolves hevolves hcount hcount'
    have hrest := ih hsound hcount' fun step hstep => hstay step (List.mem_cons_of_mem _ hstep)
    refine (hfirst.mono fun id _ part hnames => ?_).trans
      (hrest.mono fun id _ part ⟨step, hstep, hnames⟩ => ?_)
    · exact ⟨⟨s, action⟩, List.mem_cons_self, hnames⟩
    · exact ⟨step, List.mem_cons_of_mem _ hstep, hnames⟩

end Stack.Sound

namespace Stack

variable {s s' : Stack} {actions : List Action} {count : Nat}

/-- As many frames as stay through a run are there before each of its steps and in the end. -/
theorem le_length_of_steps (hcount : count ≤ s.headers.length)
    (hstay : ∀ step ∈ s.steps actions, count ≤ step.after.headers.length) :
    (∀ step ∈ s.steps actions, count ≤ step.before.headers.length) ∧
      count ≤ (s.after actions).headers.length := by
  induction actions generalizing s with
  | nil => exact ⟨fun _ hstep => (List.not_mem_nil hstep).elim, hcount⟩
  | cons action rest ih =>
    obtain ⟨hbefore, hafter⟩ := ih (hstay ⟨s, action⟩ List.mem_cons_self)
      fun step hstep => hstay step (List.mem_cons_of_mem _ hstep)
    refine ⟨fun step hstep => ?_, hafter⟩
    rcases List.mem_cons.mp hstep with rfl | hstep
    · exact hcount
    · exact hbefore step hstep

/-- Every step of a run that starts sound meets a sound stack. -/
theorem Sound.before_of_steps (h : s.Sound) : ∀ step ∈ s.steps actions, step.before.Sound := by
  induction actions generalizing s with
  | nil => exact fun _ hstep => nomatch hstep
  | cons action rest ih =>
    intro step hstep
    rcases List.mem_cons.mp hstep with rfl | hstep
    · exact h
    · exact ih (action.evolves h).1 step hstep

/-- A frame below others that stay through a run is not committed by it. -/
theorem Sound.not_named_commitment (h : s.Sound) {id : Nat} (hid : id + 1 < count)
    (hcount : count ≤ s.headers.length)
    (hstay : ∀ step ∈ s.steps actions, count ≤ step.after.headers.length) :
    ¬s.Named actions id .commitment := by
  rintro ⟨step, hstep, hnames⟩
  have hlast := (Action.last_of_names_commitment (h.before_of_steps step hstep) hnames).1
  have hbefore := (le_length_of_steps hcount hstay).1 step hstep
  omega

end Stack

namespace Stack

variable {s s' : Stack} {named : FrameId → Part → Prop}

/-- The same frames, committed as before, save the same cursors and leave the same room. -/
theorem Sound.restores (h : s.Sound) (h' : s'.Sound) (hcapacity : s'.capacity = s.capacity)
    (hlength : s'.headers.length = s.headers.length)
    (hretains : s.Retains s.headers.length named s')
    (hcommitment : ∀ id < s.headers.length, ¬named id .commitment) : s.Restores s' := by
  have hframes (id : Nat) :
      Option.map (fun frame => (frame.isCommitted, frame.bytes)) s'.headers[id]? =
        Option.map (fun frame => (frame.isCommitted, frame.bytes)) s.headers[id]? := by
    by_cases hid : id < s.headers.length
    · obtain ⟨old, new, hold, hnew, hkeeps⟩ := hretains id hid
      have hcommitted := hkeeps.commitment.resolve_right (hcommitment id hid)
      have hbytes : new.header.bytes = old.header.bytes := by
        rw [hkeeps.header]
        rfl
      rw [getElem?_headers hold, getElem?_headers hnew, Option.map_some, Option.map_some,
        hcommitted, hbytes]
    · rw [List.getElem?_eq_none (by omega), List.getElem?_eq_none (by omega)]
  have hmap : s'.headers.map (fun frame => (frame.isCommitted, frame.bytes)) =
      s.headers.map (fun frame => (frame.isCommitted, frame.bytes)) := by
    apply List.ext_getElem?
    intro id
    rw [List.getElem?_map, List.getElem?_map, hframes id]
  have hcommitted : s'.headers.map Frame.isCommitted = s.headers.map Frame.isCommitted := by
    have hfst := congrArg (List.map Prod.fst) hmap
    rwa [List.map_map, List.map_map] at hfst
  have hbytes : s'.headers.map Frame.bytes = s.headers.map Frame.bytes := by
    have hsnd := congrArg (List.map Prod.snd) hmap
    rwa [List.map_map, List.map_map] at hsnd
  have htable : tableBytes s'.headers = tableBytes s.headers := congrArg List.sum hbytes
  refine ⟨?_, ?_, ?_, ?_, ?_⟩
  · rw [h'.current, h.current, lastCommitted_congr hcommitted]
  · rw [h'.future, h.future, hlength]
  · have hcount := congrArg (List.countP id) hcommitted
    rw [List.countP_map, List.countP_map] at hcount
    rw [h'.depth_eq, h.depth_eq]
    exact hcount
  · rw [h'.available_eq, h.available_eq, hcapacity, htable]
  · rw [h'.usedBytes_eq, h.usedBytes_eq, htable]

end Stack

/--
What is done to fill the next `count` arguments of a frame and to commit it, when `run` and
`actions` tell how the program for an argument goes.
-/
def argumentActions {τ : Type} (id : FrameId)
    (run : τ → Stack → Run Stack (Except Halt (List Value) × τ))
    (actions : τ → Stack → List Action) : Nat → τ → Stack → List Action
  | 0, _, _ => [.perform .commit]
  | count + 1, memory, s =>
    let made := run memory s
    actions memory s ++
      match made.result with
      | (.error (.violation _), _) => []
      | (.error (.fault _), _) => [.release id]
      | (.ok values, memory) =>
        if made.final.future = some id then
          .perform (.writeArguments id values) ::
            match Stack.writeArguments id values made.final with
            | .ok _ s => argumentActions id run actions count memory s
            | .error .. => []
        else []

/-- What is done for a call with produced arguments: its frame is reserved, filled and committed. -/
def callActions {τ : Type} (call : Call) (size count : Nat)
    (run : τ → Stack → Run Stack (Except Halt (List Value) × τ))
    (actions : τ → Stack → List Action) (memory : τ) (s : Stack) : List Action :=
  .perform (.reserve call size) ::
    match Stack.reserve call size s with
    | .ok id s => argumentActions id run actions count memory s
    | .error .. => []

/-- The actions of a program, with those of its calls and of the programs for their arguments. -/
def Program.actions {α : Type} : Program α → Stack → List Action
  | done _, _ => []
  | perform operation next, s =>
    let (answer, s) := outcome (operation.run s)
    .perform operation :: (next answer).actions s
  | pushWithArguments call size count memory produce next, s =>
    let run := fun memory => (produce memory).run
    let made := outcome (Stack.pushWithArguments call size count (producing run) (s, memory, []))
    callActions call size count run (fun memory => (produce memory).actions) memory s ++
      (next made.1 made.2.2.1).actions made.2.1

namespace Stack

/-- The actions for the arguments of a frame do what filling and committing it does. -/
theorem after_argumentActions {τ : Type} (id : FrameId)
    {run : τ → Stack → Run Stack (Except Halt (List Value) × τ)}
    {actions : τ → Stack → List Action}
    (h : ∀ memory (s : Stack), s.after (actions memory s) = (run memory s).final)
    (count : Nat) (memory : τ) (s : Stack) (passed : List Stack) :
    s.after (argumentActions id run actions count memory s) =
      (outcome ((fillArguments id (producing run) count >>= fun _ => beside commit)
        (s, memory, passed))).2.1 := by
  induction count generalizing memory s passed with
  | zero =>
    simp only [argumentActions, after, List.foldl_cons, List.foldl_nil, Action.on, Operation.run,
      bind, EStateM.bind, fillArguments, beside]
    cases commit s <;> rfl
  | succ count ih =>
    rw [argumentActions, after_append, h]
    simp only [bind, EStateM.bind, fillArguments, produceFor, producing] at ih ⊢
    obtain ⟨⟨values, memory'⟩, final, passed'⟩ := run memory s
    cases values with
    | error halt =>
      cases halt with
      | violation violation => rfl
      | fault fault =>
        simp only [after, List.foldl_cons, List.foldl_nil, Action.on, beside]
        cases release id final <;> rfl
    | ok values =>
      simp only
      by_cases hfuture : final.future = some id
      · rw [if_pos hfuture, if_pos hfuture]
        simp only [after, List.foldl_cons, Action.on, Operation.run]
        cases writeArguments id values final with
        | error halt s' => rfl
        | ok _ s' => exact ih memory' s' _
      · rw [if_neg hfuture, if_neg hfuture]
        rfl

/-- The actions of a call whose arguments are produced do what the call does. -/
theorem after_callActions {τ : Type} (call : Call) (size count : Nat)
    {run : τ → Stack → Run Stack (Except Halt (List Value) × τ)}
    {actions : τ → Stack → List Action}
    (h : ∀ memory (s : Stack), s.after (actions memory s) = (run memory s).final)
    (memory : τ) (s : Stack) :
    s.after (callActions call size count run actions memory s) =
      (outcome (pushWithArguments call size count (producing run) (s, memory, []))).2.1 := by
  have hfill := fun (id : FrameId) (s : Stack) => after_argumentActions id h count memory s []
  simp only [pushWithArguments, bind, EStateM.bind, beside] at hfill ⊢
  simp only [callActions, after, List.foldl_cons, Action.on, Operation.run] at hfill ⊢
  cases reserve call size s with
  | error halt s' => rfl
  | ok id s' =>
    refine (hfill id s').trans ?_
    simp only
    cases fillArguments id (producing run) count (s', memory, []) with
    | error halt state => rfl
    | ok _ state =>
      simp only
      cases commit state.1 <;> rfl

end Stack

/-- A program leaves the stack that its actions lead to. -/
theorem Program.final_eq_after {α : Type} (program : Program α) (s : Stack) :
    (program.run s).final = s.after (program.actions s) := by
  induction program generalizing s with
  | done result => rfl
  | perform operation next ih => exact ih _ _
  | pushWithArguments call size count memory produce next ihProduce ihNext =>
    rw [actions, Stack.after_append, Stack.after_callActions call size count
      fun memory s => (ihProduce memory s).symm]
    exact ihNext _ _ _

namespace Stack

/--
A run that adds a frame on top of a stack, keeps it until its last action and takes it off again
with that one leads back to the cursors and the room from before.
-/
theorem Sound.restores_after {s : Stack} (h : s.Sound) {first last : Action}
    {middle : List Action} (hfirst : (first.on s).headers.length = s.headers.length + 1)
    (hmiddle : ∀ step ∈ (first.on s).steps middle, s.headers.length < step.after.headers.length)
    (hlast : (s.after (first :: (middle ++ [last]))).headers.length = s.headers.length) :
    s.Restores (s.after (first :: (middle ++ [last]))) := by
  have hsound := (first.evolves h).1
  have hsteps : s.steps (first :: (middle ++ [last])) =
      ⟨s, first⟩ :: ((first.on s).steps middle ++ [⟨(first.on s).after middle, last⟩]) :=
    congrArg (_ :: ·) (steps_append (first.on s) middle [last])
  have hafter : s.after (first :: (middle ++ [last])) = last.on ((first.on s).after middle) :=
    after_append (first.on s) middle [last]
  obtain ⟨hbefore, hbefore'⟩ := le_length_of_steps (Nat.le_of_eq hfirst.symm) hmiddle
  have hretains : s.Retains s.headers.length (s.Named (first :: (middle ++ [last])))
      (s.after (first :: (middle ++ [last]))) := by
    refine h.retains_after (Nat.le_refl _) fun step hstep => ?_
    rw [hsteps, List.mem_cons, List.mem_append, List.mem_singleton] at hstep
    rcases hstep with rfl | hstep | rfl
    · exact Nat.le_of_lt (Nat.lt_of_succ_le (Nat.le_of_eq hfirst.symm))
    · exact Nat.le_of_lt (hmiddle step hstep)
    · rw [hafter] at hlast
      exact Nat.le_of_eq hlast.symm
  refine h.restores (h.after _) (h.capacity_after _) hlast hretains fun id hid => ?_
  -- A commit below the new frame would have to come before it, but the first action is none.
  rintro ⟨step, hstep, hnames⟩
  obtain ⟨hid', hlength⟩ := Action.last_of_names_commitment (h.before_of_steps step hstep) hnames
  rw [hsteps, List.mem_cons, List.mem_append, List.mem_singleton] at hstep
  rcases hstep with rfl | hstep | rfl
  · exact absurd (hlength.symm.trans hfirst) (Nat.ne_of_lt (Nat.lt_succ_self _))
  · have hlt := hbefore step hstep
    omega
  · simp only at hid'
    omega

/--
As long as a run leaves the first `count` frames of a reachable stack in the table, they change in
the parts that its steps name and nowhere else, their states only move forward, and none of them but
the last is committed. A run that adds a frame and takes it off with its last action restores the
cursors, the depth and the room. What a program does, for its arguments as well, is such a run.
-/
theorem retains_of_reachable {s : Stack} (h : s.Reachable) (actions : List Action) :
    (∀ count ≤ s.headers.length,
      (∀ step ∈ s.steps actions, count ≤ step.after.headers.length) →
        s.Retains count (s.Named actions) (s.after actions) ∧
          ∀ id, id + 1 < count →
            (s.after actions).headers[id]?.map Frame.isCommitted =
              s.headers[id]?.map Frame.isCommitted) ∧
      (∀ first middle last, actions = first :: (middle ++ [last]) →
        (first.on s).headers.length = s.headers.length + 1 →
        (∀ step ∈ (first.on s).steps middle, s.headers.length < step.after.headers.length) →
        (s.after actions).headers.length = s.headers.length →
        s.Restores (s.after actions)) ∧
      ∀ (α : Type) (program : Program α),
        (program.run s).final = s.after (program.actions s) := by
  refine ⟨fun count hcount hstay => ?_, ?_, fun α program => program.final_eq_after s⟩
  · have hretains := h.sound.retains_after hcount hstay
    exact ⟨hretains, fun id hid => hretains.isCommitted_eq (Nat.lt_of_succ_lt hid)
      (h.sound.not_named_commitment hid hcount hstay)⟩
  · rintro first middle last rfl hfirst hmiddle hlast
    exact h.sound.restores_after hfirst hmiddle hlast

/-- A call of a function of one variable by native code. -/
def identityCall : Call := ⟨.zero, Program.identity, .discard, none⟩

/-- A call, and a frame above it that waits for its argument. -/
def waiting : Program Unit :=
  .perform (.push identityCall [.ofNat 5]) fun _ =>
  .perform (.reserve identityCall 1) fun _ => .done ()

/-- A stack of 1024 bytes with a call, and a frame above it that waits for its argument. -/
def waitingStack : Stack := (waiting.run { empty with cells := Array.replicate 128 .zero }).final

/-- A stack with a waiting frame is reachable. -/
theorem reachable_waitingStack : waitingStack.Reachable :=
  reachable_final waiting (show create (some 1024) = .ok _ from rfl)

/--
A third frame, on top of which a call gives its result to the frame at the bottom. A second call
does not return, and leaves a reserved frame above it. The release takes all of them off.
-/
def interrupted : List Action :=
  [.perform (.reserve identityCall 1),
    .perform (.push { identityCall with destination := .slot 0 0 } [.ofNat 3]),
    .perform (.returnValue (.ofNat 9)), .perform (.push identityCall []),
    .perform (.reserve identityCall 1), .release 2]

/-- The frames below are there as they were, but for the variable that the result went to. -/
theorem retains_of_reachable_interrupted :
    waitingStack.headers.map Frame.isCommitted = [true, false] ∧
      waitingStack.Retains 2 (waitingStack.Named interrupted) (waitingStack.after interrupted) ∧
      (waitingStack.after interrupted).headers[0]?.map Frame.isCommitted =
        waitingStack.headers[0]?.map Frame.isCommitted ∧
      waitingStack.load 0 0 = .ok (.ofNat 5) ∧
      (waitingStack.after interrupted).load 0 0 = .ok (.ofNat 9) ∧
      (waitingStack.steps interrupted).map (fun step => step.after.headers.length) =
        [3, 4, 3, 4, 5, 2] ∧
      waitingStack.Restores (waitingStack.after interrupted) ∧
      (Program.nestedCall.run waitingStack).final =
        waitingStack.after (Program.nestedCall.actions waitingStack) := by
  obtain ⟨hretains, hrestores, hprogram⟩ := retains_of_reachable reachable_waitingStack interrupted
  obtain ⟨hframes, hcommitted⟩ := hretains 2 (by decide +kernel) (by decide +kernel)
  refine ⟨by decide +kernel, hframes, hcommitted 0 (by decide), by decide +kernel,
    by decide +kernel, by decide +kernel, ?_, hprogram _ Program.nestedCall⟩
  exact hrestores (.perform (.reserve identityCall 1)) interrupted.tail.dropLast (.release 2) rfl
    (by decide +kernel) (by decide +kernel) (by decide +kernel)

end Stack

end ManagedCore
