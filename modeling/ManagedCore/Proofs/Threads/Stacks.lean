import ManagedCore.Proofs.Collector.ReachableRoots
import ManagedCore.Proofs.Threads.Runs

/-!
# Stacks of threads

A thread has its stack from its creation on, and keeps it when it is dropped. A change of one stack
leaves all other stacks and all registries as they are.

Main statement: in every world that runs of threads, exchanged stacks and scans lead to, the
registries show their live threads and the stacks of all threads are sound.
-/

namespace ManagedCore

/-- A scan leaves a sound stack sound, also when it stops early. -/
theorem Stack.sound_scan {σ : Type} {s : Stack} (h : s.Sound) (visitor : Visitor σ) (memory : σ) :
    (outcome (scan visitor (s, memory))).2.1.Sound := by
  have hscan := scan_refines h visitor memory
  generalize scan visitor (s, memory) = result,
    PrivateStack.scan visitor (s.view, memory) = result' at hscan
  cases hscan with
  | ok stats hshows => exact hshows.1.sound
  | error violation hshows => exact hshows.1.sound

namespace World

variable {w : World} {t other : ThreadRef} {threads : List ThreadRef} {count : Nat}

/-- The stack of a thread. A handle that names no thread has an empty one. -/
def stackOf (w : World) (t : ThreadRef) : Stack := (w.threads[t]?.map Thread.stack).getD .empty

/-- The world in which these threads have these stacks. -/
def withStacks (w : World) : List ThreadRef → List Stack → World
  | t :: threads, s :: given => (w.setStack t s).withStacks threads given
  | _, _ => w

/-- The other threads stay as they are. -/
theorem getElem?_setStack_of_ne (w : World) (s : Stack) (h : other ≠ t) :
    (w.setStack t s).threads[other]? = w.threads[other]? := by
  rw [setStack, Array.getElem?_modify, if_neg (Ne.symm h)]

/-- The other threads keep their stacks. -/
theorem stackOf_setStack_of_ne (w : World) (s : Stack) (h : other ≠ t) :
    (w.setStack t s).stackOf other = w.stackOf other := by
  rw [stackOf, getElem?_setStack_of_ne w s h, stackOf]

/-- A thread of the world gets the stack. -/
theorem stackOf_setStack_self (s : Stack) (h : t < w.threads.size) :
    (w.setStack t s).stackOf t = s := by
  rw [stackOf, setStack, Array.getElem?_modify, if_pos rfl, Array.getElem?_eq_getElem h]
  rfl

/-- Worlds that differ at most in their threads are one when all their threads are. -/
theorem eq_of_getElem?_threads {w w' : World} (hsame : { w with threads := w'.threads } = w')
    (h : ∀ i : Nat, w.threads[i]? = w'.threads[i]?) : w = w' := by
  rw [← Array.ext_getElem? h] at hsame
  exact hsame

/-- A handle that names no thread gets no stack. -/
theorem setStack_of_size_le (s : Stack) (h : w.threads.size ≤ t) : w.setStack t s = w := by
  refine eq_of_getElem?_threads rfl fun i => ?_
  by_cases hi : i = t
  · rw [setStack, Array.getElem?_modify, if_pos hi.symm, hi, Array.getElem?_eq_none h,
      Option.map_none]
  · exact getElem?_setStack_of_ne w s hi

/-- Of two stacks that a thread gets, it has the second. -/
theorem setStack_setStack (w : World) (t : ThreadRef) (s s' : Stack) :
    (w.setStack t s).setStack t s' = w.setStack t s' := by
  refine eq_of_getElem?_threads rfl fun i => ?_
  by_cases hi : i = t
  · simp only [setStack, Array.getElem?_modify, if_pos hi.symm, Option.map_map]
    rfl
  · rw [getElem?_setStack_of_ne _ s' hi, getElem?_setStack_of_ne w s hi,
      getElem?_setStack_of_ne w s' hi]

/-- Work on the stack of a thread changes this stack and nothing else. -/
theorem onStack_eq {ε α : Type} (t : ThreadRef) (operation : EStateM ε Stack α) (w : World) :
    onStack t operation w =
      match operation (w.stackOf t) with
      | .ok result stack => .ok result (w.setStack t stack)
      | .error halt stack => .error halt (w.setStack t stack) := by
  simp only [onStack, setStack_setStack]
  rfl

/-- A thread that gets the stack it has stays as it is. -/
theorem setStack_stackOf (w : World) (t : ThreadRef) : w.setStack t (w.stackOf t) = w := by
  refine eq_of_getElem?_threads rfl fun i => ?_
  by_cases hi : i = t
  · rw [setStack, Array.getElem?_modify, if_pos hi.symm, hi, stackOf]
    cases w.threads[t]? <;> rfl
  · exact getElem?_setStack_of_ne w _ hi

/-- All stacks are sound when one gives way to a sound one. -/
theorem sound_stackOf_setStack (h : ∀ t, (w.stackOf t).Sound) {s : Stack} (hs : s.Sound)
    (t other : ThreadRef) : ((w.setStack t s).stackOf other).Sound := by
  by_cases hother : other = t
  · subst hother
    rcases Nat.lt_or_ge other w.threads.size with hlt | hge
    · rw [stackOf_setStack_self s hlt]
      exact hs
    · rw [setStack_of_size_le s hge]
      exact h other
  · rw [stackOf_setStack_of_ne w s hother]
    exact h other

/-- The threads that get no stack stay as they are. -/
theorem getElem?_withStacks_of_notMem (w : World) (given : List Stack) (h : t ∉ threads) :
    (w.withStacks threads given).threads[t]? = w.threads[t]? := by
  induction threads generalizing w given with
  | nil => rfl
  | cons first rest ih =>
    rw [List.mem_cons, not_or] at h
    obtain ⟨hfirst, hrest⟩ := h
    cases given with
    | nil => rfl
    | cons s given =>
      rw [withStacks, ih _ given hrest, getElem?_setStack_of_ne w s hfirst]

/-- Threads without the one that gets a stack have the stacks they had. -/
theorem map_stackOf_setStack (w : World) (s : Stack) (h : t ∉ threads) :
    threads.map (w.setStack t s).stackOf = threads.map w.stackOf :=
  List.map_congr_left fun _ hother =>
    stackOf_setStack_of_ne w s (ne_of_mem_of_not_mem hother h)

/-- Threads that get the stacks they have stay as they are. -/
theorem withStacks_stackOf (w : World) (threads : List ThreadRef) :
    w.withStacks threads (threads.map w.stackOf) = w := by
  induction threads with
  | nil => rfl
  | cons first rest ih => rw [List.map_cons, withStacks, setStack_stackOf, ih]

/-- Two groups of threads get their stacks one after the other. -/
theorem withStacks_append (w : World) {given : List Stack} (h : given.length = threads.length)
    (more : List ThreadRef) (rest : List Stack) :
    w.withStacks (threads ++ more) (given ++ rest) =
      (w.withStacks threads given).withStacks more rest := by
  induction threads generalizing w given with
  | nil => rw [List.length_eq_zero_iff.mp h]; rfl
  | cons t threads ih =>
    cases given with
    | nil => cases h
    | cons s given => exact ih _ (Nat.succ.inj h)

/-- Sound stacks are an invariant. -/
theorem invariant_sound_stackOf (count : Nat) : Invariant count fun w => ∀ t, (w.stackOf t).Sound where
  create {w} h registry name size := by
    cases hstack : Stack.create size with
    | error fault =>
      rw [create_of_fault hstack]
      exact h
    | ok stack =>
      rw [World.create, hstack]
      simp only
      cases (World.registry { w with nextId := w.nextId + 1 } registry >>=
          (·.register w.threads.size)) with
      | error violation => exact h
      | ok place =>
        intro t
        simp only [outcome, stackOf, Array.getElem?_push]
        split
        · exact Stack.sound_create hstack
        · exact h t
  drop {w} h t := by
    rw [World.drop]
    cases ht : w.threads[t]? with
    | none => exact h
    | some thread =>
      simp only
      split
      · cases w.registry thread.registry >>= (·.unregister thread.slot) with
        | error violation => exact h
        | ok r =>
          intro other
          have hstacks := congrArg (·[other]?) (map_withoutThread r ht Thread.stack rfl)
          simp only [Array.getElem?_map] at hstacks
          exact (congrArg (fun stack => (stack.getD .empty).Sound) hstacks).mpr (h other)
      · exact h
  onStack {w} h t _ program := by
    have hprogram : (program.run (w.stackOf t)).final.Sound := (program.run_shows (h t)).final.sound
    rw [onStack_eq]
    exact sound_stackOf_setStack h hprogram t

variable {σ : Type} {visitor : Visitor σ} {memory : σ}

/-- A scan of a thread is a scan of its stack. -/
theorem scanThread_eq (visitor : Visitor σ) (t : ThreadRef) (w : World) (memory : σ) :
    scanThread visitor t (w, memory) =
      Visit.on (w.stackOf t) (w.setStack t) (Stack.scan visitor) memory := by
  simp only [scanThread, Visit.on, stackOf]
  split
  next hscan => rw [hscan, setStack_setStack]
  next hscan => rw [hscan, setStack_setStack]

/-- A scan of threads keeps what the scan of each of them keeps. -/
theorem scanThreads_keeps (Inv : World → Prop)
    (hkeeps : ∀ t ∈ threads, ∀ w memory, Inv w →
      Inv (outcome (scanThread visitor t (w, memory))).2.1) (h : Inv w) (stats : ScanStats) :
    Inv (outcome (scanThreads visitor threads stats (w, memory))).2.1 := by
  induction threads generalizing w memory stats with
  | nil => exact h
  | cons t rest ih =>
    have hfirst := hkeeps t List.mem_cons_self w memory h
    simp only [scanThreads]
    cases hscan : scanThread visitor t (w, memory) with
    | error violation state =>
      rw [hscan] at hfirst
      exact hfirst
    | ok found state =>
      rw [hscan] at hfirst
      simp only
      cases ScanStats.accumulate found stats with
      | error violation _ => exact hfirst
      | ok _ stats =>
        exact ih (fun other hother => hkeeps other (List.mem_cons_of_mem _ hother)) hfirst stats

/-- A scan of a registry keeps what the scan of each thread keeps that lives there. -/
theorem scanAll_keeps (Inv : World → Prop) {registry : Nat}
    (hlisted : w.liveThreads registry = .ok threads)
    (hkeeps : ∀ t ∈ threads, ∀ w memory, Inv w →
      Inv (outcome (scanThread visitor t (w, memory))).2.1) (h : Inv w) :
    Inv (outcome (scanAll registry visitor (w, memory))).2.1 := by
  rw [scanAll]
  simp only [hlisted]
  exact scanThreads_keeps Inv hkeeps h .zero

/-- The world after a scan of a thread has another stack in one place. -/
theorem world_scanThread (visitor : Visitor σ) (t : ThreadRef) (w : World) (memory : σ) :
    (outcome (scanThread visitor t (w, memory))).2.1 =
      w.setStack t (outcome (Stack.scan visitor (w.stackOf t, memory))).2.1 := by
  rw [scanThread_eq, Visit.outcome_on]

/-- The worlds that runs of threads, exchanged stacks and scans lead to. -/
inductive Reachable (count : Nat) : World → Prop where
  | empty : Reachable count (.empty count)
  | run {w w' : World} {α : Type} (program : WorldProgram count α) (h : Reachable count w)
    (hmem : w' ∈ program.states w) : Reachable count w'
  /-- A thread may get any stack, whatever run that stack comes from. -/
  | exchange {w : World} (t : ThreadRef) {s : Stack} (h : Reachable count w) (hs : s.Reachable) :
    Reachable count (w.setStack t s)
  | scan {w : World} {σ : Type} (registry : Fin count) (visitor : Visitor σ) (memory : σ)
    (h : Reachable count w) : Reachable count (outcome (scanAll registry visitor (w, memory))).2.1

/-- Another stack leaves the registries sound, and the same threads live. -/
theorem Sound.setStack (h : w.Sound) (t : ThreadRef) (s : Stack) :
    (w.setStack t s).Sound ∧ ∀ registry, (w.setStack t s).living registry = w.living registry :=
  h.congr rfl rfl (map_record_setStack w t s)

/-- Another stack leaves the registries sound. -/
theorem SoundWith.setStack (h : SoundWith count w) (t : ThreadRef) (s : Stack) :
    SoundWith count (w.setStack t s) :=
  ⟨(h.sound.setStack t s).1, h.size⟩

/-- Reachable worlds are sound, and so are all stacks in them. -/
theorem Reachable.sound (h : w.Reachable count) :
    SoundWith count w ∧ ∀ t, (w.stackOf t).Sound := by
  induction h with
  | empty =>
    exact ⟨⟨sound_empty count, Array.size_replicate⟩, fun t => Stack.sound_empty⟩
  | run program _ hmem ih =>
    exact ⟨WorldProgram.invariant_of_mem_states invariant_soundWith ih.1 hmem,
      WorldProgram.invariant_of_mem_states (invariant_sound_stackOf count) ih.2 hmem⟩
  | exchange t _ hs ih => exact ⟨ih.1.setStack t _, sound_stackOf_setStack ih.2 hs.sound t⟩
  | @scan w σ registry visitor memory _ ih =>
    refine scanAll_keeps (fun w => SoundWith count w ∧ ∀ t, (w.stackOf t).Sound)
      (ih.1.listsThreads.threads registry) (fun t _ w memory hw => ?_) ih
    rw [world_scanThread]
    exact ⟨hw.1.setStack t _, sound_stackOf_setStack hw.2 (Stack.sound_scan (hw.2 t) visitor memory) t⟩

end World

end ManagedCore
