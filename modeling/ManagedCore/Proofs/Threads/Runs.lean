import ManagedCore.Proofs.Stack.Programs
import ManagedCore.Proofs.Threads.Worlds

/-!
# Runs of threads

A program creates threads in some registries, works on their stacks, drops them in any order, and
runs others from start to end. It may look at everything in between, and each thread that it runs is
a program of its own, which may be ended by a violation.

Main statement: in every state of such a run, each registry lists its live threads, newest first,
and answers every question from this list; no link dangles, whatever slots were used again.
-/

namespace ManagedCore

/-- What a client does with `count` registries, up to its own result. -/
inductive WorldProgram (count : Nat) : Type → Type 1 where
  | done {α : Type} (result : α) : WorldProgram count α
  | raise {α : Type} (violation : Violation) : WorldProgram count α
  | look {α β : Type} (question : World → β) (next : β → WorldProgram count α) :
    WorldProgram count α
  | create {α : Type} (registry : Fin count) (name : Option String) (size : Option Nat)
    (next : Except Halt ThreadRef → WorldProgram count α) : WorldProgram count α
  | drop {α : Type} (t : ThreadRef) (next : Except Violation Bool → WorldProgram count α) :
    WorldProgram count α
  | onStack {α β : Type} (t : ThreadRef) (program : Program β) (next : β → WorldProgram count α) :
    WorldProgram count α
  /--
  Runs a thread from its creation to its end, unless the operating system refuses to start it. The
  violation that ends it is part of the answer.
  -/
  | spawn {α β : Type} (registry : Fin count) (name : Option String) (size : Option Nat)
    (refusal : Option String) (body : ThreadRef → WorldProgram count β)
    (next : Except Halt (ThreadRef × Except Violation β) → WorldProgram count α) :
    WorldProgram count α

/-- The run of a program as one operation on a stack. -/
def Program.onStack {α : Type} (program : Program α) : EStateM Violation Stack α := fun s =>
  .ok (program.run s).result (program.run s).final

/-- The body of a thread. It adds the states that it passes through to those passed before it. -/
def passing {β : Type} (run : World → Run World (Except Violation β)) :
    EStateM Violation (World × List World) β := fun (w, passed) =>
  let made := run w
  let passed := passed ++ made.passed
  match made.result with
  | .ok result => .ok result (made.final, passed)
  | .error violation => .error violation (made.final, passed)

namespace WorldProgram

variable {count : Nat}

/-- The run of a program on a world. -/
def run {α : Type} : WorldProgram count α → World → Run World (Except Violation α)
  | done result, w => ⟨.ok result, w, []⟩
  | raise violation, w => ⟨.error violation, w, []⟩
  | look question next, w => (next (question w)).run w
  | create registry name size next, w =>
    let (answer, w) := outcome (World.create registry name size w)
    let rest := (next answer).run w
    ⟨rest.result, rest.final, w :: rest.passed⟩
  | drop t next, w =>
    let (answer, w) := outcome (World.drop t w)
    let rest := (next answer).run w
    ⟨rest.result, rest.final, w :: rest.passed⟩
  | onStack t program next, w =>
    match World.onStack t program.onStack w with
    | .error violation w => ⟨.error violation, w, []⟩
    | .ok answer w =>
      let rest := (next answer).run w
      ⟨rest.result, rest.final, w :: rest.passed⟩
  | spawn registry name size refusal body next, w =>
    -- the world with the new thread is passed through, whether the thread is started or not
    let created := (outcome (World.create registry name size w)).2
    let (answer, w, passed) := outcome (World.spawn registry name size refusal
      (fun t => passing (body t).run) (w, [created]))
    let rest := (next answer).run w
    ⟨rest.result, rest.final, passed ++ w :: rest.passed⟩

/-- All states of a run, the first one and the last one included. -/
def states {α : Type} (program : WorldProgram count α) (w : World) : List World :=
  w :: (program.run w).passed ++ [(program.run w).final]

end WorldProgram

namespace World

/-- A sound world with so many registries. -/
structure SoundWith (count : Nat) (w : World) : Prop where
  sound : w.Sound
  size : w.registries.size = count

variable {count : Nat} {w : World}

/-- A thread that is created is behind the others, and in the list of its registry. -/
theorem SoundWith.create_of_stack (h : SoundWith count w) (registry : Fin count)
    (name : Option String) {size : Option Nat} {stack : Stack}
    (hstack : Stack.create size = .ok stack) :
    ∃ w', World.create registry name size w = .ok w.threads.size w' ∧ SoundWith count w' ∧
      (∀ other, w'.living other = if registry = other then w.threads.size :: w.living other
        else w.living other) ∧
      w'.threads.toList.map Thread.id = w.threads.toList.map Thread.id ++ [w.nextId] ∧
      w'.nextId = w.nextId + 1 := by
  have hregistry : registry < w.registries.size := h.size.symm ▸ registry.isLt
  obtain ⟨r, slot, hcreate, hsound⟩ := h.sound.create hregistry hstack name
  refine ⟨_, hcreate, ⟨hsound, ?_⟩, living_withThread w r _ rfl, map_id_withThread w r _, rfl⟩
  rw [withThread, Array.size_setIfInBounds]
  exact h.size

/-- Creation leaves the world sound, also when it gives no thread. -/
theorem SoundWith.create (h : SoundWith count w) (registry : Fin count) (name : Option String)
    (size : Option Nat) : SoundWith count (outcome (World.create registry name size w)).2 := by
  cases hstack : Stack.create size with
  | error fault =>
    rw [create_of_fault hstack]
    exact h
  | ok stack =>
    obtain ⟨w', hcreate, hsound, -⟩ := h.create_of_stack registry name hstack
    rw [hcreate]
    exact hsound

/-- Dropping leaves the world sound and takes the thread off all lists. -/
theorem SoundWith.drop (h : SoundWith count w) (t : ThreadRef) :
    ∃ was w', World.drop t w = .ok was w' ∧ SoundWith count w' ∧
      ∀ registry, w'.living registry = (w.living registry).filter (· ≠ t) := by
  obtain ⟨w', hdrop, hsound, hsize, hliving⟩ := h.sound.drop t
  exact ⟨_, w', hdrop, ⟨hsound, hsize.trans h.size⟩, hliving⟩

/-- Work on a stack leaves the world sound. -/
theorem SoundWith.onStack {ε α : Type} (h : SoundWith count w) (t : ThreadRef)
    (operation : EStateM ε Stack α) : SoundWith count (outcome (World.onStack t operation w)).2 := by
  refine ⟨(h.sound.onStack t operation).1, ?_⟩
  simp only [World.onStack]
  cases operation ((w.threads[t]?.map Thread.stack).getD .empty) with
  | ok result stack => exact h.size
  | error halt stack => exact h.size

/-- A property of worlds that creation, dropping and programs on a stack keep, halted or not. -/
structure Invariant (count : Nat) (Inv : World → Prop) : Prop where
  create : ∀ {w : World}, Inv w → ∀ (registry : Fin count) (name : Option String)
    (size : Option Nat), Inv (outcome (World.create registry name size w)).2
  drop : ∀ {w : World}, Inv w → ∀ t : ThreadRef, Inv (outcome (World.drop t w)).2
  onStack : ∀ {w : World}, Inv w → ∀ (t : ThreadRef) {α : Type} (program : Program α),
    Inv (outcome (World.onStack t program.onStack w)).2

/-- A thread that the operating system does not start is dropped as any other. -/
theorem exists_start_eq {registry : Nat} {name : Option String} {size : Option Nat}
    {t : ThreadRef} {w' : World} (hcreate : World.create registry name size w = .ok t w')
    (reason : String) :
    ∃ halt, World.start registry name size (some reason) w =
      .error halt (outcome (World.drop t w')).2 := by
  simp only [World.start, hcreate]
  cases World.drop t w' with
  | ok was w'' => exact ⟨_, rfl⟩
  | error violation w'' => exact ⟨_, rfl⟩

/-- A thread that is started is dropped behind its body. -/
theorem states_spawn {registry : Nat} {name : Option String} {size : Option Nat}
    {refusal : Option String} {t : ThreadRef} {w' : World}
    (hstart : World.start registry name size refusal w = .ok t w') {β : Type}
    (run : ThreadRef → World → Run World (Except Violation β)) (passed : List World) :
    (outcome (World.spawn registry name size refusal (fun t => passing (run t)) (w, passed))).2 =
      ((outcome (World.drop t (run t w').final)).2, passed ++ (run t w').passed) := by
  simp only [World.spawn, hstart, passing]
  -- the thread is dropped in the same way after a result and after a violation
  cases (run t w').result
  all_goals
    cases World.drop t (run t w').final with
    | ok was w'' => rfl
    | error violation w'' => rfl

/-- Starting a thread keeps an invariant, also when the operating system refuses. -/
theorem Invariant.start {Inv : World → Prop} (hinv : Invariant count Inv) (h : Inv w)
    (registry : Fin count) (name : Option String) (size : Option Nat) (refusal : Option String) :
    Inv (outcome (World.start registry name size refusal w)).2 := by
  have hcreated := hinv.create h registry name size
  cases hcreate : World.create registry name size w with
  | error halt w' =>
    rw [hcreate] at hcreated
    simp only [World.start, hcreate]
    exact hcreated
  | ok t w' =>
    rw [hcreate] at hcreated
    cases refusal with
    | none =>
      simp only [World.start, hcreate]
      exact hcreated
    | some reason =>
      obtain ⟨halt, hstart⟩ := exists_start_eq hcreate reason
      rw [hstart]
      exact hinv.drop hcreated t

/-- Running a thread keeps an invariant all the way if its body does. -/
theorem Invariant.spawn {Inv : World → Prop} (hinv : Invariant count Inv) (h : Inv w)
    (registry : Fin count) (name : Option String) (size : Option Nat) (refusal : Option String)
    {β : Type} {run : ThreadRef → World → Run World (Except Violation β)}
    (hrun : ∀ t w, Inv w → ∀ state ∈ (run t w).final :: (run t w).passed, Inv state)
    {passed : List World} (hpassed : ∀ state ∈ passed, Inv state) :
    let made := outcome
      (World.spawn registry name size refusal (fun t => passing (run t)) (w, passed))
    ∀ state ∈ made.2.1 :: made.2.2, Inv state := by
  intro made
  have hstarted := hinv.start h registry name size refusal
  cases hstart : World.start registry name size refusal w with
  | error halt w' =>
    rw [hstart] at hstarted
    have hmade : made.2 = (w', passed) := by simp only [made, World.spawn, hstart, outcome]
    rw [hmade]
    exact List.forall_mem_cons.mpr ⟨hstarted, hpassed⟩
  | ok t w' =>
    rw [hstart] at hstarted
    obtain ⟨hfinal, hbody⟩ := List.forall_mem_cons.mp (hrun t w' hstarted)
    rw [show made.2 = _ from states_spawn hstart run passed]
    exact List.forall_mem_cons.mpr
      ⟨hinv.drop hfinal t, List.forall_mem_append.mpr ⟨hpassed, hbody⟩⟩

/-- Soundness is an invariant. -/
theorem invariant_soundWith : Invariant count (SoundWith count) where
  create h registry name size := h.create registry name size
  drop h t := by
    obtain ⟨was, w', hdrop, hdropped, -⟩ := h.drop t
    rw [hdrop]
    exact hdropped
  onStack h t _ program := h.onStack t program.onStack

/-- A thread that the operating system does not start lives nowhere. Its number is used up. -/
theorem SoundWith.start_of_refusal (h : SoundWith count w) (registry : Fin count)
    (name : Option String) {size : Option Nat} {stack : Stack}
    (hstack : Stack.create size = .ok stack) (reason : String) :
    ∃ w', World.start registry name size (some reason) w =
        .error (.fault (.nativeThread reason)) w' ∧
      (∀ other, w'.living other = w.living other) ∧ w'.nextId = w.nextId + 1 := by
  obtain ⟨w₁, hcreate, hsound, hliving, -, hnext⟩ := h.create_of_stack registry name hstack
  obtain ⟨was, w₂, hdrop, -, hliving'⟩ := hsound.drop w.threads.size
  have hnext' := nextId_drop w₁ w.threads.size
  rw [hdrop] at hnext'
  refine ⟨w₂, ?_, fun other => ?_, hnext'.trans hnext⟩
  · simp only [World.start, hcreate, hdrop]
  · rw [hliving', hliving]
    split
    · rw [List.filter_cons_of_neg (by simp), filter_ne_eq_self (size_notMem_living w other)]
    · exact filter_ne_eq_self (size_notMem_living w other)

/-- A thread that is started runs its body, and is taken off the lists that the body leaves. -/
theorem SoundWith.spawn_of_stack (h : SoundWith count w) (registry : Fin count)
    (name : Option String) {size : Option Nat} {stack : Stack}
    (hstack : Stack.create size = .ok stack) {β : Type}
    {run : ThreadRef → World → Run World (Except Violation β)}
    (hrun : ∀ t w, SoundWith count w → SoundWith count (run t w).final) (passed : List World) :
    ∃ w₁ w₂, World.create registry name size w = .ok w.threads.size w₁ ∧
      World.spawn registry name size none (fun t => passing (run t)) (w, passed) =
        .ok (w.threads.size, (run w.threads.size w₁).result)
          (w₂, passed ++ (run w.threads.size w₁).passed) ∧
      ∀ other, w₂.living other =
        ((run w.threads.size w₁).final.living other).filter (· ≠ w.threads.size) := by
  obtain ⟨w₁, hcreate, hsound, -⟩ := h.create_of_stack registry name hstack
  obtain ⟨was, w₂, hdrop, -, hliving⟩ := (hrun w.threads.size w₁ hsound).drop w.threads.size
  refine ⟨w₁, w₂, hcreate, ?_, hliving⟩
  simp only [World.spawn, World.start, hcreate, passing]
  cases hresult : (run w.threads.size w₁).result with
  | ok result => simp only [hdrop]
  | error violation => simp only [hdrop]

end World

namespace WorldProgram

variable {count : Nat}

/-- A run keeps an invariant all the way. -/
theorem run_keeps {Inv : World → Prop} (hinv : World.Invariant count Inv) {α : Type}
    (program : WorldProgram count α) {w : World} (h : Inv w) :
    ∀ state ∈ (program.run w).final :: (program.run w).passed, Inv state := by
  induction program generalizing w with
  | done result => simpa [run] using h
  | raise violation => simpa [run] using h
  | look question next ih => exact ih (question w) h
  | create registry name size next ih =>
    have hcreated := hinv.create h registry name size
    obtain ⟨hfinal, hpassed⟩ := List.forall_mem_cons.mp (ih _ hcreated)
    exact List.forall_mem_cons.mpr ⟨hfinal, List.forall_mem_cons.mpr ⟨hcreated, hpassed⟩⟩
  | drop t next ih =>
    have hdropped := hinv.drop h t
    obtain ⟨hfinal, hpassed⟩ := List.forall_mem_cons.mp (ih _ hdropped)
    exact List.forall_mem_cons.mpr ⟨hfinal, List.forall_mem_cons.mpr ⟨hdropped, hpassed⟩⟩
  | onStack t program next ih =>
    have hworked := hinv.onStack h t program
    simp only [run]
    cases hresult : World.onStack t program.onStack w with
    | error violation w' =>
      rw [hresult] at hworked
      simpa [outcome] using hworked
    | ok answer w' =>
      rw [hresult] at hworked
      obtain ⟨hfinal, hpassed⟩ := List.forall_mem_cons.mp (ih answer hworked)
      exact List.forall_mem_cons.mpr ⟨hfinal, List.forall_mem_cons.mpr ⟨hworked, hpassed⟩⟩
  | spawn registry name size refusal body next ihBody ihNext =>
    have hspawned := hinv.spawn h registry name size refusal (fun t _ hw => ihBody t hw)
      (List.forall_mem_singleton.mpr (hinv.create h registry name size))
    obtain ⟨hended, hbody⟩ := List.forall_mem_cons.mp hspawned
    obtain ⟨hfinal, hpassed⟩ := List.forall_mem_cons.mp (ihNext _ hended)
    exact List.forall_mem_cons.mpr ⟨hfinal,
      List.forall_mem_append.mpr ⟨hbody, List.forall_mem_cons.mpr ⟨hended, hpassed⟩⟩⟩

/-- A run ends in a sound world if it starts in one. -/
theorem final_sound {α : Type} (program : WorldProgram count α) {w : World}
    (h : w.SoundWith count) : (program.run w).final.SoundWith count :=
  program.run_keeps World.invariant_soundWith h _ List.mem_cons_self

/-- What holds of a world and is an invariant holds of all states of a run. -/
theorem invariant_of_mem_states {Inv : World → Prop} (hinv : World.Invariant count Inv)
    {α : Type} {program : WorldProgram count α} {w state : World} (h : Inv w)
    (hmem : state ∈ program.states w) : Inv state := by
  obtain ⟨hfinal, hpassed⟩ := List.forall_mem_cons.mp (program.run_keeps hinv h)
  simp only [states, List.cons_append, List.mem_cons, List.mem_append, List.not_mem_nil,
    or_false] at hmem
  rcases hmem with rfl | hmem | rfl
  · exact h
  · exact hpassed state hmem
  · exact hfinal

/-- Every state of a run in a new world is sound. -/
theorem sound_of_mem_states {α : Type} (program : WorldProgram count α) {w : World}
    (hmem : w ∈ program.states (World.empty count)) : w.SoundWith count :=
  invariant_of_mem_states World.invariant_soundWith
    ⟨World.sound_empty count, Array.size_replicate⟩ hmem

end WorldProgram

namespace World

/--
What the registries of a world tell, and what happens to them next. A neighbour of a thread is the
one right behind it in the list, or in the list reversed: there is none for a thread at the end, a
dropped one, or one of another registry. A thread that is run from start to end leaves the lists
that its body leaves, without itself, and joining it gives what the body came to; if the operating
system refuses to start it, the body does not run and the lists stay as they are.
-/
structure ListsThreads (count : Nat) (w : World) : Prop where
  threads : ∀ registry : Fin count, w.liveThreads registry = .ok (w.living registry)
  liveCount : ∀ registry : Fin count, w.liveCount registry = .ok (w.living registry).length
  newest : ∀ registry : Fin count, w.newest registry = .ok (w.living registry).head?
  before : ∀ (registry : Fin count) (t : ThreadRef), t < w.threads.size →
    w.before registry t = .ok (rightAfter t (w.living registry))
  next : ∀ (registry : Fin count) (t : ThreadRef), t < w.threads.size →
    w.next registry t = .ok (rightAfter t (w.living registry).reverse)
  ids : (w.threads.toList.map Thread.id).Pairwise (· < ·)
  refused : ∀ (registry : Fin count) (name : Option String) (size : Option Nat) (fault : Fault),
    Stack.create size = .error fault →
      World.create registry name size w = .error (.fault fault) w ∧
        ∀ (refusal : Option String) (β : Type) (body : ThreadRef → WorldProgram count β),
          World.spawn registry name size refusal (fun t => passing (body t).run) (w, []) =
            .error (.fault fault) (w, [])
  created : ∀ (registry : Fin count) (name : Option String) (size : Option Nat) (stack : Stack),
    Stack.create size = .ok stack →
      ∃ w', World.create registry name size w = .ok w.threads.size w' ∧
        (∀ other, w'.living other = if registry = other then w.threads.size :: w.living other
          else w.living other) ∧
        w'.threads.toList.map Thread.id = w.threads.toList.map Thread.id ++ [w.nextId] ∧
        w'.nextId = w.nextId + 1
  dropped : ∀ t : ThreadRef,
    ∃ w', World.drop t w = .ok (w.threads[t]?.any Thread.alive) w' ∧
      ∀ registry, w'.living registry = (w.living registry).filter (· ≠ t)
  spawned : ∀ (registry : Fin count) (name : Option String) (size : Option Nat) (stack : Stack),
    Stack.create size = .ok stack → ∀ (β : Type) (body : ThreadRef → WorldProgram count β),
      ∃ w₁ w₂, World.create registry name size w = .ok w.threads.size w₁ ∧
        let run := (body w.threads.size).run w₁
        World.spawn registry name size none (fun t => passing (body t).run) (w, []) =
          .ok (w.threads.size, run.result) (w₂, run.passed) ∧
        ∀ other, w₂.living other = (run.final.living other).filter (· ≠ w.threads.size)
  unstarted : ∀ (registry : Fin count) (name : Option String) (size : Option Nat) (stack : Stack),
    Stack.create size = .ok stack →
      ∀ (reason : String) (β : Type) (body : ThreadRef → WorldProgram count β),
        ∃ w', World.spawn registry name size (some reason) (fun t => passing (body t).run) (w, []) =
            .error (.fault (.nativeThread reason)) (w', []) ∧
          (∀ other, w'.living other = w.living other) ∧ w'.nextId = w.nextId + 1

variable {count : Nat} {w : World}

/-- A sound world lists its live threads. -/
theorem SoundWith.listsThreads (h : SoundWith count w) : ListsThreads count w := by
  have hregistry (registry : Fin count) : registry < w.registries.size :=
    h.size.symm ▸ registry.isLt
  have hthread {t : ThreadRef} (ht : t < w.threads.size) : w.thread t = .ok w.threads[t] := by
    rw [World.thread, Array.getElem?_eq_getElem ht]
  refine {
    threads := fun registry => ?threads
    liveCount := fun registry => ?liveCount
    newest := fun registry => ?newest
    before := fun registry t ht => ?before
    next := fun registry t ht => ?next
    ids := h.sound.ids
    refused := fun registry name size fault hfault => ?refused
    created := fun registry name size stack hstack => ?created
    dropped := fun t => ?dropped
    spawned := fun registry name size stack hstack β body => ?spawned
    unstarted := fun registry name size stack hstack reason β body => ?unstarted }
  case refused =>
    refine ⟨create_of_fault hfault registry w, fun refusal β body => ?_⟩
    simp only [World.spawn, World.start, create_of_fault hfault]
  case created =>
    obtain ⟨w', hcreate, -, hcreated⟩ := h.create_of_stack registry name hstack
    exact ⟨w', hcreate, hcreated⟩
  case dropped =>
    obtain ⟨w', hdrop, -, -, hliving⟩ := h.sound.drop t
    exact ⟨w', hdrop, hliving⟩
  case spawned =>
    exact h.spawn_of_stack registry name hstack (fun t _ hw => (body t).final_sound hw) []
  case unstarted =>
    obtain ⟨w', hstart, hstarted⟩ := h.start_of_refusal registry name hstack reason
    refine ⟨w', ?_, hstarted⟩
    simp only [World.spawn, hstart]
  all_goals
    obtain ⟨r, hr, places, hshows, hthreads, hplaces⟩ :=
      h.sound.exists_registry (hregistry registry)
  case threads => rw [liveThreads, hr, ← hthreads]; exact hshows.threads_eq
  case liveCount => rw [liveCount, hr, ← hthreads, List.length_map, ← hshows.live]; rfl
  case newest => rw [newest, hr, ← hthreads]; exact hshows.newest_eq
  all_goals
    have hnodup : (places.map Prod.snd).Nodup := hthreads ▸ nodup_living w registry
    have hslot : t ∈ places.map Prod.snd → (w.threads[t].slot, t) ∈ places :=
      hplaces.mem (Array.getElem?_eq_getElem ht)
  case before =>
    rw [World.before, hr, ← hthreads]
    simp only [bind, Except.bind, hthread ht]
    exact hshows.before_eq hnodup hslot
  case next =>
    rw [World.next, hr, ← hthreads]
    simp only [bind, Except.bind, hthread ht]
    exact hshows.next_eq hnodup hslot

end World

namespace WorldProgram

variable {count : Nat}

/--
In every state of every run, each registry lists its live threads, newest first, and answers from
this list. Creation adds to its front or leaves everything as it was, dropping takes a thread out,
and no link is found broken.
-/
theorem registries_list_live_threads {α : Type} (program : WorldProgram count α) :
    ∀ w ∈ program.states (World.empty count), w.ListsThreads count :=
  fun _ hmem => (program.sound_of_mem_states hmem).listsThreads

/-- The last state of a run is one of its states. -/
theorem final_mem_states {α : Type} (program : WorldProgram count α) (w : World) :
    (program.run w).final ∈ program.states w := by
  simp [states]

/--
Threads in two registries. One is dropped, and its slot goes to a thread that creates another one
and ends by a violation, then to one that is not started, and then to one that stays; a stack that
is too large gives none.
-/
def reusedSlot : WorldProgram 2
    (Except Halt (ThreadRef × Except Violation Unit) ×
      Except Halt (ThreadRef × Except Violation Unit)) :=
  .create 0 none (some 64) fun _ =>
  .create 1 none (some 64) fun _ =>
  .create 0 none (some 64) fun _ =>
  .create 0 none (some allocationLimit) fun _ =>
  .create 0 none (some 64) fun _ =>
  .drop 2 fun _ =>
  .spawn 0 none (some 64) none
    (fun _ => .create 1 none (some 64) fun _ => .raise (.raised "stop")) fun joined =>
  .spawn 0 none (some 64) (some "busy") (fun _ => .done ()) fun unstarted =>
  .create 0 none (some 64) fun _ => .done (joined, unstarted)

/--
The thread in the slot that was used again is the newest, and the dropped one has no neighbour. What
the first native thread created stays when it is joined; the second one has run nothing.
-/
theorem registries_list_live_threads_reusedSlot :
    (reusedSlot.run (World.empty 2)).result =
      .ok (.ok (4, .error (.raised "stop")), .error (.fault (.nativeThread "busy"))) ∧
    ∃ w ∈ reusedSlot.states (World.empty 2),
      w.liveThreads 0 = .ok [7, 3, 0] ∧ w.liveThreads 1 = .ok [5, 1] ∧
      w.before 0 3 = .ok (some 0) ∧ w.next 0 3 = .ok (some 7) ∧
      w.before 0 2 = .ok none ∧ w.next 0 1 = .ok none ∧
      w.threads.toList.map Thread.id = [1, 2, 3, 4, 5, 6, 7, 8] := by
  have hmem := reusedSlot.final_mem_states (World.empty 2)
  have hlists := registries_list_live_threads reusedSlot _ hmem
  have hliving : (reusedSlot.run (World.empty 2)).final.living 0 = [7, 3, 0] := by decide +kernel
  have hother : (reusedSlot.run (World.empty 2)).final.living 1 = [5, 1] := by decide +kernel
  have hsize : 4 ≤ (reusedSlot.run (World.empty 2)).final.threads.size := by decide +kernel
  have hbefore (t : ThreadRef) (ht : t < 4) :
      (reusedSlot.run (World.empty 2)).final.before 0 t = .ok (rightAfter t [7, 3, 0]) :=
    hliving ▸ hlists.before 0 t (lt_of_lt_of_le ht hsize)
  have hnext (t : ThreadRef) (ht : t < 4) :
      (reusedSlot.run (World.empty 2)).final.next 0 t = .ok (rightAfter t [0, 3, 7]) :=
    (hlists.next 0 t (lt_of_lt_of_le ht hsize)).trans
      (congrArg (Except.ok ∘ rightAfter t ∘ List.reverse) hliving)
  refine ⟨by decide +kernel, _, hmem, hliving ▸ hlists.threads 0, hother ▸ hlists.threads 1,
    ?_, ?_, ?_, ?_, ?_⟩
  · exact hbefore 3 (by decide)
  · exact hnext 3 (by decide)
  · exact hbefore 2 (by decide)
  · exact hnext 1 (by decide)
  · decide +kernel

end WorldProgram

end ManagedCore
