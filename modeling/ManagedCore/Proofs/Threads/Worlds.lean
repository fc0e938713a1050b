import ManagedCore.Proofs.Collector.Visits
import ManagedCore.Proofs.Threads.Registries
import ManagedCore.Threads.World

/-!
# Live threads of a world

The threads that live in a registry are those that were created there and not dropped, and handles
are numbered by creation: the registry must list them by falling number. Creation, dropping and
whatever happens on a stack keep this up, and numbers are given out in order over all registries.
-/

namespace ManagedCore

/-- A thread without its stack: what a registry may know of it. -/
def Thread.record (thread : Thread) : Thread := { thread with stack := .empty }

namespace World

/-- Whether a thread was created in a registry and is not dropped. -/
def lives (w : World) (registry : Nat) (t : ThreadRef) : Bool :=
  w.threads[t]?.any fun thread => thread.alive && thread.registry == registry

/-- The live threads of a registry, the one created last first. -/
def living (w : World) (registry : Nat) : List ThreadRef :=
  (List.range w.threads.size).reverse.filter (w.lives registry)

/-- The threads at these places have these slots. -/
def SlotsAt (w : World) (places : List Place) : Prop :=
  ∀ place ∈ places, w.threads[place.2]?.map Thread.slot = some place.1

/-- The state of a registry that shows its live threads in their slots. -/
def ShownBy (w : World) (registry : Nat) (r : Registry) : Prop :=
  ∃ places, r.Shows places ∧ places.map Prod.snd = w.living registry ∧ w.SlotsAt places

/-- Every registry shows its live threads, and numbers rise in order of creation. -/
structure Sound (w : World) : Prop where
  shows : ∀ registry r, w.registries[registry]? = some r → w.ShownBy registry r
  homes : ∀ (t : ThreadRef) (thread : Thread), w.threads[t]? = some thread →
    thread.registry < w.registries.size
  ids : (w.threads.toList.map Thread.id).Pairwise (· < ·)
  fresh : ∀ id ∈ w.threads.toList.map Thread.id, id < w.nextId

/-- A world without threads is sound. -/
theorem sound_empty (count : Nat) : (empty count).Sound where
  shows registry r h := by
    rw [empty, Array.getElem?_replicate] at h
    split at h
    · cases h
      exact ⟨[], Registry.shows_empty, rfl, List.forall_mem_nil _⟩
    · cases h
  homes t thread h := by simp [empty] at h
  ids := List.Pairwise.nil
  fresh id h := by simp [empty] at h

variable {w w' : World} {registry : Nat} {t : ThreadRef} {places : List Place}

/-- A thread lives where it was created, if it is not dropped. -/
theorem lives_iff : w.lives registry t = true ↔
    ∃ thread, w.threads[t]? = some thread ∧ thread.alive = true ∧ thread.registry = registry := by
  rw [lives, Option.any_eq_true]
  simp

/-- The live threads are listed. -/
theorem mem_living : t ∈ w.living registry ↔ w.lives registry t = true := by
  rw [living, List.mem_filter, List.mem_reverse, List.mem_range, and_iff_right_iff_imp]
  intro h
  obtain ⟨thread, hthread, -⟩ := lives_iff.mp h
  exact (Array.getElem?_eq_some_iff.mp hthread).1

/-- The next thread is not listed yet. -/
theorem size_notMem_living (w : World) (registry : Nat) : w.threads.size ∉ w.living registry := by
  intro h
  obtain ⟨thread, hthread, -⟩ := lives_iff.mp (mem_living.mp h)
  exact Nat.lt_irrefl _ (Array.getElem?_eq_some_iff.mp hthread).1

/-- No thread is listed twice. -/
theorem nodup_living (w : World) (registry : Nat) : (w.living registry).Nodup :=
  List.Nodup.filter _ (List.nodup_reverse.mpr List.nodup_range)

/-- Worlds in which the same threads live have the same lists. -/
theorem living_congr (hsize : w'.threads.size = w.threads.size)
    (hlives : ∀ t, w'.lives registry t = w.lives registry t) :
    w'.living registry = w.living registry := by
  rw [living, living, hsize]
  exact List.filter_congr fun t _ => hlives t

/-- Threads keep their places in a world that gives them the same slots. -/
theorem SlotsAt.congr (h : w.SlotsAt places)
    (hslots : ∀ t : ThreadRef, w'.threads[t]?.map Thread.slot = w.threads[t]?.map Thread.slot) :
    w'.SlotsAt places :=
  fun place hmem => (hslots place.2).trans (h place hmem)

/-- Soundness does not depend on stacks. -/
theorem Sound.congr (h : w.Sound) (hregistries : w'.registries = w.registries)
    (hnext : w'.nextId = w.nextId)
    (hrecords : w'.threads.map Thread.record = w.threads.map Thread.record) :
    w'.Sound ∧ ∀ registry, w'.living registry = w.living registry := by
  have hrecord (t : ThreadRef) :
      w'.threads[t]?.map Thread.record = w.threads[t]?.map Thread.record := by
    rw [← Array.getElem?_map, hrecords, Array.getElem?_map]
  have hslot (t : ThreadRef) : w'.threads[t]?.map Thread.slot = w.threads[t]?.map Thread.slot := by
    simpa [Option.map_map, Function.comp_def, Thread.record] using
      congrArg (Option.map Thread.slot) (hrecord t)
  have hids : w'.threads.toList.map Thread.id = w.threads.toList.map Thread.id := by
    have hlist := congrArg (List.map Thread.id) (congrArg Array.toList hrecords)
    simpa [Function.comp_def, Thread.record] using hlist
  have hliving (registry : Nat) : w'.living registry = w.living registry := by
    refine living_congr (by simpa using congrArg Array.size hrecords) fun t => ?_
    have hany (w : World) : w.lives registry t = (w.threads[t]?.map Thread.record).any
        fun thread => thread.alive && thread.registry == registry := by
      rw [lives]
      cases w.threads[t]? <;> rfl
    rw [hany, hany, hrecord]
  refine ⟨⟨fun registry r hr => ?_, fun t thread hthread => ?_, hids ▸ h.ids, ?_⟩, hliving⟩
  · obtain ⟨places, hshows, hthreads, hplaces⟩ := h.shows registry r (hregistries ▸ hr)
    exact ⟨places, hshows, hthreads.trans (hliving registry).symm, hplaces.congr hslot⟩
  · have hold := hrecord t
    rw [hthread, Option.map_some] at hold
    obtain ⟨old, hold, heq⟩ := Option.map_eq_some_iff.mp hold.symm
    have hregistry : thread.registry = old.registry := (congrArg Thread.registry heq).symm
    rw [hregistries, hregistry]
    exact h.homes t old hold
  · rw [hids, hnext]
    exact h.fresh

/-- Another stack changes nothing that a registry may know. -/
theorem map_record_setStack (w : World) (t : ThreadRef) (stack : Stack) :
    (w.setStack t stack).threads.map Thread.record = w.threads.map Thread.record := by
  apply Array.ext_getElem?
  intro other
  rw [Array.getElem?_map, Array.getElem?_map, setStack, Array.getElem?_modify]
  split
  · cases w.threads[other]? <;> rfl
  · rfl

/-- What happens on a stack changes nothing that a registry may know. -/
theorem Sound.onStack {ε α : Type} (h : w.Sound) (t : ThreadRef) (operation : EStateM ε Stack α) :
    (outcome (World.onStack t operation w)).2.Sound ∧
      ∀ registry, (outcome (World.onStack t operation w)).2.living registry = w.living registry := by
  simp only [World.onStack]
  cases operation ((w.threads[t]?.map Thread.stack).getD .empty) with
  | ok result stack =>
    refine h.congr rfl rfl ?_
    exact (map_record_setStack _ t stack).trans (map_record_setStack w t .empty)
  | error halt stack =>
    refine h.congr rfl rfl ?_
    exact (map_record_setStack _ t stack).trans (map_record_setStack w t .empty)

/-- A thread that cannot get its stack leaves the world as it was. -/
theorem create_of_fault {name : Option String} {size : Option Nat} {fault : Fault}
    (h : Stack.create size = .error fault) (registry : Nat) (w : World) :
    World.create registry name size w = .error (.fault fault) w := by
  rw [World.create, h]

/-- A registry of a sound world shows the threads that live in it. -/
theorem Sound.exists_registry (h : w.Sound) (hregistry : registry < w.registries.size) :
    ∃ r, w.registry registry = .ok r ∧ w.ShownBy registry r := by
  have hget : w.registries[registry]? = some w.registries[registry] :=
    Array.getElem?_eq_getElem hregistry
  exact ⟨_, by rw [World.registry, hget], h.shows registry _ hget⟩

/-- The world with one more thread in a registry. -/
def withThread (w : World) (r : Registry) (thread : Thread) : World where
  registries := w.registries.setIfInBounds thread.registry r
  threads := w.threads.push thread
  nextId := w.nextId + 1

/-- A new thread is the first one that lives in its registry, and lives in no other. -/
theorem living_withThread (w : World) (r : Registry) (thread : Thread)
    (halive : thread.alive = true) (registry : Nat) :
    (w.withThread r thread).living registry =
      if thread.registry = registry then w.threads.size :: w.living registry
      else w.living registry := by
  have hold (t : ThreadRef) (ht : t ∈ (List.range w.threads.size).reverse) :
      (w.withThread r thread).lives registry t = w.lives registry t := by
    rw [List.mem_reverse, List.mem_range] at ht
    rw [lives, lives, withThread, Array.getElem?_push_lt ht, Array.getElem?_eq_getElem ht]
  have hnew : (w.withThread r thread).lives registry w.threads.size =
      (thread.registry == registry) := by
    rw [lives, withThread, Array.getElem?_push_size, Option.any_some, halive, Bool.true_and]
  have hsize : (w.withThread r thread).threads.size = w.threads.size + 1 := Array.size_push _
  rw [living, hsize, List.range_succ, List.reverse_append, List.reverse_singleton,
    List.singleton_append, List.filter_cons, hnew, List.filter_congr hold, ← living]
  simp

/-- Threads keep their slots when there is one more. -/
theorem SlotsAt.withThread (h : w.SlotsAt places) (r : Registry) (thread : Thread) :
    (w.withThread r thread).SlotsAt places := by
  intro place hmem
  have hslot := h place hmem
  obtain ⟨old, hold, -⟩ := Option.map_eq_some_iff.mp hslot
  rw [World.withThread, Array.getElem?_push_lt (Array.getElem?_eq_some_iff.mp hold).1,
    ← Array.getElem?_eq_getElem]
  exact hslot

/-- The number of a new thread comes last. -/
theorem map_id_withThread (w : World) (r : Registry) (thread : Thread) :
    (w.withThread r thread).threads.toList.map Thread.id =
      w.threads.toList.map Thread.id ++ [thread.id] := by
  rw [withThread, Array.toList_push, List.map_append]
  rfl

/-- Another thread that its registry shows in front of the others leaves the world sound. -/
theorem Sound.withThread (h : w.Sound) {r : Registry} {thread : Thread}
    (hregistry : thread.registry < w.registries.size) (halive : thread.alive = true)
    (hid : thread.id = w.nextId) (hthreads : places.map Prod.snd = w.living thread.registry)
    (hplaces : w.SlotsAt places) (hshows : r.Shows ((thread.slot, w.threads.size) :: places)) :
    (w.withThread r thread).Sound := by
  refine ⟨fun registry r' hr' => ?_, fun t thread' hthread' => ?_, ?_, fun id hmem => ?_⟩
  · rw [ShownBy, living_withThread w r thread halive]
    rw [World.withThread, Array.getElem?_setIfInBounds] at hr'
    by_cases hsame : thread.registry = registry
    · rw [if_pos hsame, if_pos (hsame ▸ hregistry)] at hr'
      cases hr'
      rw [if_pos hsame, ← hsame]
      refine ⟨_, hshows, by rw [List.map_cons, hthreads], ?_⟩
      refine List.forall_mem_cons.mpr ⟨?_, hplaces.withThread r thread⟩
      rw [World.withThread, Array.getElem?_push_size, Option.map_some]
    · rw [if_neg hsame] at hr'
      rw [if_neg hsame]
      obtain ⟨others, hshows', hthreads', hplaces'⟩ := h.shows registry r' hr'
      exact ⟨others, hshows', hthreads', hplaces'.withThread r thread⟩
  · rw [World.withThread, Array.getElem?_push] at hthread'
    rw [World.withThread, Array.size_setIfInBounds]
    split at hthread'
    · cases hthread'
      exact hregistry
    · exact h.homes t thread' hthread'
  · rw [map_id_withThread, List.pairwise_append, hid]
    refine ⟨h.ids, List.pairwise_singleton .., fun id hmem new hnew => ?_⟩
    rw [List.mem_singleton.mp hnew]
    exact h.fresh id hmem
  · rw [map_id_withThread, List.mem_append, List.mem_singleton, hid] at hmem
    rw [World.withThread]
    rcases hmem with hmem | rfl
    · exact Nat.lt_succ_of_lt (h.fresh id hmem)
    · exact Nat.lt_succ_self _

/-- A thread that is created is the newest one of its registry. -/
theorem Sound.create (h : w.Sound) (hregistry : registry < w.registries.size)
    {size : Option Nat} {stack : Stack} (hstack : Stack.create size = .ok stack)
    (name : Option String) :
    ∃ r slot, World.create registry name size w =
        .ok w.threads.size (w.withThread r ⟨w.nextId, name, registry, slot, true, stack⟩) ∧
      (w.withThread r ⟨w.nextId, name, registry, slot, true, stack⟩).Sound := by
  obtain ⟨r, hr, places, hshows, hthreads, hplaces⟩ := h.exists_registry hregistry
  obtain ⟨r', hregister, hshows'⟩ := hshows.register w.threads.size
  refine ⟨r', r.slotToTake, ?_, h.withThread hregistry rfl rfl hthreads hplaces hshows'⟩
  have hr' : World.registry { w with nextId := w.nextId + 1 } registry = .ok r := hr
  rw [World.create, hstack]
  simp only [hr', bind, Except.bind, hregister]
  rfl

/-- The world with a thread dropped and its registry changed. -/
def withoutThread (w : World) (r : Registry) (t : ThreadRef) (thread : Thread) : World where
  registries := w.registries.setIfInBounds thread.registry r
  threads := w.threads.setIfInBounds t { thread with alive := false }
  nextId := w.nextId

/-- A list without a thread stays as it is when the thread is taken out. -/
theorem filter_ne_eq_self {threads : List ThreadRef} (h : t ∉ threads) :
    threads.filter (· ≠ t) = threads := by
  rw [List.filter_eq_self]
  intro other hmem
  simpa using fun heq : other = t => h (heq ▸ hmem)

/-- A dropped thread lives nowhere, and all others live where they did. -/
theorem living_withoutThread (r : Registry) {thread : Thread} (ht : w.threads[t]? = some thread)
    (registry : Nat) :
    (w.withoutThread r t thread).living registry = (w.living registry).filter (· ≠ t) := by
  have hlt := (Array.getElem?_eq_some_iff.mp ht).1
  have hsize : (w.withoutThread r t thread).threads.size = w.threads.size :=
    Array.size_setIfInBounds
  rw [living, living, hsize, List.filter_filter]
  refine List.filter_congr fun other _ => ?_
  rw [lives, lives, withoutThread, Array.getElem?_setIfInBounds]
  by_cases hother : t = other
  · simp [hother, hother ▸ hlt]
  · simp [hother, Ne.symm hother]

/-- A dropped thread keeps what does not depend on whether it lives. -/
theorem map_withoutThread (r : Registry) {thread : Thread} (ht : w.threads[t]? = some thread)
    {α : Type} (part : Thread → α) (hpart : part { thread with alive := false } = part thread) :
    (w.withoutThread r t thread).threads.map part = w.threads.map part := by
  apply Array.ext_getElem?
  intro other
  rw [Array.getElem?_map, Array.getElem?_map, withoutThread, Array.getElem?_setIfInBounds]
  by_cases hother : t = other
  · subst hother
    rw [if_pos rfl, if_pos (Array.getElem?_eq_some_iff.mp ht).1, ht, Option.map_some,
      Option.map_some, hpart]
  · rw [if_neg hother]

/-- A thread that is listed has its own slot. -/
theorem SlotsAt.mem (h : w.SlotsAt places) {thread : Thread} (ht : w.threads[t]? = some thread)
    (hmem : t ∈ places.map Prod.snd) : (thread.slot, t) ∈ places := by
  obtain ⟨⟨slot, t'⟩, hplace, (rfl : t' = t)⟩ := List.mem_map.mp hmem
  have hslot := h (slot, t') hplace
  rw [ht] at hslot
  rw [show thread.slot = slot from Option.some.inj hslot]
  exact hplace

/-- The world is sound when a thread that lives is dropped and taken off its registry. -/
theorem Sound.withoutThread (h : w.Sound) {thread : Thread} (ht : w.threads[t]? = some thread)
    {r : Registry} {newer older : List Place}
    (hliving : w.living thread.registry = newer.map Prod.snd ++ t :: older.map Prod.snd)
    (hplaces : w.SlotsAt (newer ++ older)) (hshows : r.Shows (newer ++ older)) :
    (w.withoutThread r t thread).Sound := by
  have hslots (other : ThreadRef) : (w.withoutThread r t thread).threads[other]?.map Thread.slot =
      w.threads[other]?.map Thread.slot := by
    rw [← Array.getElem?_map, map_withoutThread r ht Thread.slot rfl, Array.getElem?_map]
  have hids := congrArg Array.toList (map_withoutThread r ht Thread.id rfl)
  rw [Array.toList_map, Array.toList_map] at hids
  refine ⟨fun other r' hr' => ?_, fun other thread' hthread' => ?_, hids ▸ h.ids, hids ▸ h.fresh⟩
  · rw [ShownBy, living_withoutThread r ht]
    rw [World.withoutThread, Array.getElem?_setIfInBounds] at hr'
    by_cases hother : thread.registry = other
    · subst hother
      rw [if_pos rfl, if_pos (h.homes t thread ht)] at hr'
      cases hr'
      refine ⟨_, hshows, ?_, hplaces.congr hslots⟩
      have hnodup := nodup_living w thread.registry
      rw [hliving, List.nodup_middle, List.nodup_cons, List.mem_append, not_or] at hnodup
      rw [hliving, List.filter_append, List.filter_cons_of_neg (by simp),
        filter_ne_eq_self hnodup.1.1, filter_ne_eq_self hnodup.1.2, List.map_append]
    · rw [if_neg hother] at hr'
      obtain ⟨places, hshows', hthreads, hplaces'⟩ := h.shows other r' hr'
      refine ⟨places, hshows', ?_, hplaces'.congr hslots⟩
      rw [hthreads, filter_ne_eq_self]
      intro hmem
      obtain ⟨thread', hthread', -, hregistry⟩ := lives_iff.mp (mem_living.mp hmem)
      rw [ht] at hthread'
      cases hthread'
      exact hother hregistry
  · have hregistry := congrArg (·[other]?)
      (map_withoutThread r ht Thread.registry rfl)
    simp only [Array.getElem?_map, hthread', Option.map_some] at hregistry
    obtain ⟨old, hold, heq⟩ := Option.map_eq_some_iff.mp hregistry.symm
    rw [World.withoutThread, Array.size_setIfInBounds, ← heq]
    exact h.homes other old hold

/-- Dropping gives no number back. -/
theorem nextId_drop (w : World) (t : ThreadRef) :
    (outcome (World.drop t w)).2.nextId = w.nextId := by
  rw [World.drop]
  cases w.threads[t]? with
  | none => rfl
  | some thread =>
    simp only
    split
    · cases w.registry thread.registry >>= (·.unregister thread.slot) with
      | error violation => rfl
      | ok r => rfl
    · rfl

/-- Dropping takes a thread off the list of its registry, and off no other list. -/
theorem Sound.drop (h : w.Sound) (t : ThreadRef) :
    ∃ w', World.drop t w = .ok (w.threads[t]?.any Thread.alive) w' ∧ w'.Sound ∧
      w'.registries.size = w.registries.size ∧
      ∀ registry, w'.living registry = (w.living registry).filter (· ≠ t) := by
  have hgone (hdead : w.threads[t]?.any Thread.alive = false) (registry : Nat) :
      w.living registry = (w.living registry).filter (· ≠ t) := by
    rw [filter_ne_eq_self]
    intro hmem
    obtain ⟨thread, hthread, halive, -⟩ := lives_iff.mp (mem_living.mp hmem)
    simp [hthread, halive] at hdead
  rw [World.drop]
  cases ht : w.threads[t]? with
  | none => exact ⟨w, rfl, h, rfl, hgone (by simp [ht])⟩
  | some thread =>
    cases halive : thread.alive with
    | false => exact ⟨w, by simp [halive], h, rfl, hgone (by simp [ht, halive])⟩
    | true =>
      obtain ⟨r, hr, places, hshows, hthreads, hplaces⟩ :=
        h.exists_registry (h.homes t thread ht)
      have hmem : t ∈ places.map Prod.snd := by
        rw [hthreads, mem_living, lives_iff]
        exact ⟨thread, ht, halive, rfl⟩
      obtain ⟨newer, older, rfl⟩ := List.append_of_mem (hplaces.mem ht hmem)
      obtain ⟨r', hunregister, hshows', -⟩ := hshows.unregister
      rw [List.map_append, List.map_cons] at hthreads
      have hrest : w.SlotsAt (newer ++ older) := by
        intro place hplace
        apply hplaces place
        rw [List.mem_append] at hplace
        rw [List.mem_append, List.mem_cons]
        exact hplace.imp id .inr
      refine ⟨w.withoutThread r' t thread, ?_, h.withoutThread ht hthreads.symm hrest hshows',
        Array.size_setIfInBounds, living_withoutThread r' ht⟩
      simp only [Option.any_some, halive, if_true, hr, bind, Except.bind, hunregister]
      rfl

end World

end ManagedCore
