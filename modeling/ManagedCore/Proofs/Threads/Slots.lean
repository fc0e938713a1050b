import ManagedCore.Proofs.Threads.Stacks

/-!
# Slots

A thread takes the vacant slot that was freed last, and a new one at the end of the table if none is
vacant; it frees its slot when it is dropped. So the table only grows when all of its slots are
taken, and is never longer than it had to be.

Main statement: after every creation and every drop of a run, the free slots of a registry are the
vacant ones, in the order in which they were freed; every other slot has one live thread, which keeps
it; and there are as many slots as threads ever lived in the registry at one time.
-/

namespace ManagedCore

/-- Free slots are those freed last first, each once, without the ones that were taken again. -/
def FreedInOrder (free freed : List Nat) : Prop := free = (freed.filter (· ∈ free)).eraseDups

namespace FreedInOrder

variable {free freed : List Nat} {slot : Nat}

/-- Without one slot the others are left. -/
theorem filter_mem_cons (freed : List Nat) (hslot : slot ∉ free) :
    (freed.filter (· ∈ slot :: free)).filter (fun other => !other == slot) =
      freed.filter (· ∈ free) := by
  rw [List.filter_filter]
  refine List.filter_congr fun other _ => ?_
  by_cases hother : other = slot <;> simp [hother, hslot]

/-- A slot that is freed comes first. -/
theorem push (h : FreedInOrder free freed) (hslot : slot ∉ free) :
    FreedInOrder (slot :: free) (slot :: freed) := by
  rw [FreedInOrder, List.filter_cons_of_pos (by simp), List.eraseDups_cons,
    filter_mem_cons freed hslot, ← h]

/-- The first slot is taken. -/
theorem pop (h : FreedInOrder (slot :: free) freed) (hslot : slot ∉ free) :
    FreedInOrder free freed := by
  rw [FreedInOrder, ← filter_mem_cons freed hslot]
  rw [FreedInOrder] at h
  cases hfreed : freed.filter (· ∈ slot :: free) with
  | nil =>
    rw [hfreed] at h
    cases h
  | cons first others =>
    rw [hfreed, List.eraseDups_cons, List.cons_eq_cons] at h
    obtain ⟨rfl, hothers⟩ := h
    rw [List.filter_cons_of_neg (by simp)]
    exact hothers

/-- The first slot is the last one freed that is free. -/
theorem head?_eq (h : FreedInOrder free freed) : free.head? = freed.find? (· ∈ free) := by
  rw [← List.head?_filter]
  cases hfreed : freed.filter (· ∈ free) with
  | nil => rw [h, hfreed]; rfl
  | cons first others =>
    rw [FreedInOrder, hfreed, List.eraseDups_cons] at h
    rw [h]
    rfl

end FreedInOrder

namespace Registry

variable {r r' : Registry} {places : List Place} {slot : Nat} {thread : ThreadRef}

/-- Changing a linked entry leaves the table as long as it was, and the free slots. -/
theorem adjustLinked_keeps {link : Option Nat} {change : RegistryEntry → RegistryEntry}
    (h : r.adjustLinked link change = .ok r') :
    r'.entries.size = r.entries.size ∧ r'.free = r.free := by
  cases link with
  | none =>
    cases h
    exact ⟨rfl, rfl⟩
  | some linked =>
    simp only [adjustLinked, adjust, bind, Except.bind] at h
    split at h
    · cases h
    · cases h
      exact ⟨Array.size_setIfInBounds, rfl⟩

/-- Registering takes the first free slot, or one more than the table has. -/
theorem register_keeps (h : r.register thread = .ok (slot, r')) :
    slot = r.slotToTake ∧ r'.free = r.free.tail ∧
      r'.entries.size = if r.free = [] then r.entries.size + 1 else r.entries.size := by
  simp only [register, bind, Except.bind] at h
  split at h
  · cases h
  · next hadjust =>
    obtain ⟨hsize, hfree⟩ := adjustLinked_keeps hadjust
    cases h
    simp only [Array.size_setIfInBounds, hsize, hfree]
    rw [takeSlot, slotToTake]
    cases hfree : r.free <;> simp

/-- Unregistering frees the slot, and leaves the table as long as it was. -/
theorem unregister_keeps (h : r.unregister slot = .ok r') :
    r'.free = slot :: r.free ∧ r'.entries.size = r.entries.size := by
  simp only [unregister, bind, Except.bind, throw, throwThe, MonadExceptOf.throw] at h
  split at h
  · cases h
  · cases h
  · split at h
    · cases h
    · next hbefore =>
      split at h
      · cases h
      · next hnext =>
        obtain ⟨hsize, hfree⟩ := adjustLinked_keeps hbefore
        obtain ⟨hsize', hfree'⟩ := adjustLinked_keeps hnext
        cases h
        refine ⟨?_, ?_⟩
        · rw [hfree', hfree]
        · rw [hsize', hsize, Array.size_setIfInBounds]

/-- A slot has a thread exactly if this is one of the places. -/
theorem Shows.holds_iff (h : r.Shows places) :
    (∃ entry, r.entries[slot]? = some (some entry) ∧ entry.thread = thread) ↔
      (slot, thread) ∈ places := by
  constructor
  · rintro ⟨entry, hentry, rfl⟩
    obtain ⟨⟨other, thread'⟩, hmem, rfl⟩ := List.mem_map.mp (h.occupied slot entry hentry)
    obtain ⟨before, next, hplace⟩ := h.linked.exists_entry hmem
    rw [hplace] at hentry
    cases hentry
    exact hmem
  · intro hmem
    obtain ⟨before, next, hentry⟩ := h.linked.exists_entry hmem
    exact ⟨_, hentry, rfl⟩

/-- Without a free slot there is a thread in every slot. -/
theorem Shows.length_eq (h : r.Shows places) (hfree : r.free = []) :
    places.length = r.entries.size := by
  refine Nat.le_antisymm h.length_le ?_
  have hsubset : List.range r.entries.size ⊆ places.map Prod.fst := by
    intro slot hslot
    rw [List.mem_range] at hslot
    cases hentry : r.entries[slot] with
    | none =>
      have hvacant := (h.vacant slot).mpr (by rw [Array.getElem?_eq_getElem hslot, hentry])
      rw [hfree] at hvacant
      cases hvacant
    | some entry =>
      exact h.occupied slot entry (by rw [Array.getElem?_eq_getElem hslot, hentry])
  simpa using (List.nodup_range.subperm hsubset).length_le

/-- The table grows exactly if there are more threads than slots. -/
theorem Shows.size_register (h : r.Shows places) (hregister : r.register thread = .ok (slot, r')) :
    r'.entries.size = max r.entries.size (places.length + 1) := by
  obtain ⟨r'', hok, hshows⟩ := h.register thread
  rw [hregister] at hok
  cases hok
  obtain ⟨-, -, hsize⟩ := register_keeps hregister
  by_cases hfree : r.free = []
  · rw [if_pos hfree] at hsize
    rw [hsize, h.length_eq hfree]
    omega
  · rw [if_neg hfree] at hsize
    have hlength := hshows.length_le
    rw [List.length_cons] at hlength
    omega

end Registry

namespace World

variable {count : Nat} {w w' : World} {earlier : List World} {registry : Nat} {t : ThreadRef}
  {r r' : Registry}

/-- The slot of a thread, which it does not lose when it is dropped. -/
def slotOf (w : World) (t : ThreadRef) : Option Nat := w.threads[t]?.map Thread.slot

/-! ## Steps -/

/-- A thread that is created is registered in the world as it was. -/
theorem create_eq {name : Option String} {size : Option Nat}
    (h : World.create registry name size w = .ok t w') :
    ∃ stack r r' slot, w.registry registry = .ok r ∧
      r.register w.threads.size = .ok (slot, r') ∧ t = w.threads.size ∧
      w' = w.withThread r' ⟨w.nextId, name, registry, slot, true, stack⟩ := by
  rw [World.create] at h
  split at h
  · cases h
  · next stack hstack =>
    simp only [World.registry, bind, Except.bind] at h ⊢
    split at h
    · cases h
    · next place hplace =>
      split at hplace
      · cases hplace
      · next r hr =>
        cases h
        exact ⟨stack, r, _, _, hr, hplace, rfl, rfl⟩

/-- A thread that is dropped while it lives is taken off its registry, and any other stays. -/
theorem drop_eq {was : Bool} (h : World.drop t w = .ok was w') :
    w' = w ∨ ∃ thread r r', w.threads[t]? = some thread ∧ thread.alive = true ∧
      w.registry thread.registry = .ok r ∧ r.unregister thread.slot = .ok r' ∧
      w' = w.withoutThread r' t thread := by
  rw [World.drop] at h
  split at h
  · cases h
    exact .inl rfl
  · next thread hthread =>
    split at h
    · next halive =>
      simp only [bind, Except.bind] at h
      split at h
      · cases h
      · next r' hr' =>
        split at hr'
        · cases hr'
        · next r hr =>
          cases h
          exact .inr ⟨thread, r, r', hthread, halive, hr, hr', rfl⟩
    · cases h
      exact .inl rfl

/-- What may happen next in a world with `count` registries. -/
inductive Step (count : Nat) (w : World) : World → Prop where
  | stay : Step count w w
  | create (registry : Fin count) (name : Option String) (size : Option Nat) :
    Step count w (outcome (World.create registry name size w)).2
  | drop (t : ThreadRef) : Step count w (outcome (World.drop t w)).2
  | work (t : ThreadRef) (stack : Stack) : Step count w (w.setStack t stack)

/-- What a step comes to for one registry. -/
inductive Turn (registry : Nat) (w w' : World) (r r' : Registry) : Prop where
  | same (hr : r' = r) (hliving : w'.living registry = w.living registry)
  | joins (slot : Nat) (hregister : r.register w.threads.size = .ok (slot, r'))
    (hliving : w'.living registry = w.threads.size :: w.living registry)
    (hslot : w'.slotOf w.threads.size = some slot)
  | leaves (t : ThreadRef) (slot : Nat) (hunregister : r.unregister slot = .ok r')
    (hmem : t ∈ w.living registry) (hslot : w.slotOf t = some slot)
    (hliving : w'.living registry = (w.living registry).filter (· ≠ t))

/-- A registry is found at its index. -/
theorem registry_eq_ok : w.registry registry = .ok r ↔ w.registries[registry]? = some r := by
  rw [World.registry]
  cases w.registries[registry]? <;> simp

/-- Of the registries one is replaced. -/
theorem registry_of_set {other : Nat} (hset : w'.registries = w.registries.setIfInBounds other r')
    (hr : w.registry registry = .ok r) :
    w'.registry registry = .ok (if other = registry then r' else r) := by
  rw [registry_eq_ok] at hr ⊢
  have hlt := (Array.getElem?_eq_some_iff.mp hr).1
  rw [hset, Array.getElem?_setIfInBounds]
  by_cases hother : other = registry
  · subst hother
    rw [if_pos rfl, if_pos hlt, if_pos rfl]
  · rw [if_neg hother, if_neg hother, hr]

/-- A thread that is registered joins one registry, and leaves the others as they are. -/
theorem turn_withThread {thread : Thread} {home : Registry} (halive : thread.alive = true)
    (hhome : w.registry thread.registry = .ok home)
    (hregister : home.register w.threads.size = .ok (thread.slot, r'))
    (hr : w.registry registry = .ok r) :
    ∃ r'', (w.withThread r' thread).registry registry = .ok r'' ∧
      Turn registry w (w.withThread r' thread) r r'' := by
  have hliving := living_withThread w r' thread halive registry
  refine ⟨_, registry_of_set rfl hr, ?_⟩
  by_cases hsame : thread.registry = registry
  · subst hsame
    rw [hhome] at hr
    cases hr
    rw [if_pos rfl] at hliving ⊢
    refine .joins thread.slot hregister hliving ?_
    rw [slotOf, withThread, Array.getElem?_push_size, Option.map_some]
  · rw [if_neg hsame] at hliving ⊢
    exact .same rfl hliving

/-- A thread that is taken off leaves one registry, and the others stay as they are. -/
theorem turn_withoutThread {thread : Thread} {home : Registry} (ht : w.threads[t]? = some thread)
    (halive : thread.alive = true) (hhome : w.registry thread.registry = .ok home)
    (hunregister : home.unregister thread.slot = .ok r') (hr : w.registry registry = .ok r) :
    ∃ r'', (w.withoutThread r' t thread).registry registry = .ok r'' ∧
      Turn registry w (w.withoutThread r' t thread) r r'' := by
  have hliving := living_withoutThread r' ht registry
  refine ⟨_, registry_of_set rfl hr, ?_⟩
  by_cases hsame : thread.registry = registry
  · subst hsame
    rw [hhome] at hr
    cases hr
    rw [if_pos rfl]
    refine .leaves t thread.slot hunregister ?_ ?_ hliving
    · exact mem_living.mpr (lives_iff.mpr ⟨thread, ht, halive, rfl⟩)
    · rw [slotOf, ht, Option.map_some]
  · rw [if_neg hsame]
    refine .same rfl (hliving.trans (filter_ne_eq_self fun hmem => hsame ?_))
    obtain ⟨thread', ht', -, hregistry⟩ := lives_iff.mp (mem_living.mp hmem)
    rw [ht] at ht'
    cases ht'
    exact hregistry

/-- A step leaves the world sound. -/
theorem SoundWith.step (h : SoundWith count w) (hstep : Step count w w') : SoundWith count w' := by
  cases hstep with
  | stay => exact h
  | create registry name size => exact invariant_soundWith.create h registry name size
  | drop t => exact invariant_soundWith.drop h t
  | work t stack => exact h.setStack t stack

/-- A thread is registered, or a live one is taken off, or only a stack is another. -/
theorem Step.cases (hstep : Step count w w') (h : SoundWith count w) :
    (∃ t stack, w' = w.setStack t stack) ∨
    (∃ (thread : Thread) (home r' : Registry), thread.alive = true ∧
      w.registry thread.registry = .ok home ∧
      home.register w.threads.size = .ok (thread.slot, r') ∧ w' = w.withThread r' thread) ∨
    ∃ (t : ThreadRef) (thread : Thread) (home r' : Registry), w.threads[t]? = some thread ∧
      thread.alive = true ∧ w.registry thread.registry = .ok home ∧
      home.unregister thread.slot = .ok r' ∧ w' = w.withoutThread r' t thread := by
  have hstay : ∃ t stack, w = w.setStack t stack := ⟨0, _, (setStack_stackOf w 0).symm⟩
  cases hstep with
  | stay => exact .inl hstay
  | create home name size =>
    cases hstack : Stack.create size with
    | error fault =>
      rw [create_of_fault hstack]
      exact .inl hstay
    | ok stack =>
      have hhome : home < w.registries.size := by
        rw [h.size]
        exact home.isLt
      obtain ⟨_, _, hcreate, -⟩ := h.sound.create hhome hstack name
      rw [hcreate]
      obtain ⟨stack', r, r', slot, hr, hregister, -, hw'⟩ := create_eq hcreate
      exact .inr (.inl ⟨_, r, r', rfl, hr, hregister, hw'⟩)
  | drop t =>
    obtain ⟨_, hdrop, -⟩ := h.sound.drop t
    rw [hdrop]
    rcases drop_eq hdrop with rfl | hdropped
    · exact .inl hstay
    · exact .inr (.inr ⟨t, hdropped⟩)
  | work t stack => exact .inl ⟨t, stack, rfl⟩

/-- In each registry a thread joins or leaves or nothing happens. -/
theorem Step.turn (hstep : Step count w w') (h : SoundWith count w)
    (hr : w.registry registry = .ok r) :
    ∃ r', w'.registry registry = .ok r' ∧ Turn registry w w' r r' := by
  rcases hstep.cases h with ⟨t, stack, rfl⟩ | ⟨thread, home, r', halive, hhome, hregister, rfl⟩ |
    ⟨t, thread, home, r', ht, halive, hhome, hunregister, rfl⟩
  · exact ⟨r, hr, .same rfl ((h.sound.setStack t stack).2 registry)⟩
  · exact turn_withThread halive hhome hregister hr
  · exact turn_withoutThread ht halive hhome hunregister hr

/-- No thread is forgotten, each keeps its slot, and none lives again. -/
structure KeepsThreads (registry : Nat) (w w' : World) : Prop where
  size : w.threads.size ≤ w'.threads.size
  slotOf : ∀ t < w.threads.size, w'.slotOf t = w.slotOf t
  living : ∀ t < w.threads.size, t ∈ w'.living registry → t ∈ w.living registry

/-- What two steps keep is kept by both. -/
theorem KeepsThreads.trans {w'' : World} (h : KeepsThreads registry w w')
    (h' : KeepsThreads registry w' w'') : KeepsThreads registry w w'' where
  size := h.size.trans h'.size
  slotOf t ht := (h'.slotOf t (ht.trans_le h.size)).trans (h.slotOf t ht)
  living t ht hmem := h.living t ht (h'.living t (ht.trans_le h.size) hmem)

/-- Threads have the slots they had if there are as many. -/
theorem slotOf_of_map_eq (h : w'.threads.map Thread.slot = w.threads.map Thread.slot) :
    w.threads.size ≤ w'.threads.size ∧ ∀ t < w.threads.size, w'.slotOf t = w.slotOf t := by
  constructor
  · have hsize := congrArg Array.size h
    rw [Array.size_map, Array.size_map] at hsize
    exact hsize.ge
  · intro t _
    rw [slotOf, slotOf, ← Array.getElem?_map, h, Array.getElem?_map]

/-- A step forgets no thread. -/
theorem Step.slotOf_eq (hstep : Step count w w') (h : SoundWith count w) :
    w.threads.size ≤ w'.threads.size ∧ ∀ t < w.threads.size, w'.slotOf t = w.slotOf t := by
  rcases hstep.cases h with ⟨t, stack, rfl⟩ | ⟨thread, home, r', -, -, -, rfl⟩ |
    ⟨t, thread, home, r', ht, -, -, -, rfl⟩
  · have hslots := congrArg (Array.map Thread.slot) (map_record_setStack w t stack)
    rw [Array.map_map, Array.map_map] at hslots
    exact slotOf_of_map_eq hslots
  · refine ⟨?_, fun t ht => ?_⟩
    · rw [withThread, Array.size_push]
      exact Nat.le_succ _
    · rw [slotOf, slotOf, withThread, Array.getElem?_push_lt ht, Array.getElem?_eq_getElem ht]
  · exact slotOf_of_map_eq (map_withoutThread r' ht Thread.slot rfl)

/-- A step keeps the threads of each registry. -/
theorem Step.keepsThreads (hstep : Step count w w') (h : SoundWith count w)
    (hturn : Turn registry w w' r r') : KeepsThreads registry w w' := by
  obtain ⟨hsize, hslots⟩ := hstep.slotOf_eq h
  refine ⟨hsize, hslots, fun t ht hmem => ?_⟩
  cases hturn with
  | same hr hliving => exact hliving ▸ hmem
  | joins slot hregister hliving hslot =>
    rw [hliving, List.mem_cons] at hmem
    exact hmem.resolve_left (Nat.ne_of_lt ht)
  | leaves t' slot hunregister hmem' hslot hliving =>
    rw [hliving] at hmem
    exact List.mem_of_mem_filter hmem

/-! ## Histories -/

/-- The worlds that were there before a world, the last one first. -/
inductive History (count : Nat) : World → List World → Prop where
  | start : History count (.empty count) []
  | next {w w' : World} {earlier : List World} (h : History count w earlier)
    (hstep : Step count w w') : History count w' (w :: earlier)

/-- The slots of the threads that live in a registry before a step and not behind it. -/
def freedBy (registry : Nat) (w w' : World) : List Nat :=
  ((w.living registry).filter (· ∉ w'.living registry)).filterMap w.slotOf

/-- The slots that were freed, the last one first. A slot is there as often as it was freed. -/
def freedSlots (registry : Nat) : World → List World → List Nat
  | _, [] => []
  | w, before :: earlier => freedBy registry before w ++ freedSlots registry before earlier

/-- The largest number of threads that lived in a registry at one time. -/
def peak (registry : Nat) (states : List World) : Nat :=
  (states.map fun w => (w.living registry).length).foldr max 0

/-- What the registry is like after its past. -/
structure Recalls (registry : Nat) (w : World) (earlier : List World) (r : Registry) : Prop where
  freed : FreedInOrder r.free (freedSlots registry w earlier)
  size : r.entries.size = peak registry (w :: earlier)
  kept : ∀ w' ∈ earlier, KeepsThreads registry w' w

/-- If no thread leaves then no slot is freed. -/
theorem freedBy_of_subset (h : w.living registry ⊆ w'.living registry) :
    freedBy registry w w' = [] := by
  rw [freedBy, List.filter_eq_nil_iff.mpr, List.filterMap_nil]
  intro t hmem
  simpa using h hmem

/-- The slot is freed of a thread that leaves. -/
theorem freedBy_of_leaves {slot : Nat} (hmem : t ∈ w.living registry)
    (hslot : w.slotOf t = some slot)
    (hliving : w'.living registry = (w.living registry).filter (· ≠ t)) :
    freedBy registry w w' = [slot] := by
  have hgone : (w.living registry).filter (· ∉ w'.living registry) = [t] := by
    have honly : (w.living registry).filter (· ∉ w'.living registry) =
        (w.living registry).filter (· = t) := by
      refine List.filter_congr fun other hother => ?_
      rw [hliving, decide_eq_decide, List.mem_filter]
      simp [hother]
    rw [honly, List.filter_eq, List.count_eq_one_of_mem (nodup_living w registry) hmem]
    rfl
  rw [freedBy, hgone, List.filterMap_cons_some hslot, List.filterMap_nil]

/-- A registry still knows its past after one more turn. -/
theorem Recalls.turn (h : Recalls registry w earlier r) (hshown : w.ShownBy registry r)
    (hkeeps : KeepsThreads registry w w') (hturn : Turn registry w w' r r') :
    Recalls registry w' (w :: earlier) r' := by
  obtain ⟨places, hshows, hthreads, hplaces⟩ := hshown
  have hlength : places.length = (w.living registry).length := by
    rw [← hthreads, List.length_map]
  have hkept : ∀ w₀ ∈ w :: earlier, KeepsThreads registry w₀ w' :=
    List.forall_mem_cons.mpr ⟨hkeeps, fun w₀ hmem => (h.kept w₀ hmem).trans hkeeps⟩
  have hpeak : peak registry (w' :: w :: earlier) =
      max (w'.living registry).length r.entries.size := congrArg _ h.size.symm
  have hfreed : freedSlots registry w' (w :: earlier) =
      freedBy registry w w' ++ freedSlots registry w earlier := rfl
  have hle := hshows.length_le
  cases hturn with
  | same hr hliving =>
    subst hr
    rw [freedBy_of_subset (hliving ▸ List.Subset.refl _)] at hfreed
    refine ⟨hfreed ▸ h.freed, ?_, hkept⟩
    rw [hpeak, hliving]
    omega
  | joins slot hregister hliving hslot =>
    obtain ⟨-, hfree, -⟩ := Registry.register_keeps hregister
    rw [freedBy_of_subset (hliving ▸ List.subset_cons_self _ _)] at hfreed
    refine ⟨?_, ?_, hkept⟩
    · have hold := h.freed
      have hdistinct := hshows.freeDistinct
      rw [hfreed, hfree, List.nil_append]
      cases hcons : r.free with
      | nil =>
        rw [hcons] at hold
        exact hold
      | cons first rest =>
        rw [hcons] at hold hdistinct
        exact hold.pop (List.nodup_cons.mp hdistinct).1
    · rw [hshows.size_register hregister, hpeak, hliving, List.length_cons, hlength]
      exact Nat.max_comm _ _
  | leaves t slot hunregister hmem hslot hliving =>
    obtain ⟨hfree, hsize⟩ := Registry.unregister_keeps hunregister
    rw [freedBy_of_leaves hmem hslot hliving] at hfreed
    have hoccupied : slot ∉ r.free := by
      rw [hshows.vacant]
      obtain ⟨thread, ht, rfl⟩ := Option.map_eq_some_iff.mp hslot
      exact hshows.not_vacant (List.mem_map_of_mem (hplaces.mem ht (hthreads ▸ hmem)))
    refine ⟨?_, ?_, hkept⟩
    · rw [hfreed, hfree]
      exact h.freed.push hoccupied
    · have hfewer := List.length_filter_le (· ≠ t) (w.living registry)
      rw [← hliving] at hfewer
      rw [hsize, hpeak]
      omega

/-- A registry knows its past at any time. -/
theorem History.recalls (h : History count w earlier) (hregistry : registry < count) :
    SoundWith count w ∧ ∃ r, w.registry registry = .ok r ∧ Recalls registry w earlier r := by
  induction h with
  | start =>
    have hsound : SoundWith count (World.empty count) := ⟨sound_empty count, Array.size_replicate⟩
    refine ⟨hsound, .empty, ?_, rfl, ?_, List.forall_mem_nil _⟩
    · rw [registry_eq_ok, World.empty, Array.getElem?_replicate, if_pos hregistry]
    · rfl
  | next h hstep ih =>
    obtain ⟨hsound, r, hr, hrecalls⟩ := ih
    obtain ⟨r', hr', hturn⟩ := hstep.turn hsound hr
    have hshown := hsound.sound.shows registry r (registry_eq_ok.mp hr)
    exact ⟨hsound.step hstep, r', hr',
      hrecalls.turn hshown (hstep.keepsThreads hsound hturn) hturn⟩

/--
What a registry is like in a world, after the worlds that were there before: its free slots are the
vacant ones, every other slot has one live thread, which had it from the start, the next thread gets
the vacant slot freed last or a new one, and there are as many slots as were needed at one time.
-/
structure KeepsSlots (registry : Nat) (w : World) (earlier : List World) (r : Registry) : Prop where
  vacant : ∀ slot, slot ∈ r.free ↔ r.entries[slot]? = some none
  once : r.free.Nodup
  holds : ∀ slot t, (∃ entry, r.entries[slot]? = some (some entry) ∧ entry.thread = t) ↔
    t ∈ w.living registry ∧ w.slotOf t = some slot
  apart : ∀ t ∈ w.living registry, ∀ t' ∈ w.living registry, w.slotOf t = w.slotOf t' → t = t'
  kept : ∀ w' ∈ earlier, ∀ t < w'.threads.size, t ∈ w.living registry →
    t ∈ w'.living registry ∧ w'.slotOf t = w.slotOf t
  takes : ∀ (name : Option String) (size : Option Nat) (stack : Stack),
    Stack.create size = .ok stack →
      ∃ w', World.create registry name size w = .ok w.threads.size w' ∧
        w'.slotOf w.threads.size =
          some (((freedSlots registry w earlier).find? fun slot =>
            r.entries[slot]? = some none).getD r.entries.size)
  size : r.entries.size = peak registry (w :: earlier)

/-- A place is a live thread and its slot. -/
theorem mem_places_iff {places : List Place} (hthreads : places.map Prod.snd = w.living registry)
    (hplaces : w.SlotsAt places) {slot : Nat} :
    (slot, t) ∈ places ↔ t ∈ w.living registry ∧ w.slotOf t = some slot := by
  constructor
  · intro hmem
    exact ⟨hthreads ▸ List.mem_map_of_mem hmem, hplaces _ hmem⟩
  · rintro ⟨hmem, hslot⟩
    obtain ⟨thread, ht, rfl⟩ := Option.map_eq_some_iff.mp hslot
    exact hplaces.mem ht (hthreads ▸ hmem)

/-- A thread that is created takes the vacant slot freed last, or a new one. -/
theorem Recalls.create (h : Recalls registry w earlier r) (hsound : SoundWith count w)
    (hregistry : registry < count) (hr : w.registry registry = .ok r)
    (hvacant : ∀ slot, slot ∈ r.free ↔ r.entries[slot]? = some none) (name : Option String)
    {size : Option Nat} {stack : Stack} (hstack : Stack.create size = .ok stack) :
    ∃ w', World.create registry name size w = .ok w.threads.size w' ∧
      w'.slotOf w.threads.size =
        some (((freedSlots registry w earlier).find? fun slot =>
          r.entries[slot]? = some none).getD r.entries.size) := by
  obtain ⟨_, _, hcreate, -⟩ := hsound.sound.create (hsound.size.symm ▸ hregistry) hstack name
  refine ⟨_, hcreate, ?_⟩
  obtain ⟨_, r₀, r', slot, hr₀, hregister, -, hw'⟩ := create_eq hcreate
  rw [hr] at hr₀
  cases hr₀
  obtain ⟨hslot, -⟩ := Registry.register_keeps hregister
  have hfirst : r.free.head? =
      (freedSlots registry w earlier).find? fun slot => r.entries[slot]? = some none := by
    rw [h.freed.head?_eq]
    simp only [hvacant]
  rw [hw', slotOf, withThread, Array.getElem?_push_size, Option.map_some, hslot, ← hfirst,
    Registry.slotToTake, List.headD_eq_head?_getD]

/-- A registry keeps its slots at any time. -/
theorem History.keepsSlots (h : History count w earlier) (hregistry : registry < count) :
    ∃ r, w.registry registry = .ok r ∧ KeepsSlots registry w earlier r := by
  obtain ⟨hsound, r, hr, hrecalls⟩ := h.recalls hregistry
  obtain ⟨places, hshows, hthreads, hplaces⟩ :=
    hsound.sound.shows registry r (registry_eq_ok.mp hr)
  refine ⟨r, hr, hshows.vacant, hshows.freeDistinct, fun slot t => ?_, ?_, ?_, ?_, hrecalls.size⟩
  · rw [hshows.holds_iff, mem_places_iff hthreads hplaces]
  · intro t hmem t' hmem' hsame
    rw [← hthreads, List.mem_map] at hmem
    obtain ⟨⟨slot, t⟩, hplace, rfl⟩ := hmem
    have hplace' : (slot, t') ∈ places :=
      (mem_places_iff hthreads hplaces).mpr ⟨hmem', hsame ▸ hplaces _ hplace⟩
    exact congrArg Prod.snd (List.inj_on_of_nodup_map hshows.distinct hplace hplace' rfl)
  · intro w' hmem t ht hliving
    have hkeeps := hrecalls.kept w' hmem
    exact ⟨hkeeps.living t ht hliving, (hkeeps.slotOf t ht).symm⟩
  · intro name size stack hstack
    exact hrecalls.create hsound hregistry hr hshows.vacant name hstack

/-- What was there before was there before at any time. -/
theorem History.of_suffix {all : List World} (h : History count w' all)
    (hsuffix : w :: earlier <:+ w' :: all) : History count w earlier := by
  induction h with
  | start =>
    rw [List.suffix_cons_iff] at hsuffix
    rcases hsuffix with heq | hsuffix
    · cases heq
      exact .start
    · exact absurd (List.suffix_nil.mp hsuffix) (List.cons_ne_nil _ _)
  | next h hstep ih =>
    rw [List.suffix_cons_iff] at hsuffix
    rcases hsuffix with heq | hsuffix
    · cases heq
      exact .next h hstep
    · exact ih hsuffix

/-- A run leads from a world to its final one, through the worlds that it passes. -/
def Leads (count : Nat) {α : Type} (w : World) (run : Run World α) : Prop :=
  ∀ earlier, History count w earlier → ∃ later,
    run.passed.reverse ++ w :: earlier = run.final :: later ∧ History count run.final later

/-- Running a thread leads through its creation and the worlds that its body passes. -/
theorem History.spawn (h : History count w earlier) (registry : Fin count) (name : Option String)
    (size : Option Nat) (refusal : Option String) {β : Type}
    {run : ThreadRef → World → Run World (Except Violation β)}
    (hrun : ∀ t w, Leads count w (run t w)) :
    let created := (outcome (World.create registry name size w)).2
    let made := outcome
      (World.spawn registry name size refusal (fun t => passing (run t)) (w, [created]))
    History count made.2.1 (made.2.2.reverse ++ w :: earlier) := by
  intro created made
  have hcreated := h.next (.create registry name size)
  cases hcreate : World.create registry name size w with
  | error halt w' =>
    rw [hcreate] at hcreated
    have hmade : made.2 = (w', [created]) := by
      simp only [made, World.spawn, World.start, hcreate, outcome]
    have hw' : created = w' := by simp only [created, hcreate, outcome]
    rw [hmade, hw']
    exact hcreated.next .stay
  | ok t w' =>
    rw [hcreate] at hcreated
    have hw' : created = w' := by simp only [created, hcreate, outcome]
    cases refusal with
    | some reason =>
      obtain ⟨halt, hstart⟩ := exists_start_eq hcreate reason
      have hmade : made.2 = ((outcome (World.drop t w')).2, [created]) := by
        simp only [made, World.spawn, hstart]
        rfl
      rw [hmade, hw']
      exact hcreated.next (.drop t)
    | none =>
      have hstart : World.start registry name size none w = .ok t w' := by
        simp only [World.start, hcreate]
      obtain ⟨later, hlater, hfinal⟩ := hrun t w' _ hcreated
      have hdropped := hfinal.next (.drop t)
      rw [← hlater] at hdropped
      rw [show made.2 = _ from states_spawn hstart run [created], hw']
      simpa using hdropped

end World

namespace WorldProgram

variable {count : Nat}

/-- The run of a program takes one step after another. -/
theorem leads_run {α : Type} (program : WorldProgram count α) (w : World) :
    World.Leads count w (program.run w) := by
  induction program generalizing w with
  | done result => exact fun earlier h => ⟨earlier, rfl, h⟩
  | raise violation => exact fun earlier h => ⟨earlier, rfl, h⟩
  | look question next ih => exact ih (question w) w
  | create registry name size next ih =>
    intro earlier h
    have hcreated := h.next (.create registry name size)
    obtain ⟨later, hlater, hfinal⟩ :=
      ih (outcome (World.create registry name size w)).1 _ _ hcreated
    exact ⟨later, by simpa [run] using hlater, hfinal⟩
  | drop t next ih =>
    intro earlier h
    obtain ⟨later, hlater, hfinal⟩ := ih (outcome (World.drop t w)).1 _ _ (h.next (.drop t))
    exact ⟨later, by simpa [run] using hlater, hfinal⟩
  | onStack t program next ih =>
    intro earlier h
    have hwork : World.onStack t program.onStack w =
        .ok (program.run (w.stackOf t)).result (w.setStack t (program.run (w.stackOf t)).final) :=
      World.onStack_eq t program.onStack w
    obtain ⟨later, hlater, hfinal⟩ := ih (program.run (w.stackOf t)).result _ _ (h.next (.work t _))
    refine ⟨later, ?_, ?_⟩
    · simpa [run, hwork] using hlater
    · simpa [run, hwork] using hfinal
  | spawn registry name size refusal body next ihBody ihNext =>
    intro earlier h
    have hspawned := h.spawn registry name size refusal ihBody
    obtain ⟨later, hlater, hfinal⟩ := ihNext (outcome (World.spawn registry name size refusal
      (fun t => passing (body t).run)
      (w, [(outcome (World.create registry name size w)).2]))).1 _ _ hspawned
    exact ⟨later, by simpa [run] using hlater, hfinal⟩

/--
In every state of every run, the slots of each registry are kept as said, with all states before it
as its past. No slot leaks, and none is shared.
-/
theorem slots_are_kept {α : Type} (program : WorldProgram count α) (registry : Fin count)
    {earlier : List World} {w : World}
    (hstart : earlier ++ [w] <+: program.states (World.empty count)) :
    ∃ r, w.registry registry = .ok r ∧ World.KeepsSlots registry w earlier.reverse r := by
  obtain ⟨later, hlater, hfinal⟩ := program.leads_run _ _ .start
  refine World.History.keepsSlots ((hfinal.next .stay).of_suffix ?_) registry.isLt
  rw [← hlater]
  simpa [states] using List.reverse_suffix.mpr hstart

/-- Three threads, of which two go before the fourth comes and another one goes after it. -/
def turnover : WorldProgram 1 Unit :=
  .create 0 none (some 64) fun _ =>
  .create 0 none (some 64) fun _ =>
  .create 0 none (some 64) fun _ =>
  .drop 0 fun _ =>
  .drop 2 fun _ =>
  .create 0 none (some 64) fun _ =>
  .drop 1 fun _ => .done ()

/-- The fourth thread has the slot freed last when it came, and the other two slots are free. -/
theorem slots_are_kept_turnover :
    ∃ (earlier : List World) (w : World) (r : Registry),
      earlier ++ [w] <+: turnover.states (World.empty 1) ∧ w.registry 0 = .ok r ∧
      World.KeepsSlots 0 w earlier.reverse r ∧ w.living 0 = [3] ∧ w.slotOf 3 = some 2 ∧
      r.free = [1, 0] ∧ World.freedSlots 0 w earlier.reverse = [1, 2, 0] ∧
      World.peak 0 (w :: earlier.reverse) = 3 := by
  have hstart : (World.empty 1 :: (turnover.run (World.empty 1)).passed) ++
      [(turnover.run (World.empty 1)).final] <+: turnover.states (World.empty 1) :=
    List.prefix_refl _
  obtain ⟨r, hr, hkeeps⟩ := slots_are_kept turnover 0 hstart
  have hfree : Registry.free <$> (turnover.run (World.empty 1)).final.registry 0 = .ok [1, 0] := by
    decide +kernel
  refine ⟨_, _, r, hstart, hr, hkeeps, by decide +kernel, by decide +kernel, ?_,
    by decide +kernel, by decide +kernel⟩
  rw [show (turnover.run (World.empty 1)).final.registry 0 = .ok r from hr] at hfree
  exact Except.ok.inj hfree

end WorldProgram

end ManagedCore
