import ManagedCore.CommandLine.Run
import ManagedCore.Proofs.Collector.ThreadScans
import ManagedCore.Proofs.Demonstration.CallChains

/-!
# Parked mutators

All mutators build the same chain and are parked with it. A scan of them counts the levels of each
chain and two roots for each level, all of them references. How a chain ended is looked at behind
the scan, and only to tell it in a message.

Main statement: what a run of the program reports, for any number of mutators that can be started,
any depth and any stack that can be allocated, whatever is around the program.
-/

namespace ManagedCore.Demonstration

open World (SoundWith)

variable {capacity count : Nat}

/-! ## Scans of chains -/

/-- The roots of a level are its two arguments. -/
theorem roots_levelOn (p : PrivateStack) (level id : Nat) :
    (levelOn p level).header.roots id =
      [0, 1].map fun slot => ⟨id, (levelOn p level).header, slot, ⟨0, 0, slot⟩⟩ := rfl

/-- A chain has two roots for each level. -/
theorem length_tableRoots_chained (capacity count : Nat) :
    (tableRoots (chained capacity count).headers).length = 2 * count := by
  induction count with
  | zero => rfl
  | succ count ih =>
    rw [chained, PrivateStack.extend, PrivateStack.headers, List.map_append,
      ← PrivateStack.headers, List.map_singleton, tableRoots_concat, List.length_append, ih,
      roots_levelOn]
    simp only [List.length_map, List.length_cons, List.length_nil]
    omega

/-- Every root of a chain is a variable of its frame, and has a reference. -/
theorem reference_of_mem_tableRoots (capacity count : Nat) {root : Root}
    (hmem : root ∈ tableRoots (chained capacity count).headers) :
    root.inside = true ∧ ∃ activation value,
      (chained capacity count).frames[root.id]? = some activation ∧
        activation.locals[root.slot]? = some value ∧ value.isReference = true := by
  simp only [tableRoots, chainRoots, List.mem_flatMap] at hmem
  obtain ⟨⟨id, frame⟩, hframe, hroot⟩ := hmem
  have hid := mem_tableChain.mp hframe
  rw [PrivateStack.headers, List.getElem?_map, Option.map_eq_some_iff] at hid
  obtain ⟨activation, hactivation, rfl⟩ := hid
  have hlt := (List.getElem?_eq_some_iff.mp hactivation).1
  rw [length_chained] at hlt
  have hlevel := getElem?_chained capacity hlt
  rw [hactivation] at hlevel
  cases hlevel
  rw [roots_levelOn, List.mem_map] at hroot
  obtain ⟨slot, hslot, rfl⟩ := hroot
  obtain rfl | rfl : slot = 0 ∨ slot = 1 := by simpa using hslot
  · exact ⟨rfl, _, _, hactivation, rfl, isReference_objectValue id 0⟩
  · exact ⟨rfl, _, _, hactivation, rfl, isReference_objectValue id 1⟩

/-- The collector counts the references that it meets, and leaves them as they are. -/
theorem visitAll_referenceCounter {p : PrivateStack} {roots : List Root}
    (hroots : ∀ root ∈ roots, ∃ activation value, p.frames[root.id]? = some activation ∧
      activation.locals[root.slot]? = some value ∧ value.isReference = true) (met : Nat) :
    visitAll (PrivateStack.visitRoot referenceCounter) roots (p, met) =
      .ok () (p, met + roots.length) := by
  induction roots generalizing met with
  | nil => rfl
  | cons root rest ih =>
    obtain ⟨activation, value, hid, hvalue, hreference⟩ := hroots root List.mem_cons_self
    have hlocals : activation.locals.set root.slot value = activation.locals := by
      obtain ⟨hlt, rfl⟩ := List.getElem?_eq_some_iff.mp hvalue
      exact List.set_getElem_self hlt
    have hvisit : PrivateStack.visitRoot referenceCounter root (p, met) = .ok () (p, met + 1) := by
      simp only [PrivateStack.visitRoot, PrivateStack.activation, hid, Visit.on, referenceCounter,
        Visitor.ofMark, List.getD_eq_getElem?_getD, hvalue, Option.getD_some, hreference, if_true,
        hlocals]
      rw [PrivateStack.setFrame_self hid]
    simp only [visitAll, hvisit]
    rw [ih fun other hother => hroots other (List.mem_cons_of_mem _ hother), List.length_cons,
      Nat.add_assoc, Nat.add_comm 1]

/-- A scan of a chain meets its levels and twice as many references. -/
theorem scan_chained (capacity count met : Nat) :
    PrivateStack.scan referenceCounter (chained capacity count, met) =
      .ok ⟨1, count, 2 * count⟩ (chained capacity count, met + 2 * count) := by
  have hroots := length_tableRoots_chained capacity count
  have hinside : ∀ root ∈ tableRoots (chained capacity count).headers, root.inside = true :=
    fun root hmem => (reference_of_mem_tableRoots capacity count hmem).1
  have hvisit := visitAll_referenceCounter
    (fun root hmem => (reference_of_mem_tableRoots capacity count hmem).2) met
  have hlength : (chained capacity count).headers.length = count := by
    rw [PrivateStack.headers, List.length_map, length_chained]
  have hnone : (tableRoots (chained capacity count).headers).find? (fun root => !root.inside) =
      none := by
    rw [List.find?_eq_none]
    intro root hmem
    simp [hinside root hmem]
  rw [PrivateStack.scan, scanRoots]
  simp only [List.takeWhile_eq_self_iff.mpr hinside, hvisit, hnone, hroots, hlength]

/-- The edges of a stack that shows a chain are its references. -/
theorem visitEdges_of_shows {s : Stack} (h : s.Shows (chained capacity count)) (met : Nat) :
    s.counts = ⟨1, count, 2 * count⟩ ∧
      ∃ s', visitEdges referenceCounter (s, met) = .ok () (s', met + 2 * count) := by
  have hscan := Stack.scan_refines h.sound referenceCounter met
  rw [h.view, scan_chained] at hscan
  generalize hresult : Stack.scan referenceCounter (s, met) = result at hscan
  cases hscan with
  | @ok _ state _ hshows =>
    obtain ⟨s', met'⟩ := state
    obtain ⟨-, rfl⟩ := hshows
    refine ⟨(h.sound.eq_counts hresult).symm, s', ?_⟩
    simp only [visitEdges, hresult]

/-- The edges of several such stacks are all of their references. -/
theorem items_of_shows {given : List Stack}
    (h : ∀ s ∈ given, s.Shows (chained capacity count)) (met : Nat) :
    ∃ visited, Visit.items (visitEdges referenceCounter) (given, met) =
      .ok () (visited, met + given.length * (2 * count)) := by
  induction given generalizing met with
  | nil => exact ⟨[], by simp [Visit.items, Visit.each]⟩
  | cons s rest ih =>
    obtain ⟨-, s', hvisit⟩ := visitEdges_of_shows (h s List.mem_cons_self) met
    obtain ⟨visited, hrest⟩ := ih (fun other hother => h other (List.mem_cons_of_mem _ hother))
      (met + 2 * count)
    refine ⟨s' :: visited, ?_⟩
    simp only [Visit.items, Visit.each, hvisit] at hrest ⊢
    rw [hrest, List.length_cons, Nat.add_one_mul rest.length, Nat.add_comm (rest.length * _),
      ← Nat.add_assoc]

/-! ## Mutators -/

/-- All threads of the world are in its only registry, and each has this stack. -/
structure Parked (w : World) (threads : Nat) (s : Stack) : Prop where
  sound : SoundWith 1 w
  size : w.threads.size = threads
  living : w.living 0 = (List.range threads).reverse
  stackOf : ∀ t < threads, w.stackOf t = s

variable {w : World} {threads depth : Nat} {size : Option Nat} {s first : Stack}
  {result : MutatorOutcome}

/-- In a new world no thread is parked. -/
theorem parked_empty (s : Stack) : Parked (World.empty 1) 0 s where
  sound := ⟨World.sound_empty 1, Array.size_replicate⟩
  size := rfl
  living := rfl
  stackOf t ht := absurd ht (Nat.not_lt_zero t)

namespace Parked

/-- One more thread is parked when it has the same stack. -/
theorem withThread (h : Parked w threads s) {r : Registry} {thread : Thread}
    (halive : thread.alive = true) (hregistry : thread.registry = 0)
    (hsound : (w.withThread r thread).Sound) :
    Parked ((w.withThread r thread).setStack threads s) (threads + 1) s := by
  have hsize : (w.withThread r thread).threads.size = threads + 1 := by
    rw [World.withThread, Array.size_push, h.size]
  have hliving := World.living_withThread w r thread halive 0
  rw [if_pos hregistry, h.size, h.living] at hliving
  refine ⟨?_, ?_, ?_, fun t ht => ?_⟩
  · refine SoundWith.setStack ⟨hsound, ?_⟩ threads s
    rw [World.withThread, Array.size_setIfInBounds]
    exact h.sound.size
  · rw [World.setStack, Array.size_modify, hsize]
  · rw [(hsound.setStack threads s).2, hliving, List.range_succ, List.reverse_append]
    rfl
  · rcases Nat.lt_or_eq_of_le (Nat.le_of_lt_succ ht) with hlt | rfl
    · rw [World.stackOf_setStack_of_ne _ _ (Nat.ne_of_lt hlt), ← h.stackOf t hlt, World.stackOf,
        World.stackOf, World.withThread, Array.getElem?_push_lt (h.size ▸ hlt),
        Array.getElem?_eq_getElem (h.size ▸ hlt)]
    · exact World.stackOf_setStack_self s (hsize ▸ Nat.lt_succ_self t)

/-- One more mutator is started and parked, if the operating system does not refuse. -/
theorem startMutator (h : Parked w threads s) (hcreate : Stack.create size = .ok first)
    (hbuild : outcome (buildChain depth 0 first) = (result, s)) (index : Nat) :
    ∃ w', Demonstration.startMutator index depth size none w = .ok result w' ∧
      Parked w' (threads + 1) s := by
  have hregistry : 0 < w.registries.size := by
    rw [h.sound.size]
    exact Nat.one_pos
  obtain ⟨r, slot, hthread, hsound⟩ :=
    h.sound.sound.create hregistry hcreate (some s!"mutator-{index}")
  refine ⟨_, ?_, h.withThread rfl rfl hsound⟩
  have hstack : (w.withThread r ⟨w.nextId, some s!"mutator-{index}", 0, slot, true, first⟩).stackOf
      threads = first := by
    rw [World.stackOf, World.withThread, ← h.size, Array.getElem?_push_size]
    rfl
  rw [h.size] at hthread
  simp only [Demonstration.startMutator, bind, EStateM.bind, World.start, hthread,
    World.onStack_eq, hstack]
  cases hresult : buildChain depth 0 first with
  | ok _ s' =>
    rw [hresult] at hbuild
    cases hbuild
    rfl
  | error halt s' =>
    rw [hresult] at hbuild
    cases hbuild
    rfl

/-- All mutators are started and parked, and each ends in the same way. -/
theorem startMutators (h : Parked w threads s) (hcreate : Stack.create size = .ok first)
    (hbuild : outcome (buildChain depth 0 first) = (result, s)) {refusals : Nat → Option String}
    (more index : Nat) (hstarts : ∀ other < index + more, refusals other = none) :
    ∃ w', Demonstration.startMutators depth size refusals more index w =
        .ok (List.replicate more result) w' ∧
      Parked w' (threads + more) s := by
  induction more generalizing w threads index with
  | zero => exact ⟨w, rfl, h⟩
  | succ more ih =>
    obtain ⟨w₁, hstart, hparked⟩ := h.startMutator hcreate hbuild index
    obtain ⟨w₂, hrest, hall⟩ := ih hparked (index + 1)
      fun other hother => hstarts other (by omega)
    refine ⟨w₂, ?_, by rwa [Nat.add_right_comm, Nat.add_assoc] at hall⟩
    simp only [Demonstration.startMutators, bind, EStateM.bind, hstarts index (by omega), hstart,
      hrest]
    rfl

/-- The first mutator that the operating system refuses ends this. -/
theorem startMutators_of_refusal (h : Parked w threads s) (hcreate : Stack.create size = .ok first)
    (hbuild : outcome (buildChain depth 0 first) = (result, s)) {refusals : Nat → Option String}
    {reason : String} (before more index : Nat)
    (hstarts : ∀ other < index + before, refusals other = none)
    (hrefusal : refusals (index + before) = some reason) :
    ∃ w', Demonstration.startMutators depth size refusals (before + (more + 1)) index w =
      .error (.fault (.nativeThread reason)) w' := by
  induction before generalizing w threads index with
  | zero =>
    obtain ⟨w', hstart, -⟩ :=
      h.sound.start_of_refusal 0 (some s!"mutator-{index}") hcreate reason
    have hrefused : World.start 0 (some s!"mutator-{index}") size (refusals index) w =
        .error (.fault (.nativeThread reason)) w' := hrefusal ▸ hstart
    rw [Nat.zero_add]
    refine ⟨w', ?_⟩
    rw [Demonstration.startMutators]
    simp only [Demonstration.startMutator, bind, EStateM.bind, hrefused]
  | succ before ih =>
    obtain ⟨w₁, hstart, hparked⟩ := h.startMutator hcreate hbuild index
    obtain ⟨w', hrest⟩ := ih hparked (index + 1) (fun other hother => hstarts other (by omega))
      (by rwa [Nat.add_right_comm, Nat.add_assoc])
    rw [Nat.add_right_comm]
    refine ⟨w', ?_⟩
    rw [Demonstration.startMutators]
    simp only [bind, EStateM.bind, hstarts index (by omega), hstart, hrest]

/-- All stacks are sound if the one of all threads is. -/
theorem sound_stackOf (h : Parked w threads s) (hs : s.Sound) (t : ThreadRef) :
    (w.stackOf t).Sound := by
  rcases Nat.lt_or_ge t threads with hlt | hge
  · rw [h.stackOf t hlt]
    exact hs
  · rw [World.stackOf, Array.getElem?_eq_none (h.size.trans_le hge)]
    exact Stack.sound_empty

/-- What scans of parked threads meet. -/
theorem total_census (h : Parked w threads s) (hshows : s.Shows (chained capacity count)) :
    ScanStats.total (.zero :: w.census (w.living 0)) =
      ⟨threads, threads * count, threads * (2 * count)⟩ := by
  have hcensus : w.census (w.living 0) = List.replicate threads ⟨1, count, 2 * count⟩ := by
    rw [World.census, h.living, List.eq_replicate_iff]
    refine ⟨by simp, fun stats hmem => ?_⟩
    obtain ⟨t, ht, rfl⟩ := List.mem_map.mp hmem
    rw [List.mem_reverse, List.mem_range] at ht
    rw [h.stackOf t ht]
    exact (visitEdges_of_shows hshows 0).1
  rw [World.total_zero_cons, hcensus]
  simp [ScanStats.total]

/-- The threads of the registry are the parked ones. -/
theorem lt_of_mem (h : Parked w threads s) {t : ThreadRef} (hmem : t ∈ w.living 0) :
    t < threads := by
  rwa [h.living, List.mem_reverse, List.mem_range] at hmem

/-- The stacks of parked threads are visited without a halt. -/
theorem items (h : Parked w threads s) (hshows : s.Shows (chained capacity count))
    (given : List ThreadRef) (hgiven : ∀ t ∈ given, t < threads) :
    ∃ visited, Visit.items (visitEdges referenceCounter) (given.map w.stackOf, 0) =
      .ok () (visited, given.length * (2 * count)) := by
  have hall : ∀ s' ∈ given.map w.stackOf, s'.Shows (chained capacity count) := by
    intro s' hmem
    obtain ⟨t, ht, rfl⟩ := List.mem_map.mp hmem
    rw [h.stackOf t (hgiven t ht)]
    exact hshows
  obtain ⟨visited, hvisit⟩ := items_of_shows hall 0
  rw [List.length_map, Nat.zero_add] at hvisit
  exact ⟨visited, hvisit⟩

/-- A scan of parked threads meets all levels and arguments of all of them. -/
theorem scanAll_of_lt (h : Parked w threads s) (hshows : s.Shows (chained capacity count))
    (hthreads : threads < wordLimit) (hroots : threads * (2 * count) < wordLimit) :
    ∃ w', World.scanAll 0 referenceCounter (w, 0) =
      .ok ⟨threads, threads * count, threads * (2 * count)⟩ (w', threads * (2 * count)) := by
  have htotal := h.total_census hshows
  have hframes : threads * count ≤ threads * (2 * count) := Nat.mul_le_mul_left threads (by omega)
  have hcountable : (ScanStats.total (.zero :: w.census (w.living 0))).Countable := by
    rw [htotal]
    exact ⟨hthreads, hframes.trans_lt hroots, hroots⟩
  obtain ⟨visited, hvisit⟩ := h.items hshows (w.living 0) fun t => h.lt_of_mem
  have hlength : (w.living 0).length = threads := by
    rw [h.living, List.length_reverse, List.length_range]
  have hscan : World.scanThreads referenceCounter (w.living 0) .zero (w, 0) = _ :=
    World.scanThreads_eq (World.nodup_living w 0) (h.sound_stackOf hshows.sound) hcountable 0
  have hlisted : w.liveThreads 0 = .ok (w.living 0) := h.sound.listsThreads.threads 0
  rw [hvisit, htotal, hlength] at hscan
  refine ⟨w.withStacks (w.living 0) visited, ?_⟩
  simp only [World.scanAll, hlisted]
  exact hscan

/-- A scan of parked threads that meets more than words can tell is a violation. -/
theorem scanAll_of_le (h : Parked w threads s) (hshows : s.Shows (chained capacity count))
    (hroots : wordLimit ≤ threads * (2 * count)) :
    ∃ state, World.scanAll 0 referenceCounter (w, 0) = .error .additionOverflow state := by
  have hover : ¬(ScanStats.total (.zero :: w.census (w.living 0))).Countable := by
    rw [h.total_census hshows]
    exact fun hcountable => Nat.not_lt.mpr hroots hcountable.2.2
  obtain ⟨earlier, t, later, hliving, hearlier, hover⟩ := World.exists_overflow (by decide) hover
  obtain ⟨visited, hvisit⟩ := h.items hshows (earlier ++ [t]) fun t' ht' =>
    h.lt_of_mem (by rw [hliving, List.append_cons]; exact List.mem_append_left later ht')
  have hscan : World.scanThreads referenceCounter (earlier ++ t :: later) .zero (w, 0) = _ :=
    World.scanThreads_of_overflow (hliving ▸ World.nodup_living w 0)
      (h.sound_stackOf hshows.sound) hearlier hover 0
  have hlisted : w.liveThreads 0 = .ok (w.living 0) := h.sound.listsThreads.threads 0
  rw [hvisit] at hscan
  refine ⟨(w.withStacks (earlier ++ [t]) visited, (earlier ++ [t]).length * (2 * count)), ?_⟩
  simp only [World.scanAll, hlisted]
  rw [hliving]
  exact hscan

end Parked

/-! ## Runs of the program -/

open CommandLine

/-- The barrier can count few enough mutators, and there is room for their handles. -/
theorem admits_mutators {threads : Nat} (hparties : threads + 1 < wordLimit)
    (hhandles : threads * handleBytes < allocationLimit) :
    (decide (wordLimit ≤ threads + 1) || decide (allocationLimit ≤ threads * handleBytes)) =
      false := by
  rw [decide_eq_false (Nat.not_le.mpr hparties), decide_eq_false (Nat.not_le.mpr hhandles),
    Bool.or_false]

/-- A mutator that the operating system refuses ends the run before the scan. -/
theorem demonstrate_of_refusal {around : Surroundings} {options : Options} {first : Stack}
    (hcreate : Stack.create options.stackSize = .ok first)
    (hparties : options.threads.getD defaultThreads + 1 < wordLimit)
    (hhandles : options.threads.getD defaultThreads * handleBytes < allocationLimit)
    {index : Nat} (hindex : index < options.threads.getD defaultThreads) {reason : String}
    (hstarts : ∀ other < index, around.refusals other = none)
    (hrefusal : around.refusals index = some reason) :
    demonstrate around options =
      { exit := 1
        output := ""
        errors := [s!"Error: could not start native thread: {reason}"] } := by
  obtain ⟨s, hbuild, -⟩ := buildChain_of_isEmpty (Stack.sound_create hcreate)
    (Stack.isEmpty_create hcreate).1 (options.depth.getD defaultDepth)
  obtain ⟨more, hthreads⟩ := Nat.exists_eq_add_of_lt hindex
  obtain ⟨w', hstart⟩ := (parked_empty s).startMutators_of_refusal hcreate hbuild index more 0
    (by simpa using hstarts) (by simpa using hrefusal)
  rw [← Nat.add_assoc, ← hthreads] at hstart
  simp only [demonstrate, admits_mutators hparties hhandles, Bool.false_eq_true, if_false, hstart]
  rfl

/-- What joining mutators comes to that all ended in the same way. -/
theorem joined_replicate (informs : Bool) (threads capacity depth : Nat) :
    joined informs (List.replicate threads (chainOutcome capacity depth)) =
      if (0 < threads ∧ capacity / 152 - 1 < depth) ∧ informs = true then
        some (.fault (.stackOverflow 152 (capacity % 152)))
      else none := by
  induction threads with
  | zero => rfl
  | succ threads ih =>
    rw [chainOutcome] at ih
    rw [List.replicate_succ, chainOutcome]
    by_cases hfits : depth ≤ capacity / 152 - 1
    · simp only [if_pos hfits, joined] at ih ⊢
      rw [ih]
      simp [Nat.not_lt.mpr hfits]
    · simp only [if_neg hfits, joined] at ih ⊢
      rw [ih]
      cases informs with
      | false => simp
      | true => simp [Nat.not_le.mp hfits]

/-- The levels that all mutators reach together, in arenas of so many bytes. -/
def framesOf (options : Options) (capacity : Nat) : Nat :=
  options.threads.getD defaultThreads * levels capacity (options.depth.getD defaultDepth)

/-- Whether there is a mutator, and it is to go deeper than an arena of so many bytes allows. -/
def EndsEarly (options : Options) (capacity : Nat) : Prop :=
  0 < options.threads.getD defaultThreads ∧
    capacity / 152 - 1 < options.depth.getD defaultDepth

instance (options : Options) (capacity : Nat) : Decidable (EndsEarly options capacity) :=
  inferInstanceAs (Decidable (_ ∧ _))

/--
What the program reports when its mutators get arenas of so many bytes: what they left, and then
either the fault that they ended with or the dictionary.
-/
def reportOf (around : Surroundings) (options : Options) (capacity : Nat) (failed : Bool) :
    Report :=
  let threads := options.threads.getD defaultThreads
  let frames := framesOf options capacity
  let output := s!"scanned {threads} threads, {frames} frames, {2 * frames} roots " ++
    s!"({2 * frames} references)\n"
  if failed then
    { exit := 1
      output := output
      errors :=
        [s!"Error: stack overflow: frame needs 152 bytes, {capacity % 152} bytes left"] }
  else reportDictionary around.hasher (options.keys.getD defaultKeys) output

/-- A report on the dictionary is no report on a fault. -/
theorem reportOf_inj {around : Surroundings} {options : Options} {capacity : Nat}
    {failed failed' : Bool} :
    reportOf around options capacity failed = reportOf around options capacity failed' ↔
      failed = failed' := by
  have hquiet (keys : Nat) (output : String) :
      (reportDictionary around.hasher keys output).errors = [] := by
    rw [reportDictionary]
    split <;> rfl
  constructor
  · intro h
    have herrors := congrArg Report.errors h
    cases failed <;> cases failed' <;> simp [reportOf, hquiet] at herrors ⊢
  · rintro rfl
    rfl

/--
With arenas that are granted, and few enough mutators, all of which are started, the program reports
what they left. The fault that they ended with is told if the logger informs.
-/
theorem demonstrate_eq (around : Surroundings) {options : Options} {first : Stack}
    (hcreate : Stack.create options.stackSize = .ok first)
    (hparties : options.threads.getD defaultThreads + 1 < wordLimit)
    (hhandles : options.threads.getD defaultThreads * handleBytes < allocationLimit)
    (hstarts : ∀ index < options.threads.getD defaultThreads, around.refusals index = none) :
    demonstrate around options =
      if wordLimit ≤ 2 * framesOf options first.capacity then .violated ""
      else reportOf around options first.capacity
        (EndsEarly options first.capacity ∧ around.informs (.ofVerbosity options.verbosity)) := by
  obtain ⟨s, hbuild, hshows⟩ := buildChain_of_isEmpty (Stack.sound_create hcreate)
    (Stack.isEmpty_create hcreate).1 (options.depth.getD defaultDepth)
  obtain ⟨w, hstart, hparked⟩ := (parked_empty s).startMutators hcreate hbuild
    (options.threads.getD defaultThreads) 0 (by simpa using hstarts)
  rw [Nat.zero_add] at hparked
  have hframes : options.threads.getD defaultThreads *
      (2 * levels first.capacity (options.depth.getD defaultDepth)) =
        2 * framesOf options first.capacity := Nat.mul_left_comm ..
  simp only [demonstrate, admits_mutators hparties hhandles, Bool.false_eq_true, if_false, hstart]
  by_cases hroots : wordLimit ≤ 2 * framesOf options first.capacity
  · obtain ⟨state, hscan⟩ := hparked.scanAll_of_le hshows (hframes ▸ hroots)
    simp only [hscan, if_pos hroots]
  · obtain ⟨w', hscan⟩ := hparked.scanAll_of_lt hshows (by omega) (hframes ▸ Nat.not_le.mp hroots)
    rw [hframes, ← framesOf] at hscan
    have hjoined : joined (around.informs (.ofVerbosity options.verbosity))
        (List.replicate (options.threads.getD defaultThreads)
          (chainOutcome first.capacity (options.depth.getD defaultDepth))) =
        if EndsEarly options first.capacity ∧
            around.informs (.ofVerbosity options.verbosity) = true then
          some (.fault (.stackOverflow 152 (first.capacity % 152)))
        else none := joined_replicate ..
    simp only [hscan, if_neg hroots, hjoined, reportOf, decide_eq_true_eq]
    by_cases hends : EndsEarly options first.capacity ∧
        around.informs (.ofVerbosity options.verbosity) = true
    · simp only [if_pos hends]
      rfl
    · simp only [if_neg hends]
      rfl

/--
On an empty stack the levels of a chain are those that leave room for one more frame, whatever the
depth; a chain that was to be deeper ends with an overflow by one frame. The program reports the
levels of all mutators, unless they are more than words can count, for which there are not enough
addresses. It fails with the fault of a chain that ended early exactly if the logger informs.
-/
theorem parked_mutators_report (around : Surroundings) {options : Options} {first : Stack}
    (hcreate : Stack.create options.stackSize = .ok first)
    (hparties : options.threads.getD defaultThreads + 1 < wordLimit)
    (hhandles : options.threads.getD defaultThreads * handleBytes < allocationLimit)
    (hstarts : ∀ index < options.threads.getD defaultThreads, around.refusals index = none) :
    (∀ (s : Stack) (depth : Nat), s.Reachable → s.isEmpty = true →
      ∃ s', outcome (buildChain depth 0 s) = (chainOutcome s.capacity depth, s') ∧
        HoldsChain s' (levels s.capacity depth)) ∧
    first.capacity = options.stackSize.getD defaultStackBytes / cellBytes * cellBytes ∧
    (wordLimit ≤ 2 * framesOf options first.capacity →
      demonstrate around options = .violated "") ∧
    (2 * framesOf options first.capacity < wordLimit →
      demonstrate around options = reportOf around options first.capacity
        (EndsEarly options first.capacity ∧ around.informs (.ofVerbosity options.verbosity)) ∧
      (demonstrate around options =
          reportOf around options first.capacity (EndsEarly options first.capacity) ↔
        (EndsEarly options first.capacity →
          around.informs (.ofVerbosity options.verbosity) = true))) := by
  have hreport := demonstrate_eq around hcreate hparties hhandles hstarts
  refine ⟨fun s depth hs hempty => ?_, (Stack.isEmpty_create hcreate).2, fun hroots => ?_,
    fun hroots => ?_⟩
  · obtain ⟨s', hbuild, hshows⟩ := buildChain_of_isEmpty hs.sound hempty depth
    exact ⟨s', hbuild, holdsChain_of_shows hshows⟩
  · rw [hreport, if_pos hroots]
  · rw [if_neg (Nat.not_le.mpr hroots)] at hreport
    refine ⟨hreport, ?_⟩
    rw [hreport, reportOf_inj, decide_eq_decide, and_iff_left_iff_imp]

/-- Two mutators that are to go deeper than their arenas of three frames allow. -/
def crowded : Options where
  threads := some 2
  depth := some 3
  stackSize := some 460
  keys := some 1
  verbosity := 1

/-- A logger whose own settings silence it. -/
def silenced : Surroundings := { Surroundings.plain with informs := fun _ => false }

/--
Of three frames two are used, and the chain ends where the nested call finds no room. The program
fails if the logger follows the command line, and does not if its own settings silence it.
-/
theorem parked_mutators_report_crowded :
    ∃ s s', Stack.create crowded.stackSize = .ok s ∧
      outcome (buildChain 3 0 s) = (.error (.fault (.stackOverflow 152 0)), s') ∧
      HoldsChain s' 2 ∧
      demonstrate .plain crowded = ⟨1, "scanned 2 threads, 4 frames, 8 roots (8 references)\n",
        ["Error: stack overflow: frame needs 152 bytes, 0 bytes left"]⟩ ∧
      demonstrate silenced crowded = ⟨0, "scanned 2 threads, 4 frames, 8 roots (8 references)\n" ++
        "dictionary: 0 keys in 8 buckets (1 removed, 8 buckets after removal)\n", []⟩ := by
  have hcreate : Stack.create crowded.stackSize =
      .ok { Stack.empty with cells := Array.replicate 57 .zero } := rfl
  obtain ⟨hchain, -, -, hreport⟩ :=
    parked_mutators_report .plain hcreate (by decide) (by decide) fun _ _ => rfl
  obtain ⟨-, -, -, hsilent⟩ :=
    parked_mutators_report silenced hcreate (by decide) (by decide) fun _ _ => rfl
  obtain ⟨s', hbuild, hholds⟩ := hchain _ 3 (Stack.reachable_final (.done ()) hcreate) rfl
  refine ⟨_, s', hcreate, hbuild, hholds, ?_, ?_⟩
  · rw [(hreport (by decide)).1]
    decide +kernel
  · rw [(hsilent (by decide)).1]
    decide +kernel

/--
Without messages a chain that ended early is passed over: the program goes on with the dictionary
and reports no fault.
-/
theorem parked_mutators_end_quietly :
    outcome (buildChain 1 0 { Stack.empty with cells := Array.replicate 19 .zero }) =
        (.error (.fault (.stackOverflow 152 0)),
          { Stack.empty with cells := Array.replicate 19 .zero }) ∧
      run .plain ["--threads", "1", "--depth", "1", "--stack-size", "152", "--keys", "1"] =
        ⟨0, "scanned 1 threads, 0 frames, 0 roots (0 references)\n" ++
          "dictionary: 0 keys in 8 buckets (1 removed, 8 buckets after removal)\n", []⟩ := by
  decide +kernel

end ManagedCore.Demonstration
