import ManagedCore.Proofs.Threads.Stacks

/-!
# Scans of all live threads

A scan of a registry walks its list, takes one stack after another out of the world and puts it
back, and adds up what it meets. It does to the stacks of the live threads what a collector does
that visits them as the items of one list, newest thread first.

Main statement: in every reachable world, with any collector, the scan makes the visits of the
single scans in this order and reports the sums of what they meet; where it halts, the stacks behind
are as they were. No other thread changes.
-/

namespace ManagedCore

namespace ScanStats

/-- The sums of what several scans met. -/
def total (found : List ScanStats) : ScanStats where
  threads := (found.map ScanStats.threads).sum
  frames := (found.map ScanStats.frames).sum
  roots := (found.map ScanStats.roots).sum

/-- Whether the counters are words. -/
def Countable (stats : ScanStats) : Prop :=
  stats.threads < wordLimit ∧ stats.frames < wordLimit ∧ stats.roots < wordLimit

instance : DecidablePred Countable := fun _ => inferInstanceAs (Decidable (_ ∧ _))

/-- The counters of two scans are words together if each sum is one. -/
theorem countable_pair {stats other : ScanStats} : (total [stats, other]).Countable ↔
    stats.threads + other.threads < wordLimit ∧ stats.frames + other.frames < wordLimit ∧
      stats.roots + other.roots < wordLimit := by
  simp [Countable, total]

/-- Sums of words are added. -/
theorem accumulate_of_countable {stats other : ScanStats} (h : (total [stats, other]).Countable) :
    accumulate other stats = .ok () (total [stats, other]) := by
  obtain ⟨hthreads, hframes, hroots⟩ := countable_pair.mp h
  simp [accumulate, addWord_of_lt hthreads, addWord_of_lt hframes, addWord_of_lt hroots, total]

/-- A sum that is no word is an overflow. -/
theorem accumulate_of_not_countable {stats other : ScanStats}
    (h : ¬(total [stats, other]).Countable) :
    ∃ reached, accumulate other stats = .error .additionOverflow reached := by
  rw [countable_pair] at h
  simp only [accumulate, addWord]
  by_cases hthreads : stats.threads + other.threads < wordLimit
  · by_cases hframes : stats.frames + other.frames < wordLimit
    · have hroots : ¬stats.roots + other.roots < wordLimit :=
        fun hroots => h ⟨hthreads, hframes, hroots⟩
      simp [hthreads, hframes, hroots]
    · simp [hthreads, hframes]
  · simp [hthreads]

/-- A sum may stand for what was summed up. -/
theorem total_cons_total (found more : List ScanStats) :
    total (total found :: more) = total (found ++ more) := by
  simp [total]

/-- Sums of less are words if those of more are. -/
theorem Countable.of_append {found more : List ScanStats} (h : (total (found ++ more)).Countable) :
    (total found).Countable := by
  simp only [Countable, total, List.map_append, List.sum_append] at h ⊢
  omega

end ScanStats

namespace Stack

variable {σ : Type}

/-- What a scan of a stack meets, by its headers. -/
def counts (s : Stack) : ScanStats := ⟨1, s.headers.length, (tableRoots s.headers).length⟩

/-- A scan that does not halt reports what the headers say. -/
theorem Sound.eq_counts {s : Stack} (h : s.Sound) {visitor : Visitor σ} {memory : σ}
    {stats : ScanStats} {state : Stack × σ} (hscan : scan visitor (s, memory) = .ok stats state) :
    stats = s.counts := by
  rw [scan_eq h, scanRoots] at hscan
  split at hscan
  next => cases hscan
  next =>
    split at hscan
    next => cases hscan
    next =>
      cases hscan
      rfl

end Stack

namespace World

variable {σ : Type} {visitor : Visitor σ} {w : World} {t : ThreadRef} {threads : List ThreadRef}

/-- What scans of these threads meet. -/
def census (w : World) (threads : List ThreadRef) : List ScanStats :=
  threads.map fun t => (w.stackOf t).counts

/-- Threads are scanned group by group. -/
theorem scanThreads_append (visitor : Visitor σ) (threads more : List ThreadRef)
    (stats : ScanStats) (state : World × σ) :
    scanThreads visitor (threads ++ more) stats state =
      match scanThreads visitor threads stats state with
      | .error violation state => .error violation state
      | .ok stats state => scanThreads visitor more stats state := by
  induction threads generalizing stats state with
  | nil => rfl
  | cons t rest ih =>
    simp only [List.cons_append, scanThreads]
    cases scanThread visitor t state with
    | error violation state => rfl
    | ok found state =>
      simp only
      cases ScanStats.accumulate found stats with
      | error violation _ => rfl
      | ok _ stats => exact ih stats state

/-- Threads that are scanned keep their stacks to be visited as the items of a list. -/
theorem scanThreads_eq (hnodup : threads.Nodup) (hsound : ∀ t, (w.stackOf t).Sound)
    {stats : ScanStats} (hcount : (ScanStats.total (stats :: w.census threads)).Countable)
    (memory : σ) :
    scanThreads visitor threads stats (w, memory) =
      match Visit.items (visitEdges visitor) (threads.map w.stackOf, memory) with
      | .error violation (visited, memory) =>
        .error violation (w.withStacks threads visited, memory)
      | .ok _ (visited, memory) =>
        .ok (ScanStats.total (stats :: w.census threads)) (w.withStacks threads visited, memory) := by
  induction threads generalizing w stats memory with
  | nil => simp [scanThreads, Visit.items, Visit.each, census, withStacks, ScanStats.total]
  | cons t rest ih =>
    obtain ⟨ht, hrest⟩ := List.nodup_cons.mp hnodup
    simp only [scanThreads, scanThread_eq, Visit.on, List.map_cons, Visit.items, Visit.each,
      visitEdges]
    cases hscan : Stack.scan visitor (w.stackOf t, memory) with
    | error violation state =>
      simp only [withStacks]
      -- The list of visited items ends with the stacks behind, which their threads have already.
      rw [← map_stackOf_setStack w state.1 ht, withStacks_stackOf]
    | ok found state =>
      obtain rfl := (hsound t).eq_counts hscan
      have hfirst : state.1.Sound := by
        have hafter := Stack.sound_scan (hsound t) visitor memory
        rwa [hscan] at hafter
      have hstacks := map_stackOf_setStack w state.1 ht
      have hcensus : (w.setStack t state.1).census rest = w.census rest := by
        simpa [census] using congrArg (List.map Stack.counts) hstacks
      have htotal : ScanStats.total
          (ScanStats.total [stats, (w.stackOf t).counts] :: (w.setStack t state.1).census rest) =
          ScanStats.total (stats :: w.census (t :: rest)) := by
        rw [hcensus, ScanStats.total_cons_total]
        rfl
      have hboth : (ScanStats.total [stats, (w.stackOf t).counts]).Countable :=
        ScanStats.Countable.of_append (show (ScanStats.total
          ([stats, (w.stackOf t).counts] ++ w.census rest)).Countable from hcount)
      have htail := ih hrest (sound_stackOf_setStack hsound hfirst t) (htotal ▸ hcount) state.2
      rw [htotal, hstacks] at htail
      simp only [ScanStats.accumulate_of_countable hboth, htail, Visit.items]
      cases Visit.each (visitEdges visitor) (rest.map w.stackOf) state.2 with
      | error violation visited => rfl
      | ok _ visited => rfl

/-- Where the sums leave the words, the scan of the threads halts behind the thread it happens at. -/
theorem scanThreads_of_overflow {earlier later : List ThreadRef}
    (hnodup : (earlier ++ t :: later).Nodup) (hsound : ∀ t, (w.stackOf t).Sound)
    {stats : ScanStats} (hearlier : (ScanStats.total (stats :: w.census earlier)).Countable)
    (hover : ¬(ScanStats.total (stats :: w.census (earlier ++ [t]))).Countable) (memory : σ) :
    scanThreads visitor (earlier ++ t :: later) stats (w, memory) =
      match Visit.items (visitEdges visitor) ((earlier ++ [t]).map w.stackOf, memory) with
      | .error violation (visited, memory) =>
        .error violation (w.withStacks (earlier ++ [t]) visited, memory)
      | .ok _ (visited, memory) =>
        .error .additionOverflow (w.withStacks (earlier ++ [t]) visited, memory) := by
  obtain ⟨hnodup, -, hdisjoint⟩ := List.nodup_append.mp hnodup
  have ht : t ∉ earlier := fun hmem => hdisjoint t hmem t List.mem_cons_self rfl
  have hlast (visited : List Stack) :
      (w.withStacks earlier visited).stackOf t = w.stackOf t := by
    rw [stackOf, getElem?_withStacks_of_notMem w visited ht, stackOf]
  have hworld {visited : List Stack} (hlength : visited.length = earlier.length) (s : Stack) :
      w.withStacks (earlier ++ [t]) (visited ++ [s]) =
        (w.withStacks earlier visited).setStack t s := withStacks_append w hlength [t] [s]
  have hlength := Visit.length_items (visitEdges visitor) (earlier.map w.stackOf) memory
  rw [List.length_map] at hlength
  rw [scanThreads_append, scanThreads_eq hnodup hsound hearlier, List.map_append,
    Visit.items_append]
  cases hvisited : Visit.items (visitEdges visitor) (earlier.map w.stackOf, memory) with
  | error violation state =>
    replace hlength : state.1.length = earlier.length := by
      rw [hvisited] at hlength
      exact hlength
    -- The scan halts before it reaches `t`, which keeps its stack.
    have hsame : w.withStacks (earlier ++ [t]) (state.1 ++ [w.stackOf t]) =
        w.withStacks earlier state.1 := by
      rw [hworld hlength, ← hlast state.1, setStack_stackOf]
    simp only [List.map_cons, List.map_nil, hsame]
  | ok _ state =>
    replace hlength : state.1.length = earlier.length := by
      rw [hvisited] at hlength
      exact hlength
    simp only [scanThreads, scanThread_eq, hlast, Visit.on, List.map_cons, List.map_nil,
      Visit.items, Visit.each, visitEdges]
    cases hscan : Stack.scan visitor (w.stackOf t, state.2) with
    | error violation stopped => simp only [hworld hlength]
    | ok found stopped =>
      obtain rfl := (hsound t).eq_counts hscan
      have hsum : ¬(ScanStats.total [ScanStats.total (stats :: w.census earlier),
          (w.stackOf t).counts]).Countable := by
        rw [ScanStats.total_cons_total]
        simpa [census] using hover
      obtain ⟨reached, hreached⟩ := ScanStats.accumulate_of_not_countable hsum
      simp only [hreached, hworld hlength]

/-- Sums that leave the words do so at some thread. -/
theorem exists_overflow {stats : ScanStats} (hstats : (ScanStats.total [stats]).Countable)
    (hover : ¬(ScanStats.total (stats :: w.census threads)).Countable) :
    ∃ earlier t later, threads = earlier ++ t :: later ∧
      (ScanStats.total (stats :: w.census earlier)).Countable ∧
      ¬(ScanStats.total (stats :: w.census (earlier ++ [t]))).Countable := by
  induction threads using List.reverseRecOn with
  | nil => exact absurd hstats hover
  | append_singleton front t ih =>
    by_cases hfront : (ScanStats.total (stats :: w.census front)).Countable
    · exact ⟨front, t, [], rfl, hfront, hover⟩
    · obtain ⟨earlier, t', later, rfl, hsplit⟩ := ih hfront
      exact ⟨earlier, t', later ++ [t], by simp, hsplit⟩

/--
How a scan of a registry goes. The stacks of its live threads are visited as the items of a list;
the numbers of threads, frames and roots are added up, and halt the scan if they are no words. No
other thread changes, and no registry.
-/
structure ScansInTurn (w : World) (registry : Nat) (visitor : Visitor σ) (memory : σ) : Prop where
  threads : w.liveThreads registry = .ok (w.living registry)
  liveCount :
    w.liveCount registry = .ok (ScanStats.total (w.census (w.living registry))).threads
  counts : ∀ (t : ThreadRef) (memory : σ) (stats : ScanStats) (state : Stack × σ),
    Stack.scan visitor (w.stackOf t, memory) = .ok stats state → stats = (w.stackOf t).counts
  countable : (ScanStats.total (w.census (w.living registry))).Countable →
    scanAll registry visitor (w, memory) =
      match Visit.items (visitEdges visitor) ((w.living registry).map w.stackOf, memory) with
      | .error violation (visited, memory) =>
        .error violation (w.withStacks (w.living registry) visited, memory)
      | .ok _ (visited, memory) =>
        .ok (ScanStats.total (w.census (w.living registry)))
          (w.withStacks (w.living registry) visited, memory)
  overflow : ¬(ScanStats.total (w.census (w.living registry))).Countable →
    ∃ earlier t later, w.living registry = earlier ++ t :: later ∧
      (ScanStats.total (w.census earlier)).Countable ∧
      ¬(ScanStats.total (w.census (earlier ++ [t]))).Countable ∧
      scanAll registry visitor (w, memory) =
        match Visit.items (visitEdges visitor) ((earlier ++ [t]).map w.stackOf, memory) with
        | .error violation (visited, memory) =>
          .error violation (w.withStacks (earlier ++ [t]) visited, memory)
        | .ok _ (visited, memory) =>
          .error .additionOverflow (w.withStacks (earlier ++ [t]) visited, memory)
  halted : ∀ (violation : Violation) (visited : List Stack) (last : σ),
    Visit.items (visitEdges visitor) ((w.living registry).map w.stackOf, memory) =
        .error violation (visited, last) →
      ∃ earlier t later done between stopped, w.living registry = earlier ++ t :: later ∧
        Visit.items (visitEdges visitor) (earlier.map w.stackOf, memory) = .ok () (done, between) ∧
        Stack.scan visitor (w.stackOf t, between) =
          .error violation (stopped, last) ∧
        visited = done ++ stopped :: later.map w.stackOf
  others : ∀ t ∉ w.living registry,
    (outcome (scanAll registry visitor (w, memory))).2.1.threads[t]? = w.threads[t]?
  registries : (outcome (scanAll registry visitor (w, memory))).2.1.registries = w.registries

/-- The edges of a stack are visited by a scan of it. -/
theorem scan_eq_error_of_visitEdges {s stopped : Stack} {memory last : σ} {violation : Violation}
    (h : visitEdges visitor (s, memory) = .error violation (stopped, last)) :
    Stack.scan visitor (s, memory) = .error violation (stopped, last) := by
  simp only [visitEdges] at h
  split at h
  next => cases h
  next hscan =>
    cases h
    exact hscan

/-- The sums that a scan of a registry starts from are zero. -/
theorem total_zero_cons (found : List ScanStats) :
    ScanStats.total (.zero :: found) = ScanStats.total found := by
  simp [ScanStats.total, ScanStats.zero]

/--
In a reachable world, a scan of a registry is the scan of the stack of each of its live threads in
turn, newest first. It reports their number, and the numbers of their frames and roots.
-/
theorem scanAll_of_reachable {count : Nat} (h : w.Reachable count) (registry : Fin count)
    (visitor : Visitor σ) (memory : σ) : w.ScansInTurn registry visitor memory := by
  obtain ⟨hsound, hstacks⟩ := h.sound
  have hlisted := hsound.listsThreads.threads registry
  have hnodup := nodup_living w registry
  have hscan : scanAll registry visitor (w, memory) =
      scanThreads visitor (w.living registry) .zero (w, memory) := by
    simp only [scanAll, hlisted]
  refine {
    threads := hlisted
    liveCount := ?liveCount
    counts := fun t _ _ _ => (hstacks t).eq_counts
    countable := fun hcount => ?countable
    overflow := fun hover => ?overflow
    halted := fun violation visited last hhalted => ?halted
    others := fun t ht => ?others
    registries := ?registries }
  case liveCount =>
    rw [hsound.listsThreads.liveCount registry]
    simp [ScanStats.total, census, Stack.counts, Function.comp_def]
  case countable =>
    rw [← total_zero_cons] at hcount
    rw [hscan, scanThreads_eq hnodup hstacks hcount, total_zero_cons]
  case overflow =>
    rw [← total_zero_cons] at hover
    obtain ⟨earlier, t, later, hliving, hearlier, hover⟩ := exists_overflow (by decide) hover
    rw [hliving] at hscan hnodup
    rw [hscan, scanThreads_of_overflow hnodup hstacks hearlier hover]
    rw [total_zero_cons] at hearlier hover
    exact ⟨earlier, t, later, hliving, hearlier, hover, rfl⟩
  case halted =>
    obtain ⟨before, s, after, done, between, stopped, hlist, hbefore, hstopped, rfl⟩ :=
      Visit.items_eq_error _ hhalted
    obtain ⟨earlier, rest, hliving, rfl, hrest⟩ := List.map_eq_append_iff.mp hlist
    obtain ⟨t, later, rfl, rfl, rfl⟩ := List.map_eq_cons_iff.mp hrest
    exact ⟨earlier, t, later, done, between, stopped, hliving, hbefore,
      scan_eq_error_of_visitEdges hstopped, rfl⟩
  case others =>
    refine scanAll_keeps (fun w' => w'.threads[t]? = w.threads[t]?) hlisted
      (fun other hother w' memory hw' => ?_) rfl
    rw [world_scanThread, getElem?_setStack_of_ne _ _ (ne_of_mem_of_not_mem hother ht).symm]
    exact hw'
  case registries =>
    refine scanAll_keeps (fun w' => w'.registries = w.registries) hlisted
      (fun other _ w' memory hw' => ?_) rfl
    rw [world_scanThread]
    exact hw'

/-- A call with one argument. -/
def callWith (function : Function) (argument : Nat) : Program Unit :=
  .perform (.push ⟨.zero, function, .discard, none⟩ [.ofNat argument]) fun _ => .done ()

/--
Threads in two registries, each with one call. One is dropped, and its slot goes to a thread whose
function has a record for a variable that it does not have.
-/
def callers {count : Nat} (first second : Fin count) : WorldProgram count Unit :=
  .create first none (some 512) fun _ =>
  .create second none (some 512) fun _ =>
  .create first none (some 512) fun _ =>
  .onStack 0 (callWith Program.identity 3) fun _ =>
  .onStack 1 (callWith Program.identity 4) fun _ =>
  .onStack 2 (callWith Program.identity 5) fun _ =>
  .drop 2 fun _ =>
  .create first none (some 512) fun _ =>
  .onStack 3 (callWith Stack.overdeclared 6) fun _ =>
  .create first none (some 512) fun _ =>
  .onStack 4 (callWith Program.identity 7) fun _ =>
  .create second none (some 512) fun _ =>
  .onStack 5 (callWith Program.identity 8) fun _ => .done ()

/--
What a scan reports, what its collector remembers, and the variables that the outermost frames of
all threads are left with.
-/
def shown (made : EStateM.Result Violation (World × Nat) ScanStats) :
    Except Violation ScanStats × Nat × List (Except Violation Value) :=
  let (result, final, memory) := outcome made
  (result, memory, (List.range final.threads.size).map fun t => (final.stackOf t).load 0 0)

/--
In the first registry the scan halts at the second thread, and the third one keeps its variable; in
the second registry it meets both threads. The dropped thread keeps its variable.
-/
theorem scanAll_of_reachable_callers :
    ∃ w : World, w.Reachable 2 ∧ w.living 0 = [4, 3, 0] ∧ w.living 1 = [5, 1] ∧
      shown (scanAll 0 Program.counting (w, 0)) =
        (.error (.livenessOutsideFrame 1 "overdeclared" 1 1), 2,
          [3, 4, 5, 2, 1, 8].map (.ok ∘ .ofNat)) ∧
      shown (scanAll 1 Program.counting (w, 0)) =
        (.ok ⟨2, 2, 2⟩, 2, [3, 2, 5, 6, 7, 1].map (.ok ∘ .ofNat)) := by
  have hreachable : ((callers 0 1).run (empty 2)).final.Reachable 2 :=
    .run _ .empty ((callers 0 1).final_mem_states _)
  have hfirst := (scanAll_of_reachable hreachable 0 Program.counting 0).countable
    (by decide +kernel)
  have hsecond := (scanAll_of_reachable hreachable 1 Program.counting 0).countable
    (by decide +kernel)
  refine ⟨_, hreachable, by decide +kernel, by decide +kernel, ?_, ?_⟩
  · rw [show scanAll 0 Program.counting (_, 0) = _ from hfirst]
    decide +kernel
  · rw [show scanAll 1 Program.counting (_, 0) = _ from hsecond]
    decide +kernel

end World

end ManagedCore
