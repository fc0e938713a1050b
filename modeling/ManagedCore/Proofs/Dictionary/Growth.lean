import ManagedCore.Proofs.Dictionary.FiniteMaps
import ManagedCore.Proofs.Dictionary.Thresholds

/-!
# Growth follows the peak

How many buckets a dictionary has depends on its settings and on one number alone: the largest
number of entries that it had since it was last without buckets. It has the first number of buckets
on the way from the initial one to the maximum whose threshold is above this peak. Keys, hashes, the
order of operations and removals do not show in it.

The law needs buckets to begin with. Accepted settings may ask for more of them at once than can be
allocated; then there never is an entry.
-/

namespace ManagedCore.Dictionary

variable {K V σ : Type}

/-- The table has grown as the largest number of entries so far asks for. -/
structure Grown (d : Dictionary K V) (peak : Nat) : Prop where
  size_le : d.size ≤ peak
  suits : d.settings.Suits peak d.bucketCount
  threshold : d.threshold = d.settings.threshold d.bucketCount

/-- The table has grown as its peak asks for, or has no buckets if there is no peak. -/
def GrownTo (d : Dictionary K V) : Option Nat → Prop
  | none => d.bucketCount = 0 ∧ d.threshold = 0 ∧ d.size = 0
  | some peak => d.Grown peak

/-- Filling chains with keys and values adds no chain. -/
theorem length_refill (chains : List (Chain K V)) (bindings : List (K × V)) :
    (refill chains bindings).length = chains.length := by
  induction chains generalizing bindings with
  | nil => rfl
  | cons chain rest ih => rw [refill, List.length_cons, ih, List.length_cons]

/-- A visit adds no bucket. -/
theorem bucketCount_refilled (d : Dictionary K V) (bindings : List (K × V)) :
    (d.refilled bindings).bucketCount = d.bucketCount := by
  rw [bucketCount, refilled, List.size_toArray, length_refill, Array.length_toList, bucketCount]

/-- Another chain adds no bucket. -/
theorem bucketCount_setChain (d : Dictionary K V) (hash : UInt64) (chain : Chain K V) :
    (d.setChain hash chain).bucketCount = d.bucketCount :=
  Array.size_setIfInBounds

/-- A removal takes no bucket away. -/
theorem bucketCount_erase [DecidableEq K] (d : Dictionary K V) (key : K) :
    (d.erase key).2.bucketCount = d.bucketCount := by
  simp only [erase]
  split
  · exact bucketCount_setChain _ _ _
  · rfl

/-- Growing doubles the number of buckets below the maximum. -/
theorem bucketCount_resize (d : Dictionary K V) :
    d.resize.bucketCount =
      if d.settings.maximumCapacity ≤ d.bucketCount then d.bucketCount else d.bucketCount * 2 := by
  simp only [resize]
  split
  · rfl
  · rw [bucketCount, foldl_relink, size_foldl_relink, Array.size_replicate]

/-- Growing moves the threshold to that of the new number of buckets. -/
theorem threshold_resize (d : Dictionary K V) :
    d.resize.threshold = d.settings.threshold d.resize.bucketCount := by
  rw [bucketCount_resize]
  simp only [resize]
  split
  next hmaximum => rw [DictionarySettings.threshold, if_pos hmaximum]
  next => rfl

/-- Growing keeps the number of entries and the settings. -/
theorem size_resize (d : Dictionary K V) :
    d.resize.size = d.size ∧ d.resize.settings = d.settings := by
  simp only [resize]
  split
  · exact ⟨rfl, rfl⟩
  · exact ⟨rfl, rfl⟩

/-- Linking an entry counts it. -/
theorem size_link (d : Dictionary K V) (node : Node K V) :
    (d.link node).size = d.size + 1 := by
  simp only [link]
  split
  · rw [(size_resize _).1]
  · rfl

/-- Linking an entry doubles the number of buckets once at most. -/
theorem bucketCount_link (d : Dictionary K V) (node : Node K V) :
    (d.link node).bucketCount = d.bucketCount ∨
      d.bucketCount < d.settings.maximumCapacity ∧
        (d.link node).bucketCount = d.bucketCount * 2 := by
  simp only [link]
  split
  · rw [bucketCount_resize]
    simp only [bucketCount, Array.size_modify]
    split
    next => exact .inl rfl
    next hlt => exact .inr ⟨Nat.not_le.mp hlt, rfl⟩
  · exact .inl Array.size_modify

section Growth

variable {d : Dictionary K V} {peak : Option Nat}

/-- With a peak there are buckets. -/
theorem Grown.bucketCount_pos {peak : Nat} (h : d.Grown peak)
    (haccepted : d.settings.Accepted) : 0 < d.bucketCount := by
  obtain ⟨doublings, hcount, -, -⟩ := h.suits
  obtain ⟨k, hk⟩ := haccepted.exists_bucketsAfter_eq doublings
  rw [hcount, hk]
  exact Nat.two_pow_pos k

/-- The initial buckets are those of a peak of nothing. -/
theorem GrownTo.allocated (h : d.GrownTo peak) (haccepted : d.settings.Accepted) :
    d.allocated.Grown (peak.getD 0) ∧ d.allocated.settings = d.settings := by
  rw [Dictionary.allocated]
  cases peak with
  | none =>
    obtain ⟨hcount, -, hsize⟩ := h
    have hempty : d.buckets.isEmpty = true := by simpa [bucketCount] using hcount
    rw [if_pos hempty]
    have hinitial : (Array.replicate d.settings.initialCapacity ([] : Chain K V)).size =
        d.settings.initialCapacity := Array.size_replicate
    refine ⟨⟨Nat.le_of_eq hsize, ?_, ?_⟩, rfl⟩
    · rw [bucketCount, hinitial]
      exact haccepted.suits_zero
    · rw [bucketCount, hinitial]
  | some peak =>
    have hpos := h.bucketCount_pos haccepted
    have hnonempty : ¬d.buckets.isEmpty = true := by
      rw [bucketCount] at hpos
      simpa using Array.ne_empty_of_size_pos hpos
    rw [if_neg hnonempty]
    exact ⟨h, rfl⟩

/--
One more entry, and at most one doubling: before it the peak was below the threshold, so the new
peak meets the threshold at most, and twice the buckets move that.
-/
theorem Grown.link {peak : Nat} (h : d.Grown peak) (haccepted : d.settings.Accepted)
    {node : Node K V} (hword : (d.link node).size < maxWord) :
    (d.link node).Grown (max peak (d.link node).size) ∧
      (d.link node).settings = d.settings := by
  obtain ⟨hsize, hsuits, hthreshold⟩ := h
  have hpeak : peak < d.settings.threshold d.bucketCount := by
    obtain ⟨_, -, hpeak, -⟩ := hsuits
    exact hpeak
  rw [size_link] at hword ⊢
  let grown : Dictionary K V := { d with
    buckets := d.buckets.modify (bucketIndex node.hash d.bucketCount) (node :: ·)
    size := d.size + 1 }
  have hcount : grown.bucketCount = d.bucketCount := Array.size_modify
  have hlink : d.link node = if d.threshold ≤ d.size + 1 then grown.resize else grown := rfl
  rw [hlink, hthreshold]
  by_cases hmeets : d.settings.threshold d.bucketCount ≤ d.size + 1
  · have hexact : max peak (d.size + 1) = d.settings.threshold d.bucketCount := by omega
    -- At the maximum the threshold is the largest word, which is never met: growing doubles here.
    have hbelow := (DictionarySettings.threshold_of_lt
      (show d.settings.threshold d.bucketCount < maxWord by omega)).1
    have hdoubled : grown.resize.bucketCount = d.bucketCount * 2 := by
      rw [bucketCount_resize, hcount]
      exact if_neg (Nat.not_le.mpr hbelow)
    obtain ⟨hsame, hsettings⟩ := size_resize grown
    rw [if_pos hmeets, hexact]
    refine ⟨⟨?_, ?_, ?_⟩, hsettings⟩
    · rw [hsame]
      show d.size + 1 ≤ d.settings.threshold d.bucketCount
      omega
    · rw [hsettings, hdoubled]
      exact hsuits.double haccepted (by omega)
    · rw [threshold_resize, hsettings]
  · rw [if_neg hmeets]
    refine ⟨⟨Nat.le_max_right _ _, ?_, ?_⟩, rfl⟩
    · rw [hcount]
      exact hsuits.mono (Nat.le_max_left _ _) (by omega)
    · rw [hcount]
      exact hthreshold

/-- What keeps the buckets, the threshold and the settings, and adds no entry, keeps the law. -/
theorem GrownTo.of_same (h : d.GrownTo peak) {d' : Dictionary K V}
    (hcount : d'.bucketCount = d.bucketCount) (hthreshold : d'.threshold = d.threshold)
    (hsettings : d'.settings = d.settings) (hsize : d'.size ≤ d.size) :
    d'.GrownTo (peak.map fun peak => max peak d'.size) := by
  cases peak with
  | none =>
    obtain ⟨hbuckets, hzero, hempty⟩ := h
    exact ⟨hcount.trans hbuckets, hthreshold.trans hzero, by omega⟩
  | some peak =>
    obtain ⟨hle, hsuits, hexact⟩ := h
    have hpeak : max peak d'.size = peak := Nat.max_eq_left (hsize.trans hle)
    rw [Option.map_some, hpeak]
    exact ⟨hsize.trans hle, by rwa [hsettings, hcount], by rw [hsettings, hcount, hthreshold, hexact]⟩

/-- A question changes nothing. -/
theorem GrownTo.of_eq (h : d.GrownTo peak) : d.GrownTo (peak.map fun peak => max peak d.size) :=
  h.of_same rfl rfl rfl (Nat.le_refl _)

section Insertion

variable [DecidableEq K]

/-- An insertion adds an entry, or replaces the value of one. -/
theorem Grown.insert (h : d.GrownTo peak) (haccepted : d.settings.Accepted) {key : K} {value : V}
    (hword : (d.insert key value).2.size < maxWord) :
    (d.insert key value).2.Grown (max (peak.getD 0) (d.insert key value).2.size) := by
  obtain ⟨hallocated, hsettings⟩ := h.allocated haccepted
  simp only [Dictionary.insert] at hword ⊢
  cases hexchange : Chain.exchange (d.hasher key) key value
      (d.allocated.chainOf (d.hasher key)) with
  | some exchanged =>
    simp only [hexchange] at hword ⊢
    refine ⟨Nat.le_max_right _ _, ?_, ?_⟩
    · rw [bucketCount_setChain]
      show d.allocated.settings.Suits (max _ d.allocated.size) _
      rw [Nat.max_eq_left hallocated.size_le]
      exact hallocated.suits
    · rw [bucketCount_setChain]
      exact hallocated.threshold
  | none =>
    simp only [hexchange] at hword ⊢
    exact (hallocated.link (hsettings ▸ haccepted) hword).1

omit [DecidableEq K] in
/-- A dictionary with buckets has the initial ones already. -/
theorem allocated_of_pos (h : 0 < d.bucketCount) : d.allocated = d := by
  have hbuckets : ¬d.buckets.isEmpty = true := by simpa using Array.ne_empty_of_size_pos h
  rw [Dictionary.allocated, if_neg hbuckets]

/-- An insertion doubles the buckets that it starts from once at most, and none at the maximum. -/
theorem bucketCount_insert (d : Dictionary K V) (key : K) (value : V) :
    (d.insert key value).2.bucketCount = d.allocated.bucketCount ∨
      d.allocated.bucketCount < d.allocated.settings.maximumCapacity ∧
        (d.insert key value).2.bucketCount = d.allocated.bucketCount * 2 := by
  simp only [Dictionary.insert]
  split
  · exact .inl (bucketCount_setChain _ _ _)
  · exact bucketCount_link _ _

end Insertion

end Growth

section Runs

variable [DecidableEq K] [Visitable K] [Visitable V]

/-- The peak after an operation that leaves `after`. Only an insertion starts one. -/
def Operation.peak (operation : Operation K V σ) (after : Dictionary K V) (peak : Option Nat) :
    Option Nat :=
  match operation with
  | .clear => none
  | .put _ _ => some (max (peak.getD 0) after.size)
  | _ => peak.map fun peak => max peak after.size

/--
The largest number of entries since the dictionary was made or last cleared, or none if nothing was
put since; `peak` is what it is before the run.
-/
def peakAfter : List (Operation K V σ) → Dictionary K V → Option Nat → Option Nat
  | [], _, peak => peak
  | operation :: rest, d, peak =>
    peakAfter rest (operation.run d).2 (operation.peak (operation.run d).2 peak)

/-- The number of entries stays below a limit after every operation of a run. -/
def SizesBelow (limit : Nat) : List (Operation K V σ) → Dictionary K V → Prop
  | [], _ => True
  | operation :: rest, d =>
    (operation.run d).2.size < limit ∧ SizesBelow limit rest (operation.run d).2

variable {d : Dictionary K V} {peak : Option Nat}

omit [DecidableEq K] [Visitable K] [Visitable V] in
/-- Buckets that can be had are not refused. -/
theorem refusesBuckets_of_allocates (h : d.settings.allocates) : d.refusesBuckets = false := by
  rw [DictionarySettings.allocates] at h
  rw [refusesBuckets, decide_eq_false (Nat.not_le.mpr h), Bool.and_false]

/-- Every operation keeps the law, while the number of entries is a word below the largest. -/
theorem GrownTo.run (h : d.GrownTo peak) (haccepted : d.settings.Accepted)
    (hallocates : d.settings.allocates) {operation : Operation K V σ}
    (hword : (operation.run d).2.size < maxWord) :
    (operation.run d).2.GrownTo (operation.peak (operation.run d).2 peak) := by
  cases operation with
  | put key value =>
    rw [run_put (refusesBuckets_of_allocates hallocates)] at hword ⊢
    exact Grown.insert h haccepted hword
  | modify key change =>
    simp only [Operation.run, Dictionary.modify]
    split
    · exact h.of_same (bucketCount_setChain _ _ _) rfl rfl (Nat.le_refl _)
    · exact h.of_eq
  | erase key =>
    simp only [Operation.run, Dictionary.erase]
    split
    · exact h.of_same (bucketCount_setChain _ _ _) rfl rfl (Nat.sub_le _ _)
    · exact h.of_eq
  | clear => exact ⟨rfl, rfl, rfl⟩
  | visit visitor memory =>
    simp only [Operation.run, outcome_visitEdges]
    exact h.of_same (bucketCount_refilled _ _) rfl rfl (Nat.le_refl _)
  | get key => exact h.of_eq
  | contains key => exact h.of_eq
  | size => exact h.of_eq
  | isEmpty => exact h.of_eq
  | keys => exact h.of_eq
  | entries => exact h.of_eq

/-- A run keeps the law, while the number of entries is a word below the largest. -/
theorem GrownTo.runAll (h : d.GrownTo peak) (hsound : d.Sound) (haccepted : d.settings.Accepted)
    (hallocates : d.settings.allocates) {operations : List (Operation K V σ)}
    (hsizes : SizesBelow maxWord operations d) :
    (Dictionary.runAll operations d).2.GrownTo (peakAfter operations d peak) := by
  induction operations generalizing d peak with
  | nil => exact h
  | cons operation rest ih =>
    obtain ⟨hfirst, hrest⟩ := hsizes
    have hkeeps := hsound.run operation
    exact ih (h.run haccepted hallocates hfirst) hkeeps.sound (hkeeps.settings ▸ haccepted)
      (hkeeps.settings ▸ hallocates) hrest

/-- Without buckets to be had, no operation finds or adds an entry. -/
theorem run_of_not_allocates (hallocates : ¬d.settings.allocates) (hcount : d.bucketCount = 0)
    (hsize : d.size = 0) (operation : Operation K V σ) :
    (operation.run d).2.bucketCount = 0 ∧ (operation.run d).2.size = 0 := by
  have hbuckets : d.buckets = #[] := Array.eq_empty_of_size_eq_zero hcount
  have hchain (hash : UInt64) : d.chainOf hash = [] := by
    rw [chainOf, hbuckets]
    rfl
  cases operation with
  | put key value =>
    have hrefuses : d.refusesBuckets = true := by
      rw [DictionarySettings.allocates, Nat.not_lt] at hallocates
      simp [refusesBuckets, hbuckets, hallocates]
    rw [run_put_of_refuses hrefuses]
    exact ⟨hcount, hsize⟩
  | modify key change =>
    simp only [Operation.run, Dictionary.modify, hchain, Chain.modify]
    exact ⟨hcount, hsize⟩
  | erase key =>
    simp only [Operation.run, Dictionary.erase, hchain, Chain.extract]
    exact ⟨hcount, hsize⟩
  | clear => exact ⟨rfl, rfl⟩
  | visit visitor memory =>
    simp only [Operation.run, outcome_visitEdges]
    exact ⟨(bucketCount_refilled _ _).trans hcount, hsize⟩
  | get key => exact ⟨hcount, hsize⟩
  | contains key => exact ⟨hcount, hsize⟩
  | size => exact ⟨hcount, hsize⟩
  | isEmpty => exact ⟨hcount, hsize⟩
  | keys => exact ⟨hcount, hsize⟩
  | entries => exact ⟨hcount, hsize⟩

/-- Without buckets to be had, there never is an entry. -/
theorem runAll_of_not_allocates (hsound : d.Sound) (hallocates : ¬d.settings.allocates)
    (hcount : d.bucketCount = 0) (hsize : d.size = 0) (operations : List (Operation K V σ)) :
    (runAll operations d).2.bucketCount = 0 ∧ (runAll operations d).2.size = 0 := by
  induction operations generalizing d with
  | nil => exact ⟨hcount, hsize⟩
  | cons operation rest ih =>
    obtain ⟨hcount', hsize'⟩ := run_of_not_allocates hallocates hcount hsize operation
    have hkeeps := hsound.run operation
    exact ih hkeeps.sound (hkeeps.settings ▸ hallocates) hcount' hsize'

/-- An insertion doubles the number of buckets once at most. -/
theorem bucketCount_run_put (d : Dictionary K V) (hbuckets : d.refusesBuckets = false) (key : K)
    (value : V) :
    ((Operation.put key value : Operation K V σ).run d).2.bucketCount = d.allocated.bucketCount ∨
      d.allocated.bucketCount < d.allocated.settings.maximumCapacity ∧
        ((Operation.put key value : Operation K V σ).run d).2.bucketCount =
          d.allocated.bucketCount * 2 := by
  rw [run_put hbuckets]
  exact bucketCount_insert d key value

end Runs

/-- What the law says of a dictionary in which something was put. -/
structure FollowsPeak (d : Dictionary K V) (peak : Nat) : Prop where
  suits : d.settings.Suits peak d.bucketCount
  threshold : d.threshold = d.settings.threshold d.bucketCount
  size_lt : d.size < d.threshold
  load : d.bucketCount < d.settings.maximumCapacity →
    (d.size : ℚ) < d.bucketCount * d.settings.loadFactor.magnitude
  power : ∃ k, d.bucketCount = 2 ^ k
  initial_le : d.settings.initialCapacity ≤ d.bucketCount
  le_maximum : d.bucketCount ≤ d.settings.maximumCapacity

/-- The law follows from what every operation keeps. -/
theorem Grown.followsPeak {d : Dictionary K V} {peak : Nat} (h : d.Grown peak)
    (haccepted : d.settings.Accepted) : d.FollowsPeak peak := by
  obtain ⟨doublings, hcount, hpeak, -⟩ := h.suits
  have hsize : d.size < d.settings.threshold d.bucketCount := Nat.lt_of_le_of_lt h.size_le hpeak
  refine ⟨h.suits, h.threshold, h.threshold ▸ hsize, fun hlt => ?_, ?_, ?_,
    h.suits.le_maximum haccepted⟩
  · rw [DictionarySettings.threshold_eq_floor, if_pos hlt] at hsize
    exact Nat.lt_of_lt_floor (Nat.lt_of_lt_of_le hsize (Nat.min_le_left _ _))
  · rw [hcount]
    exact haccepted.exists_bucketsAfter_eq doublings
  · rw [hcount]
    exact DictionarySettings.initialCapacity_le_bucketsAfter _ doublings

/-- One law for one peak: what it leads to is the same in any two dictionaries. -/
theorem FollowsPeak.unique {K' V' : Type} {d : Dictionary K V} {d' : Dictionary K' V'} {peak : Nat}
    (h : d.FollowsPeak peak) (h' : d'.FollowsPeak peak) (hsettings : d'.settings = d.settings) :
    d'.bucketCount = d.bucketCount ∧ d'.threshold = d.threshold := by
  have hsuits := h'.suits
  rw [hsettings] at hsuits
  have hcount := hsuits.unique h.suits
  exact ⟨hcount, by rw [h'.threshold, h.threshold, hsettings, hcount]⟩

/-- Without a peak there are no buckets; with one, the law says how many. -/
def ObeysGrowth (d : Dictionary K V) : Option Nat → Prop
  | none => d.bucketCount = 0 ∧ d.threshold = 0
  | some peak => d.FollowsPeak peak

/-- What the table has grown to obeys the law. -/
theorem GrownTo.obeysGrowth {d : Dictionary K V} {peak : Option Nat} (h : d.GrownTo peak)
    (haccepted : d.settings.Accepted) : d.ObeysGrowth peak := by
  cases peak with
  | none => exact ⟨h.1, h.2.1⟩
  | some peak => exact h.followsPeak haccepted

/-- Two dictionaries that obey the law of one peak have as many buckets and one threshold. -/
theorem ObeysGrowth.unique {K' V' : Type} {d : Dictionary K V} {d' : Dictionary K' V'}
    {peak : Option Nat} (h : d.ObeysGrowth peak) (h' : d'.ObeysGrowth peak)
    (hsettings : d'.settings = d.settings) :
    d'.bucketCount = d.bucketCount ∧ d'.threshold = d.threshold := by
  cases peak with
  | none => exact ⟨h'.1.trans h.1.symm, h'.2.trans h.2.symm⟩
  | some peak => exact FollowsPeak.unique h h' hsettings

section Law

variable [DecidableEq K] [Visitable K] [Visitable V]

/-- After every run the table has grown as the peak of the run asks for. -/
theorem grownTo_runAll {settings : DictionarySettings} {hasher : K → UInt64} {d : Dictionary K V}
    (h : create settings hasher = .ok d) (hallocates : settings.allocates)
    {operations : List (Operation K V σ)} (hsizes : SizesBelow maxWord operations d) :
    (runAll operations d).2.GrownTo (peakAfter operations d none) ∧
      (runAll operations d).2.settings = settings := by
  have hsound := sound_create h
  obtain ⟨hvalid, rfl⟩ := create_eq h
  have haccepted := DictionarySettings.validate_eq_ok_iff.mp hvalid
  have hempty : GrownTo (⟨#[], 0, 0, settings, hasher⟩ : Dictionary K V) none := ⟨rfl, rfl, rfl⟩
  exact ⟨hempty.runAll hsound haccepted hallocates hsizes, (hsound.runAll operations).settings⟩

/-- From what the table has grown to, an insertion doubles it once at most, and not past the maximum. -/
theorem GrownTo.put_doubles {d : Dictionary K V} {peak : Option Nat} (h : d.GrownTo peak)
    (haccepted : d.settings.Accepted) (hallocates : d.settings.allocates) (key : K) (value : V) :
    ((Operation.put key value : Operation K V σ).run d).2.bucketCount = d.allocated.bucketCount ∨
      d.allocated.bucketCount * 2 ≤ d.settings.maximumCapacity ∧
        ((Operation.put key value : Operation K V σ).run d).2.bucketCount =
          d.allocated.bucketCount * 2 := by
  obtain ⟨hgrown, hsettings⟩ := h.allocated haccepted
  obtain ⟨doublings, hcount, -, -⟩ := hgrown.suits
  rw [hsettings] at hcount
  rcases bucketCount_run_put (σ := σ) d (refusesBuckets_of_allocates hallocates) key value with
    hsame | ⟨hlt, hdoubled⟩
  · exact .inl hsame
  · rw [hsettings, hcount] at hlt
    refine .inr ⟨?_, hdoubled⟩
    rw [hcount]
    exact haccepted.double_le hlt

/--
In every run in which the number of entries stays a word below the largest, and with buckets to be
had, the number of buckets and the threshold follow the peak of the run: they are the same for any
keys, hash functions and operations that lead to this peak. Every insertion doubles the table once
at most, to the maximum at most. Products with the load factor are exact. Without buckets to be had
there never is an entry.
-/
theorem growth_follows_peak {settings : DictionarySettings} {hasher : K → UInt64}
    {d : Dictionary K V} (h : create settings hasher = .ok d)
    (operations : List (Operation K V σ)) (hsizes : SizesBelow maxWord operations d) :
    let last := (runAll operations d).2
    settings.Accepted ∧
    (∀ count, settings.threshold count =
      if count < settings.maximumCapacity then
        min ⌊(count : ℚ) * settings.loadFactor.magnitude⌋₊ maxWord
      else maxWord) ∧
    (∀ k < 64, IsBinary64 (2 ^ k * settings.loadFactor.magnitude)) ∧
    (settings.allocates →
      last.ObeysGrowth (peakAfter operations d none) ∧
      (∀ (key : K) (value : V) (after : Dictionary K V),
        after = ((Operation.put key value : Operation K V σ).run last).2 →
        after.bucketCount = last.allocated.bucketCount ∨
          last.allocated.bucketCount * 2 ≤ settings.maximumCapacity ∧
            after.bucketCount = last.allocated.bucketCount * 2) ∧
      ∀ (K' V' σ' : Type) [DecidableEq K'] [Visitable K'] [Visitable V'] (hasher' : K' → UInt64)
        (d' : Dictionary K' V') (operations' : List (Operation K' V' σ')),
        create settings hasher' = .ok d' → SizesBelow maxWord operations' d' →
        peakAfter operations' d' none = peakAfter operations d none →
        (runAll operations' d').2.bucketCount = last.bucketCount ∧
          (runAll operations' d').2.threshold = last.threshold) ∧
    (¬settings.allocates → last.bucketCount = 0 ∧ last.size = 0) := by
  have haccepted : settings.Accepted :=
    DictionarySettings.validate_eq_ok_iff.mp (create_eq h).1
  have hfinite := Binary32.isFinite_of_isPositive haccepted.positive
  refine ⟨haccepted, settings.threshold_eq_floor, fun k hk => Binary32.isBinary64_mul hfinite hk,
    fun hallocates => ?_, fun hallocates => ?_⟩
  · obtain ⟨hgrown, hsettings⟩ := grownTo_runAll h hallocates hsizes
    have hobeys := hgrown.obeysGrowth (hsettings.symm ▸ haccepted)
    refine ⟨hobeys, ?_, ?_⟩
    · rintro key value after rfl
      have hput := hgrown.put_doubles (σ := σ) (hsettings.symm ▸ haccepted)
        (hsettings.symm ▸ hallocates) key value
      rwa [hsettings] at hput
    · intro K' V' σ' _ _ _ hasher' d' operations' h' hsizes' hpeak
      obtain ⟨hgrown', hsettings'⟩ := grownTo_runAll h' hallocates hsizes'
      have hobeys' := hgrown'.obeysGrowth (hsettings'.symm ▸ haccepted)
      rw [hpeak] at hobeys'
      exact hobeys.unique hobeys' (hsettings'.trans hsettings.symm)
  · have hsound := sound_create h
    obtain ⟨-, rfl⟩ := create_eq h
    exact runAll_of_not_allocates hsound hallocates rfl rfl operations

end Law

/-- Settings whose initial buckets grow with the first entry. -/
def sparse : DictionarySettings where
  initialCapacity := 8
  loadFactor := ⟨0x3e000000⟩
  maximumCapacity := 2 ^ 30

/-- Two entries, whose keys a collector changes so that one of them is not found any more. -/
def lostKey : List (Operation Value Value Nat) :=
  [.put (.ofNat 1) .zero, .put (.ofNat 2) .zero, .visit raising 0, .erase (.ofNat 3), .size]

/-- The first entry and the second one double the table, and nothing later shows in it. -/
theorem growth_follows_peak_lostKey :
    ∃ d : Dictionary Value Value, create sparse (fun key => key.word) = .ok d ∧
      SizesBelow maxWord lostKey d ∧ peakAfter lostKey d none = some 2 ∧
      (runAll lostKey d).2.bucketCount = 32 ∧ (runAll lostKey d).2.threshold = 4 ∧
      (runAll lostKey d).2.FollowsPeak 2 := by
  have hvalid : sparse.validate = .ok () := by decide +kernel
  have hcreate := create_of_validate (V := Value) hvalid fun key : Value => key.word
  have hsizes : SizesBelow maxWord lostKey
      (⟨#[], 0, 0, sparse, fun key => key.word⟩ : Dictionary Value Value) :=
    ⟨by decide +kernel, by decide +kernel, by decide +kernel, by decide +kernel,
      by decide +kernel, trivial⟩
  have hallocates : sparse.allocates := by
    rw [DictionarySettings.allocates]
    decide
  have hpeak : peakAfter lostKey
      (⟨#[], 0, 0, sparse, fun key => key.word⟩ : Dictionary Value Value) none = some 2 := by
    decide +kernel
  obtain ⟨-, -, -, hgrowth, -⟩ := growth_follows_peak hcreate lostKey hsizes
  have hobeys := (hgrowth hallocates).1
  rw [hpeak] at hobeys
  exact ⟨_, hcreate, hsizes, hpeak, by decide +kernel, by decide +kernel, hobeys⟩

/--
Where the law ends: settings that are accepted although their buckets cannot be had, where an
insertion leaves no buckets and yet a threshold, and a dictionary in which nothing is put, whose
threshold its number of entries does not stay below.
-/
theorem growth_beyond_peak :
    (∃ d : Dictionary Int64 Value, create oversized (fun key => key.toUInt64) = .ok d ∧
      SizesBelow maxWord [(.put 1 (.ofNat 2) : Operation Int64 Value Nat)] d ∧
      (runAll [(.put 1 (.ofNat 2) : Operation Int64 Value Nat)] d).2.threshold = maxWord ∧
      ∀ peak, ¬oversized.Suits peak
        (runAll [(.put 1 (.ofNat 2) : Operation Int64 Value Nat)] d).2.bucketCount) ∧
    ∃ d : Dictionary Int64 Value, create .standard (fun key => key.toUInt64) = .ok d ∧
      ¬(runAll [(.get 1 : Operation Int64 Value Nat)] d).2.size <
        (runAll [(.get 1 : Operation Int64 Value Nat)] d).2.threshold := by
  have hvalid : oversized.validate = .ok () := by decide +kernel
  refine ⟨⟨_, create_of_validate hvalid _, ⟨by decide +kernel, trivial⟩, by decide +kernel, ?_⟩,
    _, create_of_validate validate_standard _, by decide +kernel⟩
  rintro peak ⟨doublings, hcount, -⟩
  have hpos := DictionarySettings.initialCapacity_le_bucketsAfter oversized doublings
  rw [← hcount] at hpos
  exact absurd hpos (by decide +kernel)

end ManagedCore.Dictionary
