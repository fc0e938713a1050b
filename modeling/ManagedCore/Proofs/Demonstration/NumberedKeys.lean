import ManagedCore.CommandLine.Run
import ManagedCore.Proofs.Dictionary.Growth
import Mathlib.Data.List.Nodup

/-!
# What is left of numbered keys

A dictionary is filled with the first keys by number, and every other one is taken off. No two
numbers have one name, so each insertion adds an entry and each removal finds one, whatever the hash
function does to the names. The buckets are those that the keys asked for when all of them were
there.

Main statement: the report on any number of keys, the entries that are left, and the answer to every
question for a key.
-/

namespace ManagedCore.Demonstration

open Dictionary

variable {d : Dictionary String Value} {keys : List Nat} {key count : Nat}

/-- A key with its number as its value. -/
def keyBinding (key : Nat) : String × Value := (keyName key, Value.ofNat key)

/-- The dictionary binds exactly the keys with these numbers, each to its number. -/
def BindsKeys (d : Dictionary String Value) (keys : List Nat) : Prop :=
  ∃ m : FiniteMap String Value, d.Represents m ∧ Lists (keys.map keyBinding) m

/--
The number of buckets that `count` keys ask for: none without keys, and else eight, doubled until
three quarters of them are more than the keys, or until there are as many as allowed.
-/
def AskFor (count buckets : Nat) : Prop :=
  if count = 0 then buckets = 0
  else ∃ k ≤ 27, buckets = 8 * 2 ^ k ∧ (count < 6 * 2 ^ k ∨ k = 27) ∧ ∀ j < k, 6 * 2 ^ j ≤ count

/-- No two numbers have one name. -/
theorem keyName_inj {i j : Nat} : keyName i = keyName j ↔ i = j := by
  constructor
  · intro h
    have hname (key : Nat) : keyName key = "key-" ++ key.repr := rfl
    rw [hname, hname, String.append_right_inj] at h
    have hdigits : Nat.toDigits 10 i = Nat.toDigits 10 j := by
      rw [← Nat.toList_repr, h, Nat.toList_repr]
    have hread (key : Nat) : Nat.ofDigitChars 10 (Nat.toDigits 10 key) 0 = key :=
      Nat.ofDigitChars_toDigits (by decide) (Nat.le_refl 10)
    rw [← hread i, hdigits, hread]
  · rintro rfl
    rfl

/-- The names of keys are among given ones exactly if their numbers are. -/
theorem keyName_mem_iff {i : Nat} :
    keyName i ∈ (keys.map keyBinding).map Prod.fst ↔ i ∈ keys := by
  rw [List.map_map, List.mem_map]
  constructor
  · rintro ⟨j, hj, heq⟩
    exact keyName_inj.mp heq ▸ hj
  · intro hi
    exact ⟨i, hi, rfl⟩

/-! ## Bindings -/

namespace BindsKeys

/-- The order of the numbers does not matter. -/
theorem of_perm (h : BindsKeys d keys) {keys' : List Nat} (hperm : keys'.Perm keys) :
    BindsKeys d keys' := by
  obtain ⟨m, hm, hlists⟩ := h
  exact ⟨m, hm, hlists.of_perm (hperm.map keyBinding)⟩

/-- The entries are the bindings in some order. -/
theorem entries_perm (h : BindsKeys d keys) : d.entries.Perm (keys.map keyBinding) := by
  obtain ⟨m, hm, hlists⟩ := h
  exact hm.lists.perm hlists

/-- There are as many entries as keys. -/
theorem size_eq (h : BindsKeys d keys) : d.size = keys.length := by
  obtain ⟨m, hm, hlists⟩ := h
  rw [hm.size_eq, ← hlists.length_eq, List.length_map]

/-- A key that is bound has its number, and any other has no value. -/
theorem get?_eq (h : BindsKeys d keys) (i : Nat) :
    d.get? (keyName i) = if i ∈ keys then some (Value.ofNat i) else none := by
  obtain ⟨m, hm, hlists⟩ := h
  rw [hm.get?_eq]
  by_cases hi : i ∈ keys
  · rw [if_pos hi, ← hlists.mem_iff]
    exact List.mem_map_of_mem hi
  · rw [if_neg hi, hlists.lookup_eq_none (mt keyName_mem_iff.mp hi)]

/-- A new key is bound to its number. -/
theorem insert (h : BindsKeys d keys) (hallocates : d.settings.allocates) (hkey : key ∉ keys) :
    BindsKeys (d.insert (keyName key) (Value.ofNat key)).2 (key :: keys) := by
  obtain ⟨m, hm, hlists⟩ := h
  exact ⟨_, (hm.insert hallocates _ _).2, hlists.cons (mt keyName_mem_iff.mp hkey) _⟩

/-- A bound key is taken off with its number. -/
theorem erase (h : BindsKeys d keys) (hkey : key ∈ keys) :
    (d.erase (keyName key)).1 = some (Value.ofNat key) ∧
      BindsKeys (d.erase (keyName key)).2 (keys.erase key) := by
  obtain ⟨m, hm, hlists⟩ := h
  obtain ⟨before, after, -, rfl, herase⟩ := List.exists_erase_eq hkey
  rw [List.map_append, List.map_cons] at hlists
  obtain ⟨hlookup, -, hrest⟩ := hlists.of_middle
  obtain ⟨hold, hrepresents⟩ := hm.erase (keyName key)
  refine ⟨hold.trans hlookup, _, hrepresents, ?_⟩
  rw [herase, List.map_append]
  exact hrest

end BindsKeys

/-! ## Buckets -/

/-- Below the maximum the threshold is three quarters of the buckets. -/
theorem threshold_standard {k : Nat} (hk : k < 27) :
    DictionarySettings.standard.threshold (8 * 2 ^ k) = 6 * 2 ^ k := by
  have hall : ∀ k < 27, DictionarySettings.standard.threshold (8 * 2 ^ k) = 6 * 2 ^ k := by
    decide +kernel
  exact hall k hk

/-- The standard settings are accepted, and ask for few buckets at first. -/
theorem accepted_standard :
    DictionarySettings.standard.Accepted ∧ DictionarySettings.standard.allocates := by
  refine ⟨DictionarySettings.validate_eq_ok_iff.mp validate_standard, ?_⟩
  rw [DictionarySettings.allocates]
  decide

/-- The buckets that suit a peak of keys are those that the keys ask for. -/
theorem AskFor.of_suits {buckets : Nat} (h : DictionarySettings.standard.Suits count buckets)
    (hcount : 0 < count) : AskFor count buckets := by
  have hmaximum := h.le_maximum accepted_standard.1
  obtain ⟨k, rfl, hthreshold, hfewer⟩ := h
  have hbuckets : DictionarySettings.standard.bucketsAfter k = 8 * 2 ^ k := rfl
  have hle : k ≤ 27 := by
    have hpower : 8 * 2 ^ k ≤ 8 * 2 ^ 27 := hmaximum
    exact (Nat.pow_le_pow_iff_right (by decide)).mp (Nat.le_of_mul_le_mul_left hpower (by decide))
  rw [AskFor, if_neg (Nat.ne_of_gt hcount)]
  refine ⟨k, hle, hbuckets, ?_, fun j hj => ?_⟩
  · rcases Nat.lt_or_eq_of_le hle with hlt | heq
    · rw [hbuckets, threshold_standard hlt] at hthreshold
      exact .inl hthreshold
    · exact .inr heq
  · have hreached := hfewer j hj
    rwa [show DictionarySettings.standard.bucketsAfter j = 8 * 2 ^ j from rfl,
      threshold_standard (Nat.lt_of_lt_of_le hj hle)] at hreached

/-- With as many buckets as allowed, more keys ask for no more. -/
theorem AskFor.of_le {buckets more : Nat} (h : AskFor count buckets)
    (hmaximum : 6 * 2 ^ 27 ≤ count) (hle : count ≤ more) :
    buckets = 2 ^ 30 ∧ AskFor more buckets := by
  rw [AskFor, if_neg (by omega)] at h
  obtain ⟨k, hk, rfl, hlast, hfewer⟩ := h
  have hpower : 2 ^ k ≤ 2 ^ 27 := Nat.pow_le_pow_right (by decide) hk
  obtain rfl : k = 27 := hlast.resolve_left (by omega)
  refine ⟨rfl, ?_⟩
  rw [AskFor, if_neg (by omega)]
  exact ⟨27, Nat.le_refl _, rfl, .inr rfl, fun j hj => (hfewer j hj).trans hle⟩

/-! ## Filling -/

/-- One more key is filled in after the others. -/
theorem fillKeys_succ (count key : Nat) (d : Dictionary String Value) :
    fillKeys (count + 1) key d =
      ((fillKeys count key d).insert (keyName (key + count)) (Value.ofNat (key + count))).2 := by
  induction count generalizing key d with
  | zero => rfl
  | succ count ih =>
    rw [fillKeys, ih, fillKeys, Nat.add_right_comm, Nat.add_assoc]

/-- What a dictionary is that was filled with the first keys by number. -/
structure Filled (d : Dictionary String Value) (count : Nat) : Prop where
  bindings : BindsKeys d (List.range count)
  settings : d.settings = .standard
  grown : count < maxWord → d.GrownTo (if count = 0 then none else some count)
  buckets : AskFor count d.bucketCount

/-- The next key is a new one, and the table grows if it meets the threshold. -/
theorem Filled.insert (h : Filled d count) :
    Filled (d.insert (keyName count) (Value.ofNat count)).2 (count + 1) := by
  obtain ⟨haccepted, hallocates⟩ := accepted_standard
  rw [← h.settings] at haccepted hallocates
  have hbindings := (h.bindings.insert hallocates List.not_mem_range_self).of_perm
    (List.range_succ ▸ List.perm_append_singleton count (List.range count))
  have hsettings : (d.insert (keyName count) (Value.ofNat count)).2.settings = d.settings := by
    obtain ⟨m, hm, -⟩ := h.bindings
    exact (hm.sound.insert_spec _ _).1.settings
  have hcount := bucketCount_insert d (keyName count) (Value.ofNat count)
  have hgrown (hword : count + 1 < maxWord) :
      (d.insert (keyName count) (Value.ofNat count)).2.Grown (count + 1) := by
    have hsize := hbindings.size_eq
    have hpeak : max ((if count = 0 then none else some count).getD 0) (count + 1) = count + 1 := by
      split <;> simp_all
    rw [List.length_range] at hsize
    have hinserted := Grown.insert (h.grown (by omega)) haccepted (by rwa [hsize])
    rwa [hsize, hpeak] at hinserted
  generalize (d.insert (keyName count) (Value.ofNat count)).2 = d' at *
  refine ⟨hbindings, hsettings.trans h.settings, hgrown, ?_⟩
  by_cases hword : count + 1 < maxWord
  · have hsuits := (hgrown hword).suits
    rw [hsettings, h.settings] at hsuits
    exact .of_suits hsuits (Nat.succ_pos count)
  · -- With this many keys the table has been as large as allowed for long.
    have hlarge : 6 * 2 ^ 27 < maxWord := by decide
    obtain ⟨hmaximum, hbuckets⟩ := h.buckets.of_le (by omega) (Nat.le_succ count)
    rw [allocated_of_pos (by omega), h.settings, hmaximum] at hcount
    obtain hsame := hcount.resolve_right fun hgrows => absurd hgrows.1 (by decide)
    rwa [hsame, ← hmaximum]

/-- A new dictionary is filled with no key. -/
theorem filled_create {hasher : String → UInt64} {d : Dictionary String Value}
    (h : Dictionary.create .standard hasher = .ok d) : Filled d 0 := by
  refine ⟨⟨∅, represents_create h, .nil⟩, ?_, ?_, ?_⟩
  all_goals obtain ⟨-, rfl⟩ := create_eq h
  · rfl
  · exact fun _ => ⟨rfl, rfl, rfl⟩
  · rfl

/-- All keys are filled in. -/
theorem filled_fillKeys (h : Filled d 0) (count : Nat) : Filled (fillKeys count 0 d) count := by
  induction count with
  | zero => exact h
  | succ count ih =>
    rw [fillKeys_succ, Nat.zero_add]
    exact ih.insert

/-! ## Removal -/

/-- The numbers below `count` that are odd or not below `key`. -/
def keysFrom (key count : Nat) : List Nat :=
  (List.range count).filter fun i => i % 2 = 1 ∨ key ≤ i

/-- Without an even number, those that are odd or behind it are left. -/
theorem erase_keysFrom (heven : key % 2 = 0) :
    (keysFrom key count).erase key = keysFrom (key + 2) count := by
  rw [keysFrom, (List.nodup_range.filter _).erase_eq_filter, List.filter_filter, keysFrom]
  refine List.filter_congr fun i _ => ?_
  rw [Bool.eq_iff_iff]
  simp only [Bool.and_eq_true, bne_iff_ne, decide_eq_true_eq]
  omega

/-- Behind the last number only the odd ones are left. -/
theorem keysFrom_eq_odd (hkey : count ≤ key) :
    keysFrom key count = (List.range count).filter (· % 2 = 1) := by
  refine List.filter_congr fun i hi => ?_
  rw [List.mem_range] at hi
  rw [decide_eq_decide]
  omega

/-- The odd numbers are the smaller half. -/
theorem length_keysFrom (hkey : count ≤ key) : (keysFrom key count).length = count / 2 := by
  induction count generalizing key with
  | zero => rfl
  | succ count ih =>
    rw [keysFrom, List.range_succ, List.filter_append, List.length_append, ← keysFrom,
      ih (by omega)]
    by_cases hodd : count % 2 = 1
    · simp [hodd]
      omega
    · have hbelow : ¬key ≤ count := by omega
      simp [hodd, hbelow]
      omega

/-- Every key that is to be taken off is found, and no bucket goes with it. -/
theorem eraseKeys_eq (h : BindsKeys d (keysFrom key count)) (heven : key % 2 = 0) {more : Nat}
    (hmore : more = (count + 1 - key) / 2) (erased : Nat) :
    ∃ rest, eraseKeys more key erased d = (erased + more, rest) ∧
      BindsKeys rest (keysFrom (key + 2 * more) count) ∧ rest.bucketCount = d.bucketCount := by
  induction more generalizing key erased d with
  | zero => exact ⟨d, rfl, h, rfl⟩
  | succ more ih =>
    have hkey : key ∈ keysFrom key count := by
      rw [keysFrom, List.mem_filter, List.mem_range, decide_eq_true_eq]
      omega
    obtain ⟨hfound, herased⟩ := h.erase hkey
    rw [erase_keysFrom heven] at herased
    have hstep : eraseKeys (more + 1) key erased d =
        eraseKeys more (key + 2) (erased + 1) (d.erase (keyName key)).2 := by
      rw [eraseKeys]
      generalize d.erase (keyName key) = answer at hfound
      obtain ⟨old, d'⟩ := answer
      cases hfound
      rfl
    obtain ⟨rest, hrest, hbinds, hbuckets⟩ := ih herased (by omega) (by omega) (erased + 1)
    refine ⟨rest, ?_, ?_, hbuckets.trans (bucketCount_erase d _)⟩
    · rw [hstep, hrest, Nat.add_assoc, Nat.add_comm 1]
    · rwa [Nat.mul_succ, Nat.add_comm (2 * more), ← Nat.add_assoc]

/-- Taking every other key off leaves the odd ones, and all buckets. -/
theorem Filled.eraseAlternate (h : Filled d count) :
    ∃ rest, eraseAlternate count d = ((count + 1) / 2, rest) ∧
      BindsKeys rest ((List.range count).filter (· % 2 = 1)) ∧
      rest.bucketCount = d.bucketCount := by
  have hall : keysFrom 0 count = List.range count := by simp [keysFrom]
  have hbindings := h.bindings
  rw [← hall] at hbindings
  obtain ⟨rest, hrest, hbinds, hbuckets⟩ := eraseKeys_eq hbindings rfl rfl 0
  rw [Nat.zero_add] at hrest
  rw [keysFrom_eq_odd (by omega)] at hbinds
  exact ⟨rest, hrest, hbinds, hbuckets⟩

/-- The keys ask for one number of buckets. -/
theorem AskFor.unique {buckets buckets' : Nat} (h : AskFor count buckets)
    (h' : AskFor count buckets') : buckets = buckets' := by
  rw [AskFor] at h h'
  by_cases hzero : count = 0
  · rw [if_pos hzero] at h h'
    rw [h, h']
  · rw [if_neg hzero] at h h'
    obtain ⟨k, hk, rfl, hlast, hfewer⟩ := h
    obtain ⟨k', hk', rfl, hlast', hfewer'⟩ := h'
    rcases Nat.lt_trichotomy k k' with hlt | rfl | hlt
    · have hreached := hfewer' k hlt
      omega
    · rfl
    · have hreached := hfewer k' hlt
      omega

/-- What the report on `count` keys and `buckets` buckets says. -/
def totalsOf (count buckets : Nat) : DictionaryTotals where
  keys := count / 2
  buckets := buckets
  erased := (count + 1) / 2
  bucketsAfter := buckets

/-- What filling a dictionary with `count` keys and taking every other one off leaves behind. -/
structure Exercised (d : Dictionary String Value) (count buckets : Nat) : Prop where
  fills : ∀ fewer, (fillKeys fewer 0 d).refusesBuckets = false
  filled : (fillKeys count 0 d).bucketCount = buckets
  erases : ∃ rest, eraseAlternate count (fillKeys count 0 d) = ((count + 1) / 2, rest) ∧
    rest.bucketCount = buckets ∧
    rest.entries.Perm (((List.range count).filter (· % 2 = 1)).map keyBinding) ∧
    ∀ i, rest.get? (keyName i) = if i < count ∧ i % 2 = 1 then some (Value.ofNat i) else none
  totals : exerciseDictionary count d = totalsOf count buckets

/-- A dictionary without a key is filled and emptied again as said. -/
theorem Filled.exercised {buckets : Nat} (h : Filled d 0) (hbuckets : AskFor count buckets) :
    Exercised d count buckets := by
  have hfilled := filled_fillKeys h count
  have hcount := hfilled.buckets.unique hbuckets
  obtain ⟨rest, hrest, hbinds, hsame⟩ := hfilled.eraseAlternate
  have hmem (i : Nat) : i ∈ (List.range count).filter (· % 2 = 1) ↔ i < count ∧ i % 2 = 1 := by
    rw [List.mem_filter, List.mem_range, decide_eq_true_eq]
  refine ⟨fun fewer => ?_, hcount, ⟨rest, hrest, hsame.trans hcount, hbinds.entries_perm, ?_⟩, ?_⟩
  · refine refusesBuckets_of_allocates ?_
    rw [(filled_fillKeys h fewer).settings]
    exact accepted_standard.2
  · intro i
    rw [hbinds.get?_eq]
    exact if_congr (hmem i) rfl rfl
  · have hsize : rest.size = count / 2 := by
      rw [hbinds.size_eq, ← keysFrom_eq_odd (Nat.le_refl count), length_keysFrom (Nat.le_refl count)]
    rw [exerciseDictionary, hrest, totalsOf]
    exact congr (congr (congr (congrArg _ hsize) hcount) rfl) (hsame.trans hcount)

/--
With any hash function, the keys with odd numbers are left, each with its number, and as many
buckets as all keys asked for. No insertion halts, every removal finds its key, and the report tells
how many there were of each.
-/
theorem numbered_keys_report (count : Nat) :
    ∃ buckets, AskFor count buckets ∧ ∀ hasher : String → UInt64,
      (∃ d, Dictionary.create .standard hasher = .ok d ∧ Exercised d count buckets) ∧
      ∀ output, CommandLine.reportDictionary hasher count output =
        { exit := 0
          output := output ++ (s!"dictionary: {count / 2} keys in {buckets} buckets " ++
            s!"({(count + 1) / 2} removed, {buckets} buckets after removal)\n")
          errors := [] } := by
  have hcreate (hasher : String → UInt64) := create_of_validate (V := Value) validate_standard hasher
  have hbuckets := (filled_fillKeys (filled_create (hcreate baseHash)) count).buckets
  have hexercised (hasher : String → UInt64) :=
    (filled_create (hcreate hasher)).exercised hbuckets
  refine ⟨_, hbuckets, fun hasher => ⟨⟨_, hcreate hasher, hexercised hasher⟩, fun output => ?_⟩⟩
  rw [CommandLine.reportDictionary, hcreate]
  dsimp only
  rw [(hexercised hasher).totals]
  rfl

/-- Of thirteen keys six are left, under whatever hash function, in buckets for all of them. -/
theorem numbered_keys_report_thirteen :
    ∀ hasher : String → UInt64,
      CommandLine.reportDictionary hasher 13 "" =
        ⟨0, "dictionary: 6 keys in 32 buckets (7 removed, 32 buckets after removal)\n", []⟩ := by
  obtain ⟨buckets, hbuckets, hreport⟩ := numbered_keys_report 13
  have hasked : AskFor 13 32 := by
    rw [AskFor, if_neg (by decide)]
    exact ⟨2, by decide, rfl, .inl (by decide), by decide⟩
  intro hasher
  rw [(hreport hasher).2 "", hbuckets.unique hasked]
  decide +kernel

end ManagedCore.Demonstration
