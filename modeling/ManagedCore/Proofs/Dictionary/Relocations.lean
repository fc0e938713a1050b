import ManagedCore.Proofs.Dictionary.FiniteMaps
import Mathlib.Data.List.Nodup

/-!
# Keys that a collector moves

A collector may rewrite keys where they are, but an entry keeps the hash that it remembers, and
stays in the bucket of that hash. So an entry is found under its new key exactly if the new key has
the very hash of the old one; that it has the same bucket is not enough. Under any other hash the
entry is lost to look-ups, but not to the count and to the iteration, and an insertion under its key
puts a second entry beside it.

If no hash changes, nothing is lost: the dictionary is the finite map of the new bindings.
-/

namespace ManagedCore

variable {K V σ : Type}

/-- The entry with what two functions make of its key and its value, and the old hash. -/
def Node.relocate (g : K → K) (h : V → V) (node : Node K V) : Node K V where
  key := g node.key
  value := h node.value
  hash := node.hash

/-- Entries are told by their bindings and their remembered hashes. -/
theorem eq_of_map_binding {nodes nodes' : List (Node K V)}
    (hbinding : nodes.map Node.binding = nodes'.map Node.binding)
    (hhash : nodes.map Node.hash = nodes'.map Node.hash) : nodes = nodes' := by
  induction nodes generalizing nodes' with
  | nil => exact (List.map_eq_nil_iff.mp hbinding.symm).symm
  | cons node rest ih =>
    cases nodes' with
    | nil => cases hbinding
    | cons node' rest' =>
      rw [List.map_cons, List.map_cons, List.cons.injEq] at hbinding hhash
      obtain ⟨key, value, hash⟩ := node
      obtain ⟨key', value', hash'⟩ := node'
      obtain ⟨⟨rfl, rfl⟩, hrest⟩ := And.imp_left Prod.mk.inj hbinding
      obtain rfl : hash = hash' := hhash.1
      rw [ih hrest hhash.2]

namespace Dictionary

variable [DecidableEq K]

/-- The key is found in its place among the entries, where its value is changed or it is removed. -/
structure Finds (d : Dictionary K V) (before : List (K × V)) (key : K) (value : V)
    (after : List (K × V)) : Prop where
  get : d.get? key = some value
  modify : ∀ change : V → V, (d.modify key change).1 = some value ∧
    (d.modify key change).2.entries = before ++ (key, change value) :: after
  erase : (d.erase key).1 = some value ∧ (d.erase key).2.entries = before ++ after ∧
    (d.erase key).2.size + 1 = d.size

/-- The key is not found, and an insertion adds an entry to those that are there. -/
structure Loses (d : Dictionary K V) (key : K) : Prop where
  get : d.get? key = none
  modify : ∀ change : V → V, d.modify key change = (none, d)
  erase : d.erase key = (none, d)
  put : ∀ value, ∃ d', put key value d = .ok none d' ∧
    d'.entries.Perm ((key, value) :: d.entries) ∧ d'.size = d.size + 1

/-- A key that is found is not lost. -/
theorem Finds.not_loses {d : Dictionary K V} {before after : List (K × V)} {key : K} {value : V}
    (h : d.Finds before key value after) : ¬d.Loses key := by
  intro hloses
  cases h.get.symm.trans hloses.get

/-- An entry in its place, while no other entry has its key. -/
structure Lone (d : Dictionary K V) (before : List (Node K V)) (node : Node K V)
    (after : List (Node K V)) : Prop where
  nodes_eq : d.nodes = before ++ node :: after
  only : ∀ other ∈ before ++ after, other.key ≠ node.key

namespace Lone

variable {d : Dictionary K V} {before after front back : List (Node K V)} {node found : Node K V}

omit [DecidableEq K] in
/-- An entry with the key of a lone entry is this entry. -/
theorem eq_of_key (h : d.Lone before node after) (hfound : d.nodes = front ++ found :: back)
    (hkey : found.key = node.key) : front = before ∧ found = node ∧ back = after := by
  have hnot : found ∉ before ++ after := fun hmem => h.only found hmem hkey
  rw [List.mem_append, not_or] at hnot
  obtain ⟨rfl, rfl, rfl⟩ := (List.append_cons_inj_of_notMem hnot.1 hnot.2).mp
    (h.nodes_eq.symm.trans hfound)
  exact ⟨rfl, rfl, rfl⟩

/-- A search for the key of a lone entry meets this entry or none. -/
theorem eq_of_answers (h : d.Lone before node after) (hfound : d.nodes = front ++ found :: back)
    (hanswers : found.answers (d.hasher node.key) node.key = true) :
    node.hash = d.hasher node.key ∧ front = before ∧ found = node ∧ back = after := by
  obtain ⟨hhash, hkey⟩ := Node.answers_iff.mp hanswers
  obtain ⟨hfront, rfl, hback⟩ := h.eq_of_key hfound hkey
  exact ⟨hhash, hfront, rfl, hback⟩

/-- A search for the key of a lone entry meets it if the key has the remembered hash. -/
theorem not_misses (h : d.Lone before node after) (hhash : node.hash = d.hasher node.key) :
    ¬Chain.Misses (d.hasher node.key) node.key d.nodes := by
  intro hmisses
  have hmem : node ∈ d.nodes := by simp [h.nodes_eq]
  have hanswers := Node.answers_iff.mpr ⟨hhash, rfl⟩
  rw [hmisses node hmem] at hanswers
  cases hanswers

/-- A lone entry is found if its key has the remembered hash. -/
theorem finds (h : d.Lone before node after) (hsound : d.Sound)
    (hhash : node.hash = d.hasher node.key) :
    d.Finds (before.map Node.binding) node.key node.value (after.map Node.binding) where
  get := by
    rcases hsound.find_spec node.key with ⟨front, found, back, hfound, hanswers, hfind⟩ |
      ⟨hmisses, -⟩
    · obtain ⟨-, -, rfl, -⟩ := h.eq_of_answers hfound hanswers
      rw [get?, hfind, Option.map_some]
    · exact absurd hmisses (h.not_misses hhash)
  modify := by
    intro change
    obtain ⟨-, ⟨front, found, back, hfound, hanswers, hold, hnew⟩ | ⟨hmisses, -⟩⟩ :=
      hsound.modify_spec node.key change
    · obtain ⟨-, rfl, rfl, rfl⟩ := h.eq_of_answers hfound hanswers
      refine ⟨hold, ?_⟩
      rw [entries, hnew, List.map_append, List.map_cons]
      rfl
    · exact absurd hmisses (h.not_misses hhash)
  erase := by
    obtain ⟨hkeeps, ⟨front, found, back, hfound, hanswers, hold, hnew⟩ | ⟨hmisses, -⟩⟩ :=
      hsound.erase_spec node.key
    · obtain ⟨-, rfl, rfl, rfl⟩ := h.eq_of_answers hfound hanswers
      refine ⟨hold, ?_, ?_⟩
      · rw [entries, hnew, List.map_append]
        rfl
      · rw [hkeeps.sound.size, hsound.size, hnew, hfound, List.length_append, List.length_append,
          List.length_cons]
        rfl
    · exact absurd hmisses (h.not_misses hhash)

/-- A lone entry is lost if its key has another hash than the remembered one. -/
theorem loses (h : d.Lone before node after) (hsound : d.Sound)
    (hhash : node.hash ≠ d.hasher node.key) : d.Loses node.key where
  get := by
    rcases hsound.find_spec node.key with ⟨front, found, back, hfound, hanswers, -⟩ | ⟨-, hfind⟩
    · exact absurd (h.eq_of_answers hfound hanswers).1 hhash
    · rw [get?, hfind, Option.map_none]
  modify := by
    intro change
    obtain ⟨-, ⟨front, found, back, hfound, hanswers, -⟩ | ⟨-, hsame⟩⟩ :=
      hsound.modify_spec node.key change
    · exact absurd (h.eq_of_answers hfound hanswers).1 hhash
    · exact hsame
  erase := by
    obtain ⟨-, ⟨front, found, back, hfound, hanswers, -⟩ | ⟨-, hsame⟩⟩ :=
      hsound.erase_spec node.key
    · exact absurd (h.eq_of_answers hfound hanswers).1 hhash
    · exact hsame
  put := by
    intro value
    have hbuckets : d.buckets.isEmpty = false := by
      rw [← Bool.not_eq_true]
      intro hempty
      have hnodes := h.nodes_eq
      rw [nodes_of_isEmpty hempty] at hnodes
      simp at hnodes
    have hrefuses : ¬d.refusesBuckets = true := by simp [refusesBuckets, hbuckets]
    obtain ⟨hkeeps, ⟨front, found, back, hfound, hanswers, -⟩ | ⟨-, hold, hperm⟩⟩ :=
      hsound.insert_spec node.key value
    · exact absurd (h.eq_of_answers hfound hanswers).1 hhash
    · refine ⟨(d.insert node.key value).2, ?_, hperm.map Node.binding, ?_⟩
      · rw [put, if_neg hrefuses, ← hold]
      · rw [hkeeps.sound.size, hsound.size, hperm.length_eq, List.length_cons]

end Lone

section Visits

variable {d d' : Dictionary K V} {m : FiniteMap K V} {g : K → K} {h : V → V}

/-- Where distinct keys stay distinct, every entry has a key of its own after the relocation. -/
theorem Represents.lone_relocated (hrepresents : d.Represents m)
    (hinjective : Set.InjOn g {key | key ∈ d.keys})
    (hrelocated : d'.nodes = d.nodes.map (Node.relocate g h)) {before after : List (Node K V)}
    {node : Node K V} (hnodes : d.nodes = before ++ node :: after) :
    d'.Lone (before.map (Node.relocate g h)) (node.relocate g h)
      (after.map (Node.relocate g h)) where
  nodes_eq := by rw [hrelocated, hnodes, List.map_append, List.map_cons]
  only := by
    have hdistinct := hrepresents.lists.distinct
    rw [map_fst_entries, keys, hnodes, List.map_append, List.map_cons, List.nodup_middle,
      ← List.map_append] at hdistinct
    have hmem {other : Node K V} (hother : other ∈ before ++ after) : other.key ∈ d.keys := by
      rw [keys, hnodes]
      exact List.mem_map_of_mem (List.perm_middle.mem_iff.mpr (List.mem_cons_of_mem node hother))
    have hkey : node.key ∈ d.keys := by simp [keys, hnodes]
    rw [← List.map_append]
    intro relocated hrelocated hsame
    obtain ⟨other, hother, rfl⟩ := List.mem_map.mp hrelocated
    have heq : other.key = node.key := hinjective (hmem hother) hkey hsame
    exact (List.nodup_cons.mp hdistinct).1 (heq ▸ List.mem_map_of_mem hother)

variable [Visitable K] [Visitable V]

/--
An answer that a finite map explains, where a visit may also rewrite the keys of the bindings, as
long as it makes no two of them alike.
-/
inductive Follows (allocates : Prop) (m : FiniteMap K V) :
    Operation K V σ → Answer K V σ → FiniteMap K V → Prop
  | stays {operation : Operation K V σ} {answer : Answer K V σ} {m' : FiniteMap K V}
    (h : Explains allocates m operation answer m') : Follows allocates m operation answer m'
  | moves {visitor : Visitor σ} {memory memory' : σ} {result : Except Violation Unit}
    {bindings bindings' : List (K × V)} {m' : FiniteMap K V} (h : Lists bindings m)
    (hvisit : outcome (visitBindings visitor (bindings, memory)) = (result, bindings', memory'))
    (h' : Lists bindings' m') :
    Follows allocates m (.visit visitor memory) (.visited result memory') m'

/-- The answers that a finite map follows, and the map afterwards. -/
inductive FollowsAll (allocates : Prop) :
    FiniteMap K V → List (Operation K V σ) → List (Answer K V σ) → FiniteMap K V → Prop
  | nil (m : FiniteMap K V) : FollowsAll allocates m [] [] m
  | cons {m m' m'' : FiniteMap K V} {operation : Operation K V σ}
    {rest : List (Operation K V σ)} {answer : Answer K V σ} {answers : List (Answer K V σ)}
    (h : Follows allocates m operation answer m') (hrest : FollowsAll allocates m' rest answers m'') :
    FollowsAll allocates m (operation :: rest) (answer :: answers) m''

/-- Whether the operation leaves distinct keys under the old hashes; only a visit may not. -/
def Operation.KeepsHashes : Operation K V σ → Dictionary K V → Prop
  | .visit visitor memory, d =>
    (outcome (visitEdges visitor (d, memory))).2.1.keys.Nodup ∧
      (outcome (visitEdges visitor (d, memory))).2.1.keys.map d.hasher = d.keys.map d.hasher
  | _, _ => True

/-- Whether all visits of a run leave distinct keys under the old hashes. -/
def KeepsHashes : List (Operation K V σ) → Dictionary K V → Prop
  | [], _ => True
  | operation :: rest, d => operation.KeepsHashes d ∧ KeepsHashes rest (operation.run d).2

namespace Represents

/-- A visit that keeps the hashes of distinct keys is followed by the finite map. -/
theorem moves (hrepresents : d.Represents m) {visitor : Visitor σ} {memory : σ}
    (hkeeps : (Operation.visit visitor memory).KeepsHashes d) :
    ∃ m', Follows d.settings.allocates m (.visit visitor memory)
        ((Operation.visit visitor memory).run d).1 m' ∧
      ((Operation.visit visitor memory).run d).2.Represents m' := by
  obtain ⟨hdistinct, hhashes⟩ := hkeeps
  have hlength := length_visitBindings visitor d.entries memory
  simp only [Operation.run, outcome_visitEdges] at hdistinct hhashes ⊢
  rw [← map_fst_entries, (hrepresents.sound.refilled hlength).2.1] at hdistinct hhashes
  obtain ⟨m', hlists, hrepresents'⟩ := hrepresents.refilled hlength hdistinct hhashes
  exact ⟨m', .moves hrepresents.lists rfl hlists, hrepresents'⟩

/-- An operation that keeps the hashes of distinct keys is followed by the finite map. -/
theorem run_of_keepsHashes (hrepresents : d.Represents m) {operation : Operation K V σ}
    (hkeeps : operation.KeepsHashes d) :
    ∃ m', Follows d.settings.allocates m operation (operation.run d).1 m' ∧
      (operation.run d).2.Represents m' := by
  cases operation with
  | visit visitor memory => exact hrepresents.moves hkeeps
  | _ =>
    refine (hrepresents.run ?_).imp fun m' hrun => ⟨.stays hrun.1, hrun.2⟩
    trivial

/-- A run that keeps the hashes of distinct keys is followed by the finite map. -/
theorem runAll_of_keepsHashes (hrepresents : d.Represents m) {operations : List (Operation K V σ)}
    (hkeeps : KeepsHashes operations d) :
    ∃ m', FollowsAll d.settings.allocates m operations (Dictionary.runAll operations d).1 m' ∧
      (Dictionary.runAll operations d).2.Represents m' := by
  induction operations generalizing d m with
  | nil => exact ⟨m, .nil m, hrepresents⟩
  | cons operation rest ih =>
    obtain ⟨hfirst, hrest⟩ := hkeeps
    obtain ⟨m', hfollows, hrepresents'⟩ := hrepresents.run_of_keepsHashes hfirst
    obtain ⟨m'', hall, hlast⟩ := ih hrepresents' hrest
    rw [(hrepresents.sound.run operation).settings] at hall
    exact ⟨m'', .cons hfollows hall, hlast⟩

end Represents

omit [DecidableEq K] in
/-- A visit refills the entries with what it makes of them. -/
theorem eq_refilled_of_visitEdges {visitor : Visitor σ} {memory memory' : σ} (hsound : d.Sound)
    (hvisit : visitEdges visitor (d, memory) = .ok () (d', memory')) :
    d'.entries.length = d.entries.length ∧ d' = d.refilled d'.entries := by
  have hvisited := outcome_visitEdges visitor d memory
  rw [hvisit, outcome, Prod.mk.injEq, Prod.mk.injEq] at hvisited
  obtain ⟨-, hrefilled, -⟩ := hvisited
  have hlength := length_visitBindings visitor d.entries memory
  have hentries := (hsound.refilled hlength).2.1
  rw [← hrefilled] at hentries
  exact ⟨hentries ▸ hlength, hentries ▸ hrefilled⟩

omit [DecidableEq K] [Visitable K] [Visitable V] in
/-- What two functions make of keys and values relocates the entries, in their old places. -/
theorem Sound.relocated (hsound : d.Sound) :
    (d.refilled (d.entries.map (Prod.map g h))).nodes = d.nodes.map (Node.relocate g h) := by
  have hlength : (d.entries.map (Prod.map g h)).length = d.entries.length := List.length_map ..
  obtain ⟨-, hentries, hhashes⟩ := hsound.refilled hlength
  refine eq_of_map_binding (hentries.trans ?_) (hhashes.trans ?_)
  · rw [entries, List.map_map, List.map_map]
    rfl
  · rw [List.map_map]
    rfl

/--
After a visit that rewrites every key and every value, and makes no two keys alike, an entry is
found under its new key exactly if this has the hash of the old one. Otherwise it is lost, and an
insertion adds a second entry with its key. If every key keeps its hash, all that follows is answered
as the finite map of the new bindings answers it, until a visit rewrites keys in another way.
-/
theorem finds_iff_hash_eq {τ : Type} {settings : DictionarySettings} {hasher : K → UInt64}
    {first : Dictionary K V} (hfirst : create settings hasher = .ok first)
    {operations : List (Operation K V σ)} (hkeys : KeepsKeys operations first)
    (hd : (runAll operations first).2 = d) {visitor : Visitor τ} {memory memory' : τ}
    (hvisit : visitEdges visitor (d, memory) = .ok () (d', memory'))
    (hrewrites : d'.entries = d.entries.map (Prod.map g h))
    (hinjective : Set.InjOn g {key | key ∈ d.keys}) :
    (∀ before key value after, d.entries = before ++ (key, value) :: after →
      (d'.Finds (before.map (Prod.map g h)) (g key) (h value) (after.map (Prod.map g h)) ↔
        hasher (g key) = hasher key) ∧
      (hasher (g key) ≠ hasher key → d'.Loses (g key))) ∧
    ((∀ key ∈ d.keys, hasher (g key) = hasher key) →
      ∃ m, Lists d'.entries m ∧
        ∀ later : List (Operation K V σ), KeepsHashes later d' →
          ∃ m', FollowsAll settings.allocates m later (runAll later d').1 m' ∧
            Lists (runAll later d').2.entries m') := by
  obtain ⟨m, -, hrepresents⟩ := (represents_create hfirst).runAll hkeys
  have hrun := (sound_create hfirst).runAll operations
  rw [hd] at hrepresents hrun
  have hsame : d.settings = settings ∧ d.hasher = hasher := by
    obtain ⟨-, rfl⟩ := create_eq hfirst
    exact ⟨hrun.settings, hrun.hasher⟩
  obtain ⟨hlength, hrefilled⟩ := eq_refilled_of_visitEdges hrepresents.sound hvisit
  have hkeeps : Keeps d d' := hrefilled ▸ (hrepresents.sound.refilled hlength).1
  have hhasher : d'.hasher = hasher := hkeeps.hasher.trans hsame.2
  refine ⟨fun before key value after hentries => ?_, fun hhashes => ?_⟩
  · obtain ⟨front, rest, hnodes, rfl, hrest⟩ := List.map_eq_append_iff.mp hentries
    obtain ⟨node, back, rfl, hbinding, rfl⟩ := List.map_eq_cons_iff.mp hrest
    obtain ⟨rfl, rfl⟩ := Prod.mk.inj hbinding
    have hhash : node.hash = hasher node.key :=
      hsame.2 ▸ hrepresents.hashed node (by simp [hnodes])
    have hrelocated : d'.nodes = d.nodes.map (Node.relocate g h) := by
      rw [hrefilled, hrewrites, hrepresents.sound.relocated]
    have hlone := hrepresents.lone_relocated hinjective hrelocated hnodes
    have hloses (hne : hasher (g node.key) ≠ hasher node.key) : d'.Loses (g node.key) :=
      hlone.loses hkeeps.sound (by rw [hhasher]; exact fun heq => hne (heq.symm.trans hhash))
    refine ⟨⟨fun hfinds => ?_, fun heq => ?_⟩, hloses⟩
    · by_contra hne
      exact hfinds.not_loses (hloses hne)
    · have hfinds := hlone.finds hkeeps.sound (by rw [hhasher]; exact hhash.trans heq.symm)
      rw [List.map_map, List.map_map] at hfinds ⊢
      exact hfinds
  · have hmoved : d'.entries.map Prod.fst = d.keys.map g := by
      rw [hrewrites, ← map_fst_entries, List.map_map, List.map_map]
      rfl
    have hdistinct := hrepresents.lists.distinct
    rw [map_fst_entries] at hdistinct
    obtain ⟨m', hlists, hrepresents'⟩ := hrepresents.refilled hlength
      (hmoved ▸ hdistinct.map_on fun key hkey other hother hsame => hinjective hkey hother hsame)
      (by
        rw [hmoved, List.map_map, hsame.2]
        exact List.map_congr_left hhashes)
    rw [← hrefilled] at hrepresents'
    refine ⟨m', hlists, fun later hlater => ?_⟩
    obtain ⟨m'', hfollows, hlast⟩ := hrepresents'.runAll_of_keepsHashes hlater
    rw [hkeeps.settings, hsame.1] at hfollows
    exact ⟨m'', hfollows, hlast.lists⟩

end Visits

/-- What the collector that makes values greater by one makes of one. -/
def raised (value : Value) : Value := ⟨value.word + 2⟩

/-- Distinct values stay distinct. -/
theorem raised_injective : Function.Injective raised := by
  rintro ⟨word⟩ ⟨word'⟩ h
  have hwords : word + 2 = word' + 2 := congrArg Value.word h
  rw [Value.mk.injEq]
  exact (UInt64.add_left_inj 2).mp hwords

/-- The collector rewrites every key and every value of a dictionary. -/
theorem visitEdges_raising {d : Dictionary Value Value} (hsound : d.Sound) (count : Nat) :
    ∃ d' count', visitEdges raising (d, count) = .ok () (d', count') ∧
      d'.entries = d.entries.map (Prod.map raised raised) := by
  have hall (bindings : List (Value × Value)) (count : Nat) :
      ∃ count', visitBindings raising (bindings, count) =
        .ok () (bindings.map (Prod.map raised raised), count') := by
    induction bindings generalizing count with
    | nil => exact ⟨count, rfl⟩
    | cons first rest ih =>
      obtain ⟨count', hrest⟩ := ih (count + 2)
      refine ⟨count', ?_⟩
      have hfirst : visitBinding raising (first, count) =
          .ok () (Prod.map raised raised first, count + 2) := rfl
      simp only [visitBindings, Visit.items] at hrest ⊢
      simp only [Visit.each, hfirst, hrest, List.map_cons]
  obtain ⟨count', hvisit⟩ := hall d.entries count
  refine ⟨_, count', ?_, (hsound.refilled (List.length_map ..)).2.1⟩
  rw [visitEdges_eq, Visit.on, hvisit]

/-- Two keys, both with the hash 0 if the lower bits do not count. -/
def closeKeys : List (Operation Value Value Nat) :=
  [.put (.ofNat 1) (.ofNat 10), .put (.ofNat 3) (.ofNat 30)]

/--
One key keeps its hash and is found again, the other one is lost, although its new hash has the
same bucket. Under one hash for all keys, none is lost.
-/
theorem finds_iff_hash_eq_closeKeys :
    (∃ d d' : Dictionary Value Value, ∃ count,
      create .standard (fun key => key.word / 8 * 8) = .ok d ∧
      visitEdges raising ((runAll closeKeys d).2, 0) = .ok () (d', count) ∧
      d'.Finds [(.ofNat 4, .ofNat 31)] (.ofNat 2) (.ofNat 11) [] ∧ d'.Loses (.ofNat 4)) ∧
    ∃ d d' : Dictionary Value Value, ∃ count m,
      create .standard (fun _ => 0) = .ok d ∧
      visitEdges raising ((runAll closeKeys d).2, 0) = .ok () (d', count) ∧
      Lists d'.entries m ∧ ∀ later : List (Operation Value Value Nat), KeepsHashes later d' →
        ∃ m', FollowsAll DictionarySettings.standard.allocates m later (runAll later d').1 m' ∧
          Lists (runAll later d').2.entries m' := by
  have hcreate (hasher : Value → UInt64) :=
    create_of_validate (V := Value) validate_standard hasher
  have hkeys (d : Dictionary Value Value) : KeepsKeys closeKeys d := ⟨trivial, trivial, trivial⟩
  have hvisit (hasher : Value → UInt64) :=
    visitEdges_raising ((sound_create (hcreate hasher)).runAll closeKeys).sound 0
  constructor
  · obtain ⟨d', count, hvisit, hrewrites⟩ := hvisit fun key => key.word / 8 * 8
    have hfinds := (finds_iff_hash_eq (hcreate _) (hkeys _) rfl hvisit hrewrites
      raised_injective.injOn).1
    refine ⟨_, d', count, hcreate _, hvisit, ?_, ?_⟩
    · exact (hfinds [(.ofNat 3, .ofNat 30)] (.ofNat 1) (.ofNat 10) [] (by decide +kernel)).1.mpr
        (by decide +kernel)
    · exact (hfinds [] (.ofNat 3) (.ofNat 30) [(.ofNat 1, .ofNat 10)] (by decide +kernel)).2
        (by decide +kernel)
  · obtain ⟨d', count, hvisit, hrewrites⟩ := hvisit fun _ => 0
    obtain ⟨m, hlists, hfollows⟩ := (finds_iff_hash_eq (hcreate _) (hkeys _) rfl hvisit hrewrites
      raised_injective.injOn).2 fun _ _ => rfl
    exact ⟨_, d', count, m, hcreate _, hvisit, hlists, hfollows⟩

/--
Without buckets to be had, no entry is there to be lost, and still the next insertion is not answered
as a finite map answers it.
-/
theorem refuses_after_visit_oversized :
    ∃ d : Dictionary Int64 Value, create oversized (fun key => key.toUInt64) = .ok d ∧
      visitEdges raising (d, 0) = .ok () (d, 0) ∧ d.entries = [] ∧
      (runAll [(.put 1 (.ofNat 2) : Operation Int64 Value Nat)] d).1 =
        [.halted .capacityOverflow] ∧
      ∀ m m', ¬FollowsAll True m [(.put 1 (.ofNat 2) : Operation Int64 Value Nat)]
        (runAll [(.put 1 (.ofNat 2) : Operation Int64 Value Nat)] d).1 m' := by
  have hvalid : oversized.validate = .ok () := by decide +kernel
  have hhalts : (runAll [(.put 1 (.ofNat 2) : Operation Int64 Value Nat)]
      ⟨#[], 0, 0, oversized, fun key => key.toUInt64⟩).1 = [.halted .capacityOverflow] := by
    decide +kernel
  refine ⟨_, create_of_validate hvalid _, rfl, rfl, hhalts, fun m m' hfollows => ?_⟩
  rw [hhalts] at hfollows
  obtain - | ⟨⟨⟨⟩⟩, -⟩ := hfollows
  exact absurd trivial ‹¬True›

end Dictionary

end ManagedCore
