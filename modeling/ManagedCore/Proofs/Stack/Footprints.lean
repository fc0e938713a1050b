import ManagedCore.Proofs.Stack.Programs

/-!
# The footprints of operations

An operation names parts of frames: a variable that it stores to, the frame that it commits. Of a
frame that is in the table before the operation and after it, the unnamed parts are as they were,
and no operation names the place of a frame, its links, or what its call said about it. A frame is
filled further or committed, and never the other way.
-/

namespace ManagedCore

/-- A part of a frame that operations may change. -/
inductive Part where
  /-- How many variables of a reserved frame are filled. -/
  | filling
  /-- Whether the frame is committed. -/
  | commitment
  | resume
  /-- A variable. -/
  | slot (index : Nat)

/-- One state of a frame comes before another, or is the same. -/
inductive FrameState.Precedes : FrameState → FrameState → Prop
  | reserved {filled filled' : Nat} (h : filled ≤ filled') :
    Precedes (.reserved filled) (.reserved filled')
  | committed (state : FrameState) : Precedes state .committed

/-- Every state precedes itself. -/
theorem FrameState.Precedes.refl (state : FrameState) : state.Precedes state := by
  cases state with
  | reserved filled => exact .reserved (Nat.le_refl filled)
  | committed => exact .committed _

/-- States that precede one another form a line. -/
theorem FrameState.Precedes.trans {first second third : FrameState} (h : first.Precedes second)
    (h' : second.Precedes third) : first.Precedes third := by
  cases h' with
  | committed => exact .committed first
  | reserved hle' =>
    cases h with
    | reserved hle => exact .reserved (Nat.le_trans hle hle')

/-- What is left of a frame when only the named parts of it have changed, and its state forward. -/
structure Activation.Keeps (named : Part → Prop) (old new : Activation) : Prop where
  header : new.header =
    { old.header with state := new.header.state, resume := new.header.resume }
  forward : old.header.state.Precedes new.header.state
  filling : new.header.state = old.header.state ∨ named .filling ∨ named .commitment
  commitment : new.header.isCommitted = old.header.isCommitted ∨ named .commitment
  resume : new.header.resume = old.header.resume ∨ named .resume
  width : new.locals.length = old.locals.length
  locals : ∀ index : Nat, new.locals[index]? = old.locals[index]? ∨ named (.slot index)

namespace Activation.Keeps

variable {named named' : Part → Prop} {old new newest : Activation}

/-- A frame keeps itself. -/
theorem refl (named : Part → Prop) (old : Activation) : old.Keeps named old :=
  ⟨rfl, .refl _, .inl rfl, .inl rfl, .inl rfl, rfl, fun _ => .inl rfl⟩

/-- More parts may be named. -/
theorem mono (h : old.Keeps named new) (hnamed : ∀ part, named part → named' part) :
    old.Keeps named' new where
  header := h.header
  forward := h.forward
  filling := h.filling.imp_right (Or.imp (hnamed _) (hnamed _))
  commitment := h.commitment.imp_right (hnamed _)
  resume := h.resume.imp_right (hnamed _)
  width := h.width
  locals := fun index => (h.locals index).imp_right (hnamed _)

/-- A part that neither of two changes names is kept by both. -/
theorem trans (h : old.Keeps named new) (h' : new.Keeps named newest) :
    old.Keeps named newest where
  header := h'.header.trans (by rw [h.header])
  forward := h.forward.trans h'.forward
  filling := by
    rcases h'.filling with heq | hnamed
    · rcases h.filling with heq' | hnamed
      · exact .inl (heq.trans heq')
      · exact .inr hnamed
    · exact .inr hnamed
  commitment := by
    rcases h'.commitment with heq | hnamed
    · exact h.commitment.imp_left heq.trans
    · exact .inr hnamed
  resume := by
    rcases h'.resume with heq | hnamed
    · exact h.resume.imp_left heq.trans
    · exact .inr hnamed
  width := h'.width.trans h.width
  locals := fun index => by
    rcases h'.locals index with heq | hnamed
    · exact (h.locals index).imp_left heq.trans
    · exact .inr hnamed

/-- A frame of which nothing is named is as it was. -/
theorem eq_of_unnamed (h : old.Keeps named new) (hfilling : ¬named .filling)
    (hcommitment : ¬named .commitment) (hresume : ¬named .resume)
    (hlocals : ∀ index : Nat, new.locals[index]? = old.locals[index]?) : new = old := by
  have hstate : new.header.state = old.header.state :=
    h.filling.resolve_right fun hnamed => hnamed.elim hfilling hcommitment
  have hheader : new.header = old.header := by
    rw [h.header, hstate, h.resume.resolve_right hresume]
  obtain ⟨header, locals⟩ := new
  simp only at hheader hlocals
  rw [hheader, List.ext_getElem? hlocals]

end Activation.Keeps

/--
The parts that an operation names, on a stack with these headers and this current frame. A scan
names the variables that it may hand to the visitor. What a new frame is given is not named.
-/
def Operation.Names {α : Type} (headers : List Frame) (current : Option FrameId) :
    Operation α → FrameId → Part → Prop
  | .commit => fun id part => part = .commitment ∧ id + 1 = headers.length
  | .writeArguments target values => fun id part =>
    id = target ∧ (part = .filling ∨ ∃ frame filled index, headers[target]? = some frame ∧
      frame.state = .reserved filled ∧ filled ≤ index ∧ index < filled + values.length ∧
      part = .slot index)
  | .store target index _ => fun id part => id = target ∧ part = .slot index
  | .storeCurrent index _ => fun id part => current = some id ∧ part = .slot index
  | .storeAll target values => fun id part =>
    id = target ∧ ∃ index < values.length, part = .slot index
  | .setResume _ => fun id part => current = some id ∧ part = .resume
  | .returnValue _ => fun id part =>
    ∃ callee frame index, current = some callee ∧ headers[callee]? = some frame ∧
      frame.destination = .slot id index ∧ part = .slot index
  | .scan _ _ => fun id part => ∃ root ∈ tableRoots headers, id = root.id ∧ part = .slot root.slot
  | .ask _ | .reserve .. | .push .. | .pop => fun _ _ => False

namespace PrivateStack

/-- Frames that are in the list before and after have changed in named parts only. -/
structure Evolves (named : FrameId → Part → Prop) (p p' : PrivateStack) : Prop where
  capacity : p'.capacity = p.capacity
  keeps : ∀ (id : FrameId) (old new : Activation), p.frames[id]? = some old →
    p'.frames[id]? = some new → old.Keeps (named id) new

/-- The same frames are in the list, and have changed in named parts only. -/
structure Alters (named : FrameId → Part → Prop) (p p' : PrivateStack) : Prop
    extends Evolves named p p' where
  length : p'.frames.length = p.frames.length

variable {named named' : FrameId → Part → Prop} {p p' p'' : PrivateStack}

namespace Evolves

/-- Only what is named of the old frames matters. -/
theorem mono (h : p.Evolves named p')
    (hnamed : ∀ id < p.frames.length, ∀ part, named id part → named' id part) :
    p.Evolves named' p' := by
  refine ⟨h.capacity, fun id old new hold hnew => ?_⟩
  exact (h.keeps id old new hold hnew).mono (hnamed id (List.getElem?_eq_some_iff.mp hold).1)

/-- The frames that are left may be altered further. -/
theorem alters (h : p.Evolves named p') (h' : p'.Alters named p'') : p.Evolves named p'' := by
  refine ⟨h'.capacity.trans h.capacity, fun id old newest hold hnewest => ?_⟩
  have hlt : id < p'.frames.length := h'.length ▸ (List.getElem?_eq_some_iff.mp hnewest).1
  have hnew : p'.frames[id]? = some p'.frames[id] := List.getElem?_eq_getElem hlt
  exact (h.keeps id old _ hold hnew).trans (h'.keeps id _ newest hnew hnewest)

/-- A frame added to the end leaves the others as they were. -/
theorem concat (named : FrameId → Part → Prop) (p : PrivateStack) (activation : Activation) :
    p.Evolves named { p with frames := p.frames ++ [activation] } := by
  refine ⟨rfl, fun id old new hold hnew => ?_⟩
  rw [List.getElem?_append_left (List.getElem?_eq_some_iff.mp hold).1, hold] at hnew
  cases hnew
  exact .refl _ old

/-- Cutting the list off leaves the frames before as they were. -/
theorem take (named : FrameId → Part → Prop) (p : PrivateStack) (count : Nat) :
    p.Evolves named { p with frames := p.frames.take count } := by
  refine ⟨rfl, fun id old new hold hnew => ?_⟩
  rw [List.getElem?_take] at hnew
  split at hnew
  · cases hold.symm.trans hnew
    exact .refl _ old
  · cases hnew

end Evolves

namespace Alters

/-- Nothing has changed. -/
theorem refl (named : FrameId → Part → Prop) (p : PrivateStack) : p.Alters named p := by
  refine ⟨⟨rfl, fun id old new hold hnew => ?_⟩, rfl⟩
  cases hold.symm.trans hnew
  exact .refl _ old

/-- Frames may be altered twice. -/
theorem trans (h : p.Alters named p') (h' : p'.Alters named p'') : p.Alters named p'' :=
  ⟨h.toEvolves.alters h', h'.length.trans h.length⟩

/-- One frame may be replaced by another that keeps what is not named. -/
theorem setFrame {id : FrameId} {old new : Activation} (hold : p.frames[id]? = some old)
    (h : old.Keeps (named id) new) : p.Alters named (p.setFrame id new) := by
  refine ⟨⟨rfl, fun other found found' hfound hfound' => ?_⟩, List.length_set⟩
  rw [PrivateStack.setFrame, List.getElem?_set] at hfound'
  by_cases heq : id = other
  · subst heq
    cases hold.symm.trans hfound
    rw [if_pos rfl, if_pos (List.getElem?_eq_some_iff.mp hold).1] at hfound'
    cases hfound'
    exact h
  · rw [if_neg heq] at hfound'
    cases hfound.symm.trans hfound'
    exact .refl _ found

end Alters

/-- An operation on one frame changes what it changes of that frame. -/
theorem alters_onFrame {id : Nat} {change : Activation → Except Violation Activation}
    (h : ∀ old new, p.frames[id]? = some old → change old = .ok new → old.Keeps (named id) new) :
    p.Alters named (outcome (onFrame id change p)).2 := by
  rw [onFrame, activation]
  cases hold : p.frames[id]? with
  | none => exact .refl named p
  | some old =>
    have hbind : ((.ok old : Except Violation Activation) >>= change) = change old := rfl
    simp only [hbind]
    cases hnew : change old with
    | error violation => exact .refl named p
    | ok new => exact .setFrame hold (h old new hold hnew)

/-- An operation on the current frame changes what it changes of it. -/
theorem alters_onCurrent {operation : Nat → PrivateM Unit}
    (h : ∀ id, p.current = some id → p.Alters named (outcome (operation id p)).2) :
    p.Alters named (outcome (onCurrent operation p)).2 := by
  rw [onCurrent]
  cases hcurrent : p.current with
  | none => exact .refl named p
  | some id => exact h id hcurrent

/-- After a computation that alters frames there may be another one. -/
theorem alters_bind {α β : Type} {first : PrivateM α} {next : α → PrivateM β}
    (hfirst : p.Alters named (outcome (first p)).2)
    (hnext : ∀ (result : α) (p' : PrivateStack), p'.frames.length = p.frames.length →
      p'.Alters named (outcome (next result p')).2) :
    p.Alters named (outcome ((first >>= next) p)).2 := by
  show p.Alters named (outcome (EStateM.bind first next p)).2
  unfold EStateM.bind
  cases hresult : first p with
  | error halt p' =>
    rw [hresult] at hfirst
    exact hfirst
  | ok result p' =>
    rw [hresult] at hfirst
    exact hfirst.trans (hnext result p' hfirst.length)

/-- After any computation there may be one that alters the frames that are left. -/
theorem evolves_bind {α β : Type} {first : PrivateM α} {next : α → PrivateM β}
    (hfirst : p.Evolves named (outcome (first p)).2)
    (hnext : ∀ result p', first p = .ok result p' →
      p'.Alters named (outcome (next result p')).2) :
    p.Evolves named (outcome ((first >>= next) p)).2 := by
  show p.Evolves named (outcome (EStateM.bind first next p)).2
  unfold EStateM.bind
  cases hresult : first p with
  | error halt p' =>
    rw [hresult] at hfirst
    exact hfirst
  | ok result p' =>
    rw [hresult] at hfirst
    exact hfirst.alters (hnext result p' hresult)

/-- A store changes its variable. -/
theorem alters_store {id index : Nat} {value : Value} (hnamed : named id (.slot index)) :
    p.Alters named (outcome (store id index value p)).2 := by
  refine alters_onFrame fun old new _ hnew => ?_
  split at hnew
  next hindex =>
    cases hnew
    refine ⟨rfl, .refl _, .inl rfl, .inl rfl, .inl rfl, List.length_set, fun other => ?_⟩
    by_cases heq : index = other
    · exact .inr (heq ▸ hnamed)
    · exact .inl (List.getElem?_set_ne heq)
  next => cases hnew

/-- Values stored to the first variables of a frame change as many of them. -/
theorem alters_storeAll {id : Nat} {values : List Value}
    (hnamed : ∀ index < values.length, named id (.slot index)) :
    p.Alters named (outcome (storeAll id values p)).2 := by
  refine alters_onFrame fun old new _ hnew => ?_
  cases hnew
  have hlength : 0 + (values.take old.locals.length).length ≤ old.locals.length := by
    rw [List.length_take]
    omega
  refine ⟨rfl, .refl _, .inl rfl, .inl rfl, .inl rfl, length_splice hlength, fun index => ?_⟩
  rw [getElem?_splice hlength]
  by_cases hindex : index < values.length
  · exact .inr (hnamed index hindex)
  · rw [if_neg (by rw [List.length_take]; omega)]
    exact .inl rfl

/-- An instruction offset is all that changes of the current frame. -/
theorem alters_setResume {resume : Option Nat}
    (hnamed : ∀ id, p.current = some id → named id .resume) :
    p.Alters named (outcome (setResume resume p)).2 := by
  refine alters_onCurrent fun id hcurrent => alters_onFrame fun old new _ hnew => ?_
  cases hnew
  exact ⟨rfl, .refl _, .inl rfl, .inl rfl, .inr (hnamed id hcurrent), rfl, fun _ => .inl rfl⟩

/-- Arguments change the variables that they fill and the fill counter of their frame. -/
theorem alters_writeArguments {id : Nat} {values : List Value} (hfilling : named id .filling)
    (hnamed : ∀ old filled index, p.frames[id]? = some old → old.header.state = .reserved filled →
      filled ≤ index ∧ index < filled + values.length → named id (.slot index)) :
    p.Alters named (outcome (writeArguments id values p)).2 := by
  refine alters_onFrame fun old new hold hnew => ?_
  cases hstate : old.header.state with
  | committed =>
    simp only [hstate] at hnew
    cases hnew
  | reserved filled =>
    simp only [hstate] at hnew
    split at hnew
    next hstop =>
      cases hnew
      refine ⟨rfl, ?_, .inr (.inl hfilling), .inl ?_, .inl rfl, length_splice hstop,
        fun index => ?_⟩
      · rw [hstate]
        exact .reserved (Nat.le_add_right filled _)
      · simp [Frame.isCommitted, hstate]
      · rw [getElem?_splice hstop]
        by_cases hindex : filled ≤ index ∧ index < filled + values.length
        · exact .inr (hnamed old filled index hold hstate hindex)
        · exact .inl (if_neg hindex)
    next => cases hnew

/-- A commit changes the state of the last frame. -/
theorem alters_commit (hnamed : ∀ id, id + 1 = p.frames.length → named id .commitment) :
    p.Alters named (outcome (commit p)).2 := by
  rw [commit, future]
  cases hlength : p.frames.length with
  | zero => exact .refl named p
  | succ id =>
    have hlast := hnamed id hlength.symm
    refine alters_onFrame fun old new _ hnew => ?_
    split at hnew
    · cases hnew
    · cases hnew
      exact ⟨rfl, .committed _, .inr (.inr hlast), .inr hlast, .inl rfl, rfl, fun _ => .inl rfl⟩

/-- A visit changes the variable of its root. -/
theorem alters_visitRoot {σ : Type} (visitor : Visitor σ) {root : Root} (memory : σ)
    (hnamed : named root.id (.slot root.slot)) :
    p.Alters named (outcome (visitRoot visitor root (p, memory))).2.1 := by
  rw [visitRoot, activation]
  cases hold : p.frames[root.id]? with
  | none => exact .refl named p
  | some old =>
    simp only [Visit.outcome_on]
    refine .setFrame hold ⟨rfl, .refl _, .inl rfl, .inl rfl, .inl rfl, List.length_set, ?_⟩
    intro index
    by_cases heq : root.slot = index
    · exact .inr (heq ▸ hnamed)
    · exact .inl (List.getElem?_set_ne heq)

/-- Visits change the variables of their roots, also when one of them halts. -/
theorem alters_visitAll {σ : Type} (visitor : Visitor σ) {roots : List Root} (memory : σ)
    (hnamed : ∀ root ∈ roots, named root.id (.slot root.slot)) :
    p.Alters named (outcome (visitAll (visitRoot visitor) roots (p, memory))).2.1 := by
  induction roots generalizing p memory with
  | nil => exact .refl named p
  | cons root rest ih =>
    have hroot := alters_visitRoot (p := p) visitor memory (hnamed root List.mem_cons_self)
    simp only [visitAll]
    cases hvisit : visitRoot visitor root (p, memory) with
    | error violation state =>
      rw [hvisit] at hroot
      exact hroot
    | ok _ state =>
      rw [hvisit] at hroot
      exact hroot.trans
        (ih state.2 fun other hother => hnamed other (List.mem_cons_of_mem _ hother))

/-- A scan changes the variables of the roots that the headers declare. -/
theorem alters_scan {σ : Type} (visitor : Visitor σ) (memory : σ)
    (hnamed : ∀ root ∈ tableRoots p.headers, named root.id (.slot root.slot)) :
    p.Alters named (outcome (scan visitor (p, memory))).2.1 := by
  have hvisits := alters_visitAll (p := p) visitor memory fun root hroot =>
    hnamed root ((List.takeWhile_prefix Root.inside).sublist.mem hroot)
  rw [scan, scanRoots]
  cases hresult : visitAll (visitRoot visitor) ((tableRoots p.headers).takeWhile Root.inside)
      (p, memory) with
  | error violation state =>
    rw [hresult] at hvisits
    exact hvisits
  | ok _ state =>
    rw [hresult] at hvisits
    simp only
    cases (tableRoots p.headers).find? fun root => !root.inside with
    | some root => exact hvisits
    | none => exact hvisits

/-- A reservation changes no frame that is there. -/
theorem evolves_reserve (call : Call) (size : Nat) :
    p.Evolves named (outcome (reserve call size p)).2 := by
  rw [reserve]
  split
  · exact .concat named p _
  · exact (Alters.refl named p).toEvolves

/-- A reserved frame is the last one. -/
theorem last_of_reserve {call : Call} {size : Nat} {id : FrameId}
    (h : reserve call size p = .ok id p') :
    id = p.frames.length ∧ p'.frames.length = p.frames.length + 1 := by
  rw [reserve] at h
  split at h
  · cases h
    exact ⟨rfl, List.length_append⟩
  · cases h

/-- A call changes no frame that is there. -/
theorem evolves_push (call : Call) (arguments : List Value) :
    p.Evolves named (outcome (push call arguments p)).2 := by
  -- What the call writes and commits is its own frame, at the position after the last old one.
  have hpush : p.Evolves (fun id _ => id = p.frames.length)
      (outcome (push call arguments p)).2 := by
    refine evolves_bind (evolves_reserve call _) fun id p' hreserve => ?_
    obtain ⟨rfl, hlength⟩ := last_of_reserve hreserve
    refine alters_bind (alters_writeArguments rfl fun _ _ _ _ _ _ => rfl) fun _ p'' hlength' => ?_
    refine alters_bind (alters_commit fun id hid => ?_) fun _ last _ => .refl _ last
    show id = p.frames.length
    omega
  exact hpush.mono fun id hlt _ hid => absurd hid (Nat.ne_of_lt hlt)

/-- A cut changes nothing of the frames before it. -/
theorem evolves_cut (id : Nat) : p.Evolves named (outcome (cut id p)).2 := by
  rw [cut]
  cases p.frame id with
  | ok header => exact .take named p id
  | error violation => exact (Alters.refl named p).toEvolves

/-- A return changes nothing of the frames below. -/
theorem evolves_pop : p.Evolves named (outcome (pop p)).2 := by
  rw [pop]
  cases p.current with
  | none => exact (Alters.refl named p).toEvolves
  | some id => exact evolves_cut id

/-- A release changes nothing of the frames below. -/
theorem evolves_release (id : Nat) : p.Evolves named (outcome (release id p)).2 := by
  have hcut : p.Evolves named (outcome (cut id p)).2 := evolves_cut id
  rw [release]
  cases hresult : cut id p with
  | ok header p' =>
    rw [hresult] at hcut
    exact hcut
  | error halt p' =>
    rw [hresult] at hcut
    exact hcut

/-- A return tells the header of the current frame. -/
theorem header_of_pop {frame : Frame} (h : pop p = .ok frame p') :
    ∃ callee activation, p.current = some callee ∧ p.frames[callee]? = some activation ∧
      activation.header = frame := by
  rw [pop] at h
  cases hcurrent : p.current with
  | none =>
    rw [hcurrent] at h
    cases h
  | some callee =>
    simp only [hcurrent, cut, PrivateStack.frame, PrivateStack.activation] at h
    cases hcallee : p.frames[callee]? with
    | none =>
      rw [hcallee] at h
      cases h
    | some activation =>
      rw [hcallee] at h
      cases h
      exact ⟨callee, activation, rfl, hcallee, rfl⟩

/-- A return with a result changes the variable that the result goes to. -/
theorem evolves_returnValue {value : Value}
    (hnamed : ∀ callee activation id index, p.current = some callee →
      p.frames[callee]? = some activation →
      activation.header.destination = .slot id index → named id (.slot index)) :
    p.Evolves named (outcome (returnValue value p)).2 := by
  refine evolves_bind evolves_pop fun frame p' hpop => ?_
  obtain ⟨callee, activation, hcurrent, hcallee, rfl⟩ := header_of_pop hpop
  cases hdestination : activation.header.destination with
  | discard => exact .refl named p'
  | slot id index =>
    have hslot := hnamed callee activation id index hcurrent hcallee hdestination
    exact alters_bind (alters_store hslot) fun _ p'' _ => .refl named p''

end PrivateStack

/-- What a scan gives to its client leaves the state as the scan left it. -/
theorem outcome_collected {ω σ : Type} (result : EStateM.Result Violation (ω × σ) ScanStats) :
    (outcome (collected result)).2 = (outcome result).2.1 := by
  cases result <;> rfl

/-- An operation changes what it names, and nothing else of the frames that stay. -/
theorem Operation.evolves {α : Type} (operation : Operation α) (p : PrivateStack) :
    p.Evolves (operation.Names p.headers p.current) (outcome (operation.runPrivate p)).2 := by
  have hlength : p.headers.length = p.frames.length := List.length_map ..
  have hheader {id : FrameId} {activation : Activation} (hid : p.frames[id]? = some activation) :
      p.headers[id]? = some activation.header := by
    rw [PrivateStack.headers, List.getElem?_map, hid, Option.map_some]
  cases operation with
  | ask query =>
    simp only [runPrivate]
    cases query.privateAnswer p with
    | ok answer => exact (PrivateStack.Alters.refl _ p).toEvolves
    | error violation => exact (PrivateStack.Alters.refl _ p).toEvolves
  | reserve call size => exact PrivateStack.evolves_reserve call size
  | commit =>
    refine (PrivateStack.alters_commit fun id hlast => ?_).toEvolves
    exact ⟨rfl, hlast.trans hlength.symm⟩
  | writeArguments id values =>
    refine (PrivateStack.alters_writeArguments ⟨rfl, .inl rfl⟩ ?_).toEvolves
    intro old filled index hid hstate hindex
    exact ⟨rfl, .inr ⟨_, filled, index, hheader hid, hstate, hindex.1, hindex.2, rfl⟩⟩
  | push call arguments => exact PrivateStack.evolves_push call arguments
  | pop => exact PrivateStack.evolves_pop
  | returnValue value =>
    refine PrivateStack.evolves_returnValue
      fun callee activation id index hcurrent hcallee hslot => ?_
    exact ⟨callee, _, index, hcurrent, hheader hcallee, hslot, rfl⟩
  | store id index value => exact (PrivateStack.alters_store ⟨rfl, rfl⟩).toEvolves
  | storeCurrent index value =>
    refine (PrivateStack.alters_onCurrent fun id hcurrent => ?_).toEvolves
    exact PrivateStack.alters_store ⟨hcurrent, rfl⟩
  | storeAll id values =>
    exact (PrivateStack.alters_storeAll fun index hindex => ⟨rfl, index, hindex, rfl⟩).toEvolves
  | setResume resume =>
    exact (PrivateStack.alters_setResume fun id hcurrent => ⟨hcurrent, rfl⟩).toEvolves
  | scan visitor memory =>
    rw [runPrivate, outcome_collected]
    exact (PrivateStack.alters_scan visitor memory fun root hroot =>
      ⟨root, hroot, rfl, rfl⟩).toEvolves

end ManagedCore
