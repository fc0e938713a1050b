import ManagedCore.Demonstration.Mutators
import ManagedCore.Proofs.Numeric.TaggedWords
import ManagedCore.Proofs.Stack.Cursors
import ManagedCore.Proofs.Stack.FilledCalls
import ManagedCore.Proofs.Stack.Queries
import ManagedCore.Proofs.Stack.Room

/-!
# Chains of calls

A mutator calls one function at level after level, and evaluates every argument by a nested call on
top of the frame that waits for it. A frame takes 152 bytes, and a level needs room for two of them
although only one stays: of the frames that an arena has room for, all but one can be used.

Main statement: what a chain of any depth leaves behind on an empty stack, and the fault it ends
with.
-/

namespace ManagedCore

namespace PrivateStack

variable {p : PrivateStack} {call : Call} {size : Nat}

/-- The frames with one more behind them. -/
def extend (p : PrivateStack) (activation : Activation) : PrivateStack where
  capacity := p.capacity
  frames := p.frames ++ [activation]

/-- The frame that a call has on top of these. -/
def activationOf (p : PrivateStack) (call : Call) (size : Nat) (state : FrameState)
    (locals : List Value) : Activation where
  header := {
    context := call.context
    returnLink := p.current
    returnFuture := p.future
    resume := call.resume
    destination := call.destination
    function := call.function
    state := state
    address := p.available - footprint size
    size := size }
  locals := locals

/-- The last frame is found behind the others. -/
theorem getElem?_extend (p : PrivateStack) (activation : Activation) :
    (p.extend activation).frames[p.frames.length]? = some activation :=
  List.getElem?_concat_length

/-- There is one frame more. -/
theorem length_extend (p : PrivateStack) (activation : Activation) :
    (p.extend activation).frames.length = p.frames.length + 1 :=
  List.length_append

/-- The last frame is innermost. -/
theorem future_extend (p : PrivateStack) (activation : Activation) :
    (p.extend activation).future = some p.frames.length := by
  rw [future, length_extend, lastPosition]

/-- The last frame takes its bytes off the room. -/
theorem available_extend (p : PrivateStack) (activation : Activation) :
    (p.extend activation).available = p.available - activation.header.bytes := by
  have hheaders : (p.extend activation).headers = p.headers ++ [activation.header] :=
    List.map_append
  rw [available, usedBytes, hheaders, tableBytes_concat, available, usedBytes, Nat.sub_sub]
  rfl

/-- The last frame gives way to another one. -/
theorem setFrame_extend (p : PrivateStack) (old new : Activation) :
    (p.extend old).setFrame p.frames.length new = p.extend new := by
  rw [setFrame, extend, extend, List.set_append_right _ _ (Nat.le_refl _), Nat.sub_self]
  rfl

/-- A frame that is put back leaves the frames as they are. -/
theorem setFrame_self {id : Nat} {activation : Activation}
    (hid : p.frames[id]? = some activation) : p.setFrame id activation = p := by
  obtain ⟨hlt, rfl⟩ := List.getElem?_eq_some_iff.mp hid
  rw [setFrame, List.set_getElem_self]

/-- Without the last frame the others are left. -/
theorem cut_extend (p : PrivateStack) (activation : Activation) :
    cut p.frames.length (p.extend activation) = .ok activation.header p := by
  rw [cut, frame, PrivateStack.activation, getElem?_extend]
  simp only [Functor.map, Except.map, extend]
  rw [List.take_left]

/-- Releasing the last frame leaves the others. -/
theorem release_extend (p : PrivateStack) (activation : Activation) :
    release p.frames.length (p.extend activation) = .ok () p := by
  rw [release, cut_extend]

/-- Returning from the last frame leaves the others. -/
theorem pop_extend (p : PrivateStack) {activation : Activation}
    (hcommitted : activation.header.isCommitted = true) :
    pop (p.extend activation) = .ok activation.header p := by
  have hheaders : (p.extend activation).headers = p.headers ++ [activation.header] :=
    List.map_append
  have hlength : p.headers.length = p.frames.length := List.length_map _
  rw [pop, current, hheaders, lastCommitted_concat, if_pos hcommitted, hlength]
  exact cut_extend p activation

/-- A frame is reserved if there is room for it. -/
theorem reserve_eq (p : PrivateStack) (call : Call) (size : Nat) :
    reserve call size p =
      if footprint size ≤ p.available then
        .ok p.frames.length
          (p.extend (p.activationOf call size (.reserved 0) (List.replicate size .zero)))
      else .error (.fault (.stackOverflow (min (footprint size) maxWord) p.available)) p := rfl

/-- Values are written to the last frame behind those it has, if they fit. -/
theorem writeArguments_extend (p : PrivateStack) (call : Call) {written values : List Value}
    (hfit : written.length + values.length ≤ size) :
    writeArguments p.frames.length values (p.extend (p.activationOf call size
        (.reserved written.length) (written ++ List.replicate (size - written.length) .zero))) =
      .ok () (p.extend (p.activationOf call size (.reserved (written ++ values).length)
        ((written ++ values) ++ List.replicate (size - (written ++ values).length) .zero))) := by
  rw [writeArguments_eq (getElem?_extend _ _) rfl, setFrame_extend, List.length_append]
  simp only [activationOf, List.length_append, List.length_replicate]
  rw [if_pos (by omega), splice_append_replicate hfit, List.length_append]

/-- The last frame is committed. -/
theorem commit_extend {filled : Nat} {locals : List Value} :
    commit (p.extend (p.activationOf call size (.reserved filled) locals)) =
      .ok () (p.extend (p.activationOf call size .committed locals)) := by
  rw [commit_eq (length_extend _ _) (getElem?_extend _ _) rfl, setFrame_extend]
  rfl

/-- A call whose frame and arguments fit has its frame behind the others. -/
theorem push_of_le (call : Call) (arguments : List Value)
    (hroom : footprint call.function.frameSize ≤ p.available)
    (harguments : arguments.length ≤ call.function.frameSize) :
    push call arguments p =
      .ok p.frames.length (p.extend (p.activationOf call call.function.frameSize .committed
        (arguments ++ List.replicate (call.function.frameSize - arguments.length) .zero))) := by
  have hreserve := reserve_eq p call call.function.frameSize
  rw [if_pos hroom] at hreserve
  have hfit : ([] : List Value).length + arguments.length ≤ call.function.frameSize := by
    rwa [List.length_nil, Nat.zero_add]
  have hwritten := writeArguments_extend p call hfit
  simp only [List.nil_append, List.length_nil, Nat.sub_zero] at hwritten
  simp only [push, bind, EStateM.bind, hreserve, hwritten, commit_extend]
  rfl

/-- A call whose frame does not fit is refused. -/
theorem push_of_lt (call : Call) (arguments : List Value)
    (hroom : p.available < footprint call.function.frameSize) :
    push call arguments p = .error
      (.fault (.stackOverflow (min (footprint call.function.frameSize) maxWord) p.available)) p := by
  have hreserve := reserve_eq p call call.function.frameSize
  rw [if_neg (Nat.not_le.mpr hroom)] at hreserve
  simp only [push, bind, EStateM.bind, hreserve]

end PrivateStack

namespace Demonstration

open Stack (Refines RefinesBeside)

variable {p : PrivateStack} {level argument count : Nat}

/-- The reference of an object, whose address is a multiple of sixteen. -/
def objectValue (level argument : Nat) : Value :=
  ⟨UInt64.ofNat (0x100000 + (level * 2 + argument) * 16) ||| Value.referenceTag⟩

/-- Every object has its reference. -/
theorem objectOf_eq (level argument : Nat) :
    objectOf level argument = .ok (objectValue level argument) := by
  have haligned : UInt64.ofNat (0x100000 + (level * 2 + argument) * 16) &&& Value.tagMask = 0 := by
    rw [← UInt64.toNat_inj, Value.toNat_and_tagMask, UInt64.toNat_ofNat']
    show _ = 0
    omega
  rw [objectOf, Value.ofAddress, if_pos haligned, objectValue]

/-- The reference of an object is one. -/
theorem isReference_objectValue (level argument : Nat) :
    (objectValue level argument).isReference = true := by
  have haddress := Value.ofAddress_eq_ok_iff.mp (objectOf_eq level argument)
  rw [Value.isReference_iff]
  omega

/-! ## Calls on private frames -/

/-- A nested call on private frames. -/
def nestedFrames (argument : Nat) : PrivateM Unit := do
  let _ ← PrivateStack.push (mutatorCall .zero) [Value.ofNat argument]
  let _ ← PrivateStack.pop
  return ()

/-- Produces the arguments of a level on private frames. -/
def produceFrames (level : Nat) : PrivateStack.Producer Nat := fun (p, argument) =>
  match nestedFrames argument p with
  | .error halt p => .error halt (p, argument)
  | .ok _ p => .ok [objectValue level argument] (p, argument + 1)

/-- Calls the function at one level on private frames. -/
def callFrames (level : Nat) : PrivateM Unit := fun p =>
  match PrivateStack.pushWithArguments (mutatorCall (Value.ofNat level)) mutatorFunction.frameSize 2
      (produceFrames level) (p, 0) with
  | .ok _ (p, _) => .ok () p
  | .error halt (p, _) => .error halt p

/-- Calls the function at several levels on private frames. -/
def buildFrames : Nat → Nat → PrivateM Unit
  | 0, _ => fun p => .ok () p
  | count + 1, level => fun p =>
    match callFrames level p with
    | .ok _ p => buildFrames count (level + 1) p
    | .error halt p => .error halt p

/-- A nested call is the same on private frames. -/
theorem nestedCall_refines (argument : Nat) :
    Refines (nestedCall argument) (nestedFrames argument) :=
  (Stack.push_refines _ _).bind fun _ => Stack.pop_refines.bind fun _ => .pure ()

/-- The arguments of a level are produced in the same way on private frames. -/
theorem produceObject_refines (level : Nat) :
    RefinesBeside (· = ·) (produceObject level) (produceFrames level) := by
  rintro s argument _ hs rfl
  have hnested := nestedCall_refines argument s hs
  simp only [produceObject, produceFrames, objectOf_eq]
  generalize nestedCall argument s = result, nestedFrames argument s.view = result' at hnested
  cases hnested with
  | ok _ hshows => exact .ok _ ⟨hshows, rfl⟩
  | error halt hshows => exact .error halt ⟨hshows, rfl⟩

/-- A call at a level is the same on private frames. -/
theorem callLevel_refines (level : Nat) : Refines (callLevel level) (callFrames level) := by
  intro s hs
  have hpush := Stack.pushWithArguments_refines (mutatorCall (Value.ofNat level))
    mutatorFunction.frameSize 2 (produceObject_refines level) s 0 0 hs rfl
  simp only [callLevel, callFrames]
  generalize Stack.pushWithArguments (mutatorCall (Value.ofNat level)) mutatorFunction.frameSize 2
      (produceObject level) (s, 0) = result,
    PrivateStack.pushWithArguments (mutatorCall (Value.ofNat level)) mutatorFunction.frameSize 2
      (produceFrames level) (s.view, 0) = result' at hpush
  cases hpush with
  | ok _ hshows => exact .ok () hshows.shows
  | error halt hshows => exact .error halt hshows.shows

/-- A chain of calls is the same on private frames. -/
theorem buildChain_refines (count level : Nat) :
    Refines (buildChain count level) (buildFrames count level) := by
  induction count generalizing level with
  | zero => exact fun s hs => .ok () ⟨hs, rfl⟩
  | succ count ih =>
    intro s hs
    have hcall := callLevel_refines level s hs
    simp only [buildChain, buildFrames]
    generalize callLevel level s = result, callFrames level s.view = result' at hcall
    cases hcall with
    | @ok _ s' p' hshows =>
      obtain ⟨hsound, rfl⟩ := hshows
      exact ih (level + 1) s' hsound
    | error halt hshows => exact .error halt hshows

/-! ## Room -/

/-- A nested call leaves the frames as they are, if there is room for its own. -/
theorem nestedFrames_of_le (argument : Nat) (hroom : 152 ≤ p.available) :
    nestedFrames argument p = .ok () p := by
  have hpush := PrivateStack.push_of_le (mutatorCall .zero) [.ofNat argument] hroom
    (Nat.le_add_right 1 2)
  simp only [nestedFrames, bind, EStateM.bind, hpush]
  rw [PrivateStack.pop_extend p rfl]
  rfl

/-- A nested call without room for its frame is refused. -/
theorem nestedFrames_of_lt (argument : Nat) (hroom : p.available < 152) :
    nestedFrames argument p = .error (.fault (.stackOverflow 152 p.available)) p := by
  have hpush := PrivateStack.push_of_lt (mutatorCall .zero) [.ofNat argument] hroom
  simp only [nestedFrames, bind, EStateM.bind, hpush]
  rfl

/-- The frames with one for a level, which waits for the rest of its arguments. -/
def awaiting (p : PrivateStack) (level : Nat) (written : List Value) : PrivateStack :=
  p.extend (p.activationOf (mutatorCall (.ofNat level)) mutatorFunction.frameSize
    (.reserved written.length)
    (written ++ List.replicate (mutatorFunction.frameSize - written.length) .zero))

/-- The frame for a level on top of others, with its arguments. -/
def levelOn (p : PrivateStack) (level : Nat) : Activation :=
  p.activationOf (mutatorCall (.ofNat level)) mutatorFunction.frameSize .committed
    [objectValue level 0, objectValue level 1, .zero]

/-- A frame for a level takes its bytes off the room. -/
theorem available_awaiting (p : PrivateStack) (level : Nat) (written : List Value) :
    (awaiting p level written).available = p.available - 152 :=
  PrivateStack.available_extend _ _

/-- With room for two frames the next argument is produced and written. -/
theorem fillArguments_awaiting (level : Nat) (written : List Value) (hroom : 304 ≤ p.available)
    (hfit : written.length < mutatorFunction.frameSize) (count argument : Nat) :
    PrivateStack.fillArguments p.frames.length (produceFrames level) (count + 1)
        (awaiting p level written, argument) =
      PrivateStack.fillArguments p.frames.length (produceFrames level) count
        (awaiting p level (written ++ [objectValue level argument]), argument + 1) := by
  have hnested : nestedFrames argument (awaiting p level written) =
      .ok () (awaiting p level written) :=
    nestedFrames_of_le argument (by rw [available_awaiting]; omega)
  have hfuture : (awaiting p level written).future = some p.frames.length :=
    PrivateStack.future_extend _ _
  have hwritten : PrivateStack.writeArguments p.frames.length [objectValue level argument]
      (awaiting p level written) =
      .ok () (awaiting p level (written ++ [objectValue level argument])) :=
    PrivateStack.writeArguments_extend _ _ hfit
  simp only [PrivateStack.fillArguments, PrivateStack.produceFor, produceFrames, hnested, hfuture,
    if_true, hwritten]

/-- With room for a frame one is reserved for the level. -/
theorem reserve_of_le (hroom : 152 ≤ p.available) (level : Nat) :
    PrivateStack.reserve (mutatorCall (.ofNat level)) mutatorFunction.frameSize p =
      .ok p.frames.length (awaiting p level []) := if_pos hroom

/-- Without room for a frame the level is refused. -/
theorem callFrames_of_full (hroom : p.available < 152) (level : Nat) :
    callFrames level p = .error (.fault (.stackOverflow 152 p.available)) p := by
  have hreserve : PrivateStack.reserve (mutatorCall (.ofNat level)) mutatorFunction.frameSize p =
      .error (.fault (.stackOverflow 152 p.available)) p := if_neg (Nat.not_le.mpr hroom)
  simp only [callFrames, PrivateStack.pushWithArguments, bind, EStateM.bind, PrivateStack.beside,
    hreserve]

/-- With room for one frame the nested call of the first argument is refused, and the frame goes. -/
theorem callFrames_of_lt (hroom : 152 ≤ p.available) (hnested : p.available < 304) (level : Nat) :
    callFrames level p = .error (.fault (.stackOverflow 152 (p.available - 152))) p := by
  have hrefused : nestedFrames 0 (awaiting p level []) =
      .error (.fault (.stackOverflow 152 (p.available - 152))) (awaiting p level []) := by
    rw [nestedFrames_of_lt 0 (by rw [available_awaiting]; omega), available_awaiting]
  have hrelease : PrivateStack.release p.frames.length (awaiting p level []) = .ok () p :=
    PrivateStack.release_extend _ _
  simp only [callFrames, PrivateStack.pushWithArguments, bind, EStateM.bind, PrivateStack.beside,
    reserve_of_le hroom, PrivateStack.fillArguments, PrivateStack.produceFor, produceFrames,
    hrefused, hrelease]

/-- With room for two frames a level gets its own. -/
theorem callFrames_of_le (hroom : 304 ≤ p.available) (level : Nat) :
    callFrames level p = .ok () (p.extend (levelOn p level)) := by
  have hreserve := reserve_of_le (p := p) (by omega) level
  have hfill : PrivateStack.fillArguments p.frames.length (produceFrames level) 2
      (awaiting p level [], 0) =
      .ok () (awaiting p level [objectValue level 0, objectValue level 1], 2) := by
    have hfirst := fillArguments_awaiting level [] hroom (by decide) 1 0
    have hsecond := fillArguments_awaiting level [objectValue level 0] hroom
      (show 1 < 3 by decide) 0 1
    exact hfirst.trans hsecond
  have hcommit : PrivateStack.commit (awaiting p level [objectValue level 0, objectValue level 1]) =
      .ok () (p.extend (levelOn p level)) := PrivateStack.commit_extend
  simp only [callFrames, PrivateStack.pushWithArguments, bind, EStateM.bind, PrivateStack.beside,
    hreserve, hfill, hcommit]
  rfl

/-! ## Chains -/

/-- The frames of a chain of calls. -/
def chained (capacity : Nat) : Nat → PrivateStack
  | 0 => .fresh capacity
  | count + 1 => (chained capacity count).extend (levelOn (chained capacity count) count)

variable {capacity : Nat}

/-- A chain has one frame for each level. -/
theorem length_chained (capacity count : Nat) : (chained capacity count).frames.length = count := by
  induction count with
  | zero => rfl
  | succ count ih => rw [chained, PrivateStack.length_extend, ih]

/-- A chain leaves what its frames do not take. -/
theorem available_chained (capacity count : Nat) :
    (chained capacity count).available = capacity - 152 * count := by
  induction count with
  | zero => rfl
  | succ count ih =>
    rw [chained, PrivateStack.available_extend, ih]
    show capacity - 152 * count - 152 = _
    omega

/--
A chain gets on as long as there is room for two frames, and it ends with the fault of the nested
call, or of its first one if there is not even room for that.
-/
theorem buildFrames_chained (hlevel : level ≤ capacity / 152 - 1) (count : Nat) :
    buildFrames count level (chained capacity level) =
      if level + count ≤ capacity / 152 - 1 then .ok () (chained capacity (level + count))
      else .error (.fault (.stackOverflow 152 (capacity % 152)))
        (chained capacity (capacity / 152 - 1)) := by
  induction count generalizing level with
  | zero => rw [if_pos (by simpa using hlevel)]; rfl
  | succ count ih =>
    have hroom := available_chained capacity level
    by_cases hnext : level + 1 ≤ capacity / 152 - 1
    · have hcall := callFrames_of_le (p := chained capacity level) (by omega) level
      simp only [buildFrames, hcall]
      rw [← chained, ih hnext, Nat.add_right_comm, Nat.add_assoc]
    · have hlast : level = capacity / 152 - 1 := by omega
      have hcall : callFrames level (chained capacity level) =
          .error (.fault (.stackOverflow 152 (capacity % 152))) (chained capacity level) := by
        by_cases hfull : capacity < 152
        · have hleft : (chained capacity level).available = capacity % 152 := by omega
          rw [callFrames_of_full (by omega), hleft]
        · have hleft : (chained capacity level).available - 152 = capacity % 152 := by omega
          rw [callFrames_of_lt (by omega) (by omega), hleft]
      simp only [buildFrames, hcall]
      rw [if_neg (by omega), ← hlast]

/-- The frame of a chain at one of its levels. -/
theorem getElem?_chained (capacity : Nat) (hlevel : level < count) :
    (chained capacity count).frames[level]? =
      some (levelOn (chained capacity level) level) := by
  induction count with
  | zero => omega
  | succ count ih =>
    rcases Nat.lt_or_eq_of_le (Nat.le_of_lt_succ hlevel) with hlt | rfl
    · rw [chained, PrivateStack.extend, List.getElem?_append_left
        (by rw [length_chained]; exact hlt), ih hlt]
    · have hlast := PrivateStack.getElem?_extend (chained capacity level)
      rw [length_chained] at hlast
      exact hlast _

/-- All frames of a chain are committed. -/
theorem isCommitted_chained {frame : Frame} (hmem : frame ∈ (chained capacity count).headers) :
    frame.isCommitted = true := by
  rw [PrivateStack.headers, List.mem_map] at hmem
  obtain ⟨activation, hactivation, rfl⟩ := hmem
  obtain ⟨level, hlevel⟩ := List.getElem?_of_mem hactivation
  have hlt := (List.getElem?_eq_some_iff.mp hlevel).1
  rw [length_chained] at hlt
  rw [getElem?_chained _ hlt] at hlevel
  cases hlevel
  rfl

/--
The stack has a committed frame for each of `count` levels and no other: its context is the level,
and its first two variables are the references of the level's objects.
-/
structure HoldsChain (s : Stack) (count : Nat) : Prop where
  size : s.frames.size = count
  depth : s.depth = count
  frames : ∀ level < count, ∃ frame, s.frame level = .ok frame ∧ frame.isCommitted = true ∧
    frame.function = mutatorFunction ∧ frame.context = .ofNat level
  arguments : ∀ level < count, ∀ argument < 2, s.load level argument = objectOf level argument

/-- A stack that shows a chain holds it. -/
theorem holdsChain_of_shows {s : Stack} (h : s.Shows (chained capacity count)) :
    HoldsChain s count := by
  have hlength : s.headers.length = count := by
    rw [← Stack.length_frames_view, h.view, length_chained]
  refine ⟨s.size_frames.trans hlength, ?_, fun level hlevel => ?_,
    fun level hlevel argument hargument => ?_⟩
  · rw [h.sound.depth_eq, List.countP_eq_length.mpr, hlength]
    intro frame hmem
    rw [← Stack.headers_view, h.view] at hmem
    exact isCommitted_chained hmem
  · refine ⟨(levelOn (chained capacity level) level).header, ?_, rfl, rfl, rfl⟩
    rw [← Stack.Sound.view_frame, h.view, PrivateStack.frame, PrivateStack.activation,
      getElem?_chained _ hlevel]
    rfl
  · rw [← h.sound.view_load, h.view, PrivateStack.load_eq (getElem?_chained _ hlevel), objectOf_eq]
    obtain rfl | rfl : argument = 0 ∨ argument = 1 := by omega
    · rfl
    · rfl

/-- The levels that a chain of some depth has at last, in an arena of so many bytes. -/
def levels (capacity depth : Nat) : Nat := min depth (capacity / 152 - 1)

/-- How a chain of some depth ends, in an arena of so many bytes. -/
def chainOutcome (capacity depth : Nat) : MutatorOutcome :=
  if depth ≤ capacity / 152 - 1 then .ok ()
  else .error (.fault (.stackOverflow 152 (capacity % 152)))

/-- On an empty stack a chain ends as said and leaves its levels behind. -/
theorem buildChain_of_isEmpty {s : Stack} (h : s.Sound) (hempty : s.isEmpty = true) (depth : Nat) :
    ∃ s', outcome (buildChain depth 0 s) = (chainOutcome s.capacity depth, s') ∧
      s'.Shows (chained s.capacity (levels s.capacity depth)) := by
  have hview : s.view = chained s.capacity 0 := by
    rw [Stack.view, List.length_eq_zero_iff.mp (h.available_of_isEmpty hempty).2]
    rfl
  have hbuild := buildChain_refines depth 0 s h
  rw [hview, buildFrames_chained (Nat.zero_le _), Nat.zero_add] at hbuild
  rw [chainOutcome, levels]
  generalize buildChain depth 0 s = result at hbuild ⊢
  split at hbuild
  · next hfits =>
    rw [if_pos hfits, Nat.min_eq_left hfits]
    cases hbuild with
    | ok _ hshows => exact ⟨_, rfl, hshows⟩
  · next hdeep =>
    rw [if_neg hdeep, Nat.min_eq_right (by omega)]
    cases hbuild with
    | error _ hshows => exact ⟨_, rfl, hshows⟩

end Demonstration

end ManagedCore
