import ManagedCore.Proofs.Stack.FilledCalls

/-!
# The room of a stack

A frame is reserved exactly if its footprint fits into what is left of the arena, down to the last
byte. If it does not fit, the caller is told what it asked for and what there was, and nothing has
changed. So it can be counted in advance how many frames fit one after another.

A reservation computes with words. A footprint that no word can hold stands for more than any room,
and for all other sizes no step of the computation leaves the range of words or of cells.
-/

namespace ManagedCore

/-- The footprint by word operations, or none as soon as one of them has no word for its result. -/
def checkedFootprint (size : Nat) : Option Nat := do
  let windowBytes ← (mulWord size cellBytes).toOption
  (addWord windowBytes headerBytes).toOption

/-- The bytes that a frame of this size is reported to need when it does not fit. -/
def requestedBytes (size : Nat) : Nat :=
  if footprint size < wordLimit then footprint size else maxWord

/-- Word operations compute the footprint if a word can hold it. -/
theorem checkedFootprint_eq (size : Nat) : checkedFootprint size = footprint? size := by
  rw [checkedFootprint, footprint?, footprint]
  by_cases hproduct : size * cellBytes < wordLimit
  · rw [mulWord_of_lt hproduct]
    by_cases hsum : size * cellBytes + headerBytes < wordLimit
    · rw [if_pos (by omega), Nat.add_comm headerBytes]
      simp only [Except.toOption, bind, Option.bind, addWord_of_lt hsum]
    · rw [if_neg (by omega)]
      simp only [Except.toOption, bind, Option.bind, addWord, if_neg hsum]
  · rw [if_neg (by omega)]
    simp only [mulWord, if_neg hproduct, Except.toOption, bind, Option.bind]

/-- What is reported is the footprint, or the largest word. -/
theorem footprint?_getD_eq (size : Nat) : (footprint? size).getD maxWord = requestedBytes size := by
  rw [footprint?, requestedBytes]
  split <;> rfl

/-- Cells in the arena may be cut out of it. -/
theorem Arena.slice?_eq {cells : Arena} {start count : Nat} (h : start + count ≤ cells.size) :
    cells.slice? start (start + count) = some (cells.window start count) := by
  rw [Arena.slice?, if_pos ⟨Nat.le_add_right start count, h⟩]
  rfl

/-- Every frame takes some bytes. -/
theorem footprint_pos (size : Nat) : 0 < footprint size :=
  Nat.lt_of_lt_of_le (by decide : 0 < headerBytes) (Nat.le_add_right _ _)

/-- Altered frames take the bytes that they took. -/
theorem PrivateStack.Alters.usedBytes_eq {named : FrameId → Part → Prop} {p p' : PrivateStack}
    (h : p.Alters named p') : p'.usedBytes = p.usedBytes := by
  have hbytes : p'.headers.map Frame.bytes = p.headers.map Frame.bytes := by
    apply List.ext_getElem?
    intro id
    rw [PrivateStack.headers, PrivateStack.headers, List.map_map, List.map_map, List.getElem?_map,
      List.getElem?_map]
    by_cases hid : id < p.frames.length
    · have hold := List.getElem?_eq_getElem hid
      have hnew := List.getElem?_eq_getElem (h.length.symm ▸ hid : id < p'.frames.length)
      have hkeeps := h.keeps id _ _ hold hnew
      rw [hold, hnew, Option.map_some, Option.map_some, Function.comp_apply, hkeeps.header]
      rfl
    · have hid' : p'.frames.length ≤ id := h.length ▸ Nat.le_of_not_lt hid
      rw [List.getElem?_eq_none hid', List.getElem?_eq_none (Nat.le_of_not_lt hid)]
  exact congrArg List.sum hbytes

namespace Stack

/--
A reservation in word arithmetic. There is no outcome if the cursor leads nowhere, if a sum is not a
word, or if the frame's cells are not all in the arena.
-/
def wordReserve (call : Call) (size : Nat) (s : Stack) :
    Option (EStateM.Result Halt Stack FrameId) := do
  let top ← s.wordAvailable
  let requested := (checkedFootprint size).getD maxWord
  if requested ≤ top then
    let frame := { call.header s size (.reserved 0) with address := top - requested }
    let (start, stop) ← frame.wordWindow
    let old ← s.cells.slice? start stop
    return .ok s.frames.size { s with
      cells := s.cells.fill start .zero old.length
      frames := s.frames.push frame
      future := some s.frames.size }
  else return .error (.fault (.stackOverflow requested top)) s

/-- Reserves frames of these sizes one after another, as long as they fit. -/
def reserveEach : List (Call × Nat) → StackM Unit
  | [] => pure ()
  | (call, size) :: rest => do
    let _ ← reserve call size
    reserveEach rest

/-- Makes calls one after another, none of which returns, as long as their frames fit. -/
def pushEach : List (Call × List Value) → StackM Unit
  | [] => pure ()
  | (call, arguments) :: rest => do
    let _ ← push call arguments
    pushEach rest

/-- The computation reports a frame that does not fit, and leaves the state as it was. -/
def Overflows {σ α : Type} (computation : EStateM Halt σ α) (state : σ) (size room : Nat) : Prop :=
  computation state = .error (.fault (.stackOverflow (requestedBytes size) room)) state

namespace Sound

variable {s s' : Stack} {call : Call} {size : Nat}

/-- No room is larger than what is reported for a footprint that no word can hold. -/
theorem requestedBytes_le_iff (h : s.Sound) (size : Nat) :
    requestedBytes size ≤ s.available ↔ footprint size ≤ s.available := by
  have havailable := h.available_eq
  have hgranted := h.granted
  rw [allocationLimit] at hgranted
  rw [requestedBytes, maxWord, wordLimit]
  split <;> omega

/-- A frame that fits is reported to need its footprint. -/
theorem requestedBytes_eq (h : s.Sound) (hroom : footprint size ≤ s.available) :
    requestedBytes size = footprint size := by
  have havailable := h.available_eq
  have hgranted := h.granted
  rw [allocationLimit] at hgranted
  rw [requestedBytes, if_pos]
  rw [wordLimit]
  omega

/-- A frame that fits is added to the table. -/
theorem reserve_of_le (h : s.Sound) (call : Call) (hroom : footprint size ≤ s.available) :
    reserve call size s =
      .ok s.headers.length (s.reserved (call.header s size (.reserved 0))) := by
  have hrequested := h.requestedBytes_eq hroom
  simp only [reserve, footprint?_getD_eq, hrequested, if_pos hroom, size_frames]
  rfl

/-- A frame that does not fit is reported. -/
theorem reserve_of_lt (h : s.Sound) (call : Call) (hroom : s.available < footprint size) :
    Overflows (reserve call size) s size s.available := by
  rw [← Nat.not_le, ← h.requestedBytes_le_iff] at hroom
  simp only [Overflows, reserve, footprint?_getD_eq, if_neg hroom]

/-- A reserved frame takes its footprint of the room. -/
theorem available_of_reserve (h : s.Sound) {id : FrameId} (hreserve : reserve call size s = .ok id s') :
    s'.available + footprint size = s.available := by
  obtain ⟨hsound, -, hview⟩ := h.view_of_reserve hreserve
  have hle := hsound.placed.tableBytes_le
  have hcapacity : s'.capacity = s.capacity := congrArg PrivateStack.capacity hview
  have hheaders := h.headers_of_reserve hreserve
  rw [hheaders, tableBytes_concat] at hle
  rw [hsound.available_eq, h.available_eq, hheaders, tableBytes_concat]
  have hbytes : (call.header s size (.reserved 0)).bytes = footprint size := rfl
  omega

/-- Altered frames leave the room that they left. -/
theorem available_of_alters (h : s.Sound) (h' : s'.Sound) {named : FrameId → Part → Prop}
    (halters : s.view.Alters named s'.view) :
    s'.available = s.available ∧ s'.headers.length = s.headers.length := by
  have hused := halters.usedBytes_eq
  rw [← h'.view_available, ← h.view_available, PrivateStack.available, PrivateStack.available, hused,
    halters.capacity, ← length_frames_view, ← length_frames_view, halters.length]
  exact ⟨rfl, rfl⟩

/-- A call whose frame and arguments fit is made. -/
theorem push_of_le (h : s.Sound) {arguments : List Value}
    (hroom : footprint call.function.frameSize ≤ s.available)
    (harguments : arguments.length ≤ call.function.frameSize) :
    ∃ s', push call arguments s = .ok s.headers.length s' ∧ s'.Sound ∧
      s'.headers.length = s.headers.length + 1 ∧
      s'.available + footprint call.function.frameSize = s.available := by
  obtain ⟨s₁, hreserve⟩ : ∃ s₁, reserve call _ s = .ok s.headers.length s₁ :=
    ⟨_, h.reserve_of_le call hroom⟩
  have hreserved := HoldsArguments.of_reserve h hreserve
  have hfits : ([] ++ arguments).length ≤ call.function.frameSize := harguments
  obtain ⟨s₂, hwritten, hholds⟩ := hreserved.writeArguments_of_le hfits
  obtain ⟨s₃, hcommit, -⟩ := hholds.commit
  have hshows := (commit_refines s₂ hholds.sound).outcome
  have halters : s₂.view.Alters (fun _ _ => True) (outcome (PrivateStack.commit s₂.view)).2 :=
    PrivateStack.alters_commit fun _ _ => trivial
  rw [hcommit] at hshows
  rw [← hshows.view] at halters
  obtain ⟨hroom₂, hlength₂⟩ := hreserved.sound.available_of_alters hholds.sound
    (hreserved.sound.alters_writeArguments hwritten).2
  obtain ⟨hroom₃, hlength₃⟩ := hholds.sound.available_of_alters hshows.sound halters
  refine ⟨s₃, ?_, hshows.sound, ?_, ?_⟩
  · simp only [push, bind, EStateM.bind, hreserve, hwritten, hcommit]
    rfl
  · exact hlength₃.trans (hlength₂.trans hreserved.last)
  · exact (hroom₃.trans hroom₂) ▸ h.available_of_reserve hreserve

/-- Computed with words, a reservation has the outcome that it has with unbounded numbers. -/
theorem wordReserve_eq (h : s.Sound) (call : Call) (size : Nat) :
    wordReserve call size s = some (reserve call size s) := by
  simp only [wordReserve, h.wordAvailable_eq, checkedFootprint_eq, footprint?_getD_eq, bind,
    Option.bind, pure]
  rcases Nat.lt_or_ge s.available (footprint size) with hroom | hroom
  · have hrefused : ¬requestedBytes size ≤ s.available := by
      rwa [h.requestedBytes_le_iff, Nat.not_le]
    rw [if_neg hrefused, h.reserve_of_lt call hroom]
  · have hreserve := h.reserve_of_le call hroom
    -- The new frame's window is in range because it is that of a frame in the table afterwards.
    have hsound := (h.view_of_reserve hreserve).1
    have hframe : (s.reserved (call.header s size (.reserved 0))).headers[s.headers.length]? =
        some (call.header s size (.reserved 0)) := by
      rw [headers, reserved, Array.toList_push, ← headers, List.getElem?_concat_length]
    have hcells : (s.reserved (call.header s size (.reserved 0))).cells.size = s.cells.size :=
      Arena.size_fill ..
    have hinside := hcells ▸ hsound.window_le hframe
    have hwindow := hsound.wordWindow_eq hframe
    have hslice := Arena.slice?_eq hinside
    have hlength := Arena.length_window hinside
    have hrequested := h.requestedBytes_eq hroom
    have hsame : { call.header s size (.reserved 0) with address := s.available - footprint size } =
        call.header s size (.reserved 0) := rfl
    rw [if_pos (hrequested ▸ hroom), hrequested, hreserve, hsame]
    simp only [hwindow, hslice, hlength, size_frames]
    rfl

/-- Every call that reserves first reports a frame that does not fit, whatever it would do then. -/
theorem pushWithArguments_of_lt {τ : Type} (h : s.Sound) (call : Call)
    (hroom : s.available < footprint size) (count : Nat) (produce : Producer τ) (memory : τ) :
    Overflows (pushWithArguments call size count produce) (s, memory) size s.available := by
  have hreserve := h.reserve_of_lt call hroom
  rw [Overflows] at hreserve
  simp only [Overflows, pushWithArguments, bind, EStateM.bind, beside, hreserve]

/-- A call with evaluated arguments reports a frame that does not fit. -/
theorem push_of_lt (h : s.Sound) (hroom : s.available < footprint call.function.frameSize)
    (arguments : List Value) :
    Overflows (push call arguments) s call.function.frameSize s.available := by
  have hreserve := h.reserve_of_lt call hroom
  rw [Overflows] at hreserve
  simp only [Overflows, push, bind, EStateM.bind, hreserve]

/-- Frames can be reserved one after another exactly if there is room for all of them. -/
theorem reserveEach_iff (h : s.Sound) (calls : List (Call × Nat)) :
    (∃ s', reserveEach calls s = .ok () s') ↔
      (calls.map fun entry => footprint entry.2).sum ≤ s.available := by
  induction calls generalizing s with
  | nil => exact ⟨fun _ => Nat.zero_le _, fun _ => ⟨s, rfl⟩⟩
  | cons entry rest ih =>
    obtain ⟨call, size⟩ := entry
    rw [List.map_cons, List.sum_cons]
    rcases Nat.lt_or_ge s.available (footprint size) with hroom | hroom
    · have hreserve := h.reserve_of_lt call hroom
      rw [Overflows] at hreserve
      simp only [reserveEach, bind, EStateM.bind, hreserve, reduceCtorEq, exists_false, false_iff]
      omega
    · obtain ⟨s₁, hreserve⟩ : ∃ s₁, reserve call size s = .ok s.headers.length s₁ :=
        ⟨_, h.reserve_of_le call hroom⟩
      have hleft := h.available_of_reserve hreserve
      simp only [reserveEach, bind, EStateM.bind, hreserve]
      rw [ih (h.view_of_reserve hreserve).1]
      omega

/--
Of calls with frames of one size as many are made as their footprint goes into the room. The next
one reports what is left over.
-/
theorem pushEach_of_size (h : s.Sound) (calls : List (Call × List Value))
    (hsize : ∀ entry ∈ calls, entry.1.function.frameSize = size ∧ entry.2.length ≤ size) :
    (calls.length ≤ s.available / footprint size → ∃ s', pushEach calls s = .ok () s') ∧
    (s.available / footprint size < calls.length →
      ∃ s', pushEach calls s = .error (.fault (.stackOverflow (requestedBytes size)
          (s.available % footprint size))) s' ∧
        s'.headers.length = s.headers.length + s.available / footprint size ∧
        s'.available = s.available % footprint size) := by
  induction calls generalizing s with
  | nil => exact ⟨fun _ => ⟨s, rfl⟩, fun hlt => absurd hlt (Nat.not_lt_zero _)⟩
  | cons entry rest ih =>
    obtain ⟨call, arguments⟩ := entry
    obtain ⟨hframe, hfits⟩ := hsize _ List.mem_cons_self
    have hrest : ∀ entry ∈ rest, entry.1.function.frameSize = size ∧ entry.2.length ≤ size :=
      fun entry hentry => hsize entry (List.mem_cons_of_mem _ hentry)
    rw [List.length_cons]
    rcases Nat.lt_or_ge s.available (footprint size) with hroom | hroom
    · have hpush := h.push_of_lt (hframe ▸ hroom) arguments
      rw [Overflows, hframe] at hpush
      rw [Nat.div_eq_of_lt hroom, Nat.mod_eq_of_lt hroom]
      refine ⟨fun hle => absurd hle (Nat.not_succ_le_zero _), fun _ => ⟨s, ?_, rfl, rfl⟩⟩
      simp only [pushEach, bind, EStateM.bind, hpush]
    · obtain ⟨s₁, hpush, hsound, hlength, hleft⟩ := h.push_of_le (hframe ▸ hroom) (hframe ▸ hfits)
      rw [hframe] at hleft
      have hdiv : s.available / footprint size = s₁.available / footprint size + 1 := by
        rw [← hleft, Nat.add_div_right _ (footprint_pos size)]
      have hmod : s.available % footprint size = s₁.available % footprint size := by
        rw [← hleft, Nat.add_mod_right]
      have hrun : pushEach ((call, arguments) :: rest) s = pushEach rest s₁ := by
        simp only [pushEach, bind, EStateM.bind, hpush]
      obtain ⟨hall, hsome⟩ := ih hsound hrest
      rw [hrun, hdiv, hmod]
      refine ⟨fun hle => hall (by omega), fun hlt => ?_⟩
      obtain ⟨s', hpushed, hlength', hleft'⟩ := hsome (by omega)
      exact ⟨s', hpushed, by omega, hleft'⟩

/-- Without frames all of the arena is room. -/
theorem available_of_isEmpty (h : s.Sound) (hempty : s.isEmpty = true) :
    s.available = s.capacity ∧ s.headers.length = 0 := by
  have hnone : s.future = none := Option.isNone_iff_eq_none.mp hempty
  have hfuture := h.future
  rw [hnone] at hfuture
  have hlength : s.headers.length = 0 := by
    cases hlength : s.headers.length with
    | zero => rfl
    | succ last =>
      rw [hlength] at hfuture
      exact absurd hfuture (by simp [lastPosition])
  rw [h.available_eq, List.length_eq_zero_iff.mp hlength, tableBytes_nil]
  exact ⟨Nat.sub_zero _, rfl⟩

end Sound

/--
On a reachable stack a frame is reserved exactly if its footprint is no larger than what is
available, and the reservation can be computed with words and cells in range. Otherwise every call
that reserves reports what it asked for, or the largest word, and what is available, changes nothing
and asks no producer. Hence frames can be reserved one after another exactly if they fit together,
and on an empty stack as many calls of one size can be made as their footprint goes into the
arena.
-/
theorem reserve_iff_footprint_le {s : Stack} (h : s.Reachable) :
    (∀ (call : Call) (size : Nat),
      ((∃ id s', reserve call size s = .ok id s') ↔ footprint size ≤ s.available) ∧
      wordReserve call size s = some (reserve call size s)) ∧
    (∀ (call : Call) (size : Nat), s.available < footprint size →
      Overflows (reserve call size) s size s.available ∧
      (call.function.frameSize = size →
        ∀ arguments, Overflows (push call arguments) s size s.available) ∧
      ∀ {τ : Type} (count : Nat) (produce : Producer τ) (memory : τ),
        Overflows (pushWithArguments call size count produce) (s, memory) size s.available) ∧
    (∀ calls : List (Call × Nat),
      (∃ s', reserveEach calls s = .ok () s') ↔
        (calls.map fun entry => footprint entry.2).sum ≤ s.available) ∧
    (s.isEmpty = true → ∀ (size : Nat) (calls : List (Call × List Value)),
      (∀ entry ∈ calls, entry.1.function.frameSize = size ∧ entry.2.length ≤ size) →
      (calls.length ≤ s.capacity / footprint size → ∃ s', pushEach calls s = .ok () s') ∧
      (s.capacity / footprint size < calls.length →
        ∃ s', pushEach calls s = .error (.fault (.stackOverflow (requestedBytes size)
            (s.capacity % footprint size))) s' ∧
          s'.headers.length = s.capacity / footprint size ∧
          s'.available = s.capacity % footprint size)) := by
  have hsound := h.sound
  refine ⟨fun call size => ⟨⟨?_, ?_⟩, hsound.wordReserve_eq call size⟩,
    fun call size hroom => ⟨hsound.reserve_of_lt call hroom, ?_, ?_⟩, hsound.reserveEach_iff, ?_⟩
  · rintro ⟨id, s', hreserve⟩
    by_contra hroom
    cases hreserve.symm.trans (hsound.reserve_of_lt call (Nat.lt_of_not_le hroom))
  · exact fun hroom => ⟨_, _, hsound.reserve_of_le call hroom⟩
  · rintro rfl
    exact hsound.push_of_lt hroom
  · exact hsound.pushWithArguments_of_lt call hroom
  · intro hempty size calls hsize
    obtain ⟨hroom, hlength⟩ := hsound.available_of_isEmpty hempty
    have hpushed := hsound.pushEach_of_size calls hsize
    rwa [hroom, hlength, Nat.zero_add] at hpushed

/-- A call that has returned, and left its variable in the arena. -/
def vacated : Program Unit :=
  .perform (.push identityCall [.ofNat 7]) fun _ =>
  .perform .pop fun _ => .done ()

/-- An empty stack of 1024 bytes that has been used. -/
def vacatedStack : Stack := (vacated.run { empty with cells := Array.replicate 128 .zero }).final

/-- An empty stack is reachable in which not all cells are zero. -/
theorem reachable_vacatedStack : vacatedStack.Reachable :=
  reachable_final vacated (show create (some 1024) = .ok _ from rfl)

/--
The last byte can be reserved, in one frame or in several, but one variable more does not fit, even
if its footprint is no word. On an empty stack seven calls are made, and the eighth is not.
-/
theorem reserve_iff_footprint_le_waitingStack :
    waitingStack.available = 752 ∧
      (∃ id s', reserve identityCall 78 waitingStack = .ok id s') ∧
      Overflows (reserve identityCall 79) waitingStack 79 752 ∧
      (∀ produce : Producer Nat,
        pushWithArguments identityCall maxWord 1 produce (waitingStack, 0) =
          .error (.fault (.stackOverflow maxWord 752)) (waitingStack, 0)) ∧
      (∃ s', reserveEach [(identityCall, 1), (identityCall, 0), (identityCall, 45)] waitingStack =
        .ok () s') ∧
      (¬∃ s', reserveEach [(identityCall, 1), (identityCall, 0), (identityCall, 46)] waitingStack =
        .ok () s') ∧
      vacatedStack.isEmpty = true ∧
      (∃ s', pushEach (List.replicate 7 (identityCall, [.ofNat 1])) vacatedStack = .ok () s') ∧
      ∃ s', pushEach (List.replicate 8 (identityCall, [.ofNat 1])) vacatedStack =
          .error (.fault (.stackOverflow 136 72)) s' ∧ s'.headers.length = 7 ∧ s'.available = 72 := by
  obtain ⟨hreserve, hoverflow, heach, -⟩ := reserve_iff_footprint_le reachable_waitingStack
  obtain ⟨-, -, -, hpush⟩ := reserve_iff_footprint_le reachable_vacatedStack
  have hroom : waitingStack.available = 752 := by decide +kernel
  have hempty : vacatedStack.isEmpty = true := by decide +kernel
  have hcapacity : vacatedStack.capacity = 1024 := by decide +kernel
  have hsize : ∀ count, ∀ entry ∈ List.replicate count (identityCall, [Value.ofNat 1]),
      entry.1.function.frameSize = 1 ∧ entry.2.length ≤ 1 := by
    intro count entry hentry
    rw [List.eq_of_mem_replicate hentry]
    decide
  rw [hroom] at hreserve hoverflow heach
  rw [hcapacity] at hpush
  refine ⟨hroom, (hreserve identityCall 78).1.mpr (by decide),
    (hoverflow identityCall 79 (by decide)).1,
    fun produce => ?_,
    (heach _).mpr (by decide), fun h => absurd ((heach _).mp h) (by decide), hempty, ?_, ?_⟩
  · have hlargest : requestedBytes maxWord = maxWord := by decide
    have hreported := (hoverflow identityCall maxWord (by decide)).2.2 1 produce 0
    rwa [Overflows, hlargest] at hreported
  · exact (hpush hempty 1 _ (hsize 7)).1 (by decide)
  · exact (hpush hempty 1 _ (hsize 8)).2 (by decide)

end Stack

end ManagedCore
