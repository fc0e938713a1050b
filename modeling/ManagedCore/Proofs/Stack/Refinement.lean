import ManagedCore.Proofs.Stack.View

/-!
# Operations on private frames

Every operation of a stack is the operation of the same name on the private frames that it shows:
both give the same result or halt for the same reason, and afterwards the stack is sound and shows
what the private frames have become.
-/

namespace ManagedCore

/-- Results that differ in their states only, which are related. -/
inductive Agree {ε σ σ' α : Type} (related : σ → σ' → Prop) :
    EStateM.Result ε σ α → EStateM.Result ε σ' α → Prop
  | ok (result : α) {state : σ} {state' : σ'} (h : related state state') :
    Agree related (.ok result state) (.ok result state')
  | error (halt : ε) {state : σ} {state' : σ'} (h : related state state') :
    Agree related (.error halt state) (.error halt state')

/-- Computations that agree may be continued by computations that agree. -/
theorem Agree.bind {ε σ σ' α β : Type} {related : σ → σ' → Prop} {first : EStateM ε σ α}
    {first' : EStateM ε σ' α} {next : α → EStateM ε σ β} {next' : α → EStateM ε σ' β}
    {state : σ} {state' : σ'} (hfirst : Agree related (first state) (first' state'))
    (hnext : ∀ result state state', related state state' →
      Agree related (next result state) (next' result state')) :
    Agree related ((first >>= next) state) ((first' >>= next') state') := by
  show Agree related (EStateM.bind first next state) (EStateM.bind first' next' state')
  unfold EStateM.bind
  generalize first state = result, first' state' = result' at hfirst
  cases hfirst with
  | ok result h => exact hnext result _ _ h
  | error halt h => exact .error halt h

namespace Stack

/-- The operation does to the arena what the other one does to private frames. -/
def Refines {α : Type} (operation : StackM α) (operation' : PrivateM α) : Prop :=
  ∀ s : Stack, s.Sound → Agree Shows (operation s) (operation' s.view)

/-- A violation that changes nothing is the same for private frames. -/
theorem agree_violate {α : Type} {s : Stack} (h : s.Sound) (violation : Violation) :
    Agree Shows (violate violation s : EStateM.Result Halt Stack α)
      (PrivateStack.violate violation s.view) :=
  .error _ ⟨h, rfl⟩

/-- Operations that refine others may be continued by such operations. -/
theorem Refines.bind {α β : Type} {first : StackM α} {first' : PrivateM α}
    {next : α → StackM β} {next' : α → PrivateM β} (hfirst : Refines first first')
    (hnext : ∀ result, Refines (next result) (next' result)) :
    Refines (first >>= next) (first' >>= next') := by
  intro s h
  refine (hfirst s h).bind fun result state state' hstate => ?_
  obtain ⟨hsound, rfl⟩ := hstate
  exact hnext result state hsound

/-- Giving a result is the same for private frames. -/
theorem Refines.pure {α : Type} (result : α) :
    Refines (Pure.pure result) (Pure.pure result) :=
  fun _ h => .ok result ⟨h, rfl⟩

/-- A frame of the table is a frame of the view. -/
theorem activation_view {s : Stack} {id : Nat} {frame : Frame}
    (hid : s.headers[id]? = some frame) :
    s.view.activation id = .ok (frame.activation s.cells) := by
  rw [PrivateStack.activation, getElem?_frames_view, hid]
  rfl

/-- A position beyond the table is one beyond the view. -/
theorem activation_view_none {s : Stack} {id : Nat} (hid : s.headers[id]? = none) :
    s.view.activation id = .error (s.noSuchFrame id) := by
  rw [PrivateStack.activation, getElem?_frames_view, hid, Option.map_none]
  simp [noSuchFrame]

/-- A footprint that does not fit a word is reported as the largest word. -/
theorem footprint?_getD (size : Nat) :
    (footprint? size).getD maxWord = min (footprint size) maxWord := by
  rw [footprint?, maxWord]
  split
  · rw [Option.getD_some]
    omega
  · rw [Option.getD_none]
    omega

/-- The stack after a reservation, with its new header. -/
def reserved (s : Stack) (frame : Frame) : Stack where
  cells := s.cells.fill frame.firstCell .zero frame.size
  frames := s.frames.push frame
  current := s.current
  future := some s.frames.size

/-- A reserved header that fits on top of the table shows as a new frame of zero variables. -/
theorem shows_reserved {s : Stack} (h : s.Sound) {frame : Frame}
    (hplaced : frame.PlacedOn s.capacity s.headers) (hstate : frame.isCommitted = false) :
    Shows (s.reserved frame) { s.view with
      frames := s.view.frames ++ [⟨frame, List.replicate frame.size .zero⟩] } := by
  have hheaders : (s.reserved frame).headers = s.headers ++ [frame] := Array.toList_push ..
  have hcapacity : (s.reserved frame).capacity = s.capacity := by
    simp [capacity, reserved]
  have hsound : (s.reserved frame).Sound := by
    refine ⟨hcapacity ▸ h.granted, ?_, ?_, ?_⟩
    · rw [hheaders, hcapacity]
      exact h.placed.concat hplaced
    · rw [hheaders, List.length_append, List.length_singleton, reserved, size_frames]
      rfl
    · rw [hheaders, lastCommitted_concat, hstate]
      exact h.current
  have hlast : (s.reserved frame).headers[s.headers.length]? = some frame := by
    rw [hheaders, List.getElem?_concat_length]
  refine ⟨hsound, ?_⟩
  have hsize : (s.reserved frame).cells.size = s.cells.size := Arena.size_fill ..
  have hnew : frame.activation (s.reserved frame).cells =
      ⟨frame, List.replicate frame.size .zero⟩ := by
    rw [Frame.activation, reserved, Arena.window_fill (hsize ▸ hsound.window_le hlast)]
  have hold : s.headers.map (Frame.activation · (s.reserved frame).cells) =
      s.headers.map (Frame.activation · s.cells) := by
    -- the new window ends where the last old one begins
    apply List.map_congr_left
    intro old hmem
    obtain ⟨id, hid⟩ := List.getElem?_of_mem hmem
    have hlt : id < s.headers.length := (List.getElem?_eq_some_iff.mp hid).1
    have hid' : (s.reserved frame).headers[id]? = some old := by
      rw [hheaders, List.getElem?_append_left hlt, hid]
    have hwindow := hsound.window_lt hlt hid' hlast
    rw [Frame.activation, Frame.activation]
    congr 1
    apply Arena.window_congr
    intro i hlow _
    rw [reserved, Arena.getElem?_fill, if_neg (by omega)]
  rw [view, hheaders, List.map_append, hold, List.map_singleton, hnew, hcapacity]
  rfl

/-- Reserving takes the same room from the arena as from private frames. -/
theorem reserve_refines (call : Call) (size : Nat) :
    Refines (reserve call size) (PrivateStack.reserve call size) := by
  intro s h
  have havailable := h.available_eq
  have hgranted := h.granted
  rw [allocationLimit] at hgranted
  rw [reserve, PrivateStack.reserve, h.view_available, footprint?_getD]
  by_cases hroom : footprint size ≤ s.available
  · have hmin : min (footprint size) maxWord = footprint size := by
      rw [maxWord, wordLimit]
      omega
    simp only [hmin, if_pos hroom, h.view_current, h.view_future, length_frames_view, size_frames]
    refine .ok _ (shows_reserved h ⟨?_, h.current, ?_, ?_⟩ rfl)
    · exact h.future
    · have hle := h.placed.tableBytes_le
      show s.available - footprint size + footprint size + tableBytes s.headers = s.capacity
      omega
    · intro count hcount
      cases hcount
      exact Nat.zero_le size
  · have hmin : ¬min (footprint size) maxWord ≤ s.available := by
      rw [maxWord, wordLimit]
      omega
    simp only [if_neg hroom, if_neg hmin]
    exact .error _ ⟨h, rfl⟩

/-- An operation on a frame of the table works on the header and the values in its window. -/
theorem onFrame_view {s : Stack} {id : Nat} {frame : Frame} (hid : s.headers[id]? = some frame)
    (change : Activation → Except Violation Activation) :
    PrivateStack.onFrame id change s.view =
      match change (frame.activation s.cells) with
      | .ok activation => .ok () (s.view.setFrame id activation)
      | .error violation => .error (.violation violation) s.view := by
  rw [PrivateStack.onFrame, activation_view hid]
  rfl

/-- An operation on a frame beyond the table is refused for the same reason. -/
theorem onFrame_view_none {s : Stack} {id : Nat} (hid : s.headers[id]? = none)
    (change : Activation → Except Violation Activation) :
    PrivateStack.onFrame id change s.view =
      .error (.violation (s.noSuchFrame id)) s.view := by
  rw [PrivateStack.onFrame, activation_view_none hid]
  rfl

/-- Committing the innermost frame is committing the last private one. -/
theorem commit_refines : Refines commit PrivateStack.commit := by
  intro s h
  rw [commit, PrivateStack.commit, h.view_future, h.future]
  cases hlength : s.headers.length with
  | zero => exact agree_violate h _
  | succ id =>
    simp only [lastPosition]
    have hlt : id < s.headers.length := by omega
    obtain ⟨frame, hid⟩ : ∃ frame, s.headers[id]? = some frame :=
      ⟨_, List.getElem?_eq_getElem hlt⟩
    rw [getElem?_frames, hid, onFrame_view hid]
    by_cases hcommitted : frame.isCommitted
    · simp only [Frame.activation, hcommitted, if_true]
      exact .error _ ⟨h, rfl⟩
    · simp only [Frame.activation, hcommitted, Bool.false_eq_true, if_false]
      have hkeeps : KeepsPlace frame { frame with state := .committed } :=
        ⟨rfl, rfl, rfl, rfl, fun _ hcount => by cases hcount⟩
      have hlast : s.headers.set id { frame with state := .committed } =
          s.headers.take id ++ [{ frame with state := .committed }] := by
        rw [List.set_eq_take_append_cons_drop, if_pos hlt, List.drop_eq_nil_of_le (by omega)]
      refine .ok _ ⟨⟨h.granted, ?_, ?_, ?_⟩, view_setFrame (s := s) id hkeeps⟩
      · show TablePlaced s.capacity (s.setFrame id _).headers
        rw [headers_setFrame]
        exact h.placed.set hid (hkeeps.placedOn (h.placed id frame hid)) rfl (.inr hlength.symm)
      · show s.future = lastPosition (s.setFrame id _).headers.length
        rw [headers_setFrame, List.length_set]
        exact h.future
      · show some id = lastCommitted (s.setFrame id _).headers
        have hnew : Frame.isCommitted { frame with state := .committed } := rfl
        rw [headers_setFrame, hlast, lastCommitted_concat, if_pos hnew,
          List.length_take_of_le (by omega)]

/-- Values written to a frame's cells are spliced into its private variables. -/
theorem shows_write {s : Stack} (h : s.Sound) {id : Nat} {frame : Frame}
    (hid : s.headers[id]? = some frame) {offset : Nat} {values : List Value}
    (hfit : offset + values.length ≤ frame.size) :
    Shows { s with cells := s.cells.write (frame.firstCell + offset) values }
      (s.view.setFrame id { frame.activation s.cells with
        locals := splice (frame.activation s.cells).locals offset values }) := by
  have hcells := shows_cells h hid (s.cells.write (frame.firstCell + offset) values)
    (by simp) (fun i hi => by rw [Arena.getElem?_write, if_neg (by omega)])
  have hlocals : frame.activation (s.cells.write (frame.firstCell + offset) values) =
      { frame.activation s.cells with
        locals := splice (frame.activation s.cells).locals offset values } := by
    rw [Frame.activation, Arena.window_write hfit (h.window_le hid)]
    rfl
  rw [hlocals] at hcells
  exact hcells

/-- Arguments written to the arena are the private frame's next values. -/
theorem writeArguments_refines (id : Nat) (values : List Value) :
    Refines (writeArguments id values) (PrivateStack.writeArguments id values) := by
  intro s h
  rw [writeArguments, PrivateStack.writeArguments, getElem?_frames]
  cases hid : s.headers[id]? with
  | none =>
    rw [onFrame_view_none hid]
    exact .error _ ⟨h, rfl⟩
  | some frame =>
    rw [onFrame_view hid, h.length_locals hid]
    cases hstate : frame.state with
    | committed =>
      simp only [Frame.activation, hstate]
      exact .error _ ⟨h, rfl⟩
    | reserved filled =>
      simp only [Frame.activation, hstate]
      by_cases hstop : filled + values.length ≤ frame.size
      · simp only [if_pos hstop]
        let frame' : Frame := { frame with state := .reserved (filled + values.length) }
        have hkeeps : KeepsPlace frame frame' := by
          refine ⟨rfl, rfl, rfl, rfl, fun count hcount => ?_⟩
          cases hcount
          exact hstop
        have hcommitted : frame'.isCommitted = frame.isCommitted := by
          simp [frame', Frame.isCommitted, hstate]
        have hheader := shows_setFrame h hid hkeeps hcommitted
        have hid' : (s.setFrame id frame').headers[id]? = some frame' := by
          rw [headers_setFrame, List.getElem?_set_self (List.getElem?_eq_some_iff.mp hid).1]
        have hwritten := shows_write hheader.sound hid' hstop
        rw [hheader.view] at hwritten
        refine .ok () ⟨hwritten.sound, hwritten.view.trans ?_⟩
        rw [PrivateStack.setFrame, PrivateStack.setFrame, PrivateStack.setFrame, List.set_set]
        rfl
      · simp only [if_neg hstop]
        exact .error _ ⟨h, rfl⟩

/-- Calling a function is the same on private frames. -/
theorem push_refines (call : Call) (arguments : List Value) :
    Refines (push call arguments) (PrivateStack.push call arguments) :=
  (reserve_refines call call.function.frameSize).bind fun id =>
    (writeArguments_refines id arguments).bind fun _ => commit_refines.bind fun _ => .pure id

/-- Going back to the cursors that a frame saved is cutting the list off at the frame. -/
theorem shows_truncate {s : Stack} (h : s.Sound) {id : Nat} {frame : Frame}
    (hid : s.headers[id]? = some frame) :
    Shows (s.truncate id frame) { s.view with frames := s.view.frames.take id } := by
  have hheaders : (s.truncate id frame).headers = s.headers.take id := Array.toList_shrink ..
  have hplaced := h.placed id frame hid
  refine ⟨⟨h.granted, ?_, ?_, ?_⟩, ?_⟩
  · rw [hheaders]
    exact h.placed.take id
  · rw [hheaders]
    exact hplaced.future
  · rw [hheaders]
    exact hplaced.link
  · rw [view, hheaders, List.map_take]
    rfl

/-- A cut at a frame of the table tells its header. -/
theorem cut_view {s : Stack} {id : Nat} {frame : Frame} (hid : s.headers[id]? = some frame) :
    PrivateStack.cut id s.view =
      .ok frame { s.view with frames := s.view.frames.take id } := by
  rw [PrivateStack.cut, PrivateStack.frame, activation_view hid]
  rfl

/-- Releasing a frame cuts the private frames off. -/
theorem release_refines (id : Nat) : Refines (release id) (PrivateStack.release id) := by
  intro s h
  rw [release, getElem?_frames]
  cases hid : s.headers[id]? with
  | none =>
    rw [PrivateStack.release, PrivateStack.cut, PrivateStack.frame, activation_view_none hid]
    exact .error _ ⟨h, rfl⟩
  | some frame =>
    rw [PrivateStack.release, cut_view hid]
    exact .ok () (shows_truncate h hid)

/-- Returning cuts the private frames off at the current one. -/
theorem pop_refines : Refines pop PrivateStack.pop := by
  intro s h
  rw [pop, PrivateStack.pop, h.view_current]
  cases hcurrent : s.current with
  | none => exact agree_violate h _
  | some id =>
    have hlt : id < s.headers.length := lt_of_lastCommitted (h.current ▸ hcurrent)
    have hid : s.headers[id]? = some s.headers[id] := List.getElem?_eq_getElem hlt
    simp only [getElem?_frames, hid, cut_view hid]
    exact .ok _ (shows_truncate h hid)

/-- The cell of a variable lies in its frame's window. -/
theorem cellOf_eq {s : Stack} {id : Nat} {frame : Frame} (hid : s.headers[id]? = some frame)
    (index : Nat) :
    s.cellOf id index =
      if index < frame.size then .ok (frame.firstCell + index)
      else .error (.variableOutOfRange index id frame.size) := by
  rw [cellOf, Stack.frame, getElem?_frames, hid]
  rfl

/-- No variable of a frame beyond the table has a cell. -/
theorem cellOf_none {s : Stack} {id : Nat} (hid : s.headers[id]? = none) (index : Nat) :
    s.cellOf id index = .error (s.noSuchFrame id) := by
  rw [cellOf, Stack.frame, getElem?_frames, hid]
  rfl

/-- A new value in a frame's cell is a new value of the private variable. -/
theorem shows_setCell {s : Stack} (h : s.Sound) {id : Nat} {frame : Frame}
    (hid : s.headers[id]? = some frame) {index : Nat} (hindex : index < frame.size)
    (value : Value) :
    Shows (s.setCell (frame.firstCell + index) value)
      (s.view.setFrame id { frame.activation s.cells with
        locals := (frame.activation s.cells).locals.set index value }) := by
  have hcells := shows_cells h hid (s.cells.setIfInBounds (frame.firstCell + index) value)
    (by simp) (fun i hi => by rw [Array.getElem?_setIfInBounds, if_neg (by omega)])
  have hlocals : frame.activation (s.cells.setIfInBounds (frame.firstCell + index) value) =
      { frame.activation s.cells with
        locals := (frame.activation s.cells).locals.set index value } := by
    rw [Frame.activation, Arena.window_set hindex (h.window_le hid)]
    rfl
  rw [hlocals] at hcells
  exact hcells

/-- A variable changed in the arena is the private variable changed. -/
theorem store_refines (id index : Nat) (value : Value) :
    Refines (store id index value) (PrivateStack.store id index value) := by
  intro s h
  rw [store, PrivateStack.store]
  cases hid : s.headers[id]? with
  | none =>
    rw [onFrame_view_none hid, cellOf_none hid]
    exact .error _ ⟨h, rfl⟩
  | some frame =>
    rw [onFrame_view hid, cellOf_eq hid, h.length_locals hid]
    by_cases hindex : index < frame.size
    · simp only [if_pos hindex]
      exact .ok () (shows_setCell h hid hindex value)
    · simp only [if_neg hindex]
      exact .error _ ⟨h, rfl⟩

/-- Variables changed in the arena are the private variables changed. -/
theorem storeAll_refines (id : Nat) (values : List Value) :
    Refines (storeAll id values) (PrivateStack.storeAll id values) := by
  intro s h
  rw [storeAll, PrivateStack.storeAll, Stack.frame, getElem?_frames]
  cases hid : s.headers[id]? with
  | none =>
    rw [onFrame_view_none hid]
    exact .error _ ⟨h, rfl⟩
  | some frame =>
    rw [onFrame_view hid, h.length_locals hid]
    have hlength : 0 + (values.take frame.size).length ≤ frame.size := by
      rw [List.length_take]
      omega
    exact .ok () (shows_write h hid hlength)

/-- A private operation on the current frame. -/
theorem onCurrent_view {s : Stack} (h : s.Sound) (operation : Nat → PrivateM Unit) :
    PrivateStack.onCurrent operation s.view =
      match s.current with
      | none => PrivateStack.violate .noCurrentFrame s.view
      | some id => operation id s.view := by
  rw [PrivateStack.onCurrent, h.view_current]
  cases s.current <;> rfl

/-- The current frame's variable changed in the arena is the private one changed. -/
theorem storeCurrent_refines (index : Nat) (value : Value) :
    Refines (storeCurrent index value) (PrivateStack.storeCurrent index value) := by
  intro s h
  rw [storeCurrent, PrivateStack.storeCurrent, onCurrent_view h]
  cases s.current with
  | none => exact agree_violate h _
  | some id => exact store_refines id index value s h

/-- The instruction offset is a part of the header, and moves nothing. -/
theorem setResume_refines (resume : Option Nat) :
    Refines (setResume resume) (PrivateStack.setResume resume) := by
  intro s h
  rw [setResume, PrivateStack.setResume, onCurrent_view h]
  cases hcurrent : s.current with
  | none => exact agree_violate h _
  | some id =>
    have hlt : id < s.headers.length := lt_of_lastCommitted (h.current ▸ hcurrent)
    have hid : s.headers[id]? = some s.headers[id] := List.getElem?_eq_getElem hlt
    simp only [getElem?_frames, hid, onFrame_view hid]
    have hfilled := (h.placed id _ hid).filled
    exact .ok () (shows_setFrame h hid ⟨rfl, rfl, rfl, rfl, hfilled⟩ rfl)

/-- A result is stored after the return, in the frames that are left. -/
theorem returnValue_refines (value : Value) :
    Refines (returnValue value) (PrivateStack.returnValue value) := by
  refine pop_refines.bind fun frame => ?_
  cases frame.destination with
  | discard => exact .pure frame
  | slot target index => exact (store_refines target index value).bind fun _ => .pure frame

end Stack

end ManagedCore
