import ManagedCore.Proofs.Stack.ArgumentCalls
import Mathlib.Data.Nat.Order.Lemmas

/-!
# Calls that get their arguments

A program for an argument may call, return and collect as it likes, as long as it leaves the frame
that it works for alone. Then the frame's fill counter, its written variables, the zeros behind them
and its links are the same when the program ends as when it started, the next values go right behind
the ones before, and a collection in between sees just what has been written.
-/

namespace ManagedCore

/-- The records of a call that cover its offset and name a variable below `filled`. -/
def Call.coveredRoots (call : Call) (id : FrameId) (frame : Frame) (filled : Nat) : List Root :=
  ((call.function.liveness.liveAt call.resume).filter fun (_, record) => record.slot < filled).map
    fun (index, record) => ⟨id, frame, index, record⟩

/--
The step leaves the frame in the table, and names nothing of it but variables whose values it keeps.
-/
structure Step.Spares (step : Step) (id : FrameId) : Prop where
  stays : id < step.after.headers.length
  named : ∀ part, step.Names id part →
    ∃ index, part = .slot index ∧ step.after.load id index = step.before.load id index

/-- Visits up to the first root outside its frame are visits of all if there is none. -/
theorem visitInside_of_inside {σ ω : Type} (visit : Root → Visit σ ω Unit) {roots : List Root}
    (h : ∀ root ∈ roots, root.inside) (state : ω × σ) :
    visitInside visit roots state = visitAll visit roots state := by
  induction roots generalizing state with
  | nil => rfl
  | cons root rest ih =>
    have hrest := ih fun other hother => h other (List.mem_cons_of_mem _ hother)
    simp only [visitInside, visitAll, if_pos (h root List.mem_cons_self), hrest]

/-- The frames of a chain are those of the table, last frame first. -/
theorem map_snd_tableChain (frames : List Frame) :
    (tableChain frames).map Prod.snd = frames.reverse := by
  simp [tableChain, List.map_reverse, Function.comp_def]

/-- Values spliced in behind the first ones are appended to them. -/
theorem splice_append_replicate {α : Type} {entries values : List α} {size : Nat} {zero : α}
    (h : entries.length + values.length ≤ size) :
    splice (entries ++ List.replicate (size - entries.length) zero) entries.length values =
      (entries ++ values) ++ List.replicate (size - (entries ++ values).length) zero := by
  rw [splice, List.take_left, List.drop_append, List.drop_of_length_le (by omega), List.nil_append,
    List.drop_replicate, List.length_append]
  congr 2
  omega

namespace PrivateStack

variable {p : PrivateStack} {id : Nat} {activation : Activation}

/-- The value of a variable of a frame in the list. -/
theorem load_eq (hid : p.frames[id]? = some activation) (index : Nat) :
    p.load id index =
      match activation.locals[index]? with
      | some value => .ok value
      | none => .error (.variableOutOfRange index id activation.locals.length) := by
  rw [load, PrivateStack.activation, hid]
  simp only [bind, Except.bind]
  cases activation.locals[index]? <;> rfl

/-- Values written to a reserved frame are spliced in behind the filled variables, if they fit. -/
theorem writeArguments_eq (hid : p.frames[id]? = some activation) {filled : Nat}
    (hstate : activation.header.state = .reserved filled) (values : List Value) :
    writeArguments id values p =
      if filled + values.length ≤ activation.locals.length then
        .ok () (p.setFrame id {
          header := { activation.header with state := .reserved (filled + values.length) }
          locals := splice activation.locals filled values })
      else .error (.violation (.argumentsOverflow id (filled + values.length)
        activation.locals.length)) p := by
  rw [writeArguments, onFrame, PrivateStack.activation, hid]
  simp only [bind, Except.bind, hstate]
  by_cases hstop : filled + values.length ≤ activation.locals.length
  · simp only [if_pos hstop]
  · simp only [if_neg hstop]

/-- The last frame is committed if it is reserved. -/
theorem commit_eq (hlast : p.frames.length = id + 1) (hid : p.frames[id]? = some activation)
    {filled : Nat} (hstate : activation.header.state = .reserved filled) :
    commit p = .ok () (p.setFrame id {
      activation with header := { activation.header with state := .committed } }) := by
  have hcommitted : activation.header.isCommitted = false := by
    rw [Frame.isCommitted, hstate]
    rfl
  rw [commit, future, hlast, lastPosition]
  simp only [onFrame, PrivateStack.activation, hid, bind, Except.bind, hcommitted, if_false,
    Bool.false_eq_true]

end PrivateStack

/-- Frames that answer alike for a variable have the same one. -/
theorem PrivateStack.getElem?_of_load_eq {p p' : PrivateStack} {id index : Nat}
    {activation activation' : Activation} (hid : p.frames[id]? = some activation)
    (hid' : p'.frames[id]? = some activation') (h : p'.load id index = p.load id index) :
    activation'.locals[index]? = activation.locals[index]? := by
  rw [load_eq hid, load_eq hid'] at h
  cases hold : activation.locals[index]? with
  | none =>
    cases hnew : activation'.locals[index]? with
    | none => rfl
    | some value => simp [hold, hnew] at h
  | some value =>
    cases hnew : activation'.locals[index]? with
    | none => simp [hold, hnew] at h
    | some value' => simpa [hold, hnew] using h

/-- A step that spares a frame leaves it as it was. -/
theorem Step.Spares.frames_eq {step : Step} {id : FrameId} (h : step.Spares id)
    (hsound : step.before.Sound) {activation : Activation}
    (hid : step.before.view.frames[id]? = some activation) :
    step.after.view.frames[id]? = some activation := by
  obtain ⟨hsound', hevolves⟩ : step.after.Sound ∧
    step.before.view.Evolves step.Names step.after.view := step.action.evolves hsound
  have hlt : id < step.after.view.frames.length := by
    rw [Stack.length_frames_view]
    exact h.stays
  have hid' := List.getElem?_eq_getElem hlt
  have hkeeps := hevolves.keeps id _ _ hid hid'
  rw [hid', hkeeps.eq_of_unnamed]
  · exact fun hnamed => nomatch h.named _ hnamed
  · exact fun hnamed => nomatch h.named _ hnamed
  · exact fun hnamed => nomatch h.named _ hnamed
  · intro index
    rcases hkeeps.locals index with heq | hnamed
    · exact heq
    · obtain ⟨_, heq, hload⟩ := h.named _ hnamed
      cases heq
      rw [← hsound'.view_load, ← hsound.view_load] at hload
      exact PrivateStack.getElem?_of_load_eq hid hid' hload

namespace Stack

variable {s : Stack} {id : Nat}

/-- A run of steps that spare a frame leaves it as it was. -/
theorem Sound.frames_of_spares (h : s.Sound) {actions : List Action}
    (hspares : ∀ step ∈ s.steps actions, step.Spares id) {activation : Activation}
    (hid : s.view.frames[id]? = some activation) :
    (s.after actions).view.frames[id]? = some activation := by
  induction actions generalizing s with
  | nil => exact hid
  | cons action rest ih =>
    have hfirst := (hspares ⟨s, action⟩ List.mem_cons_self).frames_eq h hid
    exact ih (action.evolves h).1
      (fun step hstep => hspares step (List.mem_cons_of_mem _ hstep)) hfirst

/-- A scan visits the filled variables of a reserved last frame first, and then the frames below. -/
theorem Sound.scan_of_reserved (h : s.Sound) {frame : Frame} (hlast : s.headers.length = id + 1)
    (hid : s.headers[id]? = some frame) {filled : Nat} (hstate : frame.state = .reserved filled)
    {roots : List Root}
    (hroots : roots = recordRoots id frame (frame.function.liveness.liveAt frame.resume))
    {σ : Type} (visitor : Visitor σ) (memory : σ) :
    scan visitor (s, memory) =
      match visitAll (visitRoot visitor) roots (s, memory) with
      | .error violation state => .error violation state
      | .ok _ state =>
        visitFrames visitor (s.headers.take id).reverse ⟨1, 1, roots.length⟩ state := by
  have hinside : ∀ root ∈ recordRoots id frame (frame.function.liveness.liveAt frame.resume),
      root.inside := by
    intro root hroot
    simp only [recordRoots, List.mem_map, List.mem_filter, Frame.filled, hstate,
      decide_eq_true_eq] at hroot
    obtain ⟨⟨index, record⟩, ⟨-, hslot⟩, rfl⟩ := hroot
    exact decide_eq_true (Nat.lt_of_lt_of_le hslot ((h.placed id frame hid).filled filled hstate))
  have hheaders : s.headers = s.headers.take id ++ [frame] := by
    rw [← take_succ_eq_concat hid, List.take_of_length_le (Nat.le_of_eq hlast)]
  have hwalk : s.walk.map Prod.snd = frame :: (s.headers.take id).reverse := by
    conv_lhs => rw [h.walk_eq, hheaders, tableChain_concat, List.map_cons, map_snd_tableChain]
  rw [scan, hwalk, hroots]
  simp only [visitFrames, visitRecords_eq visitor id frame, visitInside_of_inside _ hinside]
  cases visitAll (visitRoot visitor) (recordRoots id frame
      (frame.function.liveness.liveAt frame.resume)) (s, memory) with
  | error violation state => rfl
  | ok _ state => simp only [Nat.zero_add, ScanStats.zero]

/-- A frame of the view tells the header and the variables of the stack's frame. -/
theorem frame_of_view {activation : Activation} (hid : s.view.frames[id]? = some activation) :
    s.frame id = .ok activation.header ∧ s.locals id = .ok activation.locals := by
  rw [← Sound.view_frame, ← Sound.view_locals, PrivateStack.frame, PrivateStack.locals,
    PrivateStack.activation, hid]
  exact ⟨rfl, rfl⟩

/-- The frame that is committed becomes the current one. -/
theorem cursors_of_commit {s' : Stack} (hfuture : s.future = some id)
    (h : commit s = .ok () s') : s'.current = some id ∧ s'.future = some id := by
  rw [commit, hfuture] at h
  simp only at h
  split at h
  · cases h
  · split at h
    · cases h
    · cases h
      exact ⟨rfl, hfuture⟩

/--
The frame of a call that `caller` has made is the last of the table. It is reserved, has been filled
with these arguments, and is zero behind them.
-/
structure HoldsArguments (call : Call) (size : Nat) (caller : Stack) (id : FrameId)
    (arguments : List Value) (s : Stack) : Prop where
  sound : s.Sound
  last : s.headers.length = id + 1
  fits : arguments.length ≤ size
  frame : s.view.frames[id]? = some {
    header := call.header caller size (.reserved arguments.length)
    locals := arguments ++ List.replicate (size - arguments.length) .zero }

namespace HoldsArguments

variable {call : Call} {size : Nat} {caller s' : Stack} {arguments values : List Value}

/-- A reserved frame has no arguments yet. -/
theorem of_reserve (h : caller.Sound) (hreserve : reserve call size caller = .ok id s) :
    HoldsArguments call size caller id [] s := by
  obtain ⟨hsound, hid, hview⟩ := h.view_of_reserve hreserve
  obtain ⟨-, -, -, hlast, -⟩ := h.retains_reserve hreserve
  refine ⟨hsound, hlast, Nat.zero_le size, ?_⟩
  rw [hview, ← hid, ← length_frames_view, List.getElem?_concat_length]
  rfl

/-- Steps that spare the frame change nothing of it. -/
theorem after (h : HoldsArguments call size caller id arguments s) {actions : List Action}
    (hspares : ∀ step ∈ s.steps actions, step.Spares id)
    (hlast : (s.after actions).headers.length = id + 1) :
    HoldsArguments call size caller id arguments (s.after actions) :=
  ⟨h.sound.after actions, hlast, h.fits, h.sound.frames_of_spares hspares h.frame⟩

/-- The frame has as many variables as the call asked for. -/
theorem length_locals (h : HoldsArguments call size caller id arguments s) :
    (arguments ++ List.replicate (size - arguments.length) Value.zero).length = size := by
  rw [List.length_append, List.length_replicate, Nat.add_sub_of_le h.fits]

/-- The frame has the header that its call gave to it, but for its fill counter. -/
theorem frame_eq (h : HoldsArguments call size caller id arguments s) :
    s.frame id = .ok (call.header caller size (.reserved arguments.length)) :=
  (frame_of_view h.frame).1

/-- The variables of the frame are its arguments, and zeros behind them. -/
theorem locals_eq (h : HoldsArguments call size caller id arguments s) :
    s.locals id = .ok (arguments ++ List.replicate (size - arguments.length) .zero) :=
  (frame_of_view h.frame).2

/-- The cursor leads to the frame. -/
theorem future_eq (h : HoldsArguments call size caller id arguments s) : s.future = some id := by
  rw [h.sound.future, h.last, lastPosition]

/-- Values written to the frame are appended to its arguments, if there is room for them. -/
theorem writeArguments_of_le (h : HoldsArguments call size caller id arguments s)
    (hfits : (arguments ++ values).length ≤ size) :
    ∃ s', writeArguments id values s = .ok () s' ∧
      HoldsArguments call size caller id (arguments ++ values) s' := by
  have hrefines := writeArguments_refines id values s h.sound
  have hstop : arguments.length + values.length ≤ size := List.length_append ▸ hfits
  rw [PrivateStack.writeArguments_eq h.frame rfl, h.length_locals, if_pos hstop] at hrefines
  generalize hwritten : writeArguments id values s = result at hrefines
  cases hrefines with
  | @ok _ s' _ hshows =>
    have hlt : id < s.view.frames.length := (List.getElem?_eq_some_iff.mp h.frame).1
    refine ⟨s', rfl, hshows.sound, ?_, hfits, ?_⟩
    · rw [← length_frames_view, hshows.view, PrivateStack.setFrame, List.length_set,
        length_frames_view, h.last]
    · rw [hshows.view, PrivateStack.setFrame, List.getElem?_set_self hlt,
        splice_append_replicate hstop, List.length_append]
      rfl

/-- Values that the frame has no room for are refused. -/
theorem writeArguments_of_lt (h : HoldsArguments call size caller id arguments s)
    (hfits : size < (arguments ++ values).length) :
    ∃ s', writeArguments id values s =
        .error (.violation (.argumentsOverflow id (arguments ++ values).length size)) s' ∧
      HoldsArguments call size caller id arguments s' := by
  have hrefines := writeArguments_refines id values s h.sound
  have hstop : ¬arguments.length + values.length ≤ size := by
    rw [List.length_append] at hfits
    omega
  rw [PrivateStack.writeArguments_eq h.frame rfl, h.length_locals, if_neg hstop] at hrefines
  generalize hwritten : writeArguments id values s = result at hrefines
  cases hrefines with
  | @error _ s' _ hshows =>
    have hlast : s'.headers.length = id + 1 := by
      rw [← length_frames_view, hshows.view, length_frames_view, h.last]
    refine ⟨s', by rw [List.length_append], hshows.sound, hlast, h.fits, ?_⟩
    rw [hshows.view]
    exact h.frame

/-- A commit makes the frame the current one, and keeps its variables. -/
theorem commit (h : HoldsArguments call size caller id arguments s) :
    ∃ s', Stack.commit s = .ok () s' ∧ s'.current = some id ∧ s'.future = some id ∧
      s'.frame id = .ok (call.header caller size .committed) ∧
      s'.locals id = .ok (arguments ++ List.replicate (size - arguments.length) .zero) := by
  have hrefines := commit_refines s h.sound
  have hlength : s.view.frames.length = id + 1 := (length_frames_view s).trans h.last
  rw [PrivateStack.commit_eq hlength h.frame rfl] at hrefines
  generalize hcommitted : Stack.commit s = result at hrefines
  cases hrefines with
  | @ok _ s' _ hshows =>
    have hlt : id < s.view.frames.length := (List.getElem?_eq_some_iff.mp h.frame).1
    have hframe : s'.view.frames[id]? = some {
        header := call.header caller size .committed
        locals := arguments ++ List.replicate (size - arguments.length) .zero } := by
      rw [hshows.view, PrivateStack.setFrame, List.getElem?_set_self hlt]
      rfl
    obtain ⟨hcurrent, hfuture⟩ := cursors_of_commit h.future_eq hcommitted
    exact ⟨s', rfl, hcurrent, hfuture, frame_of_view hframe⟩

end HoldsArguments

/--
What a client sees when a program for an argument starts: the frame is the innermost one, reserved
and filled with the arguments so far, and a scan visits of it just the covering records among these,
before it goes on to the frames below.
-/
structure ShowsArguments (call : Call) (size : Nat) (caller : Stack) (id : FrameId)
    (arguments : List Value) (s : Stack) : Prop where
  future : s.future = some id
  frame : s.frame id = .ok (call.header caller size (.reserved arguments.length))
  locals : s.locals id = .ok (arguments ++ List.replicate (size - arguments.length) .zero)
  scan : ∀ {σ : Type} (visitor : Visitor σ) (memory : σ),
    let roots := call.coveredRoots id (call.header caller size (.reserved arguments.length))
      arguments.length
    Stack.scan visitor (s, memory) =
      match visitAll (visitRoot visitor) roots (s, memory) with
      | .error violation state => .error violation state
      | .ok _ state => visitFrames visitor (s.headers.take id).reverse ⟨1, 1, roots.length⟩ state

/-- A frame that holds its arguments shows them, to questions and to scans. -/
theorem HoldsArguments.shows {call : Call} {size : Nat} {caller : Stack} {arguments : List Value}
    (h : HoldsArguments call size caller id arguments s) :
    ShowsArguments call size caller id arguments s where
  future := h.future_eq
  frame := h.frame_eq
  locals := h.locals_eq
  scan := h.sound.scan_of_reserved h.last (getElem?_headers h.frame) rfl rfl

section

variable {τ : Type} {produce : τ → Program (Except Halt (List Value) × τ)}
  {call : Call} {size : Nat} {caller s₁ start : Stack} {memory current memory' : τ} {index : Nat}
  {buffers : List (List Value)}

/-- The arguments up to one more program. -/
theorem flatten_take_succ (hindex : index < buffers.length) :
    (buffers.take (index + 1)).flatten = (buffers.take index).flatten ++ buffers[index] := by
  rw [List.take_succ_eq_append_getElem hindex, List.flatten_append, List.flatten_singleton]

/--
The programs for the arguments give these values, end with the frame as the last of the table, and
spare it on the way.
-/
structure GiveArguments (id : FrameId) (produce : τ → Program (Except Halt (List Value) × τ))
    (s : Stack) (memory : τ) (buffers : List (List Value)) : Prop where
  values : ∀ index (hindex : index < buffers.length) start current,
    ArgumentStart id produce s memory index start current →
      ∃ memory', ((produce current).run start).result = (.ok buffers[index], memory')
  last : ∀ index < buffers.length, ∀ start current,
    ArgumentStart id produce s memory index start current →
      ((produce current).run start).final.headers.length = id + 1
  spares : ∀ index < buffers.length, ∀ step, ArgumentStep id produce s memory index step →
    step.Spares id

/-- A program that spares the frame leaves its arguments. -/
theorem HoldsArguments.final {arguments : List Value}
    (h : HoldsArguments call size caller id arguments start)
    (hgive : GiveArguments id produce s₁ memory buffers) (hindex : index < buffers.length)
    (hstart : ArgumentStart id produce s₁ memory index start current) :
    HoldsArguments call size caller id arguments ((produce current).run start).final := by
  have hlast := hgive.last index hindex start current hstart
  rw [Program.final_eq_after] at hlast ⊢
  exact h.after (fun step hstep => hgive.spares index hindex step ⟨start, current, hstart, hstep⟩)
    hlast

/-- The program for an argument starts with the values of the programs before it in the frame. -/
theorem ArgumentStart.holds (h : ArgumentStart id produce s₁ memory index start current)
    (hgive : GiveArguments id produce s₁ memory buffers)
    (hreserved : HoldsArguments call size caller id [] s₁) (hindex : index ≤ buffers.length) :
    HoldsArguments call size caller id (buffers.take index).flatten start := by
  induction h with
  | first => exact hreserved
  | @next index start s' current memory' values hstart hvalues _ hwritten ih =>
    have hfinal := (ih (Nat.le_of_succ_le hindex)).final hgive hindex hstart
    obtain ⟨_, hvalues'⟩ := hgive.values index hindex start current hstart
    cases hvalues.symm.trans hvalues'
    rw [flatten_take_succ hindex]
    rcases Nat.lt_or_ge size ((buffers.take index).flatten ++ buffers[index]).length with hlt | hle
    · obtain ⟨_, hrefused, -⟩ := hfinal.writeArguments_of_lt hlt
      cases hwritten.symm.trans hrefused
    · obtain ⟨_, hwritten', hholds⟩ := hfinal.writeArguments_of_le hle
      cases hwritten.symm.trans hwritten'
      exact hholds

/-- Every program starts whose arguments before it fit in the frame. -/
theorem GiveArguments.exists_start (hgive : GiveArguments id produce s₁ memory buffers)
    (hreserved : HoldsArguments call size caller id [] s₁) (hindex : index ≤ buffers.length)
    (hfits : (buffers.take index).flatten.length ≤ size) :
    ∃ start current, ArgumentStart id produce s₁ memory index start current := by
  induction index with
  | zero => exact ⟨s₁, memory, .first⟩
  | succ index ih =>
    rw [flatten_take_succ hindex] at hfits
    have hfits' : (buffers.take index).flatten.length ≤ size := by
      rw [List.length_append] at hfits
      exact Nat.le_of_add_right_le hfits
    obtain ⟨start, current, hstart⟩ := ih (Nat.le_of_succ_le hindex) hfits'
    have hholds := hstart.holds hgive hreserved (Nat.le_of_succ_le hindex)
    have hfinal := hholds.final hgive hindex hstart
    obtain ⟨memory', hvalues⟩ := hgive.values index hindex start current hstart
    obtain ⟨s', hwritten, -⟩ := hfinal.writeArguments_of_le hfits
    exact ⟨s', memory', hstart.next hvalues hfinal.future_eq hwritten⟩

/-- A call whose arguments are all written commits its frame. -/
theorem ArgumentStart.pushWithArguments_of_commit {count : Nat} {s' : Stack}
    (hreserve : reserve call size caller = .ok id s₁)
    (hstart : ArgumentStart id produce s₁ memory count start current)
    (hcommit : commit start = .ok () s') :
    ∃ passed, pushWithArguments call size count (producer produce)
        (caller, memory, []) = .ok id (s', current, passed) := by
  obtain ⟨passed, hfill⟩ := argumentStart_iff.mp hstart
  refine ⟨passed, ?_⟩
  simp only [pushWithArguments, bind, EStateM.bind, beside, hreserve, hfill, hcommit]
  rfl

/-- A call whose next argument is refused halts there. -/
theorem ArgumentStart.pushWithArguments_of_refusal {count : Nat} {values : List Value} {halt : Halt}
    {s' : Stack} (hreserve : reserve call size caller = .ok id s₁)
    (hstart : ArgumentStart id produce s₁ memory index start current) (hindex : index < count)
    (hvalues : ((produce current).run start).result = (.ok values, memory'))
    (hlast : ((produce current).run start).final.future = some id)
    (hrefused : writeArguments id values ((produce current).run start).final = .error halt s') :
    ∃ passed, pushWithArguments call size count (producer produce)
        (caller, memory, []) = .error halt (s', memory', passed) := by
  refine hstart.pushWithArguments_of_halt hreserve hindex fun rest passed =>
    ⟨passed ++ start :: ((produce current).run start).passed, ?_⟩
  simp only [fillArguments, produceFor, producer, producing, hvalues, if_pos hlast, hrefused]

/-- If not all values fit, there is a first argument whose end passes the size. -/
theorem exists_overflow (hfits : size < buffers.flatten.length) :
    ∃ index < buffers.length, (buffers.take index).flatten.length ≤ size ∧
      size < (buffers.take (index + 1)).flatten.length := by
  obtain ⟨index, hle, hlt⟩ := Nat.exists_not_and_succ_of_not_zero_of_exists
    (p := fun index => size < (buffers.take index).flatten.length) (by simp)
    ⟨buffers.length, by rwa [List.take_length]⟩
  refine ⟨index, ?_, Nat.le_of_not_lt hle, hlt⟩
  by_contra hindex
  rw [List.take_of_length_le (by omega)] at hle hlt
  exact hle hlt

end

/--
A call whose programs for the arguments give these values and spare its frame. Each of them starts
with the values before its own in the frame, and it is reached if these fit. If all fit, the call
commits its frame, with the values as its first variables and zeros behind. Otherwise it stops at
the first argument whose end passes the size, and leaves the frame reserved with those before it.
-/
theorem pushWithArguments_of_gives {τ : Type} {s : Stack} (h : s.Reachable) (call : Call)
    (size : Nat) (produce : τ → Program (Except Halt (List Value) × τ)) (memory : τ)
    (buffers : List (List Value)) {id : FrameId} {s₁ : Stack}
    (hreserve : reserve call size s = .ok id s₁)
    (hgive : GiveArguments id produce s₁ memory buffers) :
    (∀ index < buffers.length,
      (∀ start current, ArgumentStart id produce s₁ memory index start current →
        ShowsArguments call size s id (buffers.take index).flatten start) ∧
      ((buffers.take index).flatten.length ≤ size →
        ∃ start current, ArgumentStart id produce s₁ memory index start current)) ∧
    (buffers.flatten.length ≤ size →
      ∃ s' memory' passed,
        pushWithArguments call size buffers.length (producer produce)
            (s, memory, []) = .ok id (s', memory', passed) ∧
          s'.current = some id ∧ s'.future = some id ∧
          s'.frame id = .ok (call.header s size .committed) ∧
          s'.locals id =
            .ok (buffers.flatten ++ List.replicate (size - buffers.flatten.length) .zero)) ∧
    (size < buffers.flatten.length →
      ∃ index < buffers.length, (buffers.take index).flatten.length ≤ size ∧
        size < (buffers.take (index + 1)).flatten.length ∧
        ∃ s' memory' passed,
          pushWithArguments call size buffers.length (producer produce)
              (s, memory, []) =
            .error (.violation (.argumentsOverflow id (buffers.take (index + 1)).flatten.length
              size)) (s', memory', passed) ∧
            ShowsArguments call size s id (buffers.take index).flatten s') := by
  have hreserved := HoldsArguments.of_reserve h.sound hreserve
  refine ⟨fun index hindex => ⟨fun start current hstart => ?_, fun hfits => ?_⟩,
    fun hfits => ?_, fun hfits => ?_⟩
  · exact (hstart.holds hgive hreserved (Nat.le_of_lt hindex)).shows
  · exact hgive.exists_start hreserved (Nat.le_of_lt hindex) hfits
  · rw [← buffers.take_length] at hfits
    obtain ⟨start, current, hstart⟩ := hgive.exists_start hreserved (Nat.le_refl _) hfits
    have hholds := hstart.holds hgive hreserved (Nat.le_refl _)
    rw [List.take_length] at hholds
    obtain ⟨s', hcommit, hcurrent, hfuture, hframe, hlocals⟩ := hholds.commit
    obtain ⟨passed, hpush⟩ := hstart.pushWithArguments_of_commit hreserve hcommit
    exact ⟨s', current, passed, hpush, hcurrent, hfuture, hframe, hlocals⟩
  · obtain ⟨index, hindex, hle, hlt⟩ := exists_overflow hfits
    obtain ⟨start, current, hstart⟩ := hgive.exists_start hreserved (Nat.le_of_lt hindex) hle
    have hfinal := (hstart.holds hgive hreserved (Nat.le_of_lt hindex)).final hgive hindex hstart
    obtain ⟨memory', hvalues⟩ := hgive.values index hindex start current hstart
    refine ⟨index, hindex, hle, hlt, ?_⟩
    rw [flatten_take_succ hindex] at hlt ⊢
    obtain ⟨s', hrefused, hholds⟩ := hfinal.writeArguments_of_lt hlt
    obtain ⟨passed, hpush⟩ := hstart.pushWithArguments_of_refusal hreserve hindex hvalues
      hfinal.future_eq hrefused
    exact ⟨s', memory', passed, hpush, hholds.shows⟩

/--
A producer that gives nothing, then what a collection has put into the frame of a call that it
makes, and then two values after two calls of which one is made by the other.
-/
def widening : Nat → Program (Except Halt (List Value) × Nat)
  | 0 => .done (.ok [], 1)
  | 1 =>
    .perform (.push identityCall [.ofNat 3]) fun _ =>
    .perform (.scan Program.counting 4) fun _ =>
    .perform (.ask (.load 3 0)) fun value =>
    .perform .pop fun _ => .done (value.map fun value => [value], 2)
  | _ + 2 =>
    .perform (.push identityCall []) fun _ =>
    .perform (.push identityCall []) fun _ =>
    .perform .pop fun _ =>
    .perform .pop fun _ => .done (.ok [.ofNat 7, .ofNat 8], 3)

/-- The values that the producer gives. -/
def widths : List (List Value) := [[], [.ofNat 5], [.ofNat 7, .ofNat 8]]

/-- The stacks that the programs for the arguments start on. -/
def wideningStart : Nat → Stack
  | 0 => (outcome (reserve identityCall 3 waitingStack)).2
  | index + 1 =>
    (outcome (writeArguments 2 (widths.getD index [])
      ((widening index).run (wideningStart index)).final)).2

/-- The programs start on these stacks. -/
theorem argumentStart_widening : ∀ index ≤ 3,
    ArgumentStart 2 widening (wideningStart 0) 0 index (wideningStart index) index := by
  have hruns : ∀ index < 3,
      ((widening index).run (wideningStart index)).result =
          (.ok (widths.getD index []), index + 1) ∧
        ((widening index).run (wideningStart index)).final.future = some 2 ∧
        (outcome (writeArguments 2 (widths.getD index [])
          ((widening index).run (wideningStart index)).final)).1 = .ok () := by decide +kernel
  intro index
  induction index with
  | zero => exact fun _ => .first
  | succ index ih =>
    intro hindex
    obtain ⟨hvalues, hlast, hwritten⟩ := hruns index hindex
    exact (ih (Nat.le_of_succ_le hindex)).next hvalues hlast (eq_ok_of_outcome hwritten)

/-- The programs give the values, and spare the frame that they work for. -/
theorem giveArguments_widening : GiveArguments 2 widening (wideningStart 0) 0 widths where
  values := by
    intro index hindex start current hstart
    obtain ⟨hsame, hsame'⟩ := hstart.unique (argumentStart_widening index (Nat.le_of_lt hindex))
    have hvalues : ∀ index (hindex : index < widths.length),
        ((widening index).run (wideningStart index)).result = (.ok widths[index], index + 1) := by
      decide +kernel
    rw [hsame, hsame']
    exact ⟨index + 1, hvalues index hindex⟩
  last := by
    intro index hindex start current hstart
    obtain ⟨hsame, hsame'⟩ := hstart.unique (argumentStart_widening index (Nat.le_of_lt hindex))
    have hlast : ∀ index < widths.length,
        ((widening index).run (wideningStart index)).final.headers.length = 3 := by decide +kernel
    rw [hsame, hsame']
    exact hlast index hindex
  spares := by
    rintro index hindex step ⟨start, current, hstart, hstep⟩
    obtain ⟨hsame, hsame'⟩ := hstart.unique (argumentStart_widening index (Nat.le_of_lt hindex))
    rw [hsame, hsame'] at hstep
    have hstays : ∀ index < widths.length, ∀ step ∈ (wideningStart index).steps
        ((widening index).actions (wideningStart index)), 2 < step.after.headers.length := by
      decide +kernel
    have hnamed : ∀ part, ¬step.Names 2 part := by
      have hcases : index = 0 ∨ index = 1 ∨ index = 2 := by
        have hlt : index < 3 := hindex
        omega
      rcases hcases with rfl | rfl | rfl
      · exact (List.not_mem_nil hstep).elim
      · have hroots : ∀ step ∈ (wideningStart 1).steps ((widening 1).actions (wideningStart 1)),
            ∀ root ∈ tableRoots step.before.headers, root.id ≠ 2 := by decide +kernel
        have hroots' := hroots step hstep
        simp only [widening, Program.actions, steps, List.mem_cons, List.not_mem_nil,
          or_false] at hstep
        rcases hstep with rfl | rfl | rfl | rfl
        · exact fun _ hnames => hnames
        · rintro _ ⟨root, hroot, hid, -⟩
          exact hroots' root hroot hid.symm
        · exact fun _ hnames => hnames
        · exact fun _ hnames => hnames
      · simp only [widening, Program.actions, steps, List.mem_cons, List.not_mem_nil,
          or_false] at hstep
        rcases hstep with rfl | rfl | rfl | rfl
        · exact fun _ hnames => hnames
        · exact fun _ hnames => hnames
        · exact fun _ hnames => hnames
        · exact fun _ hnames => hnames
    exact ⟨hstays index hindex step hstep, fun part hnames => absurd hnames (hnamed part)⟩

/-- The values of all programs fill the frame to its end. -/
theorem pushWithArguments_of_gives_widening :
    ∃ (s' : Stack) (memory' : Nat) (passed : List Stack),
      pushWithArguments identityCall 3 3 (producer widening)
          (waitingStack, 0, []) = .ok 2 (s', memory', passed) ∧
        s'.current = some 2 ∧ s'.frame 2 = .ok (identityCall.header waitingStack 3 .committed) ∧
        s'.locals 2 = .ok [.ofNat 5, .ofNat 7, .ofNat 8] := by
  have hreserve : reserve identityCall 3 waitingStack = .ok 2 (wideningStart 0) :=
    eq_ok_of_outcome (by decide +kernel)
  obtain ⟨-, hfits, -⟩ := pushWithArguments_of_gives reachable_waitingStack identityCall 3 widening
    0 widths hreserve giveArguments_widening
  obtain ⟨s', memory', passed, hpush, hcurrent, -, hframe, hlocals⟩ := hfits (by decide)
  exact ⟨s', memory', passed, hpush, hcurrent, hframe, hlocals⟩

end Stack

end ManagedCore
