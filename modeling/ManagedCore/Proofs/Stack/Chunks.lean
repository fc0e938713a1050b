import ManagedCore.Proofs.Stack.Prefixes

/-!
# Arguments in chunks

The arguments of a call can be given all at once, or in chunks by a producer that does nothing else.
The frame then fills chunk by chunk, and the cells behind its fill counter are those that the rest
goes to. So every cut of the arguments, empty chunks included, writes the same cells.

Main statement: if the arguments fit, or the frame cannot be reserved, both calls have the same
result and leave the same stack. If the frame is reserved and the arguments are more than it has
variables for, both halt, and leave it reserved on top of the frames from before.
-/

namespace ManagedCore

/-- Values written in two parts are written one after the other. -/
theorem Arena.write_append (cells : Arena) (start : Nat) (values more : List Value) :
    cells.write start (values ++ more) = (cells.write start values).write (start + values.length) more := by
  induction values generalizing cells start with
  | nil => rfl
  | cons value rest ih =>
    rw [List.cons_append, write, ih, write, List.length_cons, Nat.add_assoc, Nat.add_comm 1]

namespace Stack

variable {τ : Type} {produce : Producer τ} {memory : τ} {chunks : List (List Value)}

/-- The producer gives these chunks, one for each call, and does nothing to the stack. -/
inductive Supplies (produce : Producer τ) : τ → List (List Value) → Prop
  | nil (memory : τ) : Supplies produce memory []
  | cons {memory memory' : τ} {chunk : List Value} {rest : List (List Value)}
    (h : ∀ s, produce (s, memory) = .ok chunk (s, memory')) (hrest : Supplies produce memory' rest) :
    Supplies produce memory (chunk :: rest)

/-- A frame of this size is reserved on top of a stack, is not committed, and has some arguments. -/
structure Awaits (caller : Stack) (size filled : Nat) (id : FrameId) (frame : Frame) (s : Stack) :
    Prop where
  id_eq : id = caller.frames.size
  frames : s.frames = caller.frames.push frame
  state : frame.state = .reserved filled
  size_eq : frame.size = size
  future : s.future = some id
  current : s.current = caller.current

/-- The stack with the first arguments of a waiting frame. -/
def supplied (s : Stack) (id : FrameId) (frame : Frame) (values : List Value) : Stack :=
  { s.setFrame id { frame with state := .reserved values.length } with
    cells := s.cells.write frame.firstCell values }

variable {call : Call} {size : Nat} {caller s : Stack} {id : FrameId} {frame : Frame}

/-- A reserved frame waits for its first argument. -/
theorem awaits_of_reserve (h : reserve call size caller = .ok id s) :
    ∃ frame, Awaits caller size 0 id frame s := by
  simp only [reserve] at h
  split at h
  · cases h
    exact ⟨_, rfl, rfl, rfl, rfl, rfl, rfl⟩
  · cases h

namespace Awaits

/-- A frame that arguments are supplied to waits for more. -/
theorem supplied (h : Awaits caller size 0 id frame s) (values : List Value) :
    Awaits caller size values.length id { frame with state := .reserved values.length }
      (s.supplied id frame values) where
  id_eq := h.id_eq
  frames := by
    rw [Stack.supplied, setFrame, h.frames, h.id_eq]
    apply Array.ext_getElem?
    intro i
    rw [Array.getElem?_setIfInBounds, Array.getElem?_push, Array.getElem?_push, Array.size_push]
    split
    next heq => rw [if_pos (by omega), if_pos heq.symm]
    next hne => rw [if_neg (Ne.symm hne), if_neg (Ne.symm hne)]
  state := rfl
  size_eq := h.size_eq
  future := h.future
  current := h.current

/-- The frame that arguments were supplied to. -/
theorem getElem?_supplied (h : Awaits caller size 0 id frame s) (values : List Value) :
    (s.supplied id frame values).frames[id]? =
      some { frame with state := .reserved values.length } := by
  rw [(h.supplied values).frames, h.id_eq, Array.getElem?_push_size]

/-- Without arguments a waiting frame is as it was. -/
theorem supplied_nil (h : Awaits caller size 0 id frame s) : s.supplied id frame [] = s := by
  have hframes : s.frames.setIfInBounds id { frame with state := .reserved 0 } = s.frames := by
    refine (h.supplied []).frames.trans ?_
    rw [h.frames, List.length_nil, ← h.state]
  exact congrArg (fun frames => { s with frames := frames }) hframes

/-- More arguments are written behind the ones before them, if they fit. -/
theorem writeArguments_supplied (h : Awaits caller size 0 id frame s) (values more : List Value) :
    writeArguments id more (s.supplied id frame values) =
      if (values ++ more).length ≤ size then .ok () (s.supplied id frame (values ++ more))
      else .error (.violation (.argumentsOverflow id (values ++ more).length size))
        (s.supplied id frame values) := by
  obtain rfl := h.size_eq
  simp only [writeArguments, h.getElem?_supplied, ← List.length_append]
  split
  · simp only [Stack.supplied, setFrame, Array.setIfInBounds_setIfInBounds, Arena.write_append]
    rfl
  · rfl

/-- The next chunk is written, or halts the call. -/
theorem fillArguments_supplied (h : Awaits caller size 0 id frame s) {memory memory' : τ}
    {chunk : List Value} (hchunk : ∀ s, produce (s, memory) = .ok chunk (s, memory'))
    (values : List Value) (count : Nat) :
    fillArguments id produce (count + 1) (s.supplied id frame values, memory) =
      if (values ++ chunk).length ≤ size then
        fillArguments id produce count (s.supplied id frame (values ++ chunk), memory')
      else .error (.violation (.argumentsOverflow id (values ++ chunk).length size))
        (s.supplied id frame values, memory') := by
  have hfuture : (s.supplied id frame values).future = some id := h.future
  simp only [fillArguments, produceFor, hchunk, hfuture, if_true, h.writeArguments_supplied]
  by_cases hfits : (values ++ chunk).length ≤ size
  · simp only [if_pos hfits]
  · simp only [if_neg hfits]

end Awaits

/-- Chunks that fit fill the frame as their values do. -/
theorem Supplies.fillArguments_of_le (h : Supplies produce memory chunks)
    (hs : Awaits caller size 0 id frame s) (values : List Value)
    (hfits : (values ++ chunks.flatten).length ≤ size) :
    ∃ memory', fillArguments id produce chunks.length (s.supplied id frame values, memory) =
      .ok () (s.supplied id frame (values ++ chunks.flatten), memory') := by
  induction h generalizing values with
  | nil memory => exact ⟨memory, by rw [List.flatten_nil, List.append_nil]; rfl⟩
  | @cons memory memory' chunk rest hchunk _ ih =>
    rw [List.flatten_cons, ← List.append_assoc] at hfits ⊢
    obtain ⟨last, hrest⟩ := ih _ hfits
    have hfirst : (values ++ chunk).length ≤ size := by
      rw [List.length_append] at hfits
      exact Nat.le_trans (Nat.le_add_right _ _) hfits
    exact ⟨last, by rw [List.length_cons, hs.fillArguments_supplied hchunk, if_pos hfirst, hrest]⟩

/-- Chunks that do not fit fill the frame up to the first one whose end passes the size. -/
theorem Supplies.fillArguments_of_lt (h : Supplies produce memory chunks)
    (hs : Awaits caller size 0 id frame s) (values : List Value) (hvalues : values.length ≤ size)
    (hover : size < (values ++ chunks.flatten).length) :
    ∃ before chunk after memory', chunks = before ++ chunk :: after ∧
      (values ++ before.flatten).length ≤ size ∧
      size < (values ++ before.flatten ++ chunk).length ∧
      fillArguments id produce chunks.length (s.supplied id frame values, memory) =
        .error (.violation (.argumentsOverflow id (values ++ before.flatten ++ chunk).length size))
          (s.supplied id frame (values ++ before.flatten), memory') := by
  induction h generalizing values with
  | nil memory =>
    rw [List.flatten_nil, List.append_nil] at hover
    exact absurd hvalues (Nat.not_le.mpr hover)
  | @cons memory memory' chunk rest hchunk _ ih =>
    rw [List.length_cons, hs.fillArguments_supplied hchunk]
    by_cases hfirst : (values ++ chunk).length ≤ size
    · rw [List.flatten_cons, ← List.append_assoc] at hover
      obtain ⟨before, other, after, last, rfl, hle, hlt, hfill⟩ := ih _ hfirst hover
      rw [List.append_assoc values chunk] at hle hlt hfill
      exact ⟨chunk :: before, other, after, last, rfl, hle, hlt, by rw [if_pos hfirst, hfill]; rfl⟩
    · refine ⟨[], chunk, rest, memory', rfl, ?_⟩
      rw [List.flatten_nil, List.append_nil, if_neg hfirst]
      exact ⟨hvalues, Nat.lt_of_not_le hfirst, rfl⟩

/--
A producer that gives the arguments of a call in chunks and does nothing else leads to the result
and the stack of the call with all of them at once, if they fit or the frame cannot be reserved. If
they do not fit in a frame that was reserved, both calls halt. Both leave that frame reserved on top
of the others: the one has written no argument, the other all chunks before the one that is too long.
-/
theorem push_eq_of_supplies (h : Supplies produce memory chunks) (call : Call) (s : Stack) :
    let size := call.function.frameSize
    (chunks.flatten.length ≤ size ∨ (∃ halt s', reserve call size s = .error halt s') →
      ∃ memory', outcome (pushWithArguments call size chunks.length produce (s, memory)) =
        ((outcome (push call chunks.flatten s)).1, (outcome (push call chunks.flatten s)).2,
          memory')) ∧
    ∀ id s₁, reserve call size s = .ok id s₁ → size < chunks.flatten.length →
      push call chunks.flatten s =
          .error (.violation (.argumentsOverflow id chunks.flatten.length size)) s₁ ∧
        ∃ frame before chunk after memory', chunks = before ++ chunk :: after ∧
          before.flatten.length ≤ size ∧ size < (before.flatten ++ chunk).length ∧
          pushWithArguments call size chunks.length produce (s, memory) =
            .error (.violation (.argumentsOverflow id (before.flatten ++ chunk).length size))
              (s₁.supplied id frame before.flatten, memory') ∧
          s.Awaits size 0 id frame s₁ ∧
          s.Awaits size before.flatten.length id
            { frame with state := .reserved before.flatten.length }
            (s₁.supplied id frame before.flatten) := by
  intro size
  cases hreserve : reserve call size s with
  | error halt s' =>
    refine ⟨fun _ => ⟨memory, ?_⟩, fun id s₁ heq => by cases heq⟩
    simp only [pushWithArguments, push, bind, EStateM.bind, beside, hreserve, size]
    rfl
  | ok id s₁ =>
    obtain ⟨frame, hs⟩ := awaits_of_reserve hreserve
    -- All arguments at once are one chunk for the empty frame.
    have hwrite := hs.writeArguments_supplied [] chunks.flatten
    rw [hs.supplied_nil, List.nil_append] at hwrite
    refine ⟨fun hcase => ?fits, fun id' s' heq hover => ?exceeds⟩
    case fits =>
      have hfits : chunks.flatten.length ≤ size := by
        rcases hcase with hfits | ⟨halt, s', heq⟩
        · exact hfits
        · cases heq
      obtain ⟨memory', hfill⟩ := h.fillArguments_of_le hs [] hfits
      rw [hs.supplied_nil, List.nil_append] at hfill
      rw [if_pos hfits] at hwrite
      refine ⟨memory', ?_⟩
      simp only [pushWithArguments, push, bind, EStateM.bind, beside, size, hreserve, hfill, hwrite]
      cases commit (s₁.supplied id frame chunks.flatten) <;> rfl
    case exceeds =>
      cases heq
      obtain ⟨before, chunk, after, memory', hchunks, hle, hlt, hfill⟩ :=
        h.fillArguments_of_lt hs [] (Nat.zero_le size) hover
      rw [hs.supplied_nil, List.nil_append] at hfill
      rw [List.nil_append] at hle hlt
      rw [if_neg (Nat.not_le.mpr hover)] at hwrite
      refine ⟨?_, frame, before, chunk, after, memory', hchunks, hle, hlt, ?_, hs, hs.supplied _⟩
      · simp only [push, bind, EStateM.bind, hreserve, hwrite, size]
      · simp only [pushWithArguments, bind, EStateM.bind, beside, hreserve, hfill, size]

/-- The producer that has its chunks ready. -/
def supplying : Producer (List (List Value))
  | (s, []) => .ok [] (s, [])
  | (s, chunk :: rest) => .ok chunk (s, rest)

/-- Any chunks can be supplied. -/
theorem supplies_supplying (chunks : List (List Value)) : Supplies supplying chunks chunks := by
  induction chunks with
  | nil => exact .nil []
  | cons chunk rest ih => exact .cons (fun _ => rfl) ih

/-- A call whose frame has three variables. -/
def wideCall : Call := ⟨.zero, .native "wide" 3 ⟨[]⟩, .discard, none⟩

/-- Three arguments in three chunks, one of them empty. -/
def cut : List (List Value) := [[.ofNat 5], [], [.ofNat 7, .ofNat 8]]

/-- Three arguments fill the frame to its end; a fourth one halts both calls. -/
theorem push_eq_of_supplies_cut :
    (∃ memory', outcome (pushWithArguments wideCall 3 3 supplying (waitingStack, cut)) =
      ((outcome (push wideCall cut.flatten waitingStack)).1,
        (outcome (push wideCall cut.flatten waitingStack)).2, memory')) ∧
    (outcome (push wideCall cut.flatten waitingStack)).1 = .ok 2 ∧
    (outcome (push wideCall cut.flatten waitingStack)).2.locals 2 =
      .ok [.ofNat 5, .ofNat 7, .ofNat 8] ∧
    ∃ s₁ s₂ frame filled memory', push wideCall [.ofNat 5, .ofNat 7, .ofNat 8, .ofNat 9]
        waitingStack = .error (.violation (.argumentsOverflow 2 4 3)) s₁ ∧
      pushWithArguments wideCall 3 4 supplying (waitingStack, cut ++ [[.ofNat 9]]) =
        .error (.violation (.argumentsOverflow 2 4 3)) (s₂, memory') ∧
      waitingStack.Awaits 3 0 2 frame s₁ ∧
      waitingStack.Awaits 3 filled 2 { frame with state := .reserved filled } s₂ := by
  have hreserve : reserve wideCall 3 waitingStack = .ok 2 _ := eq_ok_of_outcome (by decide +kernel)
  refine ⟨(push_eq_of_supplies (supplies_supplying cut) wideCall waitingStack).1
    (.inl (by decide)), by decide +kernel, by decide +kernel, ?_⟩
  obtain ⟨hpush, frame, before, chunk, after, memory', hchunks, hle, hlt, hproduced, hwaits,
    hwaits'⟩ := (push_eq_of_supplies (supplies_supplying (cut ++ [[.ofNat 9]])) wideCall
      waitingStack).2 2 _ hreserve (by decide)
  -- A prefix of four values that is longer than three is all of them.
  have hstop : (before.flatten ++ chunk).length = 4 := by
    have hlength := congrArg (fun chunks => chunks.flatten.length) hchunks
    have hlt' : 3 < (before.flatten ++ chunk).length := hlt
    simp [cut] at hlength hlt' ⊢
    omega
  rw [hstop] at hproduced
  exact ⟨_, _, frame, _, memory', hpush, hproduced, hwaits, hwaits'⟩

end Stack

end ManagedCore
