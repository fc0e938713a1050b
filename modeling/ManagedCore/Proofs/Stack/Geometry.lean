import ManagedCore.Proofs.Stack.Programs

/-!
# The geometry of the arena

The frames of a table tile the used part of their arena. Going down from the arena's end, every
frame takes the bytes right below those of the older frames, first the cells of its window and under
them its header; what is left below the youngest frame is available.

Sizes, addresses and cursors are kept as words, and cells are taken from the arena as slices. Here
these computations are written out with all that could go wrong in them, an overflow, an underflow,
a cursor that leads nowhere or a slice out of range. On reachable stacks none of it does.
-/

namespace ManagedCore

/-- The cells from `start` to before `stop`, unless there are no such cells. -/
def Arena.slice? (cells : Arena) (start stop : Nat) : Option (List Value) :=
  if start ≤ stop ∧ stop ≤ cells.size then some (cells.extract start stop).toList else none

namespace Frame

/-- The first cell of a frame's window and the one after its last, in word arithmetic. -/
def wordWindow (frame : Frame) : Option (Nat × Nat) := do
  let aboveHeader ← (addWord frame.address headerBytes).toOption
  let start := aboveHeader / cellBytes
  let stop ← (addWord start frame.size).toOption
  return (start, stop)

/-- The `count` variables of a frame from `offset` on, cut out of the arena in word arithmetic. -/
def wordLocals (frame : Frame) (cells : Arena) (offset count : Nat) : Option (List Value) := do
  let (first, _) ← frame.wordWindow
  let start ← (addWord first offset).toOption
  let stop ← (addWord start count).toOption
  cells.slice? start stop

/-- A frame that takes the bytes of the arena right below `edge`: its window, and under it its header. -/
structure TilesBelow (frame : Frame) (edge : Nat) (cells : Arena) : Prop where
  address : frame.address + (headerBytes + frame.size * cellBytes) = edge
  aligned : cellBytes ∣ frame.address
  windowStart : frame.firstCell * cellBytes = frame.address + headerBytes
  windowStop : (frame.firstCell + frame.size) * cellBytes = edge
  inside : frame.firstCell + frame.size ≤ cells.size
  filled : ∀ count, frame.state = .reserved count → count ≤ frame.size

end Frame

/-- Every frame takes at least a header. -/
theorem length_le_tableBytes (frames : List Frame) :
    frames.length * headerBytes ≤ tableBytes frames := by
  induction frames with
  | nil => exact Nat.zero_le _
  | cons frame rest ih =>
    have hsum : tableBytes (frame :: rest) = frame.bytes + tableBytes rest := by simp [tableBytes]
    have hheader : headerBytes ≤ frame.bytes := Nat.le_add_right _ _
    rw [hsum, List.length_cons, Nat.add_mul]
    omega

namespace Stack

/-- Where the frames before position `id` end, seen from above: the address of the last of them. -/
def edge (s : Stack) : Nat → Nat
  | 0 => s.capacity
  | id + 1 => (s.headers[id]?.map Frame.address).getD s.capacity

/-- The bytes below the innermost frame, looked up where the cursor points. -/
def wordAvailable (s : Stack) : Option Nat :=
  match s.future with
  | none => some s.capacity
  | some id => s.frames[id]?.map Frame.address

/-- The bytes that frames take, if the subtraction has a word for it. -/
def wordUsedBytes (s : Stack) : Option Nat := do
  let available ← s.wordAvailable
  if available ≤ s.capacity then some (s.capacity - available) else none

/-- Nothing that is computed of the frames in the table leaves the range of words or of cells. -/
structure InRange (s : Stack) : Prop where
  available : s.wordAvailable = some s.available
  usedBytes : s.wordUsedBytes = some s.usedBytes
  footprint : ∀ frame ∈ s.headers, wordFootprint frame.size = .ok frame.bytes
  window : ∀ frame ∈ s.headers,
    frame.wordWindow = some (frame.firstCell, frame.firstCell + frame.size)
  locals : ∀ frame ∈ s.headers, ∀ offset count, offset + count ≤ frame.size →
    frame.wordLocals s.cells offset count =
      some (s.cells.window (frame.firstCell + offset) count)

namespace Sound

variable {s : Stack}

/-- The frames before a position take what is above their edge. -/
theorem edge_add_tableBytes (h : s.Sound) {id : Nat} (hid : id ≤ s.headers.length) :
    s.edge id + tableBytes (s.headers.take id) = s.capacity := by
  cases id with
  | zero => rw [edge, List.take_zero, tableBytes_nil, Nat.add_zero]
  | succ id =>
    have hframe : s.headers[id]? = some s.headers[id] := List.getElem?_eq_getElem hid
    have htiles := (h.placed id _ hframe).tiles
    rw [edge, hframe, Option.map_some, Option.getD_some, take_succ_eq_concat hframe,
      tableBytes_concat]
    omega

/-- Every frame takes the bytes right below those of the older frames. -/
theorem tilesBelow (h : s.Sound) {id : Nat} {frame : Frame} (hid : s.headers[id]? = some frame) :
    frame.TilesBelow (s.edge id) s.cells := by
  have hlt : id < s.headers.length := (List.getElem?_eq_some_iff.mp hid).1
  have hedge := h.edge_add_tableBytes (Nat.le_of_lt hlt)
  have hplaced := h.placed id frame hid
  have haddress : frame.address + (headerBytes + frame.size * cellBytes) = s.edge id := by
    have htiles := hplaced.tiles
    rw [Frame.bytes, footprint] at htiles
    omega
  have hstop : (frame.firstCell + frame.size) * cellBytes = s.edge id := by
    have hend := h.window_end hid
    omega
  have hstart : frame.firstCell * cellBytes = frame.address + headerBytes := by
    rw [Nat.add_mul] at hstop
    omega
  refine ⟨haddress, ?_, hstart, hstop, h.window_le hid, hplaced.filled⟩
  rw [headerBytes, cellBytes] at hstart
  rw [cellBytes]
  omega

/-- The innermost frame's address is the edge of the whole table. -/
theorem edge_length (h : s.Sound) : s.edge s.headers.length = s.available := by
  have hedge := h.edge_add_tableBytes (Nat.le_refl _)
  rw [List.take_length] at hedge
  rw [h.available_eq]
  omega

/-- Frames and what is available share the arena. -/
theorem usedBytes_eq (h : s.Sound) : s.usedBytes = tableBytes s.headers := by
  have hle := h.placed.tableBytes_le
  rw [usedBytes, h.available_eq]
  omega

/-- The arena bounds the number of frames. -/
theorem length_headers_le (h : s.Sound) : s.headers.length ≤ s.capacity / headerBytes := by
  have hle := h.placed.tableBytes_le
  have hbytes := length_le_tableBytes s.headers
  rw [Nat.le_div_iff_mul_le (by decide)]
  omega

/-- Cells of the arena are numbered by words. -/
theorem size_cells_lt (h : s.Sound) : s.cells.size * cellBytes < wordLimit := by
  have hgranted := h.granted
  rw [capacity, allocationLimit] at hgranted
  rw [wordLimit]
  omega

/-- The cursor leads to the innermost frame. -/
theorem wordAvailable_eq (h : s.Sound) : s.wordAvailable = some s.available := by
  rw [wordAvailable, available, h.future]
  cases hlength : s.headers.length with
  | zero => rfl
  | succ id =>
    have hid : s.headers[id]? = some s.headers[id] := List.getElem?_eq_getElem (by omega)
    simp only [lastPosition, Option.bind_some, getElem?_frames, hid, Option.map_some]

/-- A frame's window is computed without overflow. -/
theorem wordWindow_eq (h : s.Sound) {id : Nat} {frame : Frame} (hid : s.headers[id]? = some frame) :
    frame.wordWindow = some (frame.firstCell, frame.firstCell + frame.size) := by
  -- No sum is larger than the number of bytes in the arena, and that is a word.
  have hcells := h.size_cells_lt
  have htiles := h.tilesBelow hid
  have hinside := htiles.inside
  have hstart := htiles.windowStart
  simp only [cellBytes] at hcells hstart
  have habove : addWord frame.address headerBytes = .ok (frame.address + headerBytes) :=
    addWord_of_lt (by omega)
  have hstop : addWord frame.firstCell frame.size = .ok (frame.firstCell + frame.size) :=
    addWord_of_lt (by omega)
  have hfirst : (frame.address + headerBytes) / cellBytes = frame.firstCell := rfl
  simp only [Frame.wordWindow, habove, Except.toOption, hfirst, hstop, bind, Option.bind, pure]

/-- Variables of a frame are cut out of the arena without overflow and in range. -/
theorem wordLocals_eq (h : s.Sound) {id : Nat} {frame : Frame} (hid : s.headers[id]? = some frame)
    {offset count : Nat} (hfit : offset + count ≤ frame.size) :
    frame.wordLocals s.cells offset count =
      some (s.cells.window (frame.firstCell + offset) count) := by
  have hcells := h.size_cells_lt
  have hinside := h.window_le hid
  rw [cellBytes] at hcells
  have hstart : addWord frame.firstCell offset = .ok (frame.firstCell + offset) :=
    addWord_of_lt (by omega)
  have hstop : addWord (frame.firstCell + offset) count =
      .ok (frame.firstCell + offset + count) :=
    addWord_of_lt (by omega)
  have hslice : s.cells.slice? (frame.firstCell + offset) (frame.firstCell + offset + count) =
      some (s.cells.window (frame.firstCell + offset) count) := by
    rw [Arena.slice?, if_pos (by omega)]
    rfl
  simp only [Frame.wordLocals, h.wordWindow_eq hid, hstart, hstop, hslice, Except.toOption, bind,
    Option.bind]

/-- On a sound stack no computation leaves the range of words or of cells. -/
theorem inRange (h : s.Sound) : s.InRange where
  available := h.wordAvailable_eq
  usedBytes := by
    have hle : s.available ≤ s.capacity := by
      rw [h.available_eq]
      omega
    simp only [wordUsedBytes, h.wordAvailable_eq, bind, Option.bind, if_pos hle]
    rfl
  footprint := by
    intro frame hmem
    obtain ⟨id, hid⟩ := List.getElem?_of_mem hmem
    have hcells := h.size_cells_lt
    have hedge := h.edge_add_tableBytes (Nat.le_of_lt (List.getElem?_eq_some_iff.mp hid).1)
    have haddress := (h.tilesBelow hid).address
    rw [← capacity] at hcells
    have hproduct : mulWord frame.size cellBytes = .ok (frame.size * cellBytes) :=
      mulWord_of_lt (by omega)
    have hsum : addWord headerBytes (frame.size * cellBytes) = .ok frame.bytes :=
      addWord_of_lt (by omega)
    simp only [wordFootprint, hproduct, hsum, bind, Except.bind]
  window := by
    intro frame hmem
    obtain ⟨id, hid⟩ := List.getElem?_of_mem hmem
    exact h.wordWindow_eq hid
  locals := by
    intro frame hmem offset count hfit
    obtain ⟨id, hid⟩ := List.getElem?_of_mem hmem
    exact h.wordLocals_eq hid hfit

end Sound

/--
In every reachable stack the frames tile the used part of the arena, oldest frame first from its end
down, and nothing that is computed of them leaves its range. The frame table has room for as many
frames as the arena has.
-/
theorem tiles_of_reachable {s : Stack} (h : s.Reachable) :
    (∀ (id : Nat) (frame : Frame), s.headers[id]? = some frame →
        frame.TilesBelow (s.edge id) s.cells) ∧
      s.edge s.headers.length = s.available ∧
      s.usedBytes = (s.headers.map Frame.bytes).sum ∧
      s.available = s.capacity - s.usedBytes ∧
      s.headers.length ≤ s.capacity / headerBytes ∧
      s.InRange := by
  have hsound := h.sound
  have hused : s.usedBytes = (s.headers.map Frame.bytes).sum := hsound.usedBytes_eq
  refine ⟨fun id frame hid => hsound.tilesBelow hid, hsound.edge_length, hused, ?_,
    hsound.length_headers_le, hsound.inRange⟩
  rw [hsound.available_eq, hsound.usedBytes_eq]

/-- A function of two variables. -/
def pair : Function := .native "pair" 2 ⟨[]⟩

/--
A call whose producer fills half of the frame, makes another call with no variables on top of it,
and then breaks off, so that both frames stay.
-/
def brokenOff : Program Unit :=
  let call : Call := ⟨.zero, pair, .discard, none⟩
  .pushWithArguments call 2 1 ()
    (fun _ =>
      .perform (.writeArguments 0 [.ofNat 7]) fun _ =>
      .perform (.reserve call 0) fun _ =>
      .perform .commit fun _ => .done (.error (.violation (.raised "broken off")), ()))
    (fun _ _ => .done ())

/-- The frames that stay tile the arena from its end down to what is available. -/
theorem tiles_of_reachable_brokenOff :
    ∃ s : Stack, s.Reachable ∧
      s.headers.map (fun frame => (frame.address, frame.firstCell, frame.size, frame.state)) =
        [(368, 62, 2, .reserved 1), (240, 46, 0, .committed)] ∧
      s.capacity = 512 ∧ s.usedBytes = 144 + 128 ∧ s.available = 240 ∧
      (∀ frame, s.headers[0]? = some frame → frame.TilesBelow 512 s.cells) ∧
      (∀ frame, s.headers[1]? = some frame → frame.TilesBelow 368 s.cells) ∧
      s.headers.length ≤ 4 ∧ s.InRange := by
  have hfirst : create (some 512) = .ok { empty with cells := Array.replicate 64 .zero } := rfl
  have hreachable := reachable_final brokenOff hfirst
  obtain ⟨htiles, -, -, -, hlength, hrange⟩ := tiles_of_reachable hreachable
  refine ⟨_, hreachable, by decide +kernel, by decide +kernel, by decide +kernel,
    by decide +kernel, htiles 0, htiles 1, ?_, hrange⟩
  exact hlength

end Stack

end ManagedCore
