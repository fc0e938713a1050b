import ManagedCore.Collector.Scan
import ManagedCore.Proofs.Stack.Table

/-!
# The roots of a frame table

The roots of a stack are fixed by its headers alone: no cell is read to find them. Here they are
listed in the order of a scan, each with the frame, the variable and the liveness record that lead
to it. A root that its frame has no variable for is listed as well; a scan stops there.
-/

namespace ManagedCore

/-- A variable of a frame that a liveness record declares live. -/
structure Root where
  id : Nat
  frame : Frame
  index : Nat
  record : LivenessRecord

namespace Root

/-- The variable. -/
def slot (root : Root) : Nat := root.record.slot

/-- Whether the frame has the variable. -/
def inside (root : Root) : Bool := root.slot < root.frame.size

/-- The violation of a record that names a variable beyond its frame. -/
def violation (root : Root) : Violation :=
  .livenessOutsideFrame root.index root.frame.function.name root.slot root.frame.size

end Root

/-- Whether a record declares a variable live at the frame's offset, and it is filled. -/
def Frame.declares (frame : Frame) (record : LivenessRecord) : Bool :=
  record.first ≤ frame.resume.getD 0 && frame.resume.getD 0 ≤ record.last &&
    record.slot < frame.filled

/-- The roots of one frame, in the order of its function's records. -/
def Frame.roots (frame : Frame) (id : Nat) : List Root :=
  (frame.function.liveness.records.zipIdx.filter fun (record, _) => frame.declares record).map
    fun (record, index) => ⟨id, frame, index, record⟩

/-- The roots of frames met one after another. -/
def chainRoots (chain : List (Nat × Frame)) : List Root :=
  chain.flatMap fun entry => entry.2.roots entry.1

/-- The roots of all frames, last frame first. -/
def tableRoots (frames : List Frame) : List Root := chainRoots (tableChain frames)

variable {σ ω : Type}

/-- Visits roots one after another. -/
def visitAll (visit : Root → Visit σ ω Unit) : List Root → Visit σ ω Unit
  | [] => fun state => .ok () state
  | root :: rest => fun state =>
    match visit root state with
    | .ok _ state => visitAll visit rest state
    | .error violation state => .error violation state

/-- Visits roots one after another, and stops at the first one outside its frame. -/
def visitInside (visit : Root → Visit σ ω Unit) : List Root → Visit σ ω Unit
  | [] => fun state => .ok () state
  | root :: rest => fun state =>
    if root.inside then
      match visit root state with
      | .ok _ state => visitInside visit rest state
      | .error violation state => .error violation state
    else .error root.violation state

/--
A scan of anything that has headers: it visits the roots up to the first one outside its frame, and
reports that one, or else the numbers of frames and roots.
-/
def scanRoots (visit : Root → Visit σ ω Unit) (headers : ω → List Frame) :
    Visit σ ω ScanStats := fun state =>
  let frames := headers state.1
  let roots := tableRoots frames
  match visitAll visit (roots.takeWhile Root.inside) state with
  | .error violation state => .error violation state
  | .ok _ state =>
    match roots.find? fun root => !root.inside with
    | some root => .error root.violation state
    | none => .ok { threads := 1, frames := frames.length, roots := roots.length } state

/-- Visiting up to the first root outside its frame is visiting the roots before it. -/
theorem visitInside_eq (visit : Root → Visit σ ω Unit) (roots : List Root) (state : ω × σ) :
    visitInside visit roots state =
      match visitAll visit (roots.takeWhile Root.inside) state with
      | .error violation state => .error violation state
      | .ok _ state =>
        match roots.find? fun root => !root.inside with
        | some root => .error root.violation state
        | none => .ok () state := by
  induction roots generalizing state with
  | nil => rfl
  | cons root rest ih =>
    by_cases hroot : root.inside
    · simp only [visitInside, hroot, if_true, List.takeWhile_cons, visitAll, List.find?_cons,
        Bool.not_true]
      cases visit root state with
      | ok _ state => exact ih state
      | error violation state => rfl
    · simp only [visitInside, hroot, if_false, List.takeWhile_cons, visitAll, List.find?_cons,
        Bool.not_false, Bool.false_eq_true]

/-- Visiting one list of roots and then another is visiting both at once. -/
theorem visitInside_append (visit : Root → Visit σ ω Unit) (roots more : List Root)
    (state : ω × σ) :
    visitInside visit (roots ++ more) state =
      match visitInside visit roots state with
      | .ok _ state => visitInside visit more state
      | .error violation state => .error violation state := by
  induction roots generalizing state with
  | nil => rfl
  | cons root rest ih =>
    rw [List.cons_append, visitInside, visitInside]
    by_cases hroot : root.inside
    · simp only [hroot, if_true]
      cases visit root state with
      | ok _ state => exact ih state
      | error violation state => rfl
    · simp only [hroot, Bool.false_eq_true, if_false]

/-- A root of a table is a root of the frame that the table holds at its position. -/
theorem getElem?_of_mem_tableRoots {frames : List Frame} {root : Root}
    (h : root ∈ tableRoots frames) : frames[root.id]? = some root.frame := by
  simp only [tableRoots, chainRoots, List.mem_flatMap, Frame.roots, List.mem_map] at h
  obtain ⟨⟨id, frame⟩, hframe, ⟨record, index⟩, -, rfl⟩ := h
  exact mem_tableChain.mp hframe

/-- The roots of a frame added to a table come first. -/
theorem tableRoots_concat (frames : List Frame) (frame : Frame) :
    tableRoots (frames ++ [frame]) = frame.roots frames.length ++ tableRoots frames := by
  rw [tableRoots, tableChain_concat, tableRoots]
  rfl

/-- Every root of a table is declared by a record of its function. -/
theorem declares_of_mem_tableRoots {frames : List Frame} {root : Root}
    (h : root ∈ tableRoots frames) : root.frame.declares root.record := by
  simp only [tableRoots, chainRoots, List.mem_flatMap, Frame.roots, List.mem_map,
    List.mem_filter] at h
  obtain ⟨⟨id, frame⟩, -, ⟨record, index⟩, ⟨-, hdeclares⟩, rfl⟩ := h
  exact hdeclares

end ManagedCore
