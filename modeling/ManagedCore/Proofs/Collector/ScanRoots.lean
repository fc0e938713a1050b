import ManagedCore.Proofs.Collector.Roots
import ManagedCore.Proofs.Collector.Visits
import ManagedCore.Proofs.Stack.Producers
import ManagedCore.Proofs.Stack.Walk
import Mathlib.Data.List.TakeWhile

/-!
# Scans visit the roots of the table

A scan of a sound stack walks from frame to frame and reads cells as it goes, and yet it makes the
visits that the headers fix before it starts: no visit changes a header. The same holds of a scan of
private frames, and both hand the same values to the visitor.
-/

namespace ManagedCore.Stack

variable {σ : Type}

/-- Hands the cell of a root to the visitor. It is the root's variable in its frame's window. -/
def visitRoot (visitor : Visitor σ) (root : Root) : Visit σ Stack Unit :=
  visitCell visitor (root.frame.firstCell + root.slot) root.index

/-- The filled variables that some records of a frame name. -/
def recordRoots (id : Nat) (frame : Frame) (records : List (Nat × LivenessRecord)) : List Root :=
  (records.filter fun (_, record) => record.slot < frame.filled).map fun (index, record) =>
    ⟨id, frame, index, record⟩

/-- The roots of a frame are the filled variables that its live records name. -/
theorem recordRoots_liveAt (id : Nat) (frame : Frame) :
    recordRoots id frame (frame.function.liveness.liveAt frame.resume) = frame.roots id := by
  simp only [recordRoots, LivenessTable.liveAt, Frame.roots, List.filter_map, List.map_map,
    List.filter_filter]
  congr 1
  apply List.filter_congr
  rintro ⟨record, index⟩ -
  simp only [Function.comp, Frame.declares, LivenessRecord.covers, Bool.and_comm]

/-- The records of a frame are visited as its roots, and counted. -/
theorem visitRecords_eq (visitor : Visitor σ) (id : Nat) (frame : Frame)
    (records : List (Nat × LivenessRecord)) (count : Nat) (state : Stack × σ) :
    visitRecords visitor frame records count state =
      match visitInside (visitRoot visitor) (recordRoots id frame records) state with
      | .ok _ state => .ok (count + (recordRoots id frame records).length) state
      | .error violation state => .error violation state := by
  induction records generalizing count state with
  | nil => rfl
  | cons first rest ih =>
    obtain ⟨index, record⟩ := first
    by_cases hfilled : record.slot < frame.filled
    · have hroots : recordRoots id frame ((index, record) :: rest) =
          ⟨id, frame, index, record⟩ :: recordRoots id frame rest := by
        simp [recordRoots, hfilled]
      rw [hroots]
      simp only [visitRecords, if_neg (Nat.not_le.mpr hfilled), visitInside]
      by_cases hslot : record.slot < frame.size
      · have hinside : Root.inside ⟨id, frame, index, record⟩ := decide_eq_true hslot
        rw [if_neg (Nat.not_le.mpr hslot), if_pos hinside]
        simp only [visitRoot, Root.slot]
        cases visitCell visitor (frame.firstCell + record.slot) index state with
        | error violation state => rfl
        | ok _ state =>
          simp only [ih (count + 1) state, List.length_cons]
          split
          · congr 1
            omega
          · rfl
      · have houtside : ¬Root.inside ⟨id, frame, index, record⟩ :=
          fun hinside => hslot (of_decide_eq_true hinside)
        rw [if_pos (Nat.not_lt.mp hslot), if_neg houtside]
        rfl
    · have hroots : recordRoots id frame ((index, record) :: rest) =
          recordRoots id frame rest := by
        simp [recordRoots, hfilled]
      simp only [hroots, visitRecords, if_pos (Nat.not_lt.mp hfilled)]
      exact ih count state

/-- The frames of a chain are visited as their roots, and counted. -/
theorem visitFrames_eq (visitor : Visitor σ) (chain : List (Nat × Frame)) (stats : ScanStats)
    (state : Stack × σ) :
    visitFrames visitor (chain.map Prod.snd) stats state =
      match visitInside (visitRoot visitor) (chainRoots chain) state with
      | .ok _ state => .ok { stats with
          frames := stats.frames + chain.length
          roots := stats.roots + (chainRoots chain).length } state
      | .error violation state => .error violation state := by
  induction chain generalizing stats state with
  | nil => rfl
  | cons first rest ih =>
    obtain ⟨id, frame⟩ := first
    have hcons : chainRoots ((id, frame) :: rest) = frame.roots id ++ chainRoots rest := rfl
    simp only [List.map_cons, visitFrames, visitRecords_eq visitor id frame,
      recordRoots_liveAt, hcons, visitInside_append]
    cases visitInside (visitRoot visitor) (frame.roots id) state with
    | error violation state => rfl
    | ok _ state =>
      simp only [ih]
      split
      · simp only [List.length_cons, List.length_append]
        congr 2
        · omega
        · omega
      · rfl

/-- A scan visits the roots of the table, up to the first one outside its frame. -/
theorem scan_eq {s : Stack} (h : s.Sound) (visitor : Visitor σ) (memory : σ) :
    scan visitor (s, memory) = scanRoots (visitRoot visitor) headers (s, memory) := by
  rw [scan, h.walk_eq, visitFrames_eq, scanRoots, ← tableRoots, visitInside_eq]
  cases visitAll (visitRoot visitor) ((tableRoots s.headers).takeWhile Root.inside) (s, memory) with
  | error violation state => rfl
  | ok _ state =>
    simp only
    cases (tableRoots s.headers).find? fun root => !root.inside with
    | some root => rfl
    | none => simp [ScanStats.zero]

/-- A visit changes no header, whether it halts or not. -/
theorem headers_visitRoot (visitor : Visitor σ) (root : Root) (state : Stack × σ) :
    (outcome (visitRoot visitor root state)).2.1.headers = state.1.headers := by
  simp only [visitRoot, visitCell]
  split <;> rfl

/-- Visits change no header, also when one of them halts. -/
theorem headers_visitAll (visitor : Visitor σ) (roots : List Root) (state : Stack × σ) :
    (outcome (visitAll (visitRoot visitor) roots state)).2.1.headers = state.1.headers := by
  induction roots generalizing state with
  | nil => rfl
  | cons root rest ih =>
    have hroot := headers_visitRoot visitor root state
    simp only [visitAll]
    cases hvisit : visitRoot visitor root state with
    | error violation state =>
      rw [hvisit] at hroot
      exact hroot
    | ok _ state =>
      rw [hvisit] at hroot
      exact (ih state).trans hroot

/-- The visitor meets the same value in the arena and in the private frame. -/
theorem visitRoot_refines {s : Stack} (h : s.Sound) {root : Root}
    (hroot : s.headers[root.id]? = some root.frame) (hinside : root.inside)
    (visitor : Visitor σ) (memory : σ) :
    Agree (ShowsBeside (· = ·)) (visitRoot visitor root (s, memory))
      (PrivateStack.visitRoot visitor root (s.view, memory)) := by
  have hslot : root.slot < root.frame.size := of_decide_eq_true hinside
  have hvalue : (root.frame.activation s.cells).locals.getD root.slot .zero =
      s.cells.getD (root.frame.firstCell + root.slot) .zero := by
    rw [List.getD_eq_getElem?_getD, Frame.activation, Arena.getElem?_window, if_pos hslot,
      Array.getD_eq_getD_getElem?]
  simp only [visitRoot, visitCell, PrivateStack.visitRoot, activation_view hroot, Visit.on, hvalue]
  cases visitor.root root.index (s.cells.getD (root.frame.firstCell + root.slot) .zero, memory) with
  | ok _ state => exact .ok () ⟨shows_setCell h hroot hslot state.1, rfl⟩
  | error violation state => exact .error _ ⟨shows_setCell h hroot hslot state.1, rfl⟩

/-- Visits of roots that the table has variables for are the same on private frames. -/
theorem visitAll_refines {s : Stack} (h : s.Sound) {roots : List Root}
    (hroots : ∀ root ∈ roots, s.headers[root.id]? = some root.frame ∧ root.inside)
    (visitor : Visitor σ) (memory : σ) :
    Agree (ShowsBeside (· = ·)) (visitAll (visitRoot visitor) roots (s, memory))
      (visitAll (PrivateStack.visitRoot visitor) roots (s.view, memory)) := by
  induction roots generalizing s memory with
  | nil => exact .ok () ⟨⟨h, rfl⟩, rfl⟩
  | cons root rest ih =>
    obtain ⟨hroot, hinside⟩ := hroots root List.mem_cons_self
    have hvisit := visitRoot_refines h hroot hinside visitor memory
    simp only [visitAll]
    cases hresult : visitRoot visitor root (s, memory) with
    | error violation state =>
      rw [hresult] at hvisit
      generalize PrivateStack.visitRoot visitor root (s.view, memory) = result' at hvisit
      cases hvisit with
      | error _ hshows => exact .error violation hshows
    | ok _ state =>
      rw [hresult] at hvisit
      generalize PrivateStack.visitRoot visitor root (s.view, memory) = result' at hvisit
      cases hvisit with
      | @ok _ _ state' hshows =>
        obtain ⟨s', memory'⟩ := state
        obtain ⟨p, memory''⟩ := state'
        obtain ⟨⟨hsound, rfl⟩, rfl⟩ := hshows
        have hheaders := headers_visitRoot visitor root (s, memory)
        rw [hresult] at hheaders
        exact ih hsound (fun other hother =>
          hheaders ▸ hroots other (List.mem_cons_of_mem _ hother)) memory'

/-- A scan of the arena is a scan of the private frames. -/
theorem scan_refines {s : Stack} (h : s.Sound) (visitor : Visitor σ) (memory : σ) :
    Agree (ShowsBeside (· = ·)) (scan visitor (s, memory)) (PrivateStack.scan visitor (s.view, memory)) := by
  have hroots : ∀ root ∈ (tableRoots s.headers).takeWhile Root.inside,
      s.headers[root.id]? = some root.frame ∧ root.inside := by
    intro root hroot
    have hmem := (List.takeWhile_prefix Root.inside).sublist.mem hroot
    exact ⟨getElem?_of_mem_tableRoots hmem, List.mem_takeWhile_imp hroot⟩
  have hvisits := visitAll_refines h hroots visitor memory
  rw [scan_eq h, PrivateStack.scan, scanRoots, scanRoots]
  simp only [headers_view]
  generalize visitAll (visitRoot visitor) ((tableRoots s.headers).takeWhile Root.inside)
    (s, memory) = result, visitAll (PrivateStack.visitRoot visitor)
    ((tableRoots s.headers).takeWhile Root.inside) (s.view, memory) = result' at hvisits
  cases hvisits with
  | error violation hshows => exact .error violation hshows
  | ok _ hshows =>
    simp only
    cases (tableRoots s.headers).find? fun root => !root.inside with
    | some root => exact .error _ hshows
    | none => exact .ok _ hshows

end ManagedCore.Stack
