import ManagedCore.Proofs.Stack.Programs

/-!
# The roots of reachable stacks

Whatever run led to a stack, a scan of it visits the roots that its headers declare, in order, and
stops at the first one that its frame has no variable for. The headers alone decide which roots
these are: the visits may change every cell and leave the headers as they were.
-/

namespace ManagedCore.Stack

variable {σ : Type}

/-- A root without a variable is one of a committed frame, and not the reserved record slot. -/
theorem Sound.committed_of_outside {s : Stack} (h : s.Sound) {root : Root}
    (hmem : root ∈ tableRoots s.headers) (houtside : root.inside = false) :
    root.frame.isCommitted ∧ root.slot < allFilled := by
  have hplaced := h.placed root.id root.frame (getElem?_of_mem_tableRoots hmem)
  have hdeclares := declares_of_mem_tableRoots hmem
  simp only [Frame.declares, Bool.and_eq_true, decide_eq_true_eq] at hdeclares
  have hfilled : root.slot < root.frame.filled := hdeclares.2
  have hsize : root.frame.size ≤ root.slot := by simpa [Root.inside] using houtside
  cases hstate : root.frame.state with
  | committed =>
    rw [Frame.filled, hstate] at hfilled
    exact ⟨by simp [Frame.isCommitted, hstate], hfilled⟩
  | reserved count =>
    have hcount := hplaced.filled count hstate
    rw [Frame.filled, hstate] at hfilled
    simp only at hfilled
    omega

/-- A scan changes no header, also when it stops early. -/
theorem Sound.headers_scan {s : Stack} (h : s.Sound) (visitor : Visitor σ) (memory : σ) :
    (outcome (scan visitor (s, memory))).2.1.headers = s.headers := by
  have hvisits := headers_visitAll visitor ((tableRoots s.headers).takeWhile Root.inside)
    (s, memory)
  rw [scan_eq h, scanRoots]
  cases hresult : visitAll (visitRoot visitor) ((tableRoots s.headers).takeWhile Root.inside)
      (s, memory) with
  | error violation state =>
    rw [hresult] at hvisits
    exact hvisits
  | ok _ state =>
    rw [hresult] at hvisits
    simp only
    cases (tableRoots s.headers).find? fun root => !root.inside with
    | some root => exact hvisits
    | none => exact hvisits

/--
A scan of a reachable stack visits the roots of its table up to the first one outside its frame.
There it halts; without one it reports the numbers of frames and roots. Only committed frames have
such roots, and the visits change no header.
-/
theorem scan_of_reachable {s : Stack} (h : s.Reachable) (visitor : Visitor σ) (memory : σ) :
    scan visitor (s, memory) =
        (match visitAll (visitRoot visitor) ((tableRoots s.headers).takeWhile Root.inside)
            (s, memory) with
        | .error violation state => .error violation state
        | .ok _ state =>
          match (tableRoots s.headers).find? fun root => !root.inside with
          | some root => .error root.violation state
          | none => .ok ⟨1, s.headers.length, (tableRoots s.headers).length⟩ state) ∧
      (∀ root ∈ tableRoots s.headers, root.inside = false →
        root.frame.isCommitted ∧ root.slot < allFilled) ∧
      (outcome (scan visitor (s, memory))).2.1.headers = s.headers := by
  have hsound := h.sound
  refine ⟨?_, fun _ hmem => hsound.committed_of_outside hmem, hsound.headers_scan visitor memory⟩
  rw [scan_eq hsound, scanRoots]
  cases visitAll (visitRoot visitor) ((tableRoots s.headers).takeWhile Root.inside) (s, memory) with
  | error violation state => rfl
  | ok _ state =>
    cases (tableRoots s.headers).find? fun root => !root.inside with
    | some root => rfl
    | none => rfl

/-- A function whose second record names a variable that its frames do not have. -/
def overdeclared : Function := .native "overdeclared" 1 ⟨[⟨0, 0, 0⟩, ⟨0, 0, 1⟩]⟩

/-- A function with two records for its first variable. -/
def overlapping : Function := .native "overlapping" 2 ⟨[⟨0, 0, 0⟩, ⟨0, 0, 0⟩, ⟨0, 0, 1⟩]⟩

/-- A call, and a second one on top of it that has one of two arguments. -/
def halfCalled : Program Unit :=
  .perform (.push ⟨.zero, overdeclared, .discard, none⟩ [.ofNat 5]) fun _ =>
  .perform (.reserve ⟨.zero, overlapping, .discard, none⟩ 2) fun _ =>
  .perform (.writeArguments 1 [.ofNat 3]) fun _ => .done ()

/-- A collector that notes each value with its record, and makes it greater by one. -/
def noting : Visitor (List (Value × Nat)) :=
  .ofMark fun index (value, noted) => .ok () (⟨value.word + 2⟩, noted ++ [(value, index)])

/--
The scan meets the written argument twice, then the variable below, and then the one that is not
there. The second visit of the argument meets what the first one made of it.
-/
theorem scan_of_reachable_halfCalled :
    ∃ s s' : Stack, s.Reachable ∧
      (tableRoots s.headers).map (fun root => (root.id, root.slot, root.index)) =
        [(1, 0, 0), (1, 0, 1), (0, 0, 0), (0, 1, 1)] ∧
      outcome (scan noting (s, [])) = (.error (.livenessOutsideFrame 1 "overdeclared" 1 1),
        s', [(.ofNat 3, 0), (.ofNat 4, 1), (.ofNat 5, 0)]) ∧
      s'.headers = s.headers ∧
      s.locals 1 = .ok [.ofNat 3, .zero] ∧ s'.locals 1 = .ok [.ofNat 5, .zero] ∧
      s.locals 0 = .ok [.ofNat 5] ∧ s'.locals 0 = .ok [.ofNat 6] := by
  have hfirst : create (some 512) = .ok { empty with cells := Array.replicate 64 .zero } := rfl
  have hreachable := reachable_final halfCalled hfirst
  obtain ⟨hscan, -, hheaders⟩ := scan_of_reachable hreachable noting []
  refine ⟨_, (outcome (scan noting (_, []))).2.1, hreachable, by decide +kernel, ?_, hheaders,
    by decide +kernel, ?_, by decide +kernel, ?_⟩
  all_goals
    rw [hscan]
    decide +kernel

end ManagedCore.Stack
