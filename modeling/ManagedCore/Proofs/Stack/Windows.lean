import ManagedCore.Stack.Arena

/-!
# Windows of the arena

Seen through a window, the operations of the arena are operations of lists: what is written inside
the window replaces entries of its list, and what is written outside is not seen.
-/

namespace ManagedCore

/-- A list with `values` in the place of its entries from `offset` on. -/
def splice {α : Type} (entries : List α) (offset : Nat) (values : List α) : List α :=
  entries.take offset ++ values ++ entries.drop (offset + values.length)

/-- Splicing keeps the number of entries. -/
theorem length_splice {α : Type} {entries : List α} {offset : Nat} {values : List α}
    (h : offset + values.length ≤ entries.length) :
    (splice entries offset values).length = entries.length := by
  simp only [splice, List.length_append, List.length_take, List.length_drop]
  omega

/-- Splicing replaces as many entries as there are values. -/
theorem getElem?_splice {α : Type} {entries : List α} {offset : Nat} {values : List α}
    (h : offset + values.length ≤ entries.length) (i : Nat) :
    (splice entries offset values)[i]? =
      if offset ≤ i ∧ i < offset + values.length then values[i - offset]? else entries[i]? := by
  have htake : (entries.take offset).length = offset := by
    rw [List.length_take]
    omega
  rw [splice]
  by_cases hlow : i < offset
  · rw [if_neg (by omega), List.append_assoc, List.getElem?_append_left (by omega),
      List.getElem?_take, if_pos hlow]
  · by_cases hin : i < offset + values.length
    · rw [if_pos (by omega), List.append_assoc, List.getElem?_append_right (by omega), htake,
        List.getElem?_append_left (by omega)]
    · rw [if_neg (by omega), List.getElem?_append_right (by simp only [List.length_append]; omega),
        List.length_append, htake, List.getElem?_drop]
      congr 1
      omega

namespace Arena

/-- A window inside the arena shows all its cells. -/
theorem length_window {cells : Arena} {start count : Nat} (h : start + count ≤ cells.size) :
    (cells.window start count).length = count := by
  rw [window, Array.length_toList, Array.size_extract]
  omega

/-- Arenas that agree on the cells of a window show the same through it. -/
theorem window_congr {cells cells' : Arena} {start count : Nat}
    (h : ∀ i, start ≤ i → i < start + count → cells'[i]? = cells[i]?) :
    cells'.window start count = cells.window start count := by
  apply List.ext_getElem?
  intro i
  rw [getElem?_window, getElem?_window]
  split
  next hi => exact h (start + i) (by omega) (by omega)
  next => rfl

/-- Values written inside a window are spliced into its list. -/
theorem window_write {cells : Arena} {start count offset : Nat} {values : List Value}
    (hvalues : offset + values.length ≤ count) (hcells : start + count ≤ cells.size) :
    (cells.write (start + offset) values).window start count =
      splice (cells.window start count) offset values := by
  apply List.ext_getElem?
  intro i
  rw [getElem?_window, getElem?_write, getElem?_splice (by rwa [length_window hcells]),
    getElem?_window]
  by_cases hin : offset ≤ i ∧ i < offset + values.length
  · rw [if_pos (by omega), if_pos (by omega), if_pos hin]
    congr 1
    omega
  · rw [if_neg hin]
    split
    · rw [if_neg (by omega)]
    · rfl

/-- A window that is filled shows the one value everywhere. -/
theorem window_fill {cells : Arena} {start count : Nat} {value : Value}
    (h : start + count ≤ cells.size) :
    (cells.fill start value count).window start count = List.replicate count value := by
  apply List.ext_getElem?
  intro i
  rw [getElem?_window, getElem?_fill, List.getElem?_replicate]
  split
  · rw [if_pos (by omega)]
  · rfl

/-- A cell of a window is an entry of its list. -/
theorem window_set {cells : Arena} {start count i : Nat} {value : Value} (hi : i < count)
    (hcells : start + count ≤ cells.size) :
    Arena.window (cells.setIfInBounds (start + i) value) start count =
      (cells.window start count).set i value := by
  apply List.ext_getElem?
  intro j
  rw [getElem?_window, Array.getElem?_setIfInBounds, List.getElem?_set, length_window hcells,
    getElem?_window]
  by_cases hij : i = j
  · subst hij
    rw [if_pos hi, if_pos rfl, if_pos rfl, if_pos hi, if_pos (by omega)]
  · rw [if_neg hij, if_neg (by omega : ¬start + i = start + j)]

end Arena

end ManagedCore
