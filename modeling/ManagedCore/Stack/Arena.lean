import ManagedCore.Value

/-!
# The arena

A stack's variables live in one array of cells. An operation works on a window of it, the `count`
cells from `start` on, and never moves or resizes the rest.
-/

namespace ManagedCore

/-- The cells of one stack. -/
abbrev Arena := Array Value

namespace Arena

/-- The contents of a window. -/
def window (cells : Arena) (start count : Nat) : List Value :=
  (cells.extract start (start + count)).toList

/-- Every cell of a window set to one value. -/
def fill (cells : Arena) (start : Nat) (value : Value) : Nat → Arena
  | 0 => cells
  | count + 1 => fill (cells.setIfInBounds start value) (start + 1) value count

/-- Values written one after another from `start` on. -/
def write (cells : Arena) (start : Nat) : List Value → Arena
  | [] => cells
  | value :: rest => write (cells.setIfInBounds start value) (start + 1) rest

/-- A window shows its cells in order, and nothing beyond its end. -/
theorem getElem?_window (cells : Arena) (start count i : Nat) :
    (cells.window start count)[i]? = if i < count then cells[start + i]? else none := by
  rw [window, Array.getElem?_toList, Array.getElem?_extract]
  by_cases h : i < min (start + count) cells.size - start
  · rw [if_pos h, if_pos (by omega)]
  · rw [if_neg h]
    by_cases hc : i < count
    · rw [if_pos hc, Array.getElem?_eq_none (by omega)]
    · rw [if_neg hc]

/-- Filling does not resize the arena. -/
@[simp] theorem size_fill (cells : Arena) (start : Nat) (value : Value) (count : Nat) :
    (cells.fill start value count).size = cells.size := by
  induction count generalizing cells start with
  | zero => rfl
  | succ count ih => rw [fill, ih, Array.size_setIfInBounds]

/-- Writing does not resize the arena. -/
@[simp] theorem size_write (cells : Arena) (start : Nat) (values : List Value) :
    (cells.write start values).size = cells.size := by
  induction values generalizing cells start with
  | nil => rfl
  | cons value rest ih => rw [write, ih, Array.size_setIfInBounds]

/-- Filling changes exactly the cells of the window. -/
theorem getElem?_fill (cells : Arena) (start : Nat) (value : Value) (count i : Nat) :
    (cells.fill start value count)[i]? =
      if start ≤ i ∧ i < start + count ∧ i < cells.size then some value else cells[i]? := by
  induction count generalizing cells start with
  | zero => rw [fill, if_neg (by omega)]
  | succ count ih =>
    rw [fill, ih, Array.getElem?_setIfInBounds, Array.size_setIfInBounds]
    by_cases h : start = i
    · subst h
      by_cases hs : start < cells.size
      · rw [if_neg (by omega), if_pos rfl, if_pos hs, if_pos (by omega)]
      · rw [if_neg (by omega), if_pos rfl, if_neg hs, if_neg (by omega),
          Array.getElem?_eq_none (by omega)]
    · rw [if_neg h]
      by_cases hi : start + 1 ≤ i ∧ i < start + 1 + count ∧ i < cells.size
      · rw [if_pos hi, if_pos (by omega)]
      · rw [if_neg hi, if_neg (by omega)]

/-- Writing changes exactly as many cells as there are values. -/
theorem getElem?_write (cells : Arena) (start : Nat) (values : List Value) (i : Nat) :
    (cells.write start values)[i]? =
      if start ≤ i ∧ i < start + values.length ∧ i < cells.size then values[i - start]?
      else cells[i]? := by
  induction values generalizing cells start with
  | nil => rw [write, if_neg (by simp only [List.length_nil]; omega)]
  | cons value rest ih =>
    rw [write, ih, Array.getElem?_setIfInBounds, Array.size_setIfInBounds, List.length_cons]
    by_cases h : start = i
    · subst h
      by_cases hs : start < cells.size
      · rw [if_neg (by omega), if_pos rfl, if_pos hs, if_pos (by omega), Nat.sub_self,
          List.getElem?_cons_zero]
      · rw [if_neg (by omega), if_pos rfl, if_neg hs, if_neg (by omega),
          Array.getElem?_eq_none (by omega)]
    · rw [if_neg h]
      by_cases hi : start + 1 ≤ i ∧ i < start + 1 + rest.length ∧ i < cells.size
      · rw [if_pos hi, if_pos (by omega), show i - start = i - (start + 1) + 1 by omega,
          List.getElem?_cons_succ]
      · rw [if_neg hi, if_neg (by omega)]

end Arena

end ManagedCore
