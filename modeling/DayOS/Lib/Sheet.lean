import Mathlib.Tactic

set_option autoImplicit false

/-! # Text laid out in rows

A text is written from left to right in rows of at most `w` characters. A line break ends the
row, and so does the `w`-th character in it. What is written stays where it is (`newRow_cell`,
`add_cell`), and a window of `h` rows, which ends with the row that is being written, moves down
with the text.
-/

/-- The finished rows, and the one that is being written. -/
structure Sheet (α : Type) where
  above : List (List α)
  row : List α

namespace Sheet

variable {α : Type}

def rows (s : Sheet α) : List (List α) := s.above ++ [s.row]

/-- The row is finished. -/
def newRow (s : Sheet α) : Sheet α := ⟨s.rows, []⟩

/-- One more character in the row. -/
def add (s : Sheet α) (c : α) : Sheet α := ⟨s.above, s.row ++ [c]⟩

/-- A character is written, and the row is finished if it is full. -/
def put (w : Nat) (s : Sheet α) (c : α) : Sheet α :=
  if (s.add c).row.length < w then s.add c else (s.add c).newRow

/-- A line break, or a character. -/
def feed [DecidableEq α] (nl : α) (w : Nat) (s : Sheet α) (c : α) : Sheet α :=
  if c = nl then s.newRow else s.put w c

/-- The text on an empty sheet. -/
def layOut [DecidableEq α] (nl : α) (w : Nat) (text : List α) : Sheet α :=
  text.foldl (feed nl w) ⟨[], []⟩

/-- The character in row `j` and column `k`, if one was written there. -/
def cell (s : Sheet α) (j k : Nat) : Option α := s.rows[j]?.bind (fun row => row[k]?)

/-- The first row of the window. -/
def top (h : Nat) (s : Sheet α) : Nat := s.rows.length - h

/-- What the window shows in its row `r` and column `k`. -/
def window (h : Nat) (s : Sheet α) (r k : Nat) : Option α := s.cell (s.top h + r) k

section
variable {s : Sheet α} {c : α} {h w j k : Nat}

@[simp] theorem rows_length : s.rows.length = s.above.length + 1 := by
  simp [rows]

@[simp] theorem newRow_above : s.newRow.above = s.rows := rfl

@[simp] theorem newRow_row : s.newRow.row = [] := rfl

@[simp] theorem add_above : (s.add c).above = s.above := rfl

@[simp] theorem add_row_length : (s.add c).row.length = s.row.length + 1 := by
  simp [add]

/-- An empty row shows nothing. -/
theorem newRow_cell : s.newRow.cell j k = s.cell j k := by
  unfold cell newRow
  rw [show (⟨s.rows, []⟩ : Sheet α).rows = s.rows ++ [[]] from rfl]
  rcases lt_trichotomy j s.rows.length with hlt | rfl | hgt
  · rw [List.getElem?_append_left hlt]
  · simp
  · rw [List.getElem?_eq_none (by rw [List.length_append]; simpa using hgt),
      List.getElem?_eq_none hgt.le]

theorem add_cell : (s.add c).cell j k =
    if j = s.above.length ∧ k = s.row.length then some c else s.cell j k := by
  unfold cell rows add
  rcases lt_trichotomy j s.above.length with hlt | rfl | hgt
  · rw [List.getElem?_append_left hlt, List.getElem?_append_left hlt,
      if_neg (fun he => hlt.ne he.1)]
  · simp only [List.getElem?_concat_length, Option.bind_some, true_and]
    by_cases hk : k = s.row.length
    · rw [if_pos hk, hk, List.getElem?_concat_length]
    · rw [if_neg hk]
      rcases lt_or_gt_of_ne hk with hlt | hgt
      · rw [List.getElem?_append_left hlt]
      · rw [List.getElem?_eq_none (by rw [List.length_append]; simpa using hgt),
          List.getElem?_eq_none hgt.le]
  · rw [List.getElem?_eq_none (by rw [List.length_append]; simpa using hgt),
      List.getElem?_eq_none (by rw [List.length_append]; simpa using hgt),
      if_neg (fun he => hgt.ne' he.1)]

/-- Behind the row that is being written there is nothing. -/
theorem cell_below (hj : s.above.length < j) : s.cell j k = none := by
  unfold cell
  rw [List.getElem?_eq_none (by rw [rows_length]; exact hj), Option.bind_none]

end

section
variable [DecidableEq α] {nl c : α} {w : Nat} {text : List α}

@[simp] theorem layOut_nil : layOut nl w [] = ⟨[], []⟩ := rfl

theorem layOut_snoc : layOut nl w (text ++ [c]) = (layOut nl w text).feed nl w c := by
  unfold layOut
  rw [List.foldl_append]
  rfl

/-- The row that is being written is not full. -/
theorem layOut_row_length (hw : 0 < w) : (layOut nl w text).row.length < w := by
  induction text using List.reverseRecOn with
  | nil => exact hw
  | append_singleton text c ih =>
      rw [layOut_snoc, feed]
      split
      case isTrue => exact hw
      case isFalse =>
          rw [put]
          split
          case isTrue hlt => exact hlt
          case isFalse => exact hw

end

end Sheet
