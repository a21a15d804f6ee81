import Mathlib.Tactic

set_option autoImplicit false

/-! # The console (`video.c`)

`kputch` writes into the text screen at `0xB8000`, 25 rows of 80 cells, each a character byte
and a colour byte, and moves the cursor. Indices of `buffer` and the cursor are `int`s, so both
can leave the screen on either side. A record of the stores goes along with the code.

The cursor stays on the screen as long as no backspace is printed in column 0
(`cursor_inside`).
-/

namespace DayOS

/-! ## The code -/

/-- The routines that store into video memory. -/
inductive Painter where
  | cls
  | scroll
  | kputch
  deriving DecidableEq

/-- The globals of `video.c`, the position in the cursor registers of the display, and the stores
into `buffer` so far. -/
structure Console where
  buffer : ℤ → UInt8
  color : UInt8
  x : ℤ
  y : ℤ
  cursor : ℤ
  stores : List (Painter × ℤ)

/-- `'\n'`. -/
def newline : UInt8 := 10

/-- `'\b'`. -/
def backspace : UInt8 := 8

namespace Console

/-- `buffer[i] = value`. -/
def store (con : Console) (painter : Painter) (i : ℤ) (value : UInt8) : Console :=
  { con with
    buffer := Function.update con.buffer i value
    stores := con.stores ++ [(painter, i)] }

/-- `UpdateCursor`. -/
def updateCursor (con : Console) : Console :=
  { con with cursor := (con.y * 80 + con.x) % 2 ^ 16 }

/-- The first loop of `scroll`, from `i` on and with `n` rounds to go. -/
def copyLoop (con : Console) (i : ℤ) : Nat → Console
  | 0 => con
  | n + 1 => copyLoop (con.store .scroll i (con.buffer (i + 160))) (i + 1) n

/-- The second loop of `scroll`. -/
def clearLoop (con : Console) (i : ℤ) : Nat → Console
  | 0 => con
  | n + 1 => clearLoop (con.store .scroll i 0) (i + 1) n

/-- `scroll`. -/
def scroll (con : Console) : Console :=
  if con.y > 24 then
    let con := copyLoop con 0 (2 * 27 * 80)
    -- the first loop leaves `i` behind the bound of the second one, which makes no round
    let con := clearLoop con (2 * 27 * 80) (2 * 25 * 80 - 2 * 27 * 80)
    { con with y := con.y - 1 }
  else con

/-- The loop of `cls`. -/
def clsLoop (con : Console) (i : ℤ) : Nat → Console
  | 0 => con
  | n + 1 =>
      let con := con.store .cls i 0
      clsLoop (con.store .cls (i + 1) con.color) (i + 2) n

/-- `cls`. -/
def cls (con : Console) : Console :=
  let con := clsLoop con 0 (25 * 80)
  updateCursor { con with x := 0, y := 0 }

/-- `kputch`. -/
def kputch (con : Console) (c : UInt8) : Console :=
  if c = newline then
    updateCursor (scroll { con with x := 0, y := con.y + 1 })
  else if c = backspace then
    let con := { con with x := con.x - 1 }
    updateCursor (con.store .kputch (2 * (con.y * 80 + con.x)) 0)
  else
    let con := con.store .kputch (2 * (con.y * 80 + con.x)) c
    let con := con.store .kputch (2 * (con.y * 80 + con.x) + 1) con.color
    let con := { con with x := con.x + 1 }
    let con := if con.x ≥ 80 then { con with x := 0, y := con.y + 1 } else con
    updateCursor (scroll con)

/-- The characters of a text, one after the other. -/
def putText (con : Console) (text : List UInt8) : Console := text.foldl kputch con

/-- `cls`, and then a text. The record of the stores starts with `cls`. -/
def printed (con : Console) (text : List UInt8) : Console :=
  putText (cls { con with stores := [] }) text

/-! ## The loops -/

section
variable {con : Console} {c : UInt8} {text : List UInt8} {n : Nat} {i j : ℤ}

@[simp] theorem store_buffer {painter : Painter} {value : UInt8} :
    (con.store painter i value).buffer = Function.update con.buffer i value := rfl

@[simp] theorem store_stores {painter : Painter} {value : UInt8} :
    (con.store painter i value).stores = con.stores ++ [(painter, i)] := rfl

/-- Copying upwards reads every byte before it is overwritten. -/
theorem copyLoop_eq : copyLoop con i n = { con with
    buffer := fun j => if i ≤ j ∧ j < i + n then con.buffer (j + 160) else con.buffer j
    stores := con.stores ++ (List.range n).map (fun k : ℕ => (Painter.scroll, i + (k : ℤ))) } := by
  induction n generalizing con i with
  | zero =>
      have hnone : ∀ j : ℤ, ¬ (i ≤ j ∧ j < i + (0 : ℕ)) := fun j => by omega
      simp only [copyLoop, hnone, if_false, List.range_zero, List.map_nil, List.append_nil]
  | succ n ih =>
      have hbuffer : (fun j => if i + 1 ≤ j ∧ j < i + 1 + n
            then (con.store .scroll i (con.buffer (i + 160))).buffer (j + 160)
            else (con.store .scroll i (con.buffer (i + 160))).buffer j)
          = fun j => if i ≤ j ∧ j < i + (n + 1 : ℕ) then con.buffer (j + 160) else con.buffer j := by
        funext j
        simp only [store_buffer, Function.update_apply]
        rcases lt_trichotomy j i with hlt | rfl | hgt
        · rw [if_neg (by omega), if_neg (by omega), if_neg (by omega)]
        · rw [if_neg (by omega), if_pos rfl, if_pos (by omega)]
        · by_cases hj : j < i + 1 + n
          · rw [if_pos (by omega), if_neg (by omega), if_pos (by omega)]
          · rw [if_neg (by omega), if_neg (by omega), if_neg (by omega)]
      have hstores : (con.store .scroll i (con.buffer (i + 160))).stores
            ++ (List.range n).map (fun k : ℕ => (Painter.scroll, i + 1 + (k : ℤ)))
          = con.stores
            ++ (List.range (n + 1)).map (fun k : ℕ => (Painter.scroll, i + (k : ℤ))) := by
        rw [store_stores, List.append_assoc, List.range_succ_eq_map, List.map_cons, List.map_map]
        refine congrArg (con.stores ++ ·) (congrArg₂ List.cons (by simp) ?_)
        refine List.map_congr_left (fun k _ => congrArg (Painter.scroll, ·) ?_)
        push_cast
        ring
      rw [copyLoop, ih, hbuffer, hstores]
      rfl

/-- What a scroll does: the rows move up by one, and so do the first two rows behind the
screen. -/
theorem scroll_eq (hy : con.y > 24) : scroll con = { con with
    buffer := fun j => if 0 ≤ j ∧ j < 4320 then con.buffer (j + 160) else con.buffer j
    y := con.y - 1
    stores := con.stores ++ (List.range 4320).map (fun k : ℕ => (Painter.scroll, (k : ℤ))) } := by
  rw [scroll, if_pos hy, copyLoop_eq]
  norm_num [clearLoop]

theorem scroll_of_le (hy : con.y ≤ 24) : scroll con = con := if_neg (by omega)

theorem scroll_x : (scroll con).x = con.x := by
  by_cases hy : con.y > 24
  · rw [scroll_eq hy]
  · rw [scroll_of_le (by omega)]

theorem scroll_y : (scroll con).y = if con.y > 24 then con.y - 1 else con.y := by
  by_cases hy : con.y > 24
  · rw [scroll_eq hy, if_pos hy]
  · rw [scroll_of_le (by omega), if_neg hy]

theorem scroll_buffer (hy : con.y > 24) : (scroll con).buffer j =
    if 0 ≤ j ∧ j < 4320 then con.buffer (j + 160) else con.buffer j := by
  rw [scroll_eq hy]

/-- A scroll stores to the screen and to two rows behind it. -/
theorem mem_scroll_stores (hy : con.y > 24) {p : Painter × ℤ} : p ∈ (scroll con).stores ↔
    p ∈ con.stores ∨ (p.1 = .scroll ∧ 0 ≤ p.2 ∧ p.2 < 4320) := by
  rw [scroll_eq hy, List.mem_append, List.mem_map]
  refine or_congr_right ⟨?_, fun ⟨hp, hlow, hhigh⟩ => ?_⟩
  · rintro ⟨k, hk, rfl⟩
    have hlt := List.mem_range.mp hk
    exact ⟨rfl, by simp only; omega, by simp only; omega⟩
  · refine ⟨p.2.toNat, List.mem_range.mpr (by omega), Prod.ext hp.symm ?_⟩
    exact Int.toNat_of_nonneg hlow

/-- The loop of `cls` stores to the bytes of its range only. -/
theorem clsLoop_eq : ∃ l : List (Painter × ℤ),
    (∀ p ∈ l, p.1 = .cls ∧ i ≤ p.2 ∧ p.2 < i + 2 * n) ∧
    clsLoop con i n = { con with
      buffer := fun j => if i ≤ j ∧ j < i + 2 * n then
        (if (j - i) % 2 = 0 then 0 else con.color) else con.buffer j
      stores := con.stores ++ l } := by
  induction n generalizing con i with
  | zero =>
      have hnone : ∀ j : ℤ, ¬ (i ≤ j ∧ j < i + 2 * (0 : ℕ)) := fun j => by omega
      refine ⟨[], by simp, ?_⟩
      simp only [clsLoop, hnone, if_false, List.append_nil]
  | succ n ih =>
      obtain ⟨l, hl, hloop⟩ :=
        @ih ((con.store .cls i 0).store .cls (i + 1) con.color) (i + 2)
      refine ⟨(.cls, i) :: (.cls, i + 1) :: l, ?_, ?_⟩
      · refine List.forall_mem_cons.mpr ⟨⟨rfl, by omega⟩,
          List.forall_mem_cons.mpr ⟨⟨rfl, by omega⟩, fun p hp => ?_⟩⟩
        obtain ⟨hcls, hlow, hhigh⟩ := hl p hp
        exact ⟨hcls, by omega⟩
      · have hbuffer : (fun j => if i + 2 ≤ j ∧ j < i + 2 + 2 * n then
              (if (j - (i + 2)) % 2 = 0 then 0 else con.color)
              else ((con.store .cls i 0).store .cls (i + 1) con.color).buffer j)
            = fun j => if i ≤ j ∧ j < i + 2 * (n + 1 : ℕ) then
              (if (j - i) % 2 = 0 then 0 else con.color) else con.buffer j := by
          funext j
          simp only [store_buffer, Function.update_apply]
          split_ifs <;> first | rfl | omega
        rw [clsLoop]
        refine hloop.trans ?_
        rw [show ((con.store .cls i 0).store .cls (i + 1) con.color).color = con.color from rfl,
          hbuffer, store_stores, store_stores, List.append_assoc, List.append_assoc]
        rfl

/-- What `cls` leaves behind: blank cells in the current colour, and the cursor in front of the
first one. -/
theorem cls_eq (con : Console) : ∃ l : List (Painter × ℤ),
    (∀ p ∈ l, p.1 = .cls ∧ 0 ≤ p.2 ∧ p.2 < 4000) ∧
    cls con = { con with
      buffer := fun j => if 0 ≤ j ∧ j < 4000 then
        (if j % 2 = 0 then 0 else con.color) else con.buffer j
      x := 0
      y := 0
      cursor := 0
      stores := con.stores ++ l } := by
  obtain ⟨l, hl, hloop⟩ := @clsLoop_eq con (25 * 80) 0
  refine ⟨l, fun p hp => ?_, ?_⟩
  · obtain ⟨hcls, hlow, hhigh⟩ := hl p hp
    exact ⟨hcls, hlow, by simpa using hhigh⟩
  · unfold cls
    rw [hloop]
    simp [updateCursor]

/-! ## The cursor -/

/-- The cursor is on the screen, and so is every byte that `kputch` has stored to. -/
structure OnScreen (con : Console) : Prop where
  x : 0 ≤ con.x ∧ con.x < 80
  y : 0 ≤ con.y ∧ con.y < 25
  stores : ∀ i, (.kputch, i) ∈ con.stores → 0 ≤ i ∧ i < 2 * 25 * 80

/-- The column behind a character that is printed in column `k`. -/
def nextColumn (k : Nat) (c : UInt8) : Nat :=
  if c = newline then 0
  else if c = backspace then k - 1
  else if k + 1 = 80 then 0
  else k + 1

/-- The column behind a text. -/
def column (text : List UInt8) : Nat := text.foldl nextColumn 0

theorem column_snoc : column (text ++ [c]) = nextColumn (column text) c := by
  unfold column
  rw [List.foldl_append]
  rfl

theorem printed_snoc : printed con (text ++ [c]) = kputch (printed con text) c := by
  unfold printed putText
  rw [List.foldl_append]
  rfl

@[simp] theorem updateCursor_x : (updateCursor con).x = con.x := rfl

@[simp] theorem updateCursor_y : (updateCursor con).y = con.y := rfl

@[simp] theorem updateCursor_stores : (updateCursor con).stores = con.stores := rfl

/-- A scroll adds no store of `kputch`. -/
theorem scroll_stores : (.kputch, i) ∈ (scroll con).stores ↔ (.kputch, i) ∈ con.stores := by
  by_cases hy : con.y > 24
  · rw [mem_scroll_stores hy]
    simp
  · rw [scroll_of_le (by omega)]

/-- The cursor at the start of the row below. -/
def nextRow (con : Console) : Console := { con with x := 0, y := con.y + 1 }

/-- A character and its colour in the cell of the cursor, and the cursor behind it. -/
def putCell (con : Console) (c : UInt8) : Console :=
  let con' := (con.store .kputch (2 * (con.y * 80 + con.x)) c).store .kputch
    (2 * (con.y * 80 + con.x) + 1) con.color
  { con' with x := con.x + 1 }

theorem kputch_newline : kputch con newline = updateCursor (scroll (nextRow con)) := rfl

theorem kputch_char (hnl : c ≠ newline) (hbs : c ≠ backspace) :
    kputch con c = updateCursor (scroll
      (if con.x + 1 < 80 then putCell con c else nextRow (putCell con c))) := by
  unfold kputch
  rw [if_neg hnl, if_neg hbs]
  show updateCursor (scroll (if con.x + 1 ≥ 80 then nextRow (putCell con c) else putCell con c)) = _
  by_cases hx : con.x + 1 < 80
  · rw [if_neg (by omega), if_pos hx]
  · rw [if_pos (by omega), if_neg hx]

theorem OnScreen.updateCursor (h : OnScreen con) : OnScreen (updateCursor con) :=
  ⟨h.x, h.y, h.stores⟩

/-- From the row below the screen a scroll leads back. -/
theorem onScreen_scroll (hx : 0 ≤ con.x ∧ con.x < 80) (hy : 0 ≤ con.y ∧ con.y ≤ 25)
    (hstores : ∀ i, (.kputch, i) ∈ con.stores → 0 ≤ i ∧ i < 2 * 25 * 80) :
    OnScreen (scroll con) := by
  refine ⟨by rwa [scroll_x], ?_, fun i hi => hstores i (scroll_stores.mp hi)⟩
  rw [scroll_y]
  split <;> omega

theorem OnScreen.nextRow (h : OnScreen con) : OnScreen (scroll (nextRow con)) := by
  have hy := h.y
  refine onScreen_scroll ⟨le_rfl, by norm_num [Console.nextRow]⟩ ?_ h.stores
  show 0 ≤ con.y + 1 ∧ con.y + 1 ≤ 25
  omega

/-- The two stores for a character go to the cell of the cursor. -/
theorem OnScreen.putCell_stores (h : OnScreen con) (hi : (.kputch, i) ∈ (putCell con c).stores) :
    0 ≤ i ∧ i < 2 * 25 * 80 := by
  obtain ⟨hx, hy, hstores⟩ := h
  rcases List.mem_append.mp hi with hi | hi
  · rcases List.mem_append.mp hi with hi | hi
    · exact hstores i hi
    · obtain rfl : i = 2 * (con.y * 80 + con.x) := by simpa using hi
      omega
  · obtain rfl : i = 2 * (con.y * 80 + con.x) + 1 := by simpa using hi
    omega

/-- One character. -/
theorem OnScreen.kputch (h : OnScreen con) (hc : c = backspace → 0 < con.x) :
    OnScreen (kputch con c) := by
  have hx := h.x
  have hy := h.y
  by_cases hnl : c = newline
  · rw [hnl, kputch_newline]
    exact h.nextRow.updateCursor
  by_cases hbs : c = backspace
  · have hpos := hc hbs
    rw [hbs]
    refine OnScreen.updateCursor ⟨?_, hy, fun i hi => ?_⟩
    · show 0 ≤ con.x - 1 ∧ con.x - 1 < 80
      omega
    · rcases List.mem_append.mp hi with hi | hi
      · exact h.stores i hi
      · obtain rfl : i = 2 * (con.y * 80 + (con.x - 1)) := by simpa using hi
        omega
  rw [kputch_char hnl hbs]
  refine OnScreen.updateCursor ?_
  by_cases hfit : con.x + 1 < 80
  · rw [if_pos hfit]
    exact onScreen_scroll ⟨by show 0 ≤ con.x + 1; omega, hfit⟩
      ⟨hy.1, by show con.y ≤ 25; omega⟩ (fun i => h.putCell_stores)
  · rw [if_neg hfit]
    refine onScreen_scroll ⟨le_rfl, by norm_num [Console.nextRow]⟩ ?_ (fun i => h.putCell_stores)
    show 0 ≤ con.y + 1 ∧ con.y + 1 ≤ 25
    omega

/-- The column moves as it should, but for a backspace in column 0. -/
theorem kputch_x {k : Nat} (hx : con.x = k) (hk : k < 80) (hc : c = backspace → 0 < k) :
    (kputch con c).x = nextColumn k c := by
  unfold nextColumn
  by_cases hnl : c = newline
  · rw [if_pos hnl, hnl, kputch_newline, updateCursor_x, scroll_x]
    rfl
  rw [if_neg hnl]
  by_cases hbs : c = backspace
  · have hpos := hc hbs
    rw [if_pos hbs, hbs]
    show con.x - 1 = _
    omega
  rw [if_neg hbs, kputch_char hnl hbs, updateCursor_x, scroll_x]
  by_cases hfit : con.x + 1 < 80
  · rw [if_pos hfit, if_neg (by omega)]
    show con.x + 1 = _
    omega
  · rw [if_neg hfit, if_pos (by omega)]
    rfl

theorem onScreen_printed_nil (con : Console) : OnScreen (printed con []) := by
  obtain ⟨l, hl, hcls⟩ := cls_eq { con with stores := [] }
  rw [printed, putText, List.foldl_nil, hcls]
  refine ⟨by norm_num, by norm_num, fun i hi => ?_⟩
  obtain ⟨hp, -⟩ := hl _ (by simpa using hi)
  cases hp

/-- Where no backspace is printed in column 0, the cursor stays on the screen. -/
theorem onScreen_printed (con : Console)
    (hbs : ∀ p, p ++ [backspace] <+: text → 0 < column p) :
    OnScreen (printed con text) ∧ (printed con text).x = column text := by
  induction text using List.reverseRecOn with
  | nil =>
      obtain ⟨l, -, hcls⟩ := cls_eq { con with stores := [] }
      refine ⟨onScreen_printed_nil con, ?_⟩
      rw [printed, putText, List.foldl_nil, hcls]
      rfl
  | append_singleton text c ih =>
      obtain ⟨hon, hx⟩ := ih (fun p hp => hbs p (hp.trans (List.prefix_append _ _)))
      have hlt := hon.x.2
      have hc : c = backspace → 0 < column text := by
        rintro rfl
        exact hbs text (List.prefix_refl _)
      rw [printed_snoc, column_snoc]
      refine ⟨hon.kputch (fun he => ?_), kputch_x hx (by omega) hc⟩
      have := hc he
      omega

/-- **The cursor.** Whatever is printed behind `cls`, the cursor and the stores of `kputch` stay
on the screen at every character if and only if no backspace is printed in column 0. -/
theorem cursor_inside (con : Console) (text : List UInt8) :
    (∀ p, p <+: text → OnScreen (printed con p)) ↔
      ∀ p, p ++ [backspace] <+: text → 0 < column p := by
  constructor
  · intro h p hp
    -- the first backspace in column 0 puts the cursor in front of the row
    induction hlen : p.length using Nat.strong_induction_on generalizing p with
    | _ n ih =>
        have hfirst : ∀ q, q ++ [backspace] <+: p → 0 < column q := by
          intro q hq
          have hlt := hq.length_le
          rw [List.length_append, List.length_singleton] at hlt
          exact ih q.length (by omega) q (hq.trans ((List.prefix_append _ _).trans hp)) rfl
        obtain ⟨-, hx⟩ := onScreen_printed con hfirst
        have hon := (h _ hp).x.1
        rw [printed_snoc] at hon
        have hback : (Console.kputch (printed con p) backspace).x = (printed con p).x - 1 := rfl
        omega
  · intro h p hp
    exact (onScreen_printed con (fun q hq => h q (hq.trans hp))).1

end

/-- A backspace behind `cls` puts the cursor in column -1, and a zero in front of the screen. -/
theorem cursor_inside_fails :
    let con := printed ⟨fun _ => 0, 15, 0, 0, 0, []⟩ [backspace]
    con.x = -1 ∧ (.kputch, -2) ∈ con.stores ∧
    ¬ ∀ p, p <+: [backspace] → OnScreen (printed ⟨fun _ => 0, 15, 0, 0, 0, []⟩ p) := by
  obtain ⟨l, -, hcls⟩ := cls_eq ⟨fun _ => 0, 15, 0, 0, 0, []⟩
  have hrun : printed ⟨fun _ => 0, 15, 0, 0, 0, []⟩ [backspace]
      = kputch (cls ⟨fun _ => 0, 15, 0, 0, 0, []⟩) backspace := rfl
  have hx : (printed ⟨fun _ => 0, 15, 0, 0, 0, []⟩ [backspace]).x = -1 := by
    rw [hrun, hcls]
    rfl
  refine ⟨hx, ?_, fun h => ?_⟩
  · rw [hrun, hcls]
    simp [kputch, updateCursor, newline, backspace]
  · have hlow := (h [backspace] (List.prefix_refl _)).x.1
    rw [hx] at hlow
    exact absurd hlow (by decide)

end Console

end DayOS
