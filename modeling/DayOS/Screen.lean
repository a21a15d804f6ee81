import DayOS.Console
import DayOS.Lib.Sheet

set_option autoImplicit false

/-! # What the screen shows (`video.c`)

The text printed behind `cls` is a sheet of rows of 80 characters, and the screen should be a
window of 25 rows on it. `scroll` copies 27 rows instead of 24 and never clears one: the row it
opens shows what lay behind the screen (`printed_shows`), and it stores behind the screen each
time. So the screen is the window as long as the text does not scroll (`screen_shows`).
-/

namespace DayOS.Console

/-- A text, laid out for the screen. -/
def sheet (text : List UInt8) : Sheet UInt8 := Sheet.layOut newline 80 text

/-- The character in row `r` and column `k` of the screen, or behind it. -/
def cellByte (con : Console) (r k : Nat) : UInt8 := con.buffer (2 * (r * 80 + k))

/-- The screen is the window on the last 25 rows of the text, blank where nothing is written, and
every store was to the screen. -/
structure ShowsText (con : Console) (text : List UInt8) : Prop where
  cells : ∀ r < 25, ∀ k < 80, con.cellByte r k = ((sheet text).window 25 r k).getD 0
  inside : ∀ p ∈ con.stores, 0 ≤ p.2 ∧ p.2 < 2 * 25 * 80

/-- What the cells of row `j` of the text show where nothing is written, for video memory as it
was in `con₀`. The rows from the 25th on are opened by a scroll. -/
def background (con₀ : Console) (j k : Nat) : UInt8 :=
  if j < 25 then 0 else con₀.cellByte (min j 27) k

/-- The state of the console with the sheet `s`: it started with `cls` on `con₀`. -/
structure Shows (con₀ con : Console) (s : Sheet UInt8) : Prop where
  x : con.x = s.row.length
  y : con.y = (min s.above.length 24 : ℕ)
  cells : ∀ r < 25, ∀ k < 80,
    con.cellByte r k = (s.window 25 r k).getD (background con₀ (s.top 25 + r) k)
  /-- The two rows behind the screen, which a scroll moves up. -/
  behind : ∀ i : ℤ, 0 ≤ i → i < 160 →
    con.buffer (4000 + i) = con₀.buffer (4000 + 160 * (min (s.top 25) 2 : ℕ) + i) ∧
    con.buffer (4160 + i) = con₀.buffer (4160 + 160 * (min (s.top 25) 1 : ℕ) + i)
  rest : ∀ i : ℤ, 4320 ≤ i → con.buffer i = con₀.buffer i
  stores : (∀ p ∈ con.stores, 0 ≤ p.2 ∧ p.2 < 2 * 25 * 80) ↔ s.above.length ≤ 24

section
variable {con₀ con : Console} {s : Sheet UInt8} {c : UInt8} {text : List UInt8}

theorem top_eq : s.top 25 = s.above.length - 24 := by
  unfold Sheet.top
  rw [Sheet.rows_length]
  omega

theorem Shows.updateCursor (h : Shows con₀ con s) : Shows con₀ (updateCursor con) s :=
  ⟨h.x, h.y, h.cells, h.behind, h.rest, h.stores⟩

/-- A character goes to the cell of the cursor. -/
theorem Shows.putCell (h : Shows con₀ con s) (hrow : s.row.length < 80) :
    Shows con₀ (putCell con c) (s.add c) := by
  have htop : (s.add c).top 25 = s.top 25 := by
    rw [top_eq, top_eq, Sheet.add_above]
  have hx := h.x
  have hy := h.y
  have hbuffer : ∀ i, i ≠ 2 * (con.y * 80 + con.x) → i ≠ 2 * (con.y * 80 + con.x) + 1 →
      (Console.putCell con c).buffer i = con.buffer i := by
    intro i hi hi'
    show Function.update (Function.update con.buffer _ c) _ con.color i = _
    rw [Function.update_of_ne hi', Function.update_of_ne hi]
  refine ⟨?_, hy, fun r hr k hk => ?_, fun i hi hi' => ?_, fun i hi => ?_, ?_⟩
  · show con.x + 1 = _
    rw [Sheet.add_row_length, hx]
    rfl
  · rw [Sheet.window, htop, Sheet.add_cell]
    by_cases hcell : s.top 25 + r = s.above.length ∧ k = s.row.length
    · rw [if_pos hcell, Option.getD_some]
      rw [top_eq] at hcell
      have hi : (2 * ((r : ℤ) * 80 + k)) = 2 * (con.y * 80 + con.x) := by omega
      show Function.update (Function.update con.buffer _ c) _ con.color (2 * ((r : ℤ) * 80 + k)) = _
      rw [hi, Function.update_of_ne (by omega), Function.update_self]
    · rw [if_neg hcell]
      rw [top_eq] at hcell
      refine Eq.trans ?_ (h.cells r hr k hk)
      exact hbuffer _ (by omega) (by omega)
  · rw [htop, hbuffer _ (by omega) (by omega), hbuffer _ (by omega) (by omega)]
    exact h.behind i hi hi'
  · rw [hbuffer _ (by omega) (by omega)]
    exact h.rest i hi
  · rw [Sheet.add_above, ← h.stores]
    constructor
    · intro hall p hp
      exact hall p (List.mem_append_left _ (List.mem_append_left _ hp))
    · intro hall p hp
      rcases List.mem_append.mp hp with hp | hp
      · rcases List.mem_append.mp hp with hp | hp
        · exact hall p hp
        · rw [List.mem_singleton.mp hp]
          exact ⟨by simp only; omega, by simp only; omega⟩
      · rw [List.mem_singleton.mp hp]
        exact ⟨by simp only; omega, by simp only; omega⟩

/-- A new row, at the bottom of the screen with a scroll. -/
theorem Shows.newRow (h : Shows con₀ con s) : Shows con₀ (scroll (nextRow con)) s.newRow := by
  have hy := h.y
  have hrow : (nextRow con).y = con.y + 1 := rfl
  have habove : s.newRow.above.length = s.above.length + 1 := by
    rw [Sheet.newRow_above, Sheet.rows_length]
  by_cases hlast : s.above.length < 24
  · -- there is a row below
    have htop : s.newRow.top 25 = s.top 25 := by
      rw [top_eq, top_eq, habove]
      omega
    rw [scroll_of_le (by omega)]
    refine ⟨rfl, ?_, fun r hr k hk => ?_, ?_, h.rest, ?_⟩
    · rw [hrow, habove]
      omega
    · rw [Sheet.window, htop, Sheet.newRow_cell]
      exact h.cells r hr k hk
    · rw [htop]
      exact h.behind
    · rw [habove]
      exact h.stores.trans (by omega)
  · have htop : s.newRow.top 25 = s.top 25 + 1 := by
      rw [top_eq, top_eq, habove]
      omega
    have htop' := top_eq (s := s)
    have hbelow : (nextRow con).y > 24 := by omega
    refine ⟨scroll_x, ?_, fun r hr k hk => ?_, fun i hi hi' => ?_, fun i hi => ?_, ?_⟩
    · rw [scroll_y, if_pos hbelow, hrow, habove]
      omega
    · rw [cellByte, scroll_buffer hbelow, if_pos (by omega), Sheet.window, htop, Sheet.newRow_cell]
      by_cases hr' : r < 24
      · -- a row of the screen moves up
        have hcell := h.cells (r + 1) (by omega) k hk
        rw [Sheet.window] at hcell
        rw [show s.top 25 + 1 + r = s.top 25 + (r + 1) by omega, ← hcell]
        show con.buffer _ = con.buffer (2 * (((r + 1 : ℕ) : ℤ) * 80 + k))
        congr 1
        push_cast
        ring
      · -- the first row behind the screen comes in
        obtain ⟨hfirst, -⟩ := h.behind (2 * k) (by omega) (by omega)
        have hnone : s.cell (s.top 25 + 1 + r) k = none := Sheet.cell_below (by omega)
        have hrow' : min (s.top 25 + 1 + r) 27 = 25 + min (s.top 25) 2 := by omega
        rw [hnone, Option.getD_none, background, if_neg (by omega), hrow', cellByte]
        rw [show (2 * ((r : ℤ) * 80 + k) + 160 : ℤ) = 4000 + 2 * k by omega]
        show con.buffer _ = _
        rw [hfirst]
        congr 1
        push_cast
        ring
    · rw [htop, scroll_buffer hbelow, scroll_buffer hbelow, if_pos (by omega), if_pos (by omega)]
      constructor
      · obtain ⟨-, hsecond⟩ := h.behind i hi hi'
        rw [show (4000 + i + 160 : ℤ) = 4160 + i by ring]
        refine hsecond.trans (congrArg con₀.buffer ?_)
        omega
      · refine (h.rest _ (by omega)).trans (congrArg con₀.buffer ?_)
        omega
    · rw [scroll_buffer hbelow, if_neg (by omega)]
      exact h.rest i hi
    · constructor
      · intro hall
        obtain ⟨-, hlt⟩ := hall (.scroll, 4000) ((mem_scroll_stores hbelow).mpr
          (Or.inr ⟨rfl, by decide, by decide⟩))
        exact absurd hlt (by decide)
      · intro hle
        omega

theorem sheet_snoc : sheet (text ++ [c]) =
    if c = newline then (sheet text).newRow else (sheet text).put 80 c := Sheet.layOut_snoc

theorem shows_cls (con₀ : Console) : Shows con₀ (printed con₀ []) (sheet []) := by
  obtain ⟨l, hl, hcls⟩ := cls_eq { con₀ with stores := [] }
  have htop : (sheet []).top 25 = 0 := rfl
  rw [printed, putText, List.foldl_nil, hcls]
  refine ⟨rfl, rfl, fun r hr k hk => ?_, fun i hi hi' => ?_, fun i hi => ?_, ?_⟩
  · have hnone : (sheet []).window 25 r k = none := by
      rcases Nat.eq_zero_or_pos r with rfl | hpos
      · rfl
      · exact Sheet.cell_below (by rw [htop, Nat.zero_add]; exact hpos)
    rw [hnone, Option.getD_none, background, if_pos (by omega)]
    unfold cellByte
    simp only
    rw [if_pos (by omega), if_pos (by omega)]
  · rw [htop, Nat.zero_min, Nat.zero_min, Nat.cast_zero, mul_zero, add_zero, add_zero]
    exact ⟨if_neg (by omega), if_neg (by omega)⟩
  · simp only
    rw [if_neg (by omega)]
  · exact ⟨fun _ => Nat.zero_le _, fun _ p hp => (hl p hp).2⟩

/-- **What is on the screen.** Every cell shows the character that the text has there, and where
there is none, the background that `cls` and the scrolls have made. -/
theorem printed_shows (con₀ : Console) (hb : backspace ∉ text) :
    Shows con₀ (printed con₀ text) (sheet text) := by
  induction text using List.reverseRecOn with
  | nil => exact shows_cls con₀
  | append_singleton text c ih =>
      rw [List.mem_append, not_or, List.mem_singleton] at hb
      have h := ih hb.1
      have hrow : (sheet text).row.length < 80 := Sheet.layOut_row_length (by decide)
      rw [printed_snoc, sheet_snoc]
      by_cases hnl : c = newline
      · rw [if_pos hnl, hnl, kputch_newline]
        exact h.newRow.updateCursor
      rw [if_neg hnl, kputch_char hnl (Ne.symm hb.2), Sheet.put, Sheet.add_row_length, h.x]
      have hput := h.putCell (c := c) hrow
      by_cases hfit : (sheet text).row.length + 1 < 80
      · -- the row has room for more
        rw [if_pos hfit, if_pos (by omega)]
        have hy := hput.y
        rw [scroll_of_le (by omega)]
        exact hput.updateCursor
      · rw [if_neg hfit, if_neg (by omega)]
        exact hput.newRow.updateCursor

/-- With nothing behind the screen, the cells are right for texts of any length. -/
theorem printed_cells (con₀ : Console) (hb : backspace ∉ text)
    (hblank : ∀ r k, 25 ≤ r → r < 28 → k < 80 → con₀.cellByte r k = 0) {r k : Nat} (hr : r < 25)
    (hk : k < 80) : (printed con₀ text).cellByte r k = ((sheet text).window 25 r k).getD 0 := by
  rw [(printed_shows con₀ hb).cells r hr k hk]
  congr 1
  unfold background
  split
  case isTrue => rfl
  case isFalse => exact hblank _ k (by omega) (by omega) hk

/-- **The terminal.** A text without backspace leaves the window on its last 25 rows on the
screen, without a store to anywhere else, if and only if it has at most 25 rows. -/
theorem screen_shows (con : Console) (hb : backspace ∉ text) :
    ShowsText (printed con text) text ↔ (sheet text).rows.length ≤ 25 := by
  have h := printed_shows con hb
  rw [Sheet.rows_length]
  constructor
  · intro hshows
    have := h.stores.mp hshows.inside
    omega
  · intro hrows
    refine ⟨fun r hr k hk => ?_, h.stores.mpr (by omega)⟩
    have hcell := h.cells r hr k hk
    rwa [background, top_eq, if_pos (by omega)] at hcell

end

/-- Two rows fit. -/
theorem screen_shows_short : ShowsText (printed ⟨fun _ => 88, 15, 0, 0, 0, []⟩ [97, newline, 98])
    [97, newline, 98] :=
  (screen_shows _ (by decide)).mpr (by decide)

/-- With an `X` behind the screen, the row that the 25th line break opens starts with it. -/
theorem screen_shows_fails : backspace ∉ List.replicate 25 newline ∧
    (printed ⟨fun _ => 88, 15, 0, 0, 0, []⟩ (List.replicate 25 newline)).cellByte 24 0 = 88 ∧
    ¬ ShowsText (printed ⟨fun _ => 88, 15, 0, 0, 0, []⟩ (List.replicate 25 newline))
      (List.replicate 25 newline) := by
  have hb : backspace ∉ List.replicate 25 newline := by decide
  have hcell : (printed ⟨fun _ => 88, 15, 0, 0, 0, []⟩ (List.replicate 25 newline)).cellByte 24 0
      = 88 := by
    rw [(printed_shows _ hb).cells 24 (by decide) 0 (by decide)]
    decide
  refine ⟨hb, hcell, fun h => ?_⟩
  have hblank := h.cells 24 (by decide) 0 (by decide)
  rw [hcell] at hblank
  exact absurd hblank (by decide)

end DayOS.Console
