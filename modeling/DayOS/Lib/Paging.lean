import DayOS.Lib.Memory

set_option autoImplicit false

/-! # Two-level page tables

A directory and its tables are 1024 words each. Bit 0 of a word says that it is in use, and
the upper 20 bits are the address of a table or of a frame. `pte` is the word that the walk
from a directory ends at, `translate` the physical address behind a virtual one.

A walk reads two words (`pte_congr`), so a store elsewhere leaves it as it was, and a store
of a table word replaces one value of the function `pte m dir` (`pte_update`). `fill` is the
loop that stores the words of a table one after the other.
-/

namespace Paging

open ByteMemory

/-- The word `i` of a directory or of a table. -/
def entry (m : Mem) (table i : Nat) : Nat := load32 m (table + 4 * i)

/-- A word without its flags. -/
def frameBase (w : Nat) : Nat := w / 0x1000 * 0x1000

/-- The word of the page `vpn`; zero when its table does not exist. -/
def pte (m : Mem) (dir vpn : Nat) : Nat :=
  let e := entry m dir (vpn / 1024)
  if e % 2 = 1 then entry m (frameBase e) (vpn % 1024) else 0

/-- The physical address behind `va`, when its page is present. -/
def translate (m : Mem) (dir va : Nat) : Option Nat :=
  let w := pte m dir (va / 0x1000)
  if w % 2 = 1 then some (frameBase w + va % 0x1000) else none

/-- Programs may write to `va`: both words on the way say present, writable and user. -/
def UserWritable (m : Mem) (dir va : Nat) : Prop :=
  entry m dir (va / 0x1000 / 1024) % 8 = 7 ∧ pte m dir (va / 0x1000) % 8 = 7

instance (m : Mem) (dir va : Nat) : Decidable (UserWritable m dir va) :=
  inferInstanceAs (Decidable (_ ∧ _))

/-! ## Words -/

/-- On an aligned address, or-ing flags is adding them. -/
theorem lor_flags {a f : Nat} (ha : a % 0x1000 = 0) (hf : f < 0x1000) : a ||| f = a + f := by
  have hdiv : 2 ^ 12 * (a / 0x1000) = a := by omega
  have hor := Nat.two_pow_add_eq_or_of_lt (show f < 2 ^ 12 by omega) (a / 0x1000)
  rw [hdiv] at hor
  exact hor.symm

@[simp] theorem frameBase_add {a f : Nat} (ha : a % 0x1000 = 0) (hf : f < 0x1000) :
    frameBase (a + f) = a := by
  unfold frameBase
  omega

theorem entry_lt (m : Mem) (table i : Nat) : entry m table i < 2 ^ 32 := load32_lt m _

theorem entry_congr {m m' : Mem} {table i : Nat} (h : AgreeOn m m' (table + 4 * i) 4) :
    entry m' table i = entry m table i := load32_congr h

/-! ## Walks -/

section
variable {m m' : Mem} {dir vpn va : Nat}

/-- A walk reads one word of the directory and one of a table. -/
theorem pte_congr (hdir : entry m' dir (vpn / 1024) = entry m dir (vpn / 1024))
    (htable : entry m dir (vpn / 1024) % 2 = 1 →
      entry m' (frameBase (entry m dir (vpn / 1024))) (vpn % 1024)
        = entry m (frameBase (entry m dir (vpn / 1024))) (vpn % 1024)) :
    pte m' dir vpn = pte m dir vpn := by
  simp only [pte, hdir]
  split
  case isTrue hodd => exact htable hodd
  case isFalse => rfl

theorem translate_congr (h : pte m' dir (va / 0x1000) = pte m dir (va / 0x1000)) :
    translate m' dir va = translate m dir va := by
  simp only [translate, h]

theorem pte_of_entry {e : Nat} (he : entry m dir (vpn / 1024) = e) (hodd : e % 2 = 1) :
    pte m dir vpn = entry m (frameBase e) (vpn % 1024) := by
  simp only [pte, he]
  exact if_pos hodd

theorem pte_of_even (he : entry m dir (vpn / 1024) % 2 = 0) : pte m dir vpn = 0 := by
  simp only [pte]
  exact if_neg (by omega)

/-- A page whose word is a frame with flags is at that frame. -/
theorem translate_of_pte {f flags : Nat} (hpte : pte m dir (va / 0x1000) = f + flags)
    (hf : f % 0x1000 = 0) (hflags : flags < 0x1000) (hodd : flags % 2 = 1) :
    translate m dir va = some (f + va % 0x1000) := by
  simp only [translate, hpte, frameBase_add hf hflags]
  exact if_pos (by omega)

/-- The bytes of a page keep their places in the frame. -/
theorem translate_in_page (m : Mem) (dir va : Nat) :
    translate m dir va = (translate m dir (0x1000 * (va / 0x1000))).map (· + va % 0x1000) := by
  have hdiv : 0x1000 * (va / 0x1000) / 0x1000 = va / 0x1000 :=
    Nat.mul_div_cancel_left _ (by decide)
  have hmod : 0x1000 * (va / 0x1000) % 0x1000 = 0 := Nat.mul_mod_right _ _
  simp only [translate, hdiv, hmod]
  by_cases hodd : pte m dir (va / 0x1000) % 2 = 1
  · rw [if_pos hodd, if_pos hodd, Option.map_some, Nat.add_zero]
  · rw [if_neg hodd, if_neg hodd, Option.map_none]

theorem translate_of_zero (hpte : pte m dir (va / 0x1000) = 0) : translate m dir va = none := by
  simp only [translate, hpte]
  rfl

end

/-- Two memories whose directories agree word by word, and whose tables in use agree, have the
same walks. -/
theorem pte_eq_of_tables {m m' : Mem} {dir dir' : Nat}
    (hdir : ∀ i < 1024, entry m' dir' i = entry m dir i)
    (htable : ∀ i < 1024, entry m dir i % 2 = 1 → ∀ j < 1024,
      entry m' (frameBase (entry m dir i)) j = entry m (frameBase (entry m dir i)) j)
    {vpn : Nat} (hvpn : vpn < 2 ^ 20) : pte m' dir' vpn = pte m dir vpn := by
  have hi : vpn / 1024 < 1024 := by omega
  simp only [pte, hdir _ hi]
  split
  case isTrue hodd => exact htable _ hi hodd _ (Nat.mod_lt _ (by decide))
  case isFalse => rfl

/-- When the table `t` of the page `v` holds the word `w` for it, and for its other pages the
words they had before, then `w` has replaced the word of `v` and no other. -/
theorem pte_update {m m' : Mem} {dir t w v : Nat}
    (hodd : entry m' dir (v / 1024) % 2 = 1) (ht : frameBase (entry m' dir (v / 1024)) = t)
    (hword : ∀ u, u / 1024 = v / 1024 → entry m' t (u % 1024) = if u = v then w else pte m dir u)
    {vpn : Nat} (hother : vpn / 1024 ≠ v / 1024 → pte m' dir vpn = pte m dir vpn) :
    pte m' dir vpn = Function.update (pte m dir) v w vpn := by
  by_cases hsame : vpn / 1024 = v / 1024
  · have hpte : pte m' dir vpn = entry m' t (vpn % 1024) := by
      rw [← hsame] at hodd ht
      rw [pte_of_entry rfl hodd, ht]
    rw [hpte, hword vpn hsame, Function.update_apply]
  · have hne : vpn ≠ v := fun h => hsame (by rw [h])
    rw [hother hsame, Function.update_of_ne hne]

/-! ## Filling a table -/

/-- `for (i = 0; i < n; i++) ptr[i] = val(i);`, where pointer and values are read again in
every round. -/
def fill (ptr : Mem → Nat) (val : Mem → Nat → Nat) : Nat → Mem → Mem
  | 0, m => m
  | n + 1, m =>
      let m := fill ptr val n m
      store32 m (ptr m + 4 * n) (val m n)

/-- A fill writes the table and nothing else, and leaves the values in it, when the table
holds neither its own pointer nor what the values are read from. -/
theorem fill_spec {ptr : Mem → Nat} {val : Mem → Nat → Nat} {m : Mem} {p N : Nat} {v : Nat → Nat}
    (hptr : ∀ m', (∀ x, x < p ∨ p + 4 * N ≤ x → m' x = m x) → ptr m' = p)
    (hval : ∀ m', (∀ x, x < p ∨ p + 4 * N ≤ x → m' x = m x) → ∀ i < N, val m' i = v i)
    {n : Nat} (hn : n ≤ N) :
    (∀ x, x < p ∨ p + 4 * n ≤ x → fill ptr val n m x = m x) ∧
      ∀ i < n, entry (fill ptr val n m) p i = v i % 2 ^ 32 := by
  induction n with
  | zero => exact ⟨fun _ _ => rfl, fun i hi => absurd hi (Nat.not_lt_zero i)⟩
  | succ n ih =>
      obtain ⟨hkeep, hword⟩ := ih (by omega)
      have hout : ∀ x, x < p ∨ p + 4 * N ≤ x → fill ptr val n m x = m x :=
        fun x hx => hkeep x (by omega)
      have hstep : fill ptr val (n + 1) m = store32 (fill ptr val n m) (p + 4 * n) (v n) := by
        rw [fill, hptr _ hout, hval _ hout n (by omega)]
      rw [hstep]
      refine ⟨fun x hx => ?_, fun i hi => ?_⟩
      · rw [store32_of_outside (by omega), hkeep x (by omega)]
      · by_cases hin : i = n
        · subst hin
          exact load32_store32 _ _ _
        · unfold entry
          rw [load32_store32_of_ne (by omega)]
          exact hword i (by omega)

/-- Whatever the values are, a fill writes to the table only. -/
theorem fill_outside {ptr : Mem → Nat} {val : Mem → Nat → Nat} {m : Mem} {p N : Nat}
    (hptr : ∀ m', (∀ x, x < p ∨ p + 4 * N ≤ x → m' x = m x) → ptr m' = p) {n : Nat} (hn : n ≤ N) :
    ∀ x, x < p ∨ p + 4 * n ≤ x → fill ptr val n m x = m x := by
  induction n with
  | zero => exact fun _ _ => rfl
  | succ n ih =>
      intro x hx
      have hkeep := ih (by omega)
      have hpointer : ptr (fill ptr val n m) = p := hptr _ (fun x hx => hkeep x (by omega))
      rw [fill, hpointer, store32_of_outside (by omega)]
      exact hkeep x (by omega)

/-- Clearing a table. -/
theorem clear_spec (m : Mem) (p : Nat) :
    (∀ x, x < p ∨ p + 4 * 1024 ≤ x → fill (fun _ => p) (fun _ _ => 0) 1024 m x = m x) ∧
      ∀ i < 1024, entry (fill (fun _ => p) (fun _ _ => 0) 1024 m) p i = 0 :=
  fill_spec (v := fun _ => 0) (fun _ _ => rfl) (fun _ _ _ _ => rfl) le_rfl

end Paging
