import DayOS.Lib.Paging

set_option autoImplicit false

/-! # Loads and stores through page tables

With paging on, every byte a program touches is looked up through the active directory
(`resolve`). A load of several bytes (`readAt`) and a loop of byte stores (`storeAt`) have no
result when one of their bytes is not mapped.

Both are specified against physical memory. `littleEndian` is the number that a row of bytes
spells. For a loop whose addresses resolve to different bytes and stay resolved while it writes,
`storeAt_ok` says that these bytes get the values and no other byte changes. `copyAt` reads its
values through the same directory, and `fillAt` stores the same value everywhere.
-/

namespace Paging

open ByteMemory

/-- The physical byte behind an address of 32 bits. -/
def resolve (m : Mem) (dir va : Nat) : Option Nat := translate m dir (va % 2 ^ 32)

/-- The number in `n` bytes from `va` on. -/
def readAt (m : Mem) (dir : Nat) : Nat → Nat → Option Nat
  | _, 0 => some 0
  | va, n + 1 => do
      let p ← resolve m dir va
      let rest ← readAt m dir (va + 1) n
      return (m p).toNat + 256 * rest

/-- `for (i = 0; i < n; i++) dst[i] = val(i);`, where a value may fail to exist. -/
def storeAt (dir dst : Nat) (val : Mem → Nat → Option UInt8) : Nat → Mem → Option Mem
  | 0, m => some m
  | n + 1, m => do
      let m ← storeAt dir dst val n m
      let v ← val m n
      let q ← resolve m dir (dst + n)
      return Function.update m q v

/-- `memcpy`. -/
def copyAt (dir dst src n : Nat) (m : Mem) : Option Mem :=
  storeAt dir dst (fun m i => (resolve m dir (src + i)).map m) n m

/-- `memset`. -/
def fillAt (dir dst : Nat) (v : UInt8) (n : Nat) (m : Mem) : Option Mem :=
  storeAt dir dst (fun _ _ => some v) n m

/-- The number that the `n` bytes of `bytes` from `k` on spell. -/
def littleEndian (bytes : Nat → UInt8) : Nat → Nat → Nat
  | _, 0 => 0
  | k, n + 1 => (bytes k).toNat + 256 * littleEndian bytes (k + 1) n

/-- `m'` differs from `m` in the bytes `d i` with `i < n` at most. -/
def OnlyAt (d : Nat → Nat) (n : Nat) (m m' : Mem) : Prop := ∀ x, (∀ i < n, d i ≠ x) → m' x = m x

section
variable {m m' : Mem} {dir dst src va k n : Nat} {d e : Nat → Nat} {v : Nat → UInt8}
  {bytes : Nat → UInt8} {val : Mem → Nat → Option UInt8}

/-! ## Loads -/

/-- A load spells the bytes that its addresses resolve to. -/
theorem readAt_ok (h : ∀ i < n, ∃ p, resolve m dir (va + i) = some p ∧ m p = bytes (k + i)) :
    readAt m dir va n = some (littleEndian bytes k n) := by
  induction n generalizing va k with
  | zero => rfl
  | succ n ih =>
      obtain ⟨p, hp, hbyte⟩ := h 0 (Nat.succ_pos n)
      have hrest := @ih (va + 1) (k + 1) (fun i hi => by
        rw [Nat.add_assoc va, Nat.add_assoc k, Nat.add_comm 1 i]
        exact h (i + 1) (by omega))
      rw [Nat.add_zero] at hp hbyte
      simp only [readAt, hp, hrest, hbyte, Option.bind_eq_bind, Option.bind_some]
      rfl

/-- A load finds the same number where its addresses resolve to the same bytes. -/
theorem readAt_congr {dir' : Nat}
    (h : ∀ i < n, ∃ p, resolve m dir (va + i) = some p ∧ resolve m' dir' (va + i) = some p ∧
      m' p = m p) : readAt m' dir' va n = readAt m dir va n := by
  induction n generalizing va with
  | zero => rfl
  | succ n ih =>
      obtain ⟨p, hp, hp', hbyte⟩ := h 0 (Nat.succ_pos n)
      have hrest := @ih (va + 1) (fun i hi => by
        rw [Nat.add_assoc va, Nat.add_comm 1 i]
        exact h (i + 1) (by omega))
      rw [Nat.add_zero] at hp hp'
      simp only [readAt, hp, hp', hrest, Option.bind_eq_bind, Option.bind_some, hbyte]

/-! ## Stores -/

theorem OnlyAt.refl (d : Nat → Nat) (n : Nat) (m : Mem) : OnlyAt d n m m := fun _ _ => rfl

theorem OnlyAt.mono {n' : Nat} (h : OnlyAt d n m m') (hn : n ≤ n') : OnlyAt d n' m m' :=
  fun x hx => h x (fun i hi => hx i (by omega))

/-- One more byte. -/
theorem OnlyAt.update (h : OnlyAt d n m m') (b : UInt8) :
    OnlyAt d (n + 1) m (Function.update m' (d n) b) := by
  intro x hx
  have hne : x ≠ d n := (hx n (by omega)).symm
  rw [Function.update_of_ne hne]
  exact h x (fun i hi => hx i (by omega))

/-- **What a loop of stores does**, when whatever it writes leaves its addresses and its values
as they are. -/
theorem storeAt_ok
    (hres : ∀ i < n, ∀ m', OnlyAt d n m m' → resolve m' dir (dst + i) = some (d i))
    (hval : ∀ i < n, ∀ m', OnlyAt d i m m' → val m' i = some (v i))
    (hinj : ∀ i < n, ∀ j < n, d i = d j → i = j) :
    ∃ m', storeAt dir dst val n m = some m' ∧ (∀ i < n, m' (d i) = v i) ∧ OnlyAt d n m m' := by
  -- the loop up to any point
  have hloop : ∀ k ≤ n, ∃ m', storeAt dir dst val k m = some m' ∧ (∀ i < k, m' (d i) = v i) ∧
      OnlyAt d k m m' := by
    intro k
    induction k with
    | zero => exact fun _ => ⟨m, rfl, fun i hi => absurd hi (Nat.not_lt_zero i), OnlyAt.refl d 0 m⟩
    | succ k ih =>
        intro hk
        obtain ⟨m', hm', hset, honly⟩ := ih (by omega)
        refine ⟨Function.update m' (d k) (v k), ?_, fun i hi => ?_, honly.update (v k)⟩
        · simp only [storeAt, hm', hval k (by omega) m' honly,
            hres k (by omega) m' (honly.mono (by omega)), Option.bind_eq_bind, Option.bind_some]
          rfl
        · by_cases hik : i = k
          · rw [hik, Function.update_self]
          · have hne : d i ≠ d k := fun he => hik (hinj i (by omega) k (by omega) he)
            rw [Function.update_of_ne hne]
            exact hset i (by omega)
  exact hloop n le_rfl

/-- A loop that comes back has written to its addresses only. -/
theorem storeAt_only
    (hres : ∀ i < n, ∀ m', OnlyAt d n m m' → resolve m' dir (dst + i) = some (d i))
    (h : storeAt dir dst val n m = some m') : OnlyAt d n m m' := by
  -- the loop up to any point
  have hloop : ∀ k ≤ n, ∀ m', storeAt dir dst val k m = some m' → OnlyAt d k m m' := by
    intro k
    induction k with
    | zero =>
        intro _ m' hm'
        cases hm'
        exact OnlyAt.refl d 0 m
    | succ k ih =>
        intro hk m' hm'
        rw [storeAt] at hm'
        simp only [Option.bind_eq_bind, Option.bind_eq_some_iff] at hm'
        obtain ⟨m₁, hm₁, b, -, q, hq, hm'⟩ := hm'
        have h₁ := ih (by omega) m₁ hm₁
        rw [hres k (by omega) m₁ (h₁.mono (by omega))] at hq
        cases hq
        cases hm'
        exact h₁.update b
  exact hloop n le_rfl m' h

/-- A loop that comes to an address which is not mapped has no result. -/
theorem storeAt_fault (hk : k < n)
    (hres : ∀ i < k, ∀ m', OnlyAt d i m m' → resolve m' dir (dst + i) = some (d i))
    (hfault : ∀ m', OnlyAt d k m m' → resolve m' dir (dst + k) = none) :
    storeAt dir dst val n m = none := by
  -- the bytes before it are the only ones written
  have honly : ∀ j ≤ k, ∀ m', storeAt dir dst val j m = some m' → OnlyAt d j m m' := by
    intro j
    induction j with
    | zero =>
        intro _ m' hm'
        cases hm'
        exact OnlyAt.refl d 0 m
    | succ j ih =>
        intro hj m' hm'
        rw [storeAt] at hm'
        simp only [Option.bind_eq_bind, Option.bind_eq_some_iff] at hm'
        obtain ⟨m₁, hm₁, b, -, q, hq, hm'⟩ := hm'
        have h₁ := ih (by omega) m₁ hm₁
        rw [hres j (by omega) m₁ h₁] at hq
        cases hq
        cases hm'
        exact h₁.update b
  -- from it on there is none
  have hnone : ∀ j, storeAt dir dst val (k + 1 + j) m = none := by
    intro j
    induction j with
    | zero =>
        rw [Nat.add_zero, storeAt]
        cases hm' : storeAt dir dst val k m with
        | none => rfl
        | some m' =>
            simp only [hfault m' (honly k le_rfl m' hm'), Option.bind_eq_bind, Option.bind_some]
            cases val m' k <;> rfl
    | succ j ih =>
        rw [← Nat.add_assoc, storeAt, ih]
        rfl
  have hn := hnone (n - (k + 1))
  rwa [Nat.add_sub_cancel' hk] at hn

/-- A copy between bytes of which none is read and written. -/
theorem copyAt_ok
    (hdst : ∀ i < n, ∀ m', OnlyAt d n m m' → resolve m' dir (dst + i) = some (d i))
    (hsrc : ∀ i < n, ∀ m', OnlyAt d n m m' → resolve m' dir (src + i) = some (e i))
    (hinj : ∀ i < n, ∀ j < n, d i = d j → i = j) (hapart : ∀ i < n, ∀ j < n, d i ≠ e j) :
    ∃ m', copyAt dir dst src n m = some m' ∧ (∀ i < n, m' (d i) = m (e i)) ∧ OnlyAt d n m m' := by
  refine storeAt_ok (v := fun i => m (e i)) hdst (fun i hi m' hm' => ?_) hinj
  rw [hsrc i hi m' (hm'.mono (by omega)), Option.map_some]
  exact congrArg some (hm' (e i) (fun j hj => hapart j (by omega) i hi))

theorem fillAt_ok {b : UInt8}
    (hdst : ∀ i < n, ∀ m', OnlyAt d n m m' → resolve m' dir (dst + i) = some (d i))
    (hinj : ∀ i < n, ∀ j < n, d i = d j → i = j) :
    ∃ m', fillAt dir dst b n m = some m' ∧ (∀ i < n, m' (d i) = b) ∧ OnlyAt d n m m' :=
  storeAt_ok (v := fun _ => b) hdst (fun _ _ _ _ => rfl) hinj

end

end Paging
