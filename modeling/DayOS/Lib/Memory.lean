import Mathlib.Tactic

set_option autoImplicit false

/-! # Byte-addressed memory

A memory is a function from addresses to bytes. Words are 32 bits wide, stored little-endian
at any byte address, aligned or not, and read back as natural numbers below `2 ^ 32`.

The frame rules are stated with ranges: `AgreeOn m m' a n` says that `m'` has the same bytes
as `m` on the `n` bytes from `a` on. Every load is a function of the bytes it covers
(`load32_congr`), and every store agrees with the old memory outside the bytes it covers
(`store32_of_outside`), so a proof about a store needs only an inequality of addresses.
-/

namespace ByteMemory

/-- A byte-addressed memory. -/
abbrev Mem := Nat → UInt8

/-- The byte at `a`. -/
def load8 (m : Mem) (a : Nat) : Nat := (m a).toNat

/-- The little-endian word in the four bytes from `a` on. -/
def load32 (m : Mem) (a : Nat) : Nat :=
  (m a).toNat + 2 ^ 8 * (m (a + 1)).toNat + 2 ^ 16 * (m (a + 2)).toNat
    + 2 ^ 24 * (m (a + 3)).toNat

def store8 (m : Mem) (a v : Nat) : Mem :=
  fun x => if x = a then UInt8.ofNat v else m x

/-- Store the low 32 bits of `v`, little-endian, in the four bytes from `a` on. -/
def store32 (m : Mem) (a v : Nat) : Mem :=
  fun x => if a ≤ x ∧ x < a + 4 then UInt8.ofNat (v / 256 ^ (x - a)) else m x

/-- Write a list of bytes from `dst` on. -/
def writeBytes (m : Mem) (dst : Nat) (bs : List UInt8) : Mem :=
  fun x => if dst ≤ x ∧ x < dst + bs.length then bs.getD (x - dst) 0 else m x

/-- Write a list of words from `a` on. -/
def writeWords (m : Mem) (a : Nat) : List UInt32 → Mem
  | [] => m
  | w :: ws => writeWords (store32 m a w.toNat) (a + 4) ws

/-! ## Agreement on a range -/

/-- `m'` has the bytes of `m` on the `n` addresses from `a` on. -/
def AgreeOn (m m' : Mem) (a n : Nat) : Prop := ∀ x, a ≤ x → x < a + n → m' x = m x

theorem AgreeOn.refl (m : Mem) (a n : Nat) : AgreeOn m m a n := fun _ _ _ => rfl

theorem AgreeOn.symm {m m' : Mem} {a n : Nat} (h : AgreeOn m m' a n) : AgreeOn m' m a n :=
  fun x hx hx' => (h x hx hx').symm

theorem AgreeOn.trans {m m' m'' : Mem} {a n : Nat} (h : AgreeOn m m' a n)
    (h' : AgreeOn m' m'' a n) : AgreeOn m m'' a n :=
  fun x hx hx' => (h' x hx hx').trans (h x hx hx')

theorem AgreeOn.mono {m m' : Mem} {a n b k : Nat} (h : AgreeOn m m' a n)
    (hl : a ≤ b) (hr : b + k ≤ a + n) : AgreeOn m m' b k :=
  fun x hx hx' => h x (by omega) (by omega)

instance (m m' : Mem) (a n : Nat) : Decidable (AgreeOn m m' a n) :=
  decidable_of_iff (∀ i < n, m' (a + i) = m (a + i))
    ⟨fun h x hx hx' => by
      have := h (x - a) (by omega)
      rwa [Nat.add_sub_cancel' hx] at this,
     fun h i hi => h (a + i) (by omega) (by omega)⟩

/-! ## Loads read only the bytes they cover -/

theorem load32_lt (m : Mem) (a : Nat) : load32 m a < 2 ^ 32 := by
  have h0 := (m a).toNat_lt
  have h1 := (m (a + 1)).toNat_lt
  have h2 := (m (a + 2)).toNat_lt
  have h3 := (m (a + 3)).toNat_lt
  simp only [load32]
  omega

theorem load32_congr {m m' : Mem} {a : Nat} (h : AgreeOn m m' a 4) :
    load32 m' a = load32 m a := by
  simp only [load32]
  rw [h a (by omega) (by omega), h (a + 1) (by omega) (by omega),
    h (a + 2) (by omega) (by omega), h (a + 3) (by omega) (by omega)]

theorem load32_eq_zero {m : Mem} {a : Nat} (h : ∀ x, a ≤ x → x < a + 4 → m x = 0) :
    load32 m a = 0 := by
  simp only [load32, h a (by omega) (by omega), h (a + 1) (by omega) (by omega),
    h (a + 2) (by omega) (by omega), h (a + 3) (by omega) (by omega)]
  rfl

/-- The word one byte before the end of another holds its last byte and three of the next word. -/
theorem load32_unaligned (m : Mem) (a : Nat) :
    load32 m (a + 3) = load32 m a / 2 ^ 24 + 2 ^ 8 * (load32 m (a + 4) % 2 ^ 24) := by
  have h0 := (m a).toNat_lt
  have h1 := (m (a + 1)).toNat_lt
  have h2 := (m (a + 2)).toNat_lt
  have h4 := (m (a + 4)).toNat_lt
  have h5 := (m (a + 5)).toNat_lt
  have h6 := (m (a + 6)).toNat_lt
  simp only [load32, Nat.add_assoc, Nat.reduceAdd]
  omega

theorem load8_congr {m m' : Mem} {a : Nat} (h : AgreeOn m m' a 1) : load8 m' a = load8 m a := by
  simp only [load8]
  rw [h a (by omega) (by omega)]

/-! ## Stores change only the bytes they cover -/

theorem store32_of_outside {m : Mem} {a v x : Nat} (h : x < a ∨ a + 4 ≤ x) :
    store32 m a v x = m x := if_neg (by omega)

/-- The second of two stores to one word counts. -/
theorem store32_store32 {m : Mem} {a v w : Nat} : store32 (store32 m a v) a w = store32 m a w := by
  funext x
  unfold store32
  split <;> rfl

theorem store8_of_ne {m : Mem} {a v x : Nat} (h : x ≠ a) : store8 m a v x = m x := if_neg h

theorem writeBytes_of_outside {m : Mem} {dst x : Nat} {bs : List UInt8}
    (h : x < dst ∨ dst + bs.length ≤ x) : writeBytes m dst bs x = m x := if_neg (by omega)

theorem agreeOn_store32 {m : Mem} {a v b n : Nat} (h : b + n ≤ a ∨ a + 4 ≤ b) :
    AgreeOn m (store32 m a v) b n := fun _ _ _ => store32_of_outside (by omega)

theorem agreeOn_store8 {m : Mem} {a v b n : Nat} (h : b + n ≤ a ∨ a + 1 ≤ b) :
    AgreeOn m (store8 m a v) b n := fun _ _ _ => store8_of_ne (by omega)

theorem agreeOn_writeBytes {m : Mem} {dst b n : Nat} {bs : List UInt8}
    (h : b + n ≤ dst ∨ dst + bs.length ≤ b) : AgreeOn m (writeBytes m dst bs) b n :=
  fun _ _ _ => writeBytes_of_outside (by omega)

/-! ## A load after a store -/

@[simp] theorem load32_store32 (m : Mem) (a v : Nat) :
    load32 (store32 m a v) a = v % 2 ^ 32 := by
  have h1 : (a + 1) - a = 1 := by omega
  have h2 : (a + 2) - a = 2 := by omega
  have h3 : (a + 3) - a = 3 := by omega
  simp only [load32, store32, h1, h2, h3, Nat.sub_self, Nat.le_add_right, Nat.le_refl, true_and,
    Nat.add_lt_add_iff_left, Nat.lt_add_right_iff_pos, UInt8.toNat_ofNat', Nat.reducePow,
    Nat.reduceLT, if_true]
  omega

theorem load32_store32_of_ne {m : Mem} {a v b : Nat} (h : b + 4 ≤ a ∨ a + 4 ≤ b) :
    load32 (store32 m a v) b = load32 m b := load32_congr (agreeOn_store32 h)

theorem load8_store32_of_ne {m : Mem} {a v b : Nat} (h : b + 1 ≤ a ∨ a + 4 ≤ b) :
    load8 (store32 m a v) b = load8 m b := load8_congr (agreeOn_store32 h)

@[simp] theorem load8_store8 (m : Mem) (a v : Nat) : load8 (store8 m a v) a = v % 2 ^ 8 := by
  simp [load8, store8]

theorem load32_store8_of_ne {m : Mem} {a v b : Nat} (h : b + 4 ≤ a ∨ a + 1 ≤ b) :
    load32 (store8 m a v) b = load32 m b := load32_congr (agreeOn_store8 h)

theorem load8_store8_of_ne {m : Mem} {a v b : Nat} (h : b ≠ a) :
    load8 (store8 m a v) b = load8 m b := load8_congr (agreeOn_store8 (by omega))

theorem load32_writeBytes_of_ne {m : Mem} {dst b : Nat} {bs : List UInt8}
    (h : b + 4 ≤ dst ∨ dst + bs.length ≤ b) : load32 (writeBytes m dst bs) b = load32 m b :=
  load32_congr (agreeOn_writeBytes h)

/-! ## Words in a row -/

theorem writeWords_of_outside {m : Mem} {a x : Nat} {ws : List UInt32}
    (h : x < a ∨ a + 4 * ws.length ≤ x) : writeWords m a ws x = m x := by
  induction ws generalizing m a with
  | nil => rfl
  | cons w ws ih =>
      simp only [List.length_cons] at h
      rw [writeWords, ih (by omega), store32_of_outside (by omega)]

theorem agreeOn_writeWords {m : Mem} {a b n : Nat} {ws : List UInt32}
    (h : b + n ≤ a ∨ a + 4 * ws.length ≤ b) : AgreeOn m (writeWords m a ws) b n :=
  fun _ _ _ => writeWords_of_outside (by omega)

theorem load32_writeWords {m : Mem} {a k : Nat} {ws : List UInt32} {w : UInt32}
    (h : ws[k]? = some w) : load32 (writeWords m a ws) (a + 4 * k) = w.toNat := by
  induction ws generalizing m a k with
  | nil => simp at h
  | cons v ws ih =>
      cases k with
      | zero =>
          obtain rfl : v = w := by simpa using h
          have hlt := v.toNat_lt
          have hkeep : AgreeOn (store32 m a v.toNat) (writeWords m a (v :: ws)) a 4 :=
            agreeOn_writeWords (Or.inl (by omega))
          rw [Nat.mul_zero, Nat.add_zero, load32_congr hkeep, load32_store32,
            Nat.mod_eq_of_lt hlt]
      | succ k =>
          rw [List.getElem?_cons_succ] at h
          have hadd : a + 4 * (k + 1) = a + 4 + 4 * k := by omega
          rw [writeWords, hadd, ih h]

/-! ## Blocks -/

/-- The `size` bytes from `addr` on. -/
structure Block where
  addr : Nat
  size : Nat
  deriving DecidableEq, Repr

namespace Block

/-- The address `x` is one of the block's bytes. -/
def Has (b : Block) (x : Nat) : Prop := b.addr ≤ x ∧ x < b.addr + b.size

/-- No byte belongs to both blocks. -/
def Apart (b c : Block) : Prop := b.addr + b.size ≤ c.addr ∨ c.addr + c.size ≤ b.addr

instance (b : Block) (x : Nat) : Decidable (b.Has x) := inferInstanceAs (Decidable (_ ∧ _))

instance (b c : Block) : Decidable (b.Apart c) := inferInstanceAs (Decidable (_ ∨ _))

theorem Apart.symm {b c : Block} (h : b.Apart c) : c.Apart b := Or.symm h

theorem Apart.not_has {b c : Block} (h : b.Apart c) {x : Nat} (hx : b.Has x) : ¬ c.Has x := by
  simp only [Apart, Has] at *
  omega

/-- Blocks that are apart lie in disjoint address sets, so inside `N` addresses their sizes
sum to at most `N`. -/
theorem sum_size_le (bs : List Block) {N : Nat} (hp : bs.Pairwise Apart)
    (hN : ∀ b ∈ bs, b.addr + b.size ≤ N) : (bs.map Block.size).sum ≤ N := by
  have key : ∃ S : Finset Nat, S.card = (bs.map Block.size).sum ∧
      ∀ x ∈ S, x < N ∧ ∃ b ∈ bs, b.Has x := by
    induction bs with
    | nil => exact ⟨∅, by simp⟩
    | cons b bs ih =>
        rw [List.pairwise_cons] at hp
        obtain ⟨S, hcard, hS⟩ := ih hp.2 (fun c hc => hN c (by simp [hc]))
        have hdisj : Disjoint (Finset.Ico b.addr (b.addr + b.size)) S := by
          rw [Finset.disjoint_left]
          intro x hx hxS
          obtain ⟨-, c, hc, hxc⟩ := hS x hxS
          exact (hp.1 c hc).not_has (by simpa [Has] using hx) hxc
        refine ⟨Finset.Ico b.addr (b.addr + b.size) ∪ S, ?_, ?_⟩
        · rw [Finset.card_union_of_disjoint hdisj, hcard]
          simp
        · intro x hx
          rcases Finset.mem_union.mp hx with hx | hx
          · have hb := hN b (by simp)
            rw [Finset.mem_Ico] at hx
            exact ⟨by omega, b, by simp, hx⟩
          · obtain ⟨hlt, c, hc, hxc⟩ := hS x hx
            exact ⟨hlt, c, by simp [hc], hxc⟩
  obtain ⟨S, hcard, hS⟩ := key
  rw [← hcard]
  calc S.card ≤ (Finset.range N).card :=
        Finset.card_le_card (fun x hx => Finset.mem_range.mpr (hS x hx).1)
    _ = N := Finset.card_range N

/-- Blocks of one size that are apart are few. -/
theorem length_mul_le {n N : Nat} (as : List Nat)
    (hp : as.Pairwise (fun a b => Apart ⟨a, n⟩ ⟨b, n⟩)) (hN : ∀ a ∈ as, a + n ≤ N) :
    n * as.length ≤ N := by
  have hsum := sum_size_le (as.map (fun a => ⟨a, n⟩)) (List.pairwise_map.mpr hp)
    (fun b hb => by
      obtain ⟨a, ha, rfl⟩ := List.mem_map.mp hb
      exact hN a ha)
  have hconst : (as.map (fun a => (⟨a, n⟩ : Block))).map size = as.map (fun _ => n) := by
    rw [List.map_map]
    rfl
  rw [hconst] at hsum
  simpa [Nat.mul_comm] using hsum

end Block

end ByteMemory
