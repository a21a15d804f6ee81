import DayOS.Lib.Memory

set_option autoImplicit false

/-! # C strings

A string is read from a byte stream `f : Nat → UInt8`: the bytes from a pointer on. `Spells f s`
says that the stream starts with the characters `s` and a NUL. `strlen`, `strcpy`, `strcat` and
`strcmp` are the library's loops, with as much fuel as there are addresses; on streams that
spell a string they measure it, copy it, append it and decide equality.

A field of fixed width (`Field`) ends its string with a NUL only when the string leaves room
for one; the stream of a full field spells a string that may be longer.
-/

namespace CString

open ByteMemory

/-- The bytes of `m` from `a` on. -/
def bytesAt (m : Mem) (a : Nat) : Nat → UInt8 := fun i => m (a + i)

/-- `strcpy`: copy up to and including the first NUL. -/
def strcpy (m : Mem) (dst : Nat) (f : Nat → UInt8) : Nat → Mem
  | 0 => m
  | fuel + 1 =>
      let m := store8 m dst (f 0).toNat
      if f 0 = 0 then m else strcpy m (dst + 1) (fun i => f (i + 1)) fuel

/-- The addresses that `strcpy` writes to, in order. -/
def strcpyWrites (dst : Nat) (f : Nat → UInt8) : Nat → List Nat
  | 0 => []
  | fuel + 1 => dst :: if f 0 = 0 then [] else strcpyWrites (dst + 1) (fun i => f (i + 1)) fuel

/-- `strcmp`: the difference of the first two bytes that differ, or 0. -/
def strcmp (f g : Nat → UInt8) : Nat → Int
  | 0 => 0
  | fuel + 1 =>
      if f 0 = g 0 ∧ f 0 ≠ 0 then strcmp (fun i => f (i + 1)) (fun i => g (i + 1)) fuel
      else (f 0).toNat - (g 0).toNat

/-- `strlen`; `none` when there is no NUL. -/
def strlen (f : Nat → UInt8) : Nat → Option Nat
  | 0 => none
  | fuel + 1 => if f 0 = 0 then some 0 else (strlen (fun i => f (i + 1)) fuel).map (· + 1)

/-- `strcat`: copy behind the string that is there. -/
def strcat (m : Mem) (dst : Nat) (f : Nat → UInt8) (fuel : Nat) : Option Mem :=
  (strlen (bytesAt m dst) fuel).map (fun n => strcpy m (dst + n) f fuel)

/-- The stream `f` starts with the characters `s` and a NUL. -/
def Spells : (Nat → UInt8) → List UInt8 → Prop
  | f, [] => f 0 = 0
  | f, c :: s => f 0 = c ∧ c ≠ 0 ∧ Spells (fun i => f (i + 1)) s

instance decidableSpells : ∀ (f : Nat → UInt8) (s : List UInt8), Decidable (Spells f s)
  | f, [] => inferInstanceAs (Decidable (f 0 = 0))
  | f, c :: s =>
      have := decidableSpells (fun i => f (i + 1)) s
      inferInstanceAs (Decidable (f 0 = c ∧ c ≠ 0 ∧ Spells (fun i => f (i + 1)) s))

section
variable {f g : Nat → UInt8} {s t : List UInt8} {m m' : Mem} {a : Nat}

theorem Spells.congr (h : Spells f s) (hg : ∀ i, i ≤ s.length → g i = f i) : Spells g s := by
  induction s generalizing f g with
  | nil => exact (hg 0 (by simp)).trans h
  | cons c s ih =>
      obtain ⟨hc, hc0, hs⟩ := h
      exact ⟨(hg 0 (by simp)).trans hc, hc0, ih hs (fun i hi => hg (i + 1) (by simpa using hi))⟩

/-- The string in memory depends on its bytes and the NUL only. -/
theorem Spells.agree (h : Spells (bytesAt m a) s) (hm : AgreeOn m m' a (s.length + 1)) :
    Spells (bytesAt m' a) s :=
  h.congr (fun i hi => hm (a + i) (by omega) (by omega))

/-- Among the streams, those with the same bytes up to the NUL spell the string. -/
theorem Spells.iff_agree (h : Spells f s) : Spells g s ↔ ∀ i ≤ s.length, g i = f i := by
  constructor
  · intro hg
    induction s generalizing f g with
    | nil =>
        intro i hi
        obtain rfl : i = 0 := by simpa using hi
        exact Eq.trans hg (Eq.symm h)
    | cons c s ih =>
        intro i hi
        cases i with
        | zero => exact hg.1.trans h.1.symm
        | succ i => exact ih h.2.2 hg.2.2 i (by simpa using hi)
  · exact h.congr

/-- A stream spells one string at most. -/
theorem Spells.unique (hs : Spells f s) (ht : Spells f t) : s = t := by
  induction s generalizing f t with
  | nil =>
      cases t with
      | nil => rfl
      | cons d t => exact absurd (ht.1.symm.trans hs) ht.2.1
  | cons c s ih =>
      cases t with
      | nil => exact absurd (hs.1.symm.trans ht) hs.2.1
      | cons d t =>
          obtain rfl : c = d := hs.1.symm.trans ht.1
          rw [ih hs.2.2 ht.2.2]

/-- `strcmp` of a string and any stream is 0 exactly when the stream spells that string. -/
theorem strcmp_eq_zero_iff {fuel : Nat} (hf : Spells f s) (hfuel : s.length < fuel) :
    strcmp f g fuel = 0 ↔ Spells g s := by
  induction s generalizing f g fuel with
  | nil =>
      obtain ⟨k, rfl⟩ : ∃ k, fuel = k + 1 := ⟨fuel - 1, by simp at hfuel; omega⟩
      have hf0 : f 0 = 0 := hf
      rw [strcmp, if_neg (by simp [hf0]), hf0]
      show _ ↔ g 0 = 0
      rw [← UInt8.toNat_inj]
      simp only [UInt8.toNat_zero]
      omega
  | cons c s ih =>
      obtain ⟨k, rfl⟩ : ∃ k, fuel = k + 1 := ⟨fuel - 1, by simp at hfuel; omega⟩
      obtain ⟨hc, hc0, hs⟩ := hf
      rw [strcmp]
      by_cases hcg : g 0 = c
      · rw [if_pos ⟨hc.trans hcg.symm, hc ▸ hc0⟩, ih hs (by simpa using hfuel)]
        exact ⟨fun h => ⟨hcg, hc0, h⟩, fun h => h.2.2⟩
      · rw [if_neg (fun h => hcg (h.1.symm.trans hc)), hc]
        have hne : (g 0).toNat ≠ c.toNat := fun h => hcg (UInt8.toNat_inj.mp h)
        constructor
        · intro h
          omega
        · exact fun h => absurd h.1 hcg

/-- `strcmp` of two strings is 0 exactly when they are equal. -/
theorem strcmp_eq_zero {fuel : Nat} (hf : Spells f s) (hg : Spells g t) (hfuel : s.length < fuel) :
    strcmp f g fuel = 0 ↔ s = t := by
  rw [strcmp_eq_zero_iff hf hfuel]
  constructor
  · exact fun hs => hs.unique hg
  · rintro rfl
    exact hg

/-- Which of the two streams comes first only turns the sign. -/
theorem strcmp_swap (f g : Nat → UInt8) (fuel : Nat) : strcmp g f fuel = - strcmp f g fuel := by
  induction fuel generalizing f g with
  | zero => rfl
  | succ fuel ih =>
      rw [strcmp, strcmp]
      by_cases hfg : f 0 = g 0 ∧ f 0 ≠ 0
      · rw [if_pos hfg, if_pos ⟨hfg.1.symm, hfg.1 ▸ hfg.2⟩]
        exact ih _ _
      · have hgf : ¬ (g 0 = f 0 ∧ g 0 ≠ 0) := fun h => hfg ⟨h.1.symm, h.1 ▸ h.2⟩
        rw [if_neg hfg, if_neg hgf]
        omega

/-- `strlen` of a string is its length. -/
theorem strlen_eq_some {fuel : Nat} (hf : Spells f s) (hfuel : s.length < fuel) :
    strlen f fuel = some s.length := by
  induction s generalizing f fuel with
  | nil =>
      obtain ⟨k, rfl⟩ : ∃ k, fuel = k + 1 := ⟨fuel - 1, by simp at hfuel; omega⟩
      have hf0 : f 0 = 0 := hf
      rw [strlen, if_pos hf0]
      rfl
  | cons c s ih =>
      obtain ⟨k, rfl⟩ : ∃ k, fuel = k + 1 := ⟨fuel - 1, by simp at hfuel; omega⟩
      obtain ⟨hc, hc0, hs⟩ := hf
      rw [strlen, if_neg (hc ▸ hc0), ih hs (by simpa using hfuel)]
      rfl

/-- A stream with a NUL spells a string. -/
theorem exists_spells {k : Nat} (hk : f k = 0) : ∃ s, Spells f s ∧ s.length ≤ k := by
  induction k generalizing f with
  | zero => exact ⟨[], hk, le_rfl⟩
  | succ k ih =>
      by_cases hf : f 0 = 0
      · exact ⟨[], hf, Nat.zero_le _⟩
      · obtain ⟨s, hs, hlen⟩ := ih (f := fun i => f (i + 1)) hk
        exact ⟨f 0 :: s, ⟨rfl, hf, hs⟩, by simpa using hlen⟩

/-- `strcpy` of a string writes its characters and the NUL, and nothing else. -/
theorem strcpy_spells {fuel : Nat} (hf : Spells f s) (hfuel : s.length < fuel) (m : Mem) (a : Nat) :
    Spells (bytesAt (strcpy m a f fuel) a) s ∧
    ∀ x, (x < a ∨ a + s.length < x) → strcpy m a f fuel x = m x := by
  induction s generalizing f fuel m a with
  | nil =>
      obtain ⟨k, rfl⟩ : ∃ k, fuel = k + 1 := ⟨fuel - 1, by simp at hfuel; omega⟩
      have hf0 : f 0 = 0 := hf
      rw [strcpy, if_pos hf0, hf0]
      refine ⟨by simp [Spells, bytesAt, store8], fun x hx => ?_⟩
      simp only [List.length_nil, Nat.add_zero] at hx
      exact store8_of_ne (by omega)
  | cons c s ih =>
      obtain ⟨k, rfl⟩ : ∃ k, fuel = k + 1 := ⟨fuel - 1, by simp at hfuel; omega⟩
      obtain ⟨hc, hc0, hs⟩ := hf
      rw [strcpy, if_neg (hc ▸ hc0), hc]
      obtain ⟨hspell, hout⟩ := ih hs (by simpa using hfuel) (store8 m a c.toNat) (a + 1)
      simp only [List.length_cons] at hout ⊢
      refine ⟨⟨?_, hc0, hspell.congr (fun i _ => ?_)⟩, fun x hx => ?_⟩
      · rw [bytesAt, hout (a + 0) (by omega)]
        simp [store8]
      · simp only [bytesAt]
        congr 1
        omega
      · rw [hout x (by omega), store8_of_ne (by omega)]

/-- `strcpy` of a string writes to as many bytes as it has, and one for the NUL. -/
theorem mem_strcpyWrites {fuel x : Nat} (hf : Spells f s) (hfuel : s.length < fuel) :
    x ∈ strcpyWrites a f fuel ↔ a ≤ x ∧ x ≤ a + s.length := by
  induction s generalizing f fuel a with
  | nil =>
      obtain ⟨k, rfl⟩ : ∃ k, fuel = k + 1 := ⟨fuel - 1, by simp at hfuel; omega⟩
      have hf0 : f 0 = 0 := hf
      rw [strcpyWrites, if_pos hf0, List.mem_singleton, List.length_nil]
      omega
  | cons c s ih =>
      obtain ⟨k, rfl⟩ : ∃ k, fuel = k + 1 := ⟨fuel - 1, by simp at hfuel; omega⟩
      obtain ⟨hc, hc0, hs⟩ := hf
      rw [strcpyWrites, if_neg (hc ▸ hc0), List.mem_cons, ih hs (by simpa using hfuel),
        List.length_cons]
      omega

/-- `strcat` of two strings, into a buffer, writes behind the first one. -/
theorem strcat_spells {fuel : Nat} (hs : Spells (bytesAt m a) s) (ht : Spells f t)
    (hfuel : s.length + t.length < fuel) : ∃ m', strcat m a f fuel = some m' ∧
      Spells (bytesAt m' a) (s ++ t) ∧
      ∀ x, (x < a + s.length ∨ a + s.length + t.length < x) → m' x = m x := by
  obtain ⟨hspell, hout⟩ := strcpy_spells ht (show t.length < fuel by omega) m (a + s.length)
  refine ⟨_, by rw [strcat, strlen_eq_some hs (by omega)]; rfl, ?_, hout⟩
  have hpre : ∀ i < s.length, bytesAt (strcpy m (a + s.length) f fuel) a i = bytesAt m a i :=
    fun i hi => hout (a + i) (Or.inl (by omega))
  generalize strcpy m (a + s.length) f fuel = m' at hspell hpre
  clear hout hfuel
  -- walk over the first string
  induction s generalizing a with
  | nil => exact hspell
  | cons c s ih =>
      obtain ⟨hc, hc0, hs⟩ := hs
      have hshift : ∀ m : Mem, (fun i => bytesAt m a (i + 1)) = bytesAt m (a + 1) := by
        intro m
        funext i
        simp only [bytesAt]
        congr 1
        omega
      refine ⟨(hpre 0 (by simp)).trans hc, hc0, ?_⟩
      rw [hshift] at hs ⊢
      refine ih hs ?_ (fun i hi => ?_)
      · rwa [Nat.add_assoc, Nat.add_comm 1, ← List.length_cons]
      · have := hpre (i + 1) (by simpa using hi)
        simp only [bytesAt] at this ⊢
        rwa [Nat.add_assoc, Nat.add_comm 1]

/-! ## Fields of fixed width -/

/-- The stream `f` starts with the characters `s`. -/
def Starts : (Nat → UInt8) → List UInt8 → Prop
  | _, [] => True
  | f, c :: s => f 0 = c ∧ c ≠ 0 ∧ Starts (fun i => f (i + 1)) s

/-- The field of `n` bytes at the start of `f` holds the string `s`, which fills it or ends
with a NUL. -/
structure Field (f : Nat → UInt8) (n : Nat) (s : List UInt8) : Prop where
  starts : Starts f s
  le : s.length ≤ n
  ends : s.length < n → f s.length = 0

theorem Starts.congr (h : Starts f s) (hg : ∀ i < s.length, g i = f i) : Starts g s := by
  induction s generalizing f g with
  | nil => trivial
  | cons c s ih =>
      exact ⟨(hg 0 (by simp)).trans h.1, h.2.1, ih h.2.2 (fun i hi => hg (i + 1) (by simpa using hi))⟩

theorem starts_replicate {n : Nat} {c : UInt8} (hc : c ≠ 0) (hf : ∀ i < n, f i = c) :
    Starts f (List.replicate n c) := by
  induction n generalizing f with
  | zero => trivial
  | succ n ih => exact ⟨hf 0 (by omega), hc, ih (fun i hi => hf (i + 1) (by omega))⟩

theorem spells_iff_starts : Spells f s ↔ Starts f s ∧ f s.length = 0 := by
  induction s generalizing f with
  | nil => simp [Spells, Starts]
  | cons c s ih => simp only [Spells, Starts, ih, List.length_cons, and_assoc]

/-- What a stream spells goes on from what it starts with. -/
theorem Starts.isPrefix (hs : Starts f s) (ht : Spells f t) : s <+: t := by
  induction s generalizing f t with
  | nil => exact List.nil_prefix
  | cons c s ih =>
      cases t with
      | nil => exact absurd (hs.1.symm.trans ht) hs.2.1
      | cons d t =>
          obtain rfl : c = d := hs.1.symm.trans ht.1
          exact (List.prefix_cons_inj c).mpr (ih hs.2.2 ht.2.2)

/-- The string of a field is what the stream spells, if a NUL follows. -/
theorem Field.spells {n : Nat} (h : Field f n s) (hend : s.length < n ∨ f n = 0) : Spells f s := by
  refine spells_iff_starts.mpr ⟨h.starts, ?_⟩
  by_cases hlt : s.length < n
  · exact h.ends hlt
  · have hn : s.length = n := le_antisymm h.le (not_lt.mp hlt)
    rw [hn]
    exact hend.resolve_left hlt

/-- A field that is full with no NUL behind it spells longer strings only. -/
theorem Field.lt_of_spells {n : Nat} (h : Field f n s) (hlen : s.length = n) (hn : f n ≠ 0)
    (ht : Spells f t) : n < t.length := by
  have hpre := h.starts.isPrefix ht
  refine lt_of_le_of_ne (hlen ▸ hpre.length_le) (fun he => hn ?_)
  rw [he]
  exact (spells_iff_starts.mp ht).2

/-- Among the strings too short to fill the field, the stream spells the field's. -/
theorem Field.spells_iff {n : Nat} (h : Field f n s) (ht : t.length < n) :
    Spells f t ↔ s = t := by
  constructor
  · intro hspell
    have hle := (h.starts.isPrefix hspell).length_le
    exact (h.spells (Or.inl (by omega))).unique hspell
  · rintro rfl
    exact h.spells (Or.inl ht)

end

end CString
