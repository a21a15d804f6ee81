import DayOS.Walks
import DayOS.VmmRun

set_option autoImplicit false

/-! # The range that `map_range` maps

The loop of `map_range` compares with `<=`, where `vmm_alloc` compares with `<`: it maps the page
behind the range too, and a range that ends at the last page of the address space never ends.
So the pages outside the range keep their translations only when the page behind it had the
frame behind the frames already, and after `InitVmm` the kernel context maps the page at
`HEAP_END`, the first one that the frame allocator hands out.
-/

namespace DayOS

open ByteMemory Paging

/-- What `map_range` is for: the pages of `[startVirt, startVirt + size)` are at the frames from
`startPhys` on, and all others where they were. -/
def MapsRange (m m' : Mem) (context startVirt startPhys size : Nat) : Prop :=
  ∀ va < 2 ^ 32, translate m' (pagedir m' context) va =
    if startVirt ≤ va ∧ va < startVirt + size then some (startPhys + (va - startVirt))
    else translate m (pagedir m context) va

instance (start last v : Nat) : Decidable (UpTo start last v) :=
  inferInstanceAs (Decidable (_ ∧ _))

section
variable {L : Layout} {m m' : Mem} {s s' : Pmm} {c d fuel i phys last userspace : Nat}

/-! ## The loop -/

/-- Every page from the cursor up to `last` gets the next frame, and no other page changes. -/
theorem mapRangeLoop_walk (hw : Walkable L m s c d) (hi : i < 2 ^ 32) (hlast : last < 0xFFFFF000)
    (hphys : phys < 2 ^ 32) (hfit : phys + (last - i) < 2 ^ 32)
    (h : mapRangeLoop L c last userspace fuel i phys m s = .ok (m', s')) :
    Walkable L m' s' c d ∧ ∀ v < 2 ^ 20, pte m' d v =
      if UpTo i last v then phys + (0x1000 * v - i) + mapFlags userspace else pte m d v := by
  induction fuel generalizing i phys m s with
  | zero => cases h
  | succ fuel ih =>
      rw [mapRangeLoop] at h
      by_cases hle : i ≤ last
      case neg =>
          rw [if_neg hle] at h
          obtain ⟨rfl, rfl⟩ := Prod.mk.inj (Except.ok.inj h)
          refine ⟨hw, fun v _ => ?_⟩
          rw [if_neg (fun hv => hle (hv.1.trans hv.2))]
      rw [if_pos hle] at h
      obtain ⟨⟨m₁, s₁⟩, hmap, hrest⟩ := bind_eq_ok.mp h
      obtain ⟨hal, -, -, hw₁, hpte⟩ := mapPage_walk hw hi hphys hmap
      have hnext : (i + PAGESIZE) % 2 ^ 32 = i + 0x1000 := Nat.mod_eq_of_lt (by
        simp only [PAGESIZE]
        omega)
      -- the next frame is used only if the next page is in the range
      have hframe : (phys + PAGESIZE) % 2 ^ 32 = (phys + 0x1000) % 2 ^ 32 := rfl
      rw [hnext, hframe] at hrest
      have hcase : i + 0x1000 ≤ last → (phys + 0x1000) % 2 ^ 32 = phys + 0x1000 := by omega
      obtain ⟨hw', hpte'⟩ := ih hw₁ (by omega) (Nat.mod_lt _ (by decide)) (by omega) hrest
      refine ⟨hw', fun v hv => ?_⟩
      rw [hpte' v hv]
      by_cases hin : UpTo (i + 0x1000) last v
      · have hlow := hin.1
        have hhigh := hin.2
        rw [if_pos hin, if_pos ⟨by omega, hhigh⟩, hcase (by omega)]
        omega
      · rw [if_neg hin, hpte v hv, Function.update_apply]
        by_cases heq : v = i / 0x1000
        · rw [if_pos heq, if_pos ⟨by omega, by omega⟩]
          omega
        · rw [if_neg heq, if_neg (fun hin' => hin ⟨?_, hin'.2⟩)]
          have := hin'.1
          omega

/-- Up to the last page of the address space every cursor passes the comparison. -/
theorem mapRangeLoop_endless (hi : i < 2 ^ 32) (hal : i % 0x1000 = 0) (hlast : 0xFFFFF000 ≤ last) :
    mapRangeLoop L c last userspace fuel i phys m s ≠ .ok (m', s') := by
  induction fuel generalizing i phys m s with
  | zero => exact fun h => nomatch h
  | succ fuel ih =>
      intro h
      rw [mapRangeLoop, if_pos (by omega)] at h
      obtain ⟨⟨m₁, s₁⟩, -, hrest⟩ := bind_eq_ok.mp h
      have hnext : (i + PAGESIZE) % 2 ^ 32 = (i + 0x1000) % 2 ^ 32 := rfl
      rw [hnext] at hrest
      exact ih (Nat.mod_lt _ (by decide)) (by omega) hrest

/-- **What `map_range` maps**: the range, and the page behind it. -/
theorem mapRange_walk {startVirt startPhys size : Nat} (hw : Walkable L m s c d)
    (hvirt : startVirt % 0x1000 = 0) (hsize : size % 0x1000 = 0)
    (hwrap : startVirt + size < 2 ^ 32) (hwrap' : startPhys + size < 2 ^ 32)
    (h : mapRange L c m s startVirt startPhys size userspace = .ok (m', s')) :
    Walkable L m' s' c d ∧ ∀ v < 2 ^ 20, pte m' d v =
      if UpTo startVirt (startVirt + size) v then
        startPhys + (0x1000 * v - startVirt) + mapFlags userspace
      else pte m d v := by
  unfold mapRange at h
  rw [Nat.mod_eq_of_lt hwrap] at h
  by_cases hlast : startVirt + size < 0xFFFFF000
  · exact mapRangeLoop_walk hw (by omega) hlast (by omega) (by omega) h
  · exact absurd h (mapRangeLoop_endless (by omega) hvirt (by omega))

/-- `map_range` returns when there is a page in the pool for each table it may need. -/
theorem mapRangeLoop_returns {n : Nat} (hal : i % 0x1000 = 0) (halp : phys % 0x1000 = 0)
    (hlast : last < 0xFFFFF000) (hpos : 0 < fuel) (hfuel : last + 0x1000 < i + 0x1000 * fuel)
    (hn : last < i + 0x1000 * n) (hpool : poolCount L s + n ≤ 0x200) :
    ∃ m' s', mapRangeLoop L c last 1 fuel i phys m s = .ok (m', s') ∧
      poolCount L s' ≤ poolCount L s + n := by
  induction fuel generalizing i phys m s n with
  | zero => omega
  | succ fuel ih =>
      rw [mapRangeLoop]
      by_cases hle : i ≤ last
      case neg =>
          rw [if_neg hle]
          exact ⟨m, s, rfl, by omega⟩
      rw [if_pos hle]
      obtain ⟨k, rfl⟩ : ∃ k, n = k + 1 := ⟨n - 1, by omega⟩
      rcases mapPage_returns (L := L) (m := m) (s := s) (c := c) hal halp with
        ⟨m₁, s₁, hmap⟩ | ⟨hfull, -⟩
      case inr => exact absurd hfull (not_poolFull (by omega))
      have hcount : poolCount L s₁ ≤ poolCount L s + 1 := by
        rcases mapPage_pages hmap with rfl | ⟨t, -, rfl⟩
        · omega
        · exact poolCount_use
      have hnext : (i + PAGESIZE) % 2 ^ 32 = i + 0x1000 := Nat.mod_eq_of_lt (by
        simp only [PAGESIZE]
        omega)
      have hframe : (phys + PAGESIZE) % 2 ^ 32 % 0x1000 = 0 := by
        simp only [PAGESIZE]
        omega
      obtain ⟨m', s', hrest, hp⟩ := @ih m₁ s₁ (i + 0x1000) ((phys + PAGESIZE) % 2 ^ 32) k (by omega) hframe (by omega) (by omega) (by omega) (by omega)
      refine ⟨m', s', (bind_of_ok hmap).trans ?_, by omega⟩
      rw [hnext]
      exact hrest

/-! ## The law -/

/-- The page behind the range keeps its translation only when it had the next frame. -/
theorem mapsRange_iff {startVirt startPhys size : Nat} (hw : Walkable L m s c d)
    (hvirt : startVirt % 0x1000 = 0) (hphys : startPhys % 0x1000 = 0) (hsize : size % 0x1000 = 0)
    (hwrap : startVirt + size < 2 ^ 32) (hwrap' : startPhys + size < 2 ^ 32)
    (h : mapRange L c m s startVirt startPhys size userspace = .ok (m', s')) :
    MapsRange m m' c startVirt startPhys size ↔
      translate m (pagedir m c) (startVirt + size) = some (startPhys + size) := by
  obtain ⟨hw', hpte⟩ := mapRange_walk hw hvirt hsize hwrap hwrap' h
  obtain ⟨hf7, hfodd⟩ := mapFlags_le userspace
  have htrans : ∀ va < 2 ^ 32, translate m' d va =
      if UpTo startVirt (startVirt + size) (va / 0x1000) then
        some (startPhys + (va - startVirt)) else translate m d va := by
    intro va hva
    by_cases hin : UpTo startVirt (startVirt + size) (va / 0x1000)
    · have hword := hpte (va / 0x1000) (by omega)
      have hlow := hin.1
      rw [if_pos hin] at hword ⊢
      rw [translate_of_pte hword (by omega) (by omega) hfodd]
      congr 1
      omega
    · have hword := hpte (va / 0x1000) (by omega)
      rw [if_neg hin] at hword ⊢
      exact translate_congr hword
  unfold MapsRange
  rw [hw.pagedir, hw'.pagedir]
  constructor
  · intro hlaw
    -- the first byte behind the range
    have hlast := hlaw _ hwrap
    have hpage : UpTo startVirt (startVirt + size) ((startVirt + size) / 0x1000) := by
      constructor <;> omega
    rw [htrans _ hwrap, if_pos hpage, if_neg (by omega)] at hlast
    rw [← hlast]
    congr 1
    omega
  · intro hlast va hva
    rw [htrans va hva]
    by_cases hin : startVirt ≤ va ∧ va < startVirt + size
    · have hpage : UpTo startVirt (startVirt + size) (va / 0x1000) := by
        constructor <;> omega
      rw [if_pos hin, if_pos hpage]
    · rw [if_neg hin]
      by_cases hpage : UpTo startVirt (startVirt + size) (va / 0x1000)
      · rw [if_pos hpage]
        have hlow := hpage.1
        have hhigh := hpage.2
        -- the page behind the range, which the condition is about
        have hstop : 0x1000 * (va / 0x1000) = startVirt + size := by omega
        rw [← hstop] at hlast
        rw [translate_in_page, hlast, Option.map_some]
        congr 1
        omega
      · rw [if_neg hpage]

/-- Behind `InitVmm` the page at `HEAP_END` is mapped, and no page above it. -/
theorem initVmm_heapEnd {m₀ : Mem} {s₀ : Pmm} {K va : Nat} (hboot : initVmm L m₀ s₀ = .ok (K, m, s))
    (hlow : L.heapEnd ≤ va) (hva : va < 2 ^ 32) : translate m (pagedir m K) va =
      if va < L.heapEnd + 0x1000 then some va else none := by
  obtain ⟨hK, -⟩ := initVmm_ok hboot
  have hal := L.heapEnd_aligned
  by_cases hpage : va < L.heapEnd + 0x1000
  · have hword := hK.mapped (va / 0x1000) (by omega)
    rw [if_pos hpage, translate_of_pte hword (Nat.mul_mod_right _ _) (by decide) (by decide),
      Nat.div_add_mod]
  · rw [if_neg hpage, translate_of_zero (hK.unmapped (va / 0x1000) (by omega) (by omega))]

/-! ## The first context -/

/-- With an empty bitmap there is a new context, and room for more. -/
theorem exists_newContext : ∃ c d m s,
    NewContext Layout.least (fun _ => 0) (fun _ => 0) emptyPmm c d m s ∧
      poolCount Layout.least s ≤ 2 := by
  have hzero : poolCount Layout.least emptyPmm = 0 := poolCount_emptyPmm
  have hone : ∀ p, poolCount Layout.least (use emptyPmm p) ≤ 1 := fun p => by
    have := poolCount_use (L := Layout.least) (s := emptyPmm) (p := p)
    omega
  rcases createContext_spec Layout.least (fun _ => 0) emptyPmm with
    ⟨c, m, s, -, d, hnew⟩ | ⟨-, hfull | ⟨p, hfull⟩⟩
  · refine ⟨c, d, m, s, hnew, ?_⟩
    rw [hnew.pages]
    have := poolCount_use (L := Layout.least) (s := use emptyPmm c) (p := d)
    have := hone c
    omega
  · exact absurd hfull (not_poolFull (by omega))
  · have := hone p
    exact absurd hfull (not_poolFull (by omega))

/-- One page is asked for in a context in which nothing is mapped yet. -/
theorem mapRange_newContext {c d : Nat} {m : Mem} {s : Pmm}
    (hw : Walkable Layout.least m s c d) (hcount : poolCount Layout.least s ≤ 100) :
    ∃ m' s', mapRange Layout.least c m s 0x1000 0x1000 0x1000 1 = .ok (m', s') ∧
      Walkable Layout.least m' s' c d ∧ poolCount Layout.least s' ≤ poolCount Layout.least s + 2 ∧
      ∀ v < 2 ^ 20, pte m' d v = if v = 1 ∨ v = 2 then 0x1000 * v + 7 else pte m d v := by
  have hlast : (0x1000 + 0x1000) % 2 ^ 32 = 0x2000 := rfl
  obtain ⟨m', s', hloop, hcount'⟩ := @mapRangeLoop_returns Layout.least m s c walkLimit 0x1000
    0x1000 0x2000 2 (by decide) (by decide) (by decide) (by decide) (by decide) (by decide) (by omega)
  have hmap : mapRange Layout.least c m s 0x1000 0x1000 0x1000 1 = .ok (m', s') := by
    unfold mapRange
    rw [hlast]
    exact hloop
  obtain ⟨hw', hpte⟩ := mapRange_walk hw (by decide) (by decide) (by decide) (by decide) hmap
  refine ⟨m', s', hmap, hw', hcount', fun v hv => ?_⟩
  rw [hpte v hv]
  have hflags : mapFlags 1 = 7 := rfl
  by_cases hin : v = 1 ∨ v = 2
  · have hup : UpTo 0x1000 (0x1000 + 0x1000) v := by
      constructor <;> omega
    rw [if_pos hin, if_pos hup, hflags]
    omega
  · have hup : ¬ UpTo 0x1000 (0x1000 + 0x1000) v := fun hup => by
      have := hup.1
      have := hup.2
      omega
    rw [if_neg hin, if_neg hup]

/-- **`map_range` is exact if and only if the page behind the range was there already**, at the
frame behind the frames; and behind `InitVmm`, of the pages from `HEAP_END` on, the kernel
context maps the first. -/
theorem map_range_exact {startVirt startPhys size : Nat} (hw : Walkable L m s c d)
    (hvirt : startVirt % 0x1000 = 0) (hphys : startPhys % 0x1000 = 0) (hsize : size % 0x1000 = 0)
    (hwrap : startVirt + size < 2 ^ 32) (hwrap' : startPhys + size < 2 ^ 32)
    (h : mapRange L c m s startVirt startPhys size userspace = .ok (m', s')) :
    (MapsRange m m' c startVirt startPhys size ↔
      translate m (pagedir m c) (startVirt + size) = some (startPhys + size)) ∧
    ∀ m₀ s₀ K m₁ s₁, initVmm L m₀ s₀ = .ok (K, m₁, s₁) → ∀ va, L.heapEnd ≤ va → va < 2 ^ 32 →
      translate m₁ (pagedir m₁ K) va = if va < L.heapEnd + 0x1000 then some va else none := by
  constructor
  · exact mapsRange_iff hw hvirt hphys hsize hwrap hwrap' h
  · intro m₀ s₀ K m₁ s₁ hboot va hlow hva
    exact initVmm_heapEnd hboot hlow hva

/-- In a new context a second call for the same page is exact, and the first is not. -/
theorem map_range_exact_twice : ∃ c m s m₁ s₁ m₂ s₂,
    mapRange Layout.least c m s 0x1000 0x1000 0x1000 1 = .ok (m₁, s₁) ∧
    mapRange Layout.least c m₁ s₁ 0x1000 0x1000 0x1000 1 = .ok (m₂, s₂) ∧
    ¬ MapsRange m m₁ c 0x1000 0x1000 0x1000 ∧ MapsRange m₁ m₂ c 0x1000 0x1000 0x1000 := by
  obtain ⟨c, d, m, s, hnew, hcount⟩ := exists_newContext
  have hw := hnew.walkable_empty
  obtain ⟨m₁, s₁, h₁, hw₁, hcount₁, hpte₁⟩ := mapRange_newContext hw (by omega)
  obtain ⟨m₂, s₂, h₂, -⟩ := mapRange_newContext hw₁ (by omega)
  refine ⟨c, m, s, m₁, s₁, m₂, s₂, h₁, h₂, fun hlaw => ?_, ?_⟩
  · -- the page behind the range had no frame
    have hlast := (map_range_exact hw (by decide) (by decide) (by decide) (by decide) (by decide)
      h₁).1.mp hlaw
    rw [hnew.pagedir, translate_of_zero (pte_of_even (by rw [hnew.words _ (by decide)]))] at hlast
    cases hlast
  · refine (map_range_exact hw₁ (by decide) (by decide) (by decide) (by decide) (by decide)
      h₂).1.mpr ?_
    have hword := hpte₁ 2 (by decide)
    rw [if_pos (Or.inr rfl)] at hword
    rw [hw₁.pagedir]
    exact translate_of_pte hword (by decide) (by decide) (by decide)

/-- A page outside the range changes, and the boot maps the page at `HEAP_END`. -/
theorem map_range_exact_fails :
    (∃ c d m s m' s', Walkable Layout.least m s c d ∧
      mapRange Layout.least c m s 0x1000 0x1000 0x1000 1 = .ok (m', s') ∧
      translate m (pagedir m c) 0x2000 = none ∧ translate m' (pagedir m' c) 0x2000 = some 0x2000) ∧
    ∃ K m s, initVmm Layout.least (fun _ => 0) emptyPmm = .ok (K, m, s) ∧
      translate m (pagedir m K) Layout.least.heapEnd = some Layout.least.heapEnd := by
  constructor
  · obtain ⟨c, d, m, s, hnew, hcount⟩ := exists_newContext
    have hw := hnew.walkable_empty
    obtain ⟨m', s', h, hw', -, hpte⟩ := mapRange_newContext hw (by omega)
    refine ⟨c, d, m, s, m', s', hw, h, ?_, ?_⟩
    · rw [hnew.pagedir]
      exact translate_of_zero (pte_of_even (by rw [hnew.words _ (by decide)]))
    · have hword := hpte 2 (by decide)
      rw [if_pos (Or.inr rfl)] at hword
      rw [hw'.pagedir]
      exact translate_of_pte hword (by decide) (by decide) (by decide)
  · have hend : Layout.least.heapEnd = 0x1701000 := rfl
    obtain ⟨K, m, s, hboot, -⟩ := initVmm_returns Layout.least (fun _ => 0) emptyPmm
      (by rw [poolCount_emptyPmm]; decide)
    refine ⟨K, m, s, hboot, ?_⟩
    rw [initVmm_heapEnd hboot le_rfl (by omega), if_pos (by omega)]

end

end DayOS
