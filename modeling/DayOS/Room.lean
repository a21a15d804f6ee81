import DayOS.KernelSpace

set_option autoImplicit false

/-! # When there is room

The calls of `vmm.c` fail for want of pages only. Counting the pages of the pool in use, and
the frames behind the heap that are free, says when a call returns: a context needs two pages,
a page needs a frame and at most one page for a table, and the boot needs a table for each 4 MB
up to the heap's end.
-/

namespace DayOS

open ByteMemory Paging

/-- The pages of the pool in use, counted from its start. -/
def usedPages (L : Layout) (s : Pmm) : Finset Nat :=
  (Finset.range 0x200).filter (fun j => s.Used (L.pagepoolStart / 0x1000 + j))

/-- How many pages of the pool are in use. -/
def poolCount (L : Layout) (s : Pmm) : Nat := (usedPages L s).card

/-- How many frames behind the heap are free. -/
def framesLeft (L : Layout) (s : Pmm) : Nat :=
  ((Finset.range (2 ^ 20)).filter (fun q => L.heapEnd ≤ 0x1000 * q ∧ ¬ s.Used q)).card

section
variable {L : Layout} {m₀ m m' : Mem} {s₀ s s' : Pmm} {K c p q vaddr sz : Nat}

/-! ## Counting -/

theorem poolPage_iff : L.PoolPage (0x1000 * q) ↔
    ∃ j < 0x200, q = L.pagepoolStart / 0x1000 + j := by
  have hal := L.pagepoolStart_aligned
  have hend : L.pagepoolEnd = L.pagepoolStart + 0x200000 := rfl
  constructor
  · intro h
    have := h.start
    have := h.stop
    exact ⟨q - L.pagepoolStart / 0x1000, by omega, by omega⟩
  · rintro ⟨j, hj, rfl⟩
    exact ⟨Nat.mul_mod_right _ _, by omega, by omega⟩

theorem mem_usedPages {j : Nat} :
    j ∈ usedPages L s ↔ j < 0x200 ∧ s.Used (L.pagepoolStart / 0x1000 + j) := by
  unfold usedPages
  rw [Finset.mem_filter, Finset.mem_range]

theorem poolCount_use : poolCount L (use s p) ≤ poolCount L s + 1 := by
  have hsub : usedPages L (use s p) ⊆
      insert (p / 0x1000 - L.pagepoolStart / 0x1000) (usedPages L s) := by
    intro j hj
    rw [mem_usedPages, used_use] at hj
    rw [Finset.mem_insert, mem_usedPages]
    rcases hj with ⟨hlt, he | hu⟩
    · exact Or.inl (by omega)
    · exact Or.inr ⟨hlt, hu⟩
  exact (Finset.card_le_card hsub).trans (Finset.card_insert_le _ _)

/-- A free page of the pool counts. -/
theorem poolCount_use_free (hp : L.PoolPage p) (hfree : ¬ s.Used (p / 0x1000)) :
    poolCount L (use s p) = poolCount L s + 1 := by
  have hpage := hp.page
  obtain ⟨j, hj, hpj⟩ := poolPage_iff.mp (hpage.symm ▸ hp)
  have hset : usedPages L (use s p) = insert j (usedPages L s) := by
    ext i
    rw [Finset.mem_insert, mem_usedPages, mem_usedPages, used_use]
    constructor
    · rintro ⟨hi, he | hu⟩
      · exact Or.inl (by omega)
      · exact Or.inr ⟨hi, hu⟩
    · rintro (rfl | ⟨hi, hu⟩)
      · exact ⟨hj, Or.inl hpj.symm⟩
      · exact ⟨hi, Or.inr hu⟩
  have hnot : j ∉ usedPages L s := fun hmem => by
    rw [mem_usedPages, ← hpj] at hmem
    exact hfree hmem.2
  unfold poolCount
  rw [hset, Finset.card_insert_of_notMem hnot]

theorem poolCount_le (L : Layout) (s : Pmm) : poolCount L s ≤ 0x200 := by
  have hcard := Finset.card_le_card (Finset.filter_subset
    (fun j => s.Used (L.pagepoolStart / 0x1000 + j)) (Finset.range 0x200))
  rw [Finset.card_range] at hcard
  exact hcard

theorem not_poolFull (h : poolCount L s < 0x200) : ¬ PoolFull L s := by
  intro hfull
  have hall : Finset.range 0x200 ⊆ usedPages L s := fun j hj => by
    have hlt := Finset.mem_range.mp hj
    exact mem_usedPages.mpr ⟨hlt, hfull _ (poolPage_iff.mpr ⟨j, hlt, rfl⟩)⟩
  have hcard := Finset.card_le_card hall
  rw [Finset.card_range] at hcard
  unfold poolCount at h
  omega

theorem framesLeft_use : framesLeft L s ≤ framesLeft L (use s p) + 1 := by
  have hsub : (Finset.range (2 ^ 20)).filter (fun q => L.heapEnd ≤ 0x1000 * q ∧ ¬ s.Used q) ⊆
      insert (p / 0x1000) ((Finset.range (2 ^ 20)).filter
        (fun q => L.heapEnd ≤ 0x1000 * q ∧ ¬ (use s p).Used q)) := by
    intro q hq
    rw [Finset.mem_filter] at hq
    rw [Finset.mem_insert, Finset.mem_filter, used_use, not_or]
    by_cases he : q = p / 0x1000
    · exact Or.inl he
    · exact Or.inr ⟨hq.1, hq.2.1, he, hq.2.2⟩
  exact (Finset.card_le_card hsub).trans (Finset.card_insert_le _ _)

theorem framesLeft_congr (h : ∀ q, L.heapEnd ≤ 0x1000 * q → (s'.Used q ↔ s.Used q)) :
    framesLeft L s' = framesLeft L s := by
  refine congrArg Finset.card (Finset.filter_congr (fun q _ => ?_))
  constructor
  · rintro ⟨hq, hu⟩
    exact ⟨hq, fun hu' => hu ((h q hq).mpr hu')⟩
  · rintro ⟨hq, hu⟩
    exact ⟨hq, fun hu' => hu ((h q hq).mp hu')⟩

/-- A page of the pool is no frame behind the heap. -/
theorem framesLeft_pool (hp : L.PoolPage p) : framesLeft L (use s p) = framesLeft L s := by
  refine framesLeft_congr (fun q hq => ?_)
  rw [used_use]
  have hne : q ≠ p / 0x1000 := by
    rintro rfl
    rw [hp.page] at hq
    have := hp.below
    have := L.heapEnd_eq
    omega
  exact ⟨fun hu => hu.resolve_left hne, Or.inr⟩

theorem le_framesLeft {n : Nat} (h : ∀ j < n, L.heapEnd / 0x1000 + j < 2 ^ 20 ∧
    ¬ s.Used (L.heapEnd / 0x1000 + j)) : n ≤ framesLeft L s := by
  have hal := L.heapEnd_aligned
  have hinj : Function.Injective (fun j => L.heapEnd / 0x1000 + j) := fun i j he => by
    simpa using he
  calc n = ((Finset.range n).image (fun j => L.heapEnd / 0x1000 + j)).card := by
        rw [Finset.card_image_of_injective _ hinj, Finset.card_range]
    _ ≤ framesLeft L s := Finset.card_le_card (fun q hq => by
        obtain ⟨j, hj, rfl⟩ := Finset.mem_image.mp hq
        have := h j (Finset.mem_range.mp hj)
        rw [Finset.mem_filter, Finset.mem_range]
        exact ⟨this.1, by omega, this.2⟩)

/-! ## Calls that return -/

theorem createUsermodeContext_returns (h : poolCount L s + 2 ≤ 0x200) :
    ∃ c m' s', createUsermodeContext L K m s = .ok (c, m', s') ∧
      poolCount L s' ≤ poolCount L s + 2 ∧ framesLeft L s' = framesLeft L s := by
  unfold createUsermodeContext
  rcases createContext_spec L m s with ⟨c, m₁, s₁, hc, d, hnew⟩ | ⟨-, hfull | ⟨p, hfull⟩⟩
  · refine ⟨c, _, s₁, bind_of_ok hc, ?_, ?_⟩
    · rw [hnew.pages]
      have h₁ := poolCount_use (L := L) (s := s) (p := c)
      have h₂ := poolCount_use (L := L) (s := use s c) (p := d)
      omega
    · rw [hnew.pages, framesLeft_pool hnew.dir, framesLeft_pool hnew.context]
  · exact absurd hfull (not_poolFull (by omega))
  · have h₁ := poolCount_use (L := L) (s := s) (p := p)
    exact absurd hfull (not_poolFull (by omega))

theorem userFrame_returns (h : 0 < framesLeft L s) :
    ∃ q, s.Lowest (fun q => L.heapEnd ≤ 0x1000 * q ∧ q < 2 ^ 20) q ∧
      userFrame L s = .ok (0x1000 * q, use s (0x1000 * q)) := by
  rcases userFrame_spec L s with hframe | ⟨hnone, -⟩
  · exact hframe
  · obtain ⟨q, hq⟩ := Finset.card_pos.mp h
    rw [Finset.mem_filter, Finset.mem_range] at hq
    exact absurd (hnone q hq.2.1 hq.1) hq.2.2

theorem mapPage_pages {virt phys userspace : Nat}
    (h : mapPage L m s c virt phys userspace = .ok (m', s')) :
    s' = s ∨ ∃ t, L.PoolPage t ∧ s' = use s t := by
  unfold mapPage at h
  simp only at h
  split at h
  case isTrue => cases h
  split at h
  case isTrue =>
      cases h
      exact Or.inl rfl
  case isFalse =>
      obtain ⟨⟨t, s₁⟩, hpage, h⟩ := bind_eq_ok.mp h
      obtain ⟨ht, -, rfl⟩ := poolPage_ok hpage
      cases h
      exact Or.inr ⟨t, ht, rfl⟩

theorem vmmAllocLoop_returns {endAddr fuel i n : Nat} (hal : i % 0x1000 = 0)
    (hend : endAddr ≤ 0xFFFFF000) (hpos : 0 < fuel) (hfuel : endAddr + 0x1000 ≤ i + 0x1000 * fuel)
    (hn : endAddr ≤ i + 0x1000 * n) (hframes : n ≤ framesLeft L s)
    (hpool : poolCount L s + n ≤ 0x200) :
    ∃ m' s', vmmAllocLoop L c endAddr fuel i m s = .ok (m', s') ∧
      poolCount L s' ≤ poolCount L s + n ∧ framesLeft L s ≤ framesLeft L s' + n := by
  induction fuel generalizing i m s n with
  | zero => omega
  | succ fuel ih =>
      rw [vmmAllocLoop]
      by_cases hlt : i < endAddr
      case neg =>
          rw [if_neg hlt]
          exact ⟨m, s, rfl, by omega, by omega⟩
      rw [if_pos hlt]
      obtain ⟨k, rfl⟩ : ∃ k, n = k + 1 := ⟨n - 1, by omega⟩
      obtain ⟨q, hq, hframe⟩ := userFrame_returns (show 0 < framesLeft L s by omega)
      have hkeep : poolCount L (use s (0x1000 * q)) = poolCount L s := by
        refine congrArg Finset.card (Finset.ext (fun j => ?_))
        rw [mem_usedPages, mem_usedPages, use_page]
        constructor
        · rintro ⟨hj, he | hu⟩
          · exact absurd (poolPage_iff.mpr ⟨j, hj, he.symm⟩) (not_poolPage hq.mem.1)
          · exact ⟨hj, hu⟩
        · rintro ⟨hj, hu⟩
          exact ⟨hj, Or.inr hu⟩
      have hleft := framesLeft_use (L := L) (s := s) (p := 0x1000 * q)
      rcases mapPage_returns (L := L) (m := m) (s := use s (0x1000 * q)) (c := c) hal
        (Nat.mul_mod_right 0x1000 q) with ⟨m₁, s₁, hmap⟩ | ⟨hfull, -⟩
      case inr => exact absurd hfull (not_poolFull (by omega))
      have hcount : poolCount L s₁ ≤ poolCount L s + 1 ∧
          framesLeft L s₁ = framesLeft L (use s (0x1000 * q)) := by
        rcases mapPage_pages hmap with rfl | ⟨t, ht, rfl⟩
        · exact ⟨by omega, rfl⟩
        · have := poolCount_use (L := L) (s := use s (0x1000 * q)) (p := t)
          exact ⟨by omega, framesLeft_pool ht⟩
      have hmod : (i + PAGESIZE) % 2 ^ 32 = i + 0x1000 := Nat.mod_eq_of_lt (by
        simp only [PAGESIZE]
        omega)
      obtain ⟨m', s', hrest, hp, hf⟩ := ih (i := i + 0x1000) (m := m₁) (s := s₁) (n := k)
        (by omega) (by omega) (by omega) (by omega) (by omega) (by omega)
      refine ⟨m', s', (bind_of_ok hframe).trans ((bind_of_ok hmap).trans ?_), by omega, by omega⟩
      rw [hmod]
      exact hrest

/-- A range that wraps around is empty to the loop, and the call returns at once. -/
theorem vmmAlloc_wraps (hlt : ¬ vaddr < (vaddr + sz) % 2 ^ 32) :
    vmmAlloc L m s c vaddr sz = .ok (m, s) := by
  have hloop : ∀ fuel, 0 < fuel →
      vmmAllocLoop L c ((vaddr + sz) % 2 ^ 32) fuel vaddr m s = .ok (m, s) := fun fuel hpos => by
    cases fuel with
    | zero => omega
    | succ fuel => rw [vmmAllocLoop, if_neg hlt]
  exact hloop walkLimit (by decide)

/-- From a start that is not aligned the first page fails the assertion. -/
theorem vmmAlloc_unaligned (hal : vaddr % 0x1000 ≠ 0) (hlt : vaddr < (vaddr + sz) % 2 ^ 32)
    (hframes : 0 < framesLeft L s) : vmmAlloc L m s c vaddr sz = .error .alignment := by
  obtain ⟨q, -, hframe⟩ := userFrame_returns hframes
  have hloop : ∀ fuel, 0 < fuel →
      vmmAllocLoop L c ((vaddr + sz) % 2 ^ 32) fuel vaddr m s = .error .alignment :=
    fun fuel hpos => by
      cases fuel with
      | zero => omega
      | succ fuel =>
          rw [vmmAllocLoop, if_pos hlt, bind_of_ok hframe]
          exact bind_of_error ((mapPage_alignment 1).mpr (Or.inl hal))
  exact hloop walkLimit (by decide)

/-- `vmm_alloc` returns when there are a frame and a page for each page of the range. -/
theorem vmmAlloc_returns (m : Mem) (s : Pmm) (c vaddr sz n : Nat) (hal : vaddr % 0x1000 = 0) (hend : vaddr + sz ≤ 0xFFFFF000)
    (hn : sz ≤ 0x1000 * n) (hframes : n ≤ framesLeft L s) (hpool : poolCount L s + n ≤ 0x200) :
    ∃ m' s', vmmAlloc L m s c vaddr sz = .ok (m', s') ∧
      poolCount L s' ≤ poolCount L s + n ∧ framesLeft L s ≤ framesLeft L s' + n := by
  have hmod : (vaddr + sz) % 2 ^ 32 = vaddr + sz := Nat.mod_eq_of_lt (by omega)
  unfold vmmAlloc
  rw [hmod]
  exact vmmAllocLoop_returns hal hend (by decide) (by simp only [walkLimit]; omega) (by omega)
    hframes hpool

/-! ## The boot -/

/-- The slots a context can have when only the words below `n` of its directory are in use. -/
def slotsBelow (n : Nat) : Finset Slot :=
  insert .context (insert .dir ((Finset.range n).image Slot.table))

theorem card_slotsBelow (n : Nat) : (slotsBelow n).card ≤ n + 2 := by
  have h₁ := Finset.card_insert_le Slot.context (insert .dir ((Finset.range n).image Slot.table))
  have h₂ := Finset.card_insert_le Slot.dir ((Finset.range n).image Slot.table)
  have h₃ := Finset.card_image_le (s := Finset.range n) (f := Slot.table)
  rw [Finset.card_range] at h₃
  unfold slotsBelow
  omega

/-- A context's pages are no more than its slots. -/
theorem usedPages_subset {base : Nat → Nat} {n : Nat} (h : Spaces L base m₀ s₀ m s [c])
    (hn : ∀ k p, pageAt base m c k = some p → k ∈ slotsBelow n) :
    usedPages L s ⊆ usedPages L s₀ ∪ (slotsBelow n).image
      (fun k => ((pageAt base m c k).getD 0) / 0x1000 - L.pagepoolStart / 0x1000) := by
  intro j hj
  rw [mem_usedPages] at hj
  have hpool : L.PoolPage (0x1000 * (L.pagepoolStart / 0x1000 + j)) :=
    poolPage_iff.mpr ⟨j, hj.1, rfl⟩
  have hdiv : 0x1000 * (L.pagepoolStart / 0x1000 + j) / 0x1000 = L.pagepoolStart / 0x1000 + j :=
    Nat.mul_div_cancel_left _ (by decide)
  have hused := h.used _ hpool
  rw [hdiv] at hused
  rw [Finset.mem_union, mem_usedPages, Finset.mem_image]
  rcases hused.mp hj.2 with hu | ⟨x, hx, k, hk⟩
  · exact Or.inl ⟨hj.1, hu⟩
  · rw [List.mem_singleton] at hx
    subst hx
    refine Or.inr ⟨k, hn k _ hk, ?_⟩
    rw [hk, Option.getD_some, hdiv]
    omega

/-- The pages of the kernel context: two, and a table for each 4 MB. -/
theorem Booting.poolCount_le {R : Nat → Prop} (b : Booting L R m₀ s₀ K m s) :
    poolCount L s ≤ poolCount L s₀ + (3 + L.heapEnd / 0x400000) := by
  have hslot : ∀ k p, pageAt (fun _ => 0) m K k = some p →
      k ∈ slotsBelow (L.heapEnd / 0x400000 + 1) := fun k p hk => by
    unfold slotsBelow
    rw [Finset.mem_insert, Finset.mem_insert, Finset.mem_image]
    cases k with
    | context => exact Or.inl rfl
    | dir => exact Or.inr (Or.inl rfl)
    | table i =>
        obtain ⟨hi, hne, -⟩ := pageAt_table.mp hk
        have hlow := b.words i hi hne
        exact Or.inr (Or.inr ⟨i, Finset.mem_range.mpr (by omega), rfl⟩)
  have hcard := (Finset.card_le_card (usedPages_subset b.spaces hslot)).trans
    (Finset.card_union_le _ _)
  have himage := (Finset.card_image_le (s := slotsBelow (L.heapEnd / 0x400000 + 1))
    (f := fun k => ((pageAt (fun _ => 0) m K k).getD 0) / 0x1000 - L.pagepoolStart / 0x1000)).trans
    (card_slotsBelow _)
  unfold poolCount
  omega

/-- `InitVmm` returns when the pool has room for the kernel's tables. -/
theorem initVmm_returns (L : Layout) (m₀ : Mem) (s₀ : Pmm)
    (h : poolCount L s₀ + (3 + L.heapEnd / 0x400000) < 0x200) :
    ∃ K m s, initVmm L m₀ s₀ = .ok (K, m, s) ∧
      poolCount L s ≤ poolCount L s₀ + (3 + L.heapEnd / 0x400000) ∧
      ∀ q, L.heapEnd ≤ 0x1000 * q → (s.Used q ↔ s₀.Used q) := by
  rcases initVmm_spec L m₀ s₀ with
    ⟨K, m, s, hok, -, R, b⟩ | ⟨-, hfull | ⟨p, hfull⟩ | ⟨K, m, s, R, b, hfull⟩⟩
  · exact ⟨K, m, s, hok, b.poolCount_le, fun q hq => b.frames q (not_poolPage hq)⟩
  · exact absurd hfull (not_poolFull (by omega))
  · have := poolCount_use (L := L) (s := s₀) (p := p)
    exact absurd hfull (not_poolFull (by omega))
  · have := b.poolCount_le
    exact absurd hfull (not_poolFull (by omega))

end

end DayOS
