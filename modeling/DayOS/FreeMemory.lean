import DayOS.Pmm

set_option autoImplicit false

/-! # The counter of free memory (`pmm.c`)

`use` and `pmm_free` change `free_memory` by a page whether or not they change the bit, and
`InitPmm` starts from a counter of zero and a bitmap in which everything is free. So after the
boot the counter is off by what the boot has marked twice or never freed, and it stays off by
that: `free_memory_counts` says when this is nothing.
-/

namespace DayOS

/-- The number of pages that the bitmap marks as free. -/
def freePages (s : Pmm) : Nat := ((Finset.range MEMORY_SIZE).filter (fun q => ¬ s.Used q)).card

/-- The counter agrees with the bitmap. -/
def Counts (s : Pmm) : Prop := s.freeMemory = 4096 * freePages s % 2 ^ 32

/-- The addresses held after an allocation that returned `p`. -/
def taken (p : Nat) (out : List Nat) : List Nat := if p = NULL then out else p :: out

/-- The states that a run from `s₀` reaches, with the addresses handed out and not yet freed. -/
inductive PageRun (s₀ : Pmm) : Pmm → List Nat → Prop
  | start : PageRun s₀ s₀ []
  | alloc {s s' : Pmm} {out : List Nat} {start endAddr p : Nat} : PageRun s₀ s out →
      start < 2 ^ 32 → pmmAlloc s start endAddr = some (p, s') → PageRun s₀ s' (taken p out)
  | allocStart {s s' : Pmm} {out : List Nat} {start p : Nat} : PageRun s₀ s out →
      start < 2 ^ 32 → pmmAllocStart s start = (p, s') → PageRun s₀ s' (taken p out)
  | free {s : Pmm} {out : List Nat} {p : Nat} : PageRun s₀ s out → p ∈ out →
      PageRun s₀ (pmmFree s p) (out.erase p)

/-- The number of pages that the bitmap marks as used. -/
def usedCount (s : Pmm) : Nat := ((Finset.range MEMORY_SIZE).filter (fun q => s.Used q)).card

/-- What the counter and the pages in use add up to. -/
def balance (s : Pmm) : Nat := (s.freeMemory + 4096 * usedCount s) % 2 ^ 32

/-- What holds in every state of a run from `s₀`. -/
structure Balanced (s₀ s : Pmm) (out : List Nat) : Prop where
  balance : balance s = DayOS.balance s₀
  lt : s.freeMemory < 2 ^ 32
  null : s.Used 0
  held : ∀ p ∈ out, p < 2 ^ 32 ∧ p / 0x1000 ≠ 0 ∧ s.Used (p / 0x1000)
  apart : (out.map (· / 0x1000)).Nodup

section
variable {L : Layout} {info : MultibootInfo} {s₀ s s' : Pmm} {out xs : List Nat}
  {p q start endAddr : Nat}

/-! ## Counter and bitmap -/

theorem memorySize_eq : MEMORY_SIZE = 2 ^ 20 := by decide

theorem freePages_add : freePages s + usedCount s = 2 ^ 20 := by
  have hsum := Finset.card_filter_add_card_filter_not (s := Finset.range MEMORY_SIZE)
    (fun q => s.Used q)
  rw [Finset.card_range, memorySize_eq] at hsum
  unfold freePages usedCount
  rw [Nat.add_comm, memorySize_eq]
  exact hsum

theorem counts_iff (hlt : s.freeMemory < 2 ^ 32) : Counts s ↔ balance s = 0 := by
  have hsum := freePages_add (s := s)
  unfold Counts balance
  omega

/-- Marking a free page takes it from the counter and adds it to the pages in use. -/
theorem usedCount_use (hp : p < 2 ^ 32) (hfree : ¬ s.Used (p / 0x1000)) :
    usedCount (use s p) = usedCount s + 1 := by
  have hset : (Finset.range MEMORY_SIZE).filter (fun q => (use s p).Used q)
      = insert (p / 0x1000) ((Finset.range MEMORY_SIZE).filter (fun q => s.Used q)) := by
    ext q
    rw [Finset.mem_filter, Finset.mem_insert, Finset.mem_filter, used_use, Finset.mem_range]
    constructor
    · rintro ⟨hq, rfl | hused⟩
      · exact Or.inl rfl
      · exact Or.inr ⟨hq, hused⟩
    · rintro (rfl | ⟨hq, hused⟩)
      · exact ⟨by rw [memorySize_eq]; omega, Or.inl rfl⟩
      · exact ⟨hq, Or.inr hused⟩
  unfold usedCount
  rw [hset]
  apply Finset.card_insert_of_notMem
  rw [Finset.mem_filter]
  exact fun h => hfree h.2

theorem usedCount_pmmFree (hp : p < 2 ^ 32) (hused : s.Used (p / 0x1000)) :
    usedCount (pmmFree s p) + 1 = usedCount s := by
  have hset : (Finset.range MEMORY_SIZE).filter (fun q => s.Used q)
      = insert (p / 0x1000) ((Finset.range MEMORY_SIZE).filter (fun q => (pmmFree s p).Used q)) := by
    ext q
    rw [Finset.mem_filter, Finset.mem_insert, Finset.mem_filter, used_pmmFree, Finset.mem_range]
    constructor
    · rintro ⟨hq, hu⟩
      by_cases he : q = p / 0x1000
      · exact Or.inl he
      · exact Or.inr ⟨hq, he, hu⟩
    · rintro (rfl | ⟨hq, -, hu⟩)
      · exact ⟨by rw [memorySize_eq]; omega, hused⟩
      · exact ⟨hq, hu⟩
  unfold usedCount
  rw [hset]
  symm
  apply Finset.card_insert_of_notMem
  rw [Finset.mem_filter, used_pmmFree]
  exact fun h => h.2.1 rfl

theorem balance_use (hp : p < 2 ^ 32) (hfree : ¬ s.Used (p / 0x1000)) :
    balance (use s p) = balance s := by
  have hmem : (use s p).freeMemory = (s.freeMemory + 2 ^ 32 - 0x1000) % 2 ^ 32 := rfl
  unfold balance
  rw [usedCount_use hp hfree, hmem]
  omega

theorem balance_pmmFree (hp : p < 2 ^ 32) (hused : s.Used (p / 0x1000)) :
    balance (pmmFree s p) = balance s := by
  have hmem : (pmmFree s p).freeMemory = (s.freeMemory + 0x1000) % 2 ^ 32 := rfl
  have hcount := usedCount_pmmFree hp hused
  unfold balance
  rw [hmem]
  omega

/-! ## One allocation -/

theorem pmmAllocScan_some {fuel i : Nat} (hi : i < 2 ^ 32)
    (h : pmmAllocScan s endAddr fuel i = some (p, s')) :
    (p = NULL ∧ s' = s) ∨ (p < 2 ^ 32 ∧ ¬ s.Used (p / 0x1000) ∧ s' = use s p) := by
  induction fuel generalizing i with
  | zero => cases h
  | succ fuel ih =>
      rw [pmmAllocScan] at h
      split at h
      case isFalse =>
          cases h
          exact Or.inl ⟨rfl, rfl⟩
      case isTrue =>
          split at h
          case isTrue hfree =>
              cases h
              exact Or.inr ⟨hi, isFree_eq_zero.mp hfree, rfl⟩
          case isFalse => exact ih (Nat.mod_lt _ (by decide)) h

theorem pmmAlloc_some (hstart : start < 2 ^ 32) (h : pmmAlloc s start endAddr = some (p, s')) :
    (p = NULL ∧ s' = s) ∨ (p < 2 ^ 32 ∧ ¬ s.Used (p / 0x1000) ∧ s' = use s p) := by
  unfold pmmAlloc at h
  split at h
  · exact pmmAllocScan_some hstart h
  · cases h

theorem pmmAllocStart_some (h : pmmAllocStart s start = (p, s')) :
    (p = NULL ∧ s' = s) ∨ (p < 2 ^ 32 ∧ ¬ s.Used (p / 0x1000) ∧ s' = use s p) := by
  rcases pmmAllocStart_spec s start with ⟨q, hq, heq⟩ | ⟨-, heq⟩
  · rw [heq] at h
    cases h
    have hlt := hq.mem.2
    rw [memorySize_eq] at hlt
    refine Or.inr ⟨by omega, ?_, rfl⟩
    rw [Nat.mul_div_cancel_left q (by decide)]
    exact hq.free
  · rw [heq] at h
    cases h
    exact Or.inl ⟨rfl, rfl⟩

/-! ## Runs -/

theorem Balanced.take (h : Balanced s₀ s out)
    (hp : (p = NULL ∧ s' = s) ∨ (p < 2 ^ 32 ∧ ¬ s.Used (p / 0x1000) ∧ s' = use s p)) :
    Balanced s₀ s' (taken p out) := by
  rcases hp with ⟨rfl, rfl⟩ | ⟨hp, hfree, rfl⟩
  · exact h
  · have hpage : p / 0x1000 ≠ 0 := by
      intro h0
      rw [h0] at hfree
      exact hfree h.null
    have hne : p ≠ NULL := by
      rintro rfl
      exact hpage rfl
    unfold taken
    rw [if_neg hne]
    refine ⟨(balance_use hp hfree).trans h.balance, Nat.mod_lt _ (by decide),
      used_use.mpr (Or.inr h.null), fun r hr => ?_, ?_⟩
    · rcases List.mem_cons.mp hr with rfl | hr
      · exact ⟨hp, hpage, used_use.mpr (Or.inl rfl)⟩
      · obtain ⟨hlt, hr0, hused⟩ := h.held r hr
        exact ⟨hlt, hr0, used_use.mpr (Or.inr hused)⟩
    · rw [List.map_cons, List.nodup_cons]
      refine ⟨fun hmem => ?_, h.apart⟩
      obtain ⟨r, hr, he⟩ := List.mem_map.mp hmem
      rw [← he] at hfree
      exact hfree (h.held r hr).2.2

theorem Balanced.give (h : Balanced s₀ s out) (hp : p ∈ out) :
    Balanced s₀ (pmmFree s p) (out.erase p) := by
  obtain ⟨hlt, hpage, hused⟩ := h.held p hp
  have hperm := (List.perm_cons_erase hp).map (· / 0x1000)
  have happart := hperm.nodup_iff.mp h.apart
  rw [List.map_cons, List.nodup_cons] at happart
  refine ⟨(balance_pmmFree hlt hused).trans h.balance, Nat.mod_lt _ (by decide),
    used_pmmFree.mpr ⟨Ne.symm hpage, h.null⟩, fun r hr => ?_, happart.2⟩
  obtain ⟨hrlt, hr0, hrused⟩ := h.held r (List.mem_of_mem_erase hr)
  refine ⟨hrlt, hr0, used_pmmFree.mpr ⟨fun he => happart.1 ?_, hrused⟩⟩
  rw [← he]
  exact List.mem_map_of_mem hr

theorem PageRun.balanced (h : PageRun s₀ s out) (hlt : s₀.freeMemory < 2 ^ 32) (h0 : s₀.Used 0) :
    Balanced s₀ s out := by
  induction h with
  | start => exact ⟨rfl, hlt, h0, by simp, List.nodup_nil⟩
  | alloc _ hstart hp ih => exact ih.take (pmmAlloc_some hstart hp)
  | allocStart _ _ hp ih => exact ih.take (pmmAllocStart_some hp)
  | free _ hp ih => exact ih.give hp

/-! ## The boot -/

theorem freeMemory_foldl_use :
    ((xs.foldl use s).freeMemory + 4096 * xs.length) % 2 ^ 32 = s.freeMemory % 2 ^ 32 := by
  induction xs generalizing s with
  | nil => rfl
  | cons x xs ih =>
      have hrest := ih (s := use s x)
      have hmem : (use s x).freeMemory = (s.freeMemory + 2 ^ 32 - 0x1000) % 2 ^ 32 := rfl
      rw [hmem] at hrest
      rw [List.foldl_cons, List.length_cons]
      omega

theorem freeMemory_foldl_pmmFree :
    (xs.foldl pmmFree s).freeMemory % 2 ^ 32 = (s.freeMemory + 4096 * xs.length) % 2 ^ 32 := by
  induction xs generalizing s with
  | nil => rfl
  | cons x xs ih =>
      have hrest := ih (s := pmmFree s x)
      have hmem : (pmmFree s x).freeMemory = (s.freeMemory + 0x1000) % 2 ^ 32 := rfl
      rw [hmem] at hrest
      rw [List.foldl_cons, List.length_cons]
      omega

theorem freeMemory_foldl_use_lt (h : xs ≠ []) : (xs.foldl use s).freeMemory < 2 ^ 32 := by
  rcases List.eq_nil_or_concat xs with rfl | ⟨pre, x, rfl⟩
  · exact absurd rfl h
  · rw [List.concat_eq_append, List.foldl_append]
    exact Nat.mod_lt _ (by decide)

/-- Everything that `InitPmm` marks lies in the address space. -/
theorem MultibootInfo.Words.marks_lt (hw : info.Words) {x : Nat} (hx : x ∈ info.marks L) :
    x < 2 ^ 32 := by
  obtain ⟨-, -, hkernel, hheap⟩ := L.loopStops
  simp only [MultibootInfo.marks, List.mem_append, List.mem_cons, List.not_mem_nil, or_false] at hx
  rcases hx with (((hx | rfl | rfl) | hx) | hx) | rfl
  · exact lt_of_lt_of_le (mem_cursors.mp hx).2.1 hkernel
  · exact hw.addr
  · exact hw.modsAddr
  · obtain ⟨mod, hmod, hx⟩ := List.mem_flatMap.mp hx
    exact lt_trans (mem_cursors.mp hx).2.1 (hw.mods mod hmod).2
  · exact lt_of_lt_of_le (mem_cursors.mp hx).2.1 hheap
  · decide

theorem usedCount_booted (hw : info.Words) :
    usedCount (info.booted L) = ((info.marks L).map (· / 0x1000)).toFinset.card := by
  unfold usedCount
  refine congrArg Finset.card (Finset.ext (fun q => ?_))
  rw [Finset.mem_filter, Finset.mem_range, used_booted, List.mem_toFinset, List.mem_map,
    memorySize_eq]
  constructor
  · rintro ⟨-, x, hx, rfl⟩
    exact ⟨x, hx, rfl⟩
  · rintro ⟨x, hx, rfl⟩
    have hlt := hw.marks_lt hx
    exact ⟨by omega, x, hx, rfl⟩

/-- A counter that starts from nothing and goes up `F` times and down `U` times. -/
theorem balance_modEq {f u d F U : Nat} (hup : f % 2 ^ 32 = (0 + 4096 * F) % 2 ^ 32)
    (hdown : (u + 4096 * U) % 2 ^ 32 = f % 2 ^ 32) :
    (u + 4096 * d) % 2 ^ 32 = 0 ↔ F + d ≡ U [MOD 2 ^ 20] := by
  unfold Nat.ModEq
  omega

theorem booted_lt : (info.booted L).freeMemory < 2 ^ 32 :=
  freeMemory_foldl_use_lt (List.ne_nil_of_mem
    (List.mem_append_right _ (List.mem_singleton_self 0)))

/-- What counter and bitmap add up to after the boot. -/
theorem balance_booted (hw : info.Words) : balance (info.booted L) = 0 ↔
    info.freed.length + ((info.marks L).map (· / 0x1000)).toFinset.card
      ≡ (info.marks L).length [MOD 2 ^ 20] := by
  have hup : (info.freed.foldl pmmFree info.cleared).freeMemory % 2 ^ 32
      = (0 + 4096 * info.freed.length) % 2 ^ 32 := freeMemory_foldl_pmmFree
  have hdown : ((info.booted L).freeMemory + 4096 * (info.marks L).length) % 2 ^ 32
      = (info.freed.foldl pmmFree info.cleared).freeMemory % 2 ^ 32 := freeMemory_foldl_use
  rw [balance, usedCount_booted hw]
  exact balance_modEq hup hdown

theorem booted_of_initPmm (hw : info.Words) (hboot : initPmm L info = .ok s) :
    s = info.booted L := by
  have hmin : MIN_MEMORY < info.memUpper / 1024 + 1 := by
    by_contra hmin
    rw [initPmm_small hmin] at hboot
    cases hboot
  have hstop : info.LoopsStop := by
    by_contra hstop
    rw [initPmm_endless hmin hw hstop] at hboot
    cases hboot
  rw [initPmm_folds hmin hw hstop] at hboot
  exact (Except.ok.inj hboot).symm

/-- **The counter of free memory.** After a boot and any run of the page allocator, the counter
agrees with the bitmap if and only if the pages freed by the boot, one count for each region a
page is in, and the different pages it has marked come to the number of its marks,
modulo `2 ^ 20`. -/
theorem free_memory_counts (hw : info.Words) (hboot : initPmm L info = .ok s₀)
    (hrun : PageRun s₀ s out) :
    Counts s ↔ info.freed.length + ((info.marks L).map (· / 0x1000)).toFinset.card
      ≡ (info.marks L).length [MOD 2 ^ 20] := by
  rw [booted_of_initPmm hw hboot] at hrun
  have hnull : (info.booted L).Used 0 :=
    used_booted.mpr ⟨0, List.mem_append_right _ (List.mem_singleton_self 0), rfl⟩
  have hbal := hrun.balanced booted_lt hnull
  rw [counts_iff hbal.lt, hbal.balance, balance_booted hw]

end

/-- How many pages the boot of the small machine frees and marks. -/
theorem smallMachine_counts : smallMachine.freed.length = 0x7F00 ∧
    (smallMachine.marks Layout.least).length = 0x1504 := by
  constructor
  · simp [MultibootInfo.freed, smallMachine, MultibootMmap.cursors, cursors_length]
  · simp [MultibootInfo.marks, smallMachine, cursors_length, Layout.vmKernelStart,
      Layout.vmKernelEnd, Layout.least, Layout.heapStart, Layout.heapEnd, Layout.pagepoolEnd,
      Layout.pagepoolStart]

theorem smallMachine_boots : initPmm Layout.least smallMachine
    = .ok (smallMachine.booted Layout.least) := by
  refine initPmm_folds (by decide) smallMachine_valid.words (smallMachine_valid.loopsStop_iff.mpr ?_)
  exact ⟨by simp [smallMachine], by simp [smallMachine]⟩

/-- The counter after the boot of the small machine. -/
theorem free_memory_counts_small : Counts (smallMachine.booted Layout.least) ↔
    0x7F00 + ((smallMachine.marks Layout.least).map (· / 0x1000)).toFinset.card
      ≡ 0x1504 [MOD 2 ^ 20] := by
  rw [← smallMachine_counts.1, ← smallMachine_counts.2]
  exact free_memory_counts smallMachine_valid.words smallMachine_boots .start

/-- It is off. -/
theorem free_memory_counts_fails : ∃ s, initPmm Layout.least smallMachine = .ok s ∧
    PageRun s s [] ∧ ¬ Counts s := by
  refine ⟨_, smallMachine_boots, .start, fun hcounts => ?_⟩
  have hmod := (balance_booted smallMachine_valid.words).mp ((counts_iff booted_lt).mp hcounts)
  have hle := List.toFinset_card_le ((smallMachine.marks Layout.least).map (· / 0x1000))
  obtain ⟨hfreed, hmarks⟩ := smallMachine_counts
  rw [List.length_map, hmarks] at hle
  rw [hfreed, hmarks] at hmod
  unfold Nat.ModEq at hmod
  omega

end DayOS
