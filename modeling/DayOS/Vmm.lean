import DayOS.Lib.Paging
import DayOS.PmmRun

set_option autoImplicit false

/-! # The virtual memory manager (`vmm.c`)

A context is a page of the page pool whose first word, `pagedir`, points to another one. The
kernel reaches the pool at virtual addresses equal to the physical ones, whatever context is
active, so all of this file runs on one `Mem`. Caches of translations are left out, and so are
the accessed and dirty bits. The processor sets them in the tables of the active context, and
`destroy_context` compares whole words of two tables: the runs of this file are assumed to activate
no context, and to find the bits of words that contexts share the same in all of them.

The cursors of `map_range` and `vmm_alloc` are `int`s compared with unsigned numbers: they
count modulo `2 ^ 32`. All callers of `map_page` ask for user pages.
-/

namespace DayOS

open ByteMemory Paging

/-! ## The code -/

/-- Why a call does not come back: a page that was asserted to exist does not, an address is
not aligned, a context may not be destroyed, or a loop does not end. -/
inductive VmmFault where
  | noPage
  | alignment
  | context
  | endless
  deriving DecidableEq

def VMM_USED : Nat := 0x1
def VMM_WRITE : Nat := 0x2
def VMM_USERSPACE : Nat := 0x4

/-- `USERSPACE_PAGEPOOL`, where `sbrk` puts its pages. -/
def USERSPACE_PAGEPOOL : Nat := 0x40000000

/-- `context->pagedir`. -/
def pagedir (m : Mem) (context : Nat) : Nat := load32 m context

/-- `assert(page != NULL)` behind a `pmm_alloc`. -/
def assertPage : Option (Nat × Pmm) → Except VmmFault (Nat × Pmm)
  | none => .error .endless
  | some (p, s) => if p = NULL then .error .noPage else .ok (p, s)

/-- `pmm_alloc(PAGEPOOL_START, PAGEPOOL_END)` and the assertion behind it. -/
def poolPage (L : Layout) (s : Pmm) : Except VmmFault (Nat × Pmm) :=
  assertPage (pmmAlloc s L.pagepoolStart L.pagepoolEnd)

/-- `pmm_alloc_start(HEAP_END)` and the assertion behind it. -/
def userFrame (L : Layout) (s : Pmm) : Except VmmFault (Nat × Pmm) :=
  assertPage (some (pmmAllocStart s L.heapEnd))

/-- `create_context`. -/
def createContext (L : Layout) (m : Mem) (s : Pmm) : Except VmmFault (Nat × Mem × Pmm) := do
  let (context, s) ← poolPage L s
  let (dir, s) ← poolPage L s
  let m := store32 m context dir
  return (context, fill (fun m => pagedir m context) (fun _ _ => 0) 1024 m, s)

/-- `CreateUsermodeContext`; it ignores its argument. -/
def createUsermodeContext (L : Layout) (kernelContext : Nat) (m : Mem) (s : Pmm) :
    Except VmmFault (Nat × Mem × Pmm) := do
  let (context, m, s) ← createContext L m s
  return (context, fill (fun m => pagedir m context)
    (fun m i => entry m (pagedir m kernelContext) i) 1024 m, s)

/-- `map_page`. -/
def mapPage (L : Layout) (m : Mem) (s : Pmm) (context virt phys userspace : Nat) :
    Except VmmFault (Mem × Pmm) :=
  let pageIndex := virt / 0x1000
  let pdIndex := pageIndex / 1024
  let ptIndex := pageIndex % 1024
  let flags := if userspace ≠ 0 then VMM_USED ||| VMM_WRITE ||| VMM_USERSPACE
    else VMM_USED ||| VMM_WRITE
  if virt % 0x1000 ≠ 0 ∨ phys % 0x1000 ≠ 0 then .error .alignment
  else if entry m (pagedir m context) pdIndex % 2 = 1 then
    let pageTable := frameBase (entry m (pagedir m context) pdIndex)
    .ok (store32 m (pageTable + 4 * ptIndex) (phys ||| flags), s)
  else do
    let (pageTable, s) ← poolPage L s
    let m := fill (fun _ => pageTable) (fun _ _ => 0) 1024 m
    let m := store32 m (pagedir m context + 4 * pdIndex) (pageTable ||| flags)
    return (store32 m (pageTable + 4 * ptIndex) (phys ||| flags), s)

/-- The loop of `map_range`. The page behind the range is mapped as well. -/
def mapRangeLoop (L : Layout) (context lastAddr userspace : Nat) :
    Nat → Nat → Nat → Mem → Pmm → Except VmmFault (Mem × Pmm)
  | 0, _, _, _, _ => .error .endless
  | fuel + 1, i, phys, m, s =>
      if i ≤ lastAddr then do
        let (m, s) ← mapPage L m s context i phys userspace
        mapRangeLoop L context lastAddr userspace fuel ((i + PAGESIZE) % 2 ^ 32)
          ((phys + PAGESIZE) % 2 ^ 32) m s
      else .ok (m, s)

/-- `map_range`. -/
def mapRange (L : Layout) (context : Nat) (m : Mem) (s : Pmm)
    (startVirt startPhys size userspace : Nat) : Except VmmFault (Mem × Pmm) :=
  mapRangeLoop L context ((startVirt + size) % 2 ^ 32) userspace walkLimit startVirt startPhys m s

/-- The loop of `vmm_alloc`. -/
def vmmAllocLoop (L : Layout) (context endAddr : Nat) :
    Nat → Nat → Mem → Pmm → Except VmmFault (Mem × Pmm)
  | 0, _, _, _ => .error .endless
  | fuel + 1, i, m, s =>
      if i < endAddr then do
        let (physPage, s) ← userFrame L s
        let (m, s) ← mapPage L m s context i physPage 1
        vmmAllocLoop L context endAddr fuel ((i + PAGESIZE) % 2 ^ 32) m s
      else .ok (m, s)

/-- `vmm_alloc`. -/
def vmmAlloc (L : Layout) (m : Mem) (s : Pmm) (context vaddr sz : Nat) :
    Except VmmFault (Mem × Pmm) :=
  vmmAllocLoop L context ((vaddr + sz) % 2 ^ 32) walkLimit vaddr m s

/-- The inner loop of `destroy_context`. `pagetable` is a word of the directory, flags and
all, so the words read do not lie at the places where `map_page` put them. -/
def freeFrames (L : Layout) (m : Mem) (pagetable : Nat) : Nat → Pmm → Pmm
  | 0, s => s
  | j + 1, s =>
      let s := freeFrames L m pagetable j s
      let w := entry m pagetable j
      if w ≠ 0 ∧ L.heapEnd < w then pmmFree s (frameBase w) else s

/-- The outer loop of `destroy_context`. -/
def freeTables (L : Layout) (m : Mem) (kernelContext context : Nat) : Nat → Pmm → Pmm
  | 0, s => s
  | i + 1, s =>
      let s := freeTables L m kernelContext context i s
      let e := entry m (pagedir m context) i
      if e ≠ 0 ∧ e ≠ entry m (pagedir m kernelContext) i then
        pmmFree (freeFrames L m e 1024 s) (e / 0x100 * 0x100)
      else s

/-- `destroy_context`, which writes to no memory but the bitmap. -/
def destroyContext (L : Layout) (kernelContext : Nat) (m : Mem) (s : Pmm) (context : Nat) :
    Except VmmFault Pmm :=
  if context = NULL ∨ context = kernelContext then .error .context
  else .ok (pmmFree (pmmFree (freeTables L m kernelContext context 1024 s) (pagedir m context))
    context)

/-- `InitVmm`: the kernel context, which maps image, page pool and heap to themselves. -/
def initVmm (L : Layout) (m : Mem) (s : Pmm) : Except VmmFault (Nat × Mem × Pmm) := do
  let (kernelContext, m, s) ← createContext L m s
  let (m, s) ← mapRange L kernelContext m s Layout.vmKernelStart Layout.vmKernelStart
    (L.vmKernelEnd - Layout.vmKernelStart) 1
  let (m, s) ← mapRange L kernelContext m s L.pagepoolStart L.pagepoolStart
    (L.pagepoolEnd - L.pagepoolStart) 1
  let (m, s) ← mapRange L kernelContext m s L.heapStart L.heapStart (L.heapEnd - L.heapStart) 1
  return (kernelContext, m, s)

/-- A chain of calls returns when every call of it does. -/
theorem bind_eq_ok {ε α β : Type} {x : Except ε α} {f : α → Except ε β} {b : β} :
    (x >>= f) = .ok b ↔ ∃ a, x = .ok a ∧ f a = .ok b := by
  cases x with
  | error e =>
      constructor
      · intro h
        cases h
      · rintro ⟨a, ha, -⟩
        cases ha
  | ok a =>
      refine ⟨fun h => ⟨a, rfl, h⟩, ?_⟩
      rintro ⟨a', ha, h⟩
      cases ha
      exact h

/-- After a call that returns the chain goes on. -/
theorem bind_of_ok {ε α β : Type} {x : Except ε α} {f : α → Except ε β} {a : α}
    (hx : x = .ok a) : (x >>= f) = f a := by
  subst hx
  rfl

/-- A call that does not return ends the chain. -/
theorem bind_of_error {ε α β : Type} {x : Except ε α} {f : α → Except ε β} {e : ε}
    (hx : x = .error e) : (x >>= f) = .error e := by
  subst hx
  rfl

/-! ## Pages of the pool -/

/-- A page of the page pool. -/
structure Layout.PoolPage (L : Layout) (p : Nat) : Prop where
  aligned : p % 0x1000 = 0
  start : L.pagepoolStart ≤ p
  stop : p < L.pagepoolEnd

section
variable {L : Layout} {m m' : Mem} {s s' : Pmm} {p c : Nat}

theorem Layout.PoolPage.page (h : L.PoolPage p) : 0x1000 * (p / 0x1000) = p := by
  have := h.aligned
  omega

theorem Layout.PoolPage.below (h : L.PoolPage p) : p + 0x1000 ≤ L.heapStart := by
  have hal := h.aligned
  have hlt := h.stop
  have hpool : L.pagepoolEnd = L.heapStart := rfl
  have := L.heapStart_aligned
  omega

theorem Layout.PoolPage.lt (h : L.PoolPage p) : p + 0x1000 ≤ 0xFFFFF000 := by
  have := h.below
  have := L.heapEnd_le
  have := L.heapEnd_eq
  omega

/-- Two pages of the pool are equal or apart. -/
theorem Layout.PoolPage.apart {q : Nat} (h : L.PoolPage p) (hq : L.PoolPage q) (hne : p ≠ q) :
    p + 0x1000 ≤ q ∨ q + 0x1000 ≤ p := by
  have := h.aligned
  have := hq.aligned
  omega

@[simp] theorem assertPage_null (s : Pmm) : assertPage (some (NULL, s)) = .error .noPage := rfl

theorem assertPage_ne (h : p ≠ NULL) : assertPage (some (p, s)) = .ok (p, s) := if_neg h

/-- What `poolPage` returns was free before and is in use after. -/
theorem poolPage_spec (L : Layout) (s : Pmm) :
    (∃ p, L.PoolPage p ∧ ¬ s.Used (p / 0x1000) ∧ poolPage L s = .ok (p, use s p)) ∨
    ((∀ q, L.PoolPage (0x1000 * q) → s.Used q) ∧ poolPage L s = .error .noPage) := by
  have hfits := L.heapEnd_le
  have hheap := L.heapEnd_eq
  have hstart := L.heapStart_eq
  have hlow := L.pagepoolStart_ge
  have hal := L.pagepoolStart_aligned
  have hend : L.pagepoolEnd = L.pagepoolStart + 0x200000 := rfl
  rcases pmmAlloc_spec s hal (show L.pagepoolStart < L.pagepoolEnd by omega) (by omega) with
    ⟨q, hq, he⟩ | ⟨hq, he⟩
  · have hpage : 0x1000 * q / 0x1000 = q := Nat.mul_div_cancel_left q (by decide)
    refine Or.inl ⟨0x1000 * q, ⟨by omega, hq.mem.1, hq.mem.2⟩, by rw [hpage]; exact hq.free, ?_⟩
    have hne : 0x1000 * q ≠ NULL := by
      have := hq.mem.1
      show 0x1000 * q ≠ 0
      omega
    rw [poolPage, he, assertPage_ne hne]
  · refine Or.inr ⟨fun q h => hq q h.start h.stop, ?_⟩
    rw [poolPage, he, assertPage_null]

theorem poolPage_ok (h : poolPage L s = .ok (p, s')) :
    L.PoolPage p ∧ ¬ s.Used (p / 0x1000) ∧ s' = use s p := by
  rcases poolPage_spec L s with ⟨q, hq, hfree, he⟩ | ⟨-, he⟩
  · rw [he] at h
    obtain ⟨rfl, rfl⟩ := Prod.mk.inj (Except.ok.inj h)
    exact ⟨hq, hfree, rfl⟩
  · rw [he] at h
    cases h

/-- `vmm_alloc` takes the lowest free page behind the heap. -/
theorem userFrame_spec (L : Layout) (s : Pmm) :
    (∃ q, s.Lowest (fun q => L.heapEnd ≤ 0x1000 * q ∧ q < 2 ^ 20) q ∧
      userFrame L s = .ok (0x1000 * q, use s (0x1000 * q))) ∨
    ((∀ q, L.heapEnd ≤ 0x1000 * q → q < 2 ^ 20 → s.Used q) ∧
      userFrame L s = .error .noPage) := by
  have hal := L.heapEnd_aligned
  have hpos := L.heapEnd_eq
  have hpage : ∀ q, L.heapEnd / 0x1000 ≤ q ↔ L.heapEnd ≤ 0x1000 * q := fun q => by omega
  rcases pmmAllocStart_spec s L.heapEnd with ⟨q, hq, he⟩ | ⟨hq, he⟩
  · simp only [hpage] at hq
    refine Or.inl ⟨q, hq, ?_⟩
    have hne : 0x1000 * q ≠ NULL := by
      have := hq.mem.1
      show 0x1000 * q ≠ 0
      omega
    rw [userFrame, he, assertPage_ne hne]
  · simp only [hpage] at hq
    refine Or.inr ⟨hq, ?_⟩
    rw [userFrame, he, assertPage_null]

theorem userFrame_ok (h : userFrame L s = .ok (p, s')) :
    ∃ q, s.Lowest (fun q => L.heapEnd ≤ 0x1000 * q ∧ q < 2 ^ 20) q ∧ p = 0x1000 * q ∧
      s' = use s (0x1000 * q) := by
  rcases userFrame_spec L s with ⟨q, hq, he⟩ | ⟨-, he⟩
  · rw [he] at h
    obtain ⟨rfl, rfl⟩ := Prod.mk.inj (Except.ok.inj h)
    exact ⟨q, hq, rfl, rfl⟩
  · rw [he] at h
    cases h

end

/-! ## New contexts -/

/-- `c` is a new context whose directory, the page `d`, holds the words `base`. -/
structure NewContext (L : Layout) (base : Nat → Nat) (m : Mem) (s : Pmm) (c d : Nat)
    (m' : Mem) (s' : Pmm) : Prop where
  context : L.PoolPage c
  dir : L.PoolPage d
  contextFree : ¬ s.Used (c / 0x1000)
  dirFree : ¬ s.Used (d / 0x1000)
  ne : c ≠ d
  pages : s' = use (use s c) d
  pagedir : pagedir m' c = d
  words : ∀ i < 1024, entry m' d i = base i
  keeps : ∀ x, (x < c ∨ c + 0x1000 ≤ x) → (x < d ∨ d + 0x1000 ≤ x) → m' x = m x

section
variable {L : Layout} {m m' : Mem} {s s' : Pmm} {c d K : Nat}

/-- Filling the directory of a context, from values that its page and its directory do not
hold. -/
theorem NewContext.fill {base base' : Nat → Nat} {val : Mem → Nat → Nat}
    (h : NewContext L base m s c d m' s') (hlt : ∀ i < 1024, base' i < 2 ^ 32)
    (hval : ∀ m'', (∀ x, (x < c ∨ c + 0x1000 ≤ x) → (x < d ∨ d + 0x1000 ≤ x) → m'' x = m x) →
      ∀ i < 1024, val m'' i = base' i) :
    NewContext L base' m s c d (fill (fun m => DayOS.pagedir m c) val 1024 m') s' := by
  have hap := h.context.apart h.dir h.ne
  have hptr : ∀ m'' : Mem, (∀ x, x < d ∨ d + 4 * 1024 ≤ x → m'' x = m' x) →
      DayOS.pagedir m'' c = d := fun m'' hm => by
    have hsame : AgreeOn m' m'' c 4 := fun x _ _ => hm x (by omega)
    unfold DayOS.pagedir
    rw [load32_congr hsame]
    exact h.pagedir
  have hread : ∀ m'' : Mem, (∀ x, x < d ∨ d + 4 * 1024 ≤ x → m'' x = m' x) →
      ∀ i < 1024, val m'' i = base' i := fun m'' hm => hval m'' (fun x hc hd => by
    rw [hm x (by omega), h.keeps x hc hd])
  obtain ⟨hkeep, hword⟩ := fill_spec hptr hread le_rfl
  refine ⟨h.context, h.dir, h.contextFree, h.dirFree, h.ne, h.pages, hptr _ hkeep, ?_, ?_⟩
  · intro i hi
    rw [hword i hi, Nat.mod_eq_of_lt (hlt i hi)]
  · intro x hc hd
    rw [hkeep x (by omega), h.keeps x hc hd]

/-- `create_context` makes an empty context, or stops for want of a page. -/
theorem createContext_spec (L : Layout) (m : Mem) (s : Pmm) :
    (∃ c m' s', createContext L m s = .ok (c, m', s') ∧
      ∃ d, NewContext L (fun _ => 0) m s c d m' s') ∨
    (createContext L m s = .error .noPage ∧ ((∀ q, L.PoolPage (0x1000 * q) → s.Used q) ∨
      ∃ p, ∀ q, L.PoolPage (0x1000 * q) → (use s p).Used q)) := by
  unfold createContext
  rcases poolPage_spec L s with ⟨c, hcp, hcf, hc⟩ | ⟨hfull, hc⟩
  case inr => exact Or.inr ⟨bind_of_error hc, Or.inl hfull⟩
  rcases poolPage_spec L (use s c) with ⟨d, hdp, hdf, hd⟩ | ⟨hfull, hd⟩
  case inr => exact Or.inr ⟨(bind_of_ok hc).trans (bind_of_error hd), Or.inr ⟨c, hfull⟩⟩
  rw [used_use, not_or] at hdf
  have hne : c ≠ d := fun he => hdf.1 (by rw [he])
  have hlt := hdp.lt
  -- before the directory is cleared, only the pointer to it has been written
  have hnew : NewContext L (entry (store32 m c d) d) m s c d (store32 m c d) (use (use s c) d) := by
    refine ⟨hcp, hdp, hcf, hdf.2, hne, rfl, ?_, fun _ _ => rfl, fun x hx _ => ?_⟩
    · show load32 (store32 m c d) c = d
      rw [load32_store32, Nat.mod_eq_of_lt (by omega)]
    · exact store32_of_outside (by omega)
  exact Or.inl ⟨c, _, _, (bind_of_ok hc).trans (bind_of_ok hd), d,
    hnew.fill (fun _ _ => by decide) (fun _ _ _ _ => rfl)⟩

theorem createContext_ok (h : createContext L m s = .ok (c, m', s')) :
    ∃ d, NewContext L (fun _ => 0) m s c d m' s' := by
  rcases createContext_spec L m s with ⟨c₁, m₁, s₁, he, hnew⟩ | ⟨he, -⟩
  · rw [he] at h
    cases h
    exact hnew
  · rw [he] at h
    cases h

/-- `CreateUsermodeContext` copies the directory of the kernel context. -/
theorem createUsermodeContext_ok (hK : L.PoolPage K) (hused : s.Used (K / 0x1000))
    (hdirK : L.PoolPage (pagedir m K)) (husedDir : s.Used (pagedir m K / 0x1000))
    (h : createUsermodeContext L K m s = .ok (c, m', s')) :
    ∃ d, NewContext L (entry m (pagedir m K)) m s c d m' s' := by
  unfold createUsermodeContext at h
  obtain ⟨⟨c, m₁, s₁⟩, hc, h⟩ := bind_eq_ok.mp h
  obtain ⟨rfl, hrest⟩ := Prod.mk.inj (Except.ok.inj h)
  obtain ⟨rfl, rfl⟩ := Prod.mk.inj hrest
  obtain ⟨d, hnew⟩ := createContext_ok hc
  have hout : ∀ p, L.PoolPage p → s.Used (p / 0x1000) → ∀ x, p ≤ x → x < p + 0x1000 →
      (x < c ∨ c + 0x1000 ≤ x) ∧ (x < d ∨ d + 0x1000 ≤ x) := fun p hp hu x _ _ => by
    have hpc := hp.apart hnew.context (fun he => hnew.contextFree (he ▸ hu))
    have hpd := hp.apart hnew.dir (fun he => hnew.dirFree (he ▸ hu))
    omega
  refine ⟨d, hnew.fill (fun _ _ => entry_lt _ _ _) (fun m'' hm i hi => ?_)⟩
  have hptr : pagedir m'' K = pagedir m K := load32_congr (fun x _ _ => by
    have := hout K hK hused x (by omega) (by omega)
    exact hm x this.1 this.2)
  show entry m'' (pagedir m'' K) i = _
  rw [hptr]
  exact entry_congr (fun x _ _ => by
    have := hout _ hdirK husedDir x (by omega) (by omega)
    exact hm x this.1 this.2)

end

/-! ## Mapping a page -/

/-- The flags of the words that `map_page` stores. -/
def mapFlags (userspace : Nat) : Nat := if userspace ≠ 0 then 7 else 3

/-- The context `c` and its directory `d` are two pages of the pool in use, and the directory's
word `i`, if it is in use, names a table that is neither of them. -/
structure DirWord (L : Layout) (m : Mem) (s : Pmm) (c d i : Nat) : Prop where
  context : L.PoolPage c
  dir : L.PoolPage d
  contextUsed : s.Used (c / 0x1000)
  dirUsed : s.Used (d / 0x1000)
  ne : c ≠ d
  pagedir : pagedir m c = d
  word : entry m d i % 2 = 1 → L.PoolPage (frameBase (entry m d i)) ∧
    frameBase (entry m d i) ≠ c ∧ frameBase (entry m d i) ≠ d

/-- The word `w` has become the word of the page `v` under the directory `d`, in the table `t`.
The table was there before, or it is a page of the pool that was free and is now under a word
with the given flags. -/
structure StoresWord (L : Layout) (m : Mem) (s : Pmm) (d v w flags t : Nat) (m' : Mem)
    (s' : Pmm) : Prop where
  table : L.PoolPage t
  entries : ∀ i < 1024, i ≠ v / 1024 → entry m' d i = entry m d i
  words : ∀ j < 1024, entry m' t j =
    if j = v % 1024 then w else if entry m d (v / 1024) % 2 = 0 then 0 else entry m t j
  keeps : ∀ x, (x < d ∨ d + 0x1000 ≤ x) → (x < t ∨ t + 0x1000 ≤ x) → m' x = m x
  pages : entry m d (v / 1024) % 2 = 1 ∧ frameBase (entry m d (v / 1024)) = t ∧
      entry m' d (v / 1024) = entry m d (v / 1024) ∧ s' = s ∨
    entry m d (v / 1024) % 2 = 0 ∧ entry m' d (v / 1024) = t + flags ∧
      ¬ s.Used (t / 0x1000) ∧ s' = use s t

/-- The word `w` has become the word of the page `v` under the directory `d`. Its table `t` was
there before, or is a page of the pool that was free. -/
structure MapsPage (L : Layout) (m : Mem) (s : Pmm) (d v w t : Nat) (m' : Mem) (s' : Pmm) :
    Prop where
  table : L.PoolPage t
  entries : ∀ i < 1024, entry m' d i = if i = v / 1024 then t + 7 else entry m d i
  words : ∀ j < 1024, entry m' t j =
    if j = v % 1024 then w else if entry m d (v / 1024) = 0 then 0 else entry m t j
  keeps : ∀ x, (x < d ∨ d + 0x1000 ≤ x) → (x < t ∨ t + 0x1000 ≤ x) → m' x = m x
  pages : entry m d (v / 1024) = t + 7 ∧ s' = s ∨
    entry m d (v / 1024) = 0 ∧ ¬ s.Used (t / 0x1000) ∧ s' = use s t

/-- The context `c` and its directory `d` are two pages of the pool in use, and the directory's
word `i` is zero or a table that is neither of them. -/
structure HasDir (L : Layout) (m : Mem) (s : Pmm) (c d i : Nat) : Prop where
  context : L.PoolPage c
  dir : L.PoolPage d
  contextUsed : s.Used (c / 0x1000)
  dirUsed : s.Used (d / 0x1000)
  ne : c ≠ d
  pagedir : pagedir m c = d
  word : entry m d i = 0 ∨ ∃ t, L.PoolPage t ∧ entry m d i = t + 7 ∧ t ≠ c ∧ t ≠ d

section
variable {L : Layout} {m m' : Mem} {s s' : Pmm} {c d virt phys : Nat}

/-- A word stored in a table replaces that word. -/
theorem entry_store {t j k w : Nat} (hw : w < 2 ^ 32) :
    entry (store32 m (t + 4 * j) w) t k = if k = j then w else entry m t k := by
  by_cases hk : k = j
  · subst hk
    rw [if_pos rfl, entry, load32_store32, Nat.mod_eq_of_lt hw]
  · rw [if_neg hk, entry, load32_store32_of_ne (by omega), entry]

/-- A store in another page leaves a table as it is. -/
theorem entry_store_of_apart {t p j k w : Nat} (h : t + 0x1000 ≤ p ∨ p + 0x1000 ≤ t)
    (hj : j < 1024) (hk : k < 1024) : entry (store32 m (p + 4 * j) w) t k = entry m t k :=
  load32_store32_of_ne (by omega)

/-- `map_page` asserts alignment before anything else, and nothing it calls asserts it. -/
theorem mapPage_alignment (userspace : Nat) :
    mapPage L m s c virt phys userspace = .error .alignment ↔
      virt % 0x1000 ≠ 0 ∨ phys % 0x1000 ≠ 0 := by
  constructor
  · intro h
    by_contra hal
    unfold mapPage at h
    simp only [if_neg hal] at h
    split at h
    case isTrue => cases h
    case isFalse =>
        rcases poolPage_spec L s with ⟨p, -, -, he⟩ | ⟨-, he⟩
        · rw [he] at h
          cases h
        · rw [he] at h
          cases h
  · intro hal
    unfold mapPage
    exact if_pos hal

theorem mapPage_aligned {userspace : Nat} (h : mapPage L m s c virt phys userspace = .ok (m', s')) :
    virt % 0x1000 = 0 := by
  by_contra hal
  rw [(mapPage_alignment userspace).mpr (Or.inl hal)] at h
  cases h

theorem mapFlags_eq (userspace : Nat) : (if userspace ≠ 0 then VMM_USED ||| VMM_WRITE |||
    VMM_USERSPACE else VMM_USED ||| VMM_WRITE) = mapFlags userspace := by
  unfold mapFlags
  split <;> rfl

theorem mapFlags_le (userspace : Nat) : mapFlags userspace ≤ 7 ∧ mapFlags userspace % 2 = 1 := by
  unfold mapFlags
  split <;> decide

/-- **What `map_page` does**, in any context. -/
theorem mapPage_word {userspace : Nat} (hdir : DirWord L m s c d (virt / 0x1000 / 1024))
    (hvirt : virt < 2 ^ 32) (hphys : phys < 2 ^ 32)
    (h : mapPage L m s c virt phys userspace = .ok (m', s')) :
    virt % 0x1000 = 0 ∧ phys % 0x1000 = 0 ∧ ∃ t, StoresWord L m s d (virt / 0x1000)
      (phys + mapFlags userspace) (mapFlags userspace) t m' s' := by
  have hpd : virt / 0x1000 / 1024 < 1024 := by omega
  have hpt : virt / 0x1000 % 1024 < 1024 := Nat.mod_lt _ (by decide)
  obtain ⟨hf7, hfodd⟩ := mapFlags_le userspace
  unfold mapPage at h
  simp only [hdir.pagedir, mapFlags_eq] at h
  generalize mapFlags userspace = flags at h hf7 hfodd ⊢
  by_cases hal : virt % 0x1000 ≠ 0 ∨ phys % 0x1000 ≠ 0
  case pos =>
      rw [if_pos hal] at h
      cases h
  rw [if_neg hal] at h
  obtain ⟨hv, hp⟩ := not_or.mp hal
  refine ⟨not_not.mp hv, not_not.mp hp, ?_⟩
  have hflags : phys ||| flags = phys + flags := lor_flags (not_not.mp hp) (by omega)
  have hw : phys + flags < 2 ^ 32 := by omega
  rw [hflags] at h
  by_cases hodd : entry m d (virt / 0x1000 / 1024) % 2 = 1
  · -- the table is there
    obtain ⟨ht, -, htd⟩ := hdir.word hodd
    rw [if_pos hodd] at h
    generalize htable : frameBase (entry m d (virt / 0x1000 / 1024)) = t at h ht htd
    obtain ⟨rfl, rfl⟩ := Prod.mk.inj (Except.ok.inj h)
    have hap := ht.apart hdir.dir htd
    have hsame : ∀ i < 1024, entry (store32 m (t + 4 * (virt / 0x1000 % 1024)) (phys + flags)) d i
        = entry m d i := fun i hi => entry_store_of_apart (by omega) hpt hi
    refine ⟨t, ht, fun i hi _ => hsame i hi, fun j hj => ?_, fun x _ hxt => ?_,
      Or.inl ⟨hodd, htable, hsame _ hpd, rfl⟩⟩
    · have hne : ¬ entry m d (virt / 0x1000 / 1024) % 2 = 0 := by omega
      rw [entry_store hw, if_neg hne]
    · exact store32_of_outside (by omega)
  · -- a new table
    have heven : entry m d (virt / 0x1000 / 1024) % 2 = 0 := by omega
    rw [if_neg hodd] at h
    obtain ⟨⟨t, s₁⟩, hpage, h⟩ := bind_eq_ok.mp h
    obtain ⟨ht, hfree, rfl⟩ := poolPage_ok hpage
    obtain ⟨rfl, rfl⟩ := Prod.mk.inj (Except.ok.inj h)
    have htd := ht.apart hdir.dir (fun he => hfree (he ▸ hdir.dirUsed))
    have htc := ht.apart hdir.context (fun he => hfree (he ▸ hdir.contextUsed))
    obtain ⟨hkeep, hcleared⟩ := clear_spec m t
    have hptr : pagedir (fill (fun _ => t) (fun _ _ => 0) 1024 m) c = d := by
      rw [← hdir.pagedir]
      exact load32_congr (fun x _ _ => hkeep x (by omega))
    have htlt := ht.lt
    have htable : t ||| flags = t + flags := lor_flags ht.aligned (by omega)
    rw [hptr, htable]
    refine ⟨t, ht, fun i hi hne => ?_, fun j hj => ?_, fun x hxd hxt => ?_,
      Or.inr ⟨heven, ?_, hfree, rfl⟩⟩
    · rw [entry_store_of_apart (by omega) hpt hi, entry_store (by omega), if_neg hne]
      exact entry_congr (fun x _ _ => hkeep x (by omega))
    · rw [entry_store hw, if_pos heven]
      split
      case isTrue => rfl
      case isFalse =>
          rw [entry_store_of_apart htd hpd hj, hcleared j hj]
    · rw [store32_of_outside (by omega), store32_of_outside (by omega), hkeep x (by omega)]
    · rw [entry_store_of_apart (by omega) hpt hpd, entry_store (by omega), if_pos rfl]

theorem HasDir.dirWord {i : Nat} (h : HasDir L m s c d i) : DirWord L m s c d i := by
  refine ⟨h.context, h.dir, h.contextUsed, h.dirUsed, h.ne, h.pagedir, fun hodd => ?_⟩
  rcases h.word with h0 | ⟨t, ht, he, hne⟩
  · omega
  · rw [he, frameBase_add ht.aligned (by decide)]
    exact ⟨ht, hne⟩

/-- `map_page` for a user page. -/
theorem mapPage_ok (hdir : HasDir L m s c d (virt / 0x1000 / 1024)) (hvirt : virt < 2 ^ 32)
    (hphys : phys < 2 ^ 32) (h : mapPage L m s c virt phys 1 = .ok (m', s')) :
    virt % 0x1000 = 0 ∧ phys % 0x1000 = 0 ∧
      ∃ t, MapsPage L m s d (virt / 0x1000) (phys + 7) t m' s' := by
  obtain ⟨hv, hp, t, hw⟩ := mapPage_word hdir.dirWord hvirt hphys h
  have hflags : mapFlags 1 = 7 := rfl
  rw [hflags] at hw
  -- the word of the directory is zero, or the table's with all flags
  have hzero : entry m d (virt / 0x1000 / 1024) % 2 = 0 ↔ entry m d (virt / 0x1000 / 1024) = 0 := by
    rcases hdir.word with h0 | ⟨t', ht', he, -⟩
    · rw [h0]
    · have := ht'.aligned
      omega
  have hold : entry m d (virt / 0x1000 / 1024) % 2 = 1 →
      frameBase (entry m d (virt / 0x1000 / 1024)) = t →
      entry m d (virt / 0x1000 / 1024) = t + 7 := by
    intro hodd ht
    rcases hdir.word with h0 | ⟨t', ht', he, -⟩
    · omega
    · rw [he, frameBase_add ht'.aligned (by decide)] at ht
      rw [he, ht]
  refine ⟨hv, hp, t, hw.table, fun i hi => ?_, fun j hj => ?_, hw.keeps, ?_⟩
  · by_cases hi' : i = virt / 0x1000 / 1024
    · rw [if_pos hi', hi']
      rcases hw.pages with ⟨hodd, ht, he, -⟩ | ⟨-, he, -⟩
      · rw [he, hold hodd ht]
      · exact he
    · rw [if_neg hi', hw.entries i hi hi']
  · rw [hw.words j hj]
    simp only [hzero]
  · rcases hw.pages with ⟨hodd, ht, -, hs⟩ | ⟨heven, -, hfree, hs⟩
    · exact Or.inl ⟨hold hodd ht, hs⟩
    · exact Or.inr ⟨hzero.mp heven, hfree, hs⟩

end

/-! ## Destroying a context -/

section
variable {L : Layout} {m : Mem} {s s' : Pmm} {context K q : Nat}

/-- The page numbers that `destroy_context` finds under the directory `d`, where `dirK` is the
kernel's: those of the private tables, and those named by the words it reads as table words. -/
def Frees (L : Layout) (m : Mem) (dirK d q : Nat) : Prop :=
  ∃ i < 1024, entry m d i ≠ 0 ∧ entry m d i ≠ entry m dirK i ∧
    (q = entry m d i / 0x1000 ∨
      ∃ j < 1024, L.heapEnd < entry m (entry m d i) j ∧ q = entry m (entry m d i) j / 0x1000)

theorem used_freeFrames {pagetable n : Nat} : (freeFrames L m pagetable n s).Used q ↔
    s.Used q ∧ ∀ j < n, L.heapEnd < entry m pagetable j → q ≠ entry m pagetable j / 0x1000 := by
  induction n with
  | zero => simp [freeFrames]
  | succ n ih =>
      have hpage : ∀ w, frameBase w / 0x1000 = w / 0x1000 :=
        fun w => Nat.mul_div_cancel _ (by decide)
      simp only [freeFrames, Nat.forall_lt_succ_right]
      split
      case isTrue h =>
          rw [used_pmmFree, ih, hpage]
          tauto
      case isFalse h =>
          have hlow : ¬ L.heapEnd < entry m pagetable n := fun hlt => h ⟨by omega, hlt⟩
          rw [ih]
          tauto

theorem used_freeTables {n : Nat} : (freeTables L m K context n s).Used q ↔
    s.Used q ∧ ∀ i < n, entry m (pagedir m context) i ≠ 0 →
      entry m (pagedir m context) i ≠ entry m (pagedir m K) i →
      q ≠ entry m (pagedir m context) i / 0x1000 ∧
      ∀ j < 1024, L.heapEnd < entry m (entry m (pagedir m context) i) j →
        q ≠ entry m (entry m (pagedir m context) i) j / 0x1000 := by
  induction n with
  | zero => simp [freeTables]
  | succ n ih =>
      have hpage : ∀ e, e / 0x100 * 0x100 / 0x1000 = e / 0x1000 := fun e => by omega
      rw [Nat.forall_lt_succ_right]
      simp only [freeTables]
      split
      case isTrue h =>
          rw [used_pmmFree, used_freeFrames, ih, hpage]
          tauto
      case isFalse h =>
          rw [ih]
          tauto

theorem destroyContext_ok (h : destroyContext L K m s context = .ok s') :
    s'.Used q ↔ s.Used q ∧ q ≠ context / 0x1000 ∧ q ≠ pagedir m context / 0x1000 ∧
      ¬ Frees L m (pagedir m K) (pagedir m context) q := by
  unfold destroyContext at h
  split at h
  case isTrue => cases h
  case isFalse =>
      cases h
      rw [used_pmmFree, used_pmmFree, used_freeTables]
      unfold Frees
      push Not
      constructor
      · rintro ⟨hc, hd, hu, hi⟩
        refine ⟨hu, hc, hd, fun i hlt h0 hK => ?_⟩
        exact hi i hlt h0 hK
      · rintro ⟨hu, hc, hd, hi⟩
        refine ⟨hc, hd, hu, fun i hlt h0 hK => ?_⟩
        exact hi i hlt h0 hK

end

end DayOS
