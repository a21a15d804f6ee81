import DayOS.Layout
import DayOS.Lib.Bitmap

set_option autoImplicit false

/-! # The physical memory manager (`pmm.c`)

One bit of `bitmap` for each of the `2 ^ 20` pages of the address space, set while the page is
in use. `get_index` splits a page number into word and bit. The multiboot structures are read
only, so the model takes their contents by value: `mmap` lists the entries the `mmap++` loop
visits, `mods` the entries of the module table.

A loop that steps a 32-bit cursor by pages until it passes an end wraps around where the end
lies in the last page, and then never stops; that is the outcome `endless`.
-/

namespace DayOS

/-! ## The code -/

def BITMAP_SIZE : Nat := 32768
def MEMORY_SIZE : Nat := BITMAP_SIZE * 32
def MIN_MEMORY : Nat := 30

/-- The globals of `pmm.c`. -/
structure Pmm where
  bitmap : Bitmap.Words 32
  totalMemory : Nat
  freeMemory : Nat

/-- `get_index`: the word and the bit of the page of an address. -/
def getIndex (addr : Nat) : Nat × Nat :=
  let addr := addr / PAGESIZE
  (addr / 32, addr % 32)

/-- `pmm_free`. -/
def pmmFree (s : Pmm) (addr : Nat) : Pmm :=
  let (index, offset) := getIndex addr
  { s with
    bitmap := Function.update s.bitmap index (s.bitmap index &&& ~~~(1#32 <<< offset))
    freeMemory := (s.freeMemory + 0x1000) % 2 ^ 32 }

/-- `use`. -/
def use (s : Pmm) (addr : Nat) : Pmm :=
  let (index, offset) := getIndex addr
  { s with
    bitmap := Function.update s.bitmap index (s.bitmap index ||| 1#32 <<< offset)
    freeMemory := (s.freeMemory + 2 ^ 32 - 0x1000) % 2 ^ 32 }

/-- `is_free`: not zero when the page is in use, whatever its name says. -/
def isFree (s : Pmm) (addr : Nat) : BitVec 32 :=
  let (index, offset) := getIndex addr
  s.bitmap index &&& (1#32 <<< offset)

/-- `while (addr < end) { mark(addr); addr += 0x1000; }` over a 32-bit cursor. -/
def pageLoop (mark : Pmm → Nat → Pmm) (endAddr : Nat) : Nat → Nat → Pmm → Except Fault Pmm
  | 0, _, _ => .error .endless
  | fuel + 1, addr, s =>
      if addr < endAddr then pageLoop mark endAddr fuel ((addr + 0x1000) % 2 ^ 32) (mark s addr)
      else .ok s

/-- An entry of the memory map: 64-bit base and length. -/
structure MultibootMmap where
  base : Nat
  length : Nat
  type : Nat

/-- An entry of the module table. -/
structure MultibootModule where
  modStart : Nat
  modEnd : Nat

/-- What `InitPmm` reads of the multiboot structures, and where the first two of them lie. -/
structure MultibootInfo where
  addr : Nat
  memUpper : Nat
  mmap : List MultibootMmap
  modsAddr : Nat
  mods : List MultibootModule

/-- Free the pages of one entry; the 64-bit base and end are cut to 32 bits. -/
def freeRegion (s : Pmm) (mmap : MultibootMmap) : Except Fault Pmm :=
  if mmap.type = 1 then
    let addr := mmap.base % 2 ^ 32
    let endAddr := (addr + mmap.length) % 2 ^ 32
    pageLoop pmmFree endAddr walkLimit addr s
  else .ok s

def useModule (s : Pmm) (mod : MultibootModule) : Except Fault Pmm :=
  pageLoop use mod.modEnd walkLimit mod.modStart s

/-- `InitPmm`, from the zeroed globals on. -/
def initPmm (L : Layout) (info : MultibootInfo) : Except Fault Pmm := do
  let totalMemory := info.memUpper / 1024 + 1
  if ¬ MIN_MEMORY < totalMemory then throw .noReturn
  -- the `memset` that is to mark everything as used
  let s : Pmm := { bitmap := fun _ => 0, totalMemory := totalMemory, freeMemory := 0 }
  let s ← info.mmap.foldlM freeRegion s
  let s ← pageLoop use L.vmKernelEnd walkLimit Layout.vmKernelStart s
  let s := use s info.addr
  let s := use s info.modsAddr
  let s ← info.mods.foldlM useModule s
  let s ← pageLoop use L.heapEnd walkLimit L.heapStart s
  return use s 0

/-- The loop of `pmm_alloc`. -/
def pmmAllocScan (s : Pmm) (endAddr : Nat) : Nat → Nat → Option (Nat × Pmm)
  | 0, _ => none
  | fuel + 1, i =>
      if i < endAddr then
        if isFree s i = 0 then some (i, use s i)
        else pmmAllocScan s endAddr fuel ((i + PAGESIZE) % 2 ^ 32)
      else some (NULL, s)

/-- `pmm_alloc`. -/
def pmmAlloc (s : Pmm) (start endAddr : Nat) : Option (Nat × Pmm) :=
  if start < endAddr then pmmAllocScan s endAddr walkLimit start else none

/-- The loop of `pmm_alloc_start`, which counts pages. -/
def pmmAllocStartScan (s : Pmm) : Nat → Nat → Nat × Pmm
  | 0, _ => (NULL, s)
  | fuel + 1, i =>
      if i < MEMORY_SIZE then
        if isFree s (i * PAGESIZE % 2 ^ 32) = 0 then
          (i * PAGESIZE % 2 ^ 32, use s (i * PAGESIZE % 2 ^ 32))
        else pmmAllocStartScan s fuel (i + 1)
      else (NULL, s)

/-- `pmm_alloc_start`. -/
def pmmAllocStart (s : Pmm) (start : Nat) : Nat × Pmm :=
  pmmAllocStartScan s (MEMORY_SIZE + 1) (start / PAGESIZE)

/-! ## The bitmap as a set of pages -/

namespace Pmm

/-- The page `q` is marked as used. -/
def Used (s : Pmm) (q : Nat) : Prop := Bitmap.get s.bitmap q = true

instance (s : Pmm) (q : Nat) : Decidable (s.Used q) := inferInstanceAs (Decidable (_ = true))

end Pmm

section
variable {s : Pmm} {addr q : Nat}

theorem used_use : (use s addr).Used q ↔ q = addr / 0x1000 ∨ s.Used q := by
  have h : (use s addr).bitmap = Bitmap.set s.bitmap (addr / 0x1000) := rfl
  simp [Pmm.Used, h, Bitmap.get_set]

theorem used_pmmFree : (pmmFree s addr).Used q ↔ q ≠ addr / 0x1000 ∧ s.Used q := by
  have h : (pmmFree s addr).bitmap = Bitmap.clear s.bitmap (addr / 0x1000) := rfl
  simp [Pmm.Used, h, Bitmap.get_clear]

theorem isFree_eq_zero : isFree s addr = 0 ↔ ¬ s.Used (addr / 0x1000) := by
  rw [Pmm.Used, Bool.not_eq_true]
  exact Bitmap.probe_eq_zero (by decide)

end

/-! ## The page loops -/

/-- The addresses that a page loop goes through. -/
def cursors (addr endAddr : Nat) : List Nat :=
  List.range' addr ((endAddr - addr + 0xFFF) / 0x1000) 0x1000

/-- The cursor passes the end before it wraps around: the last address it can stand at keeps the
offset in the page. -/
def LoopStops (addr endAddr : Nat) : Prop :=
  endAddr ≤ addr ∨ endAddr ≤ 0xFFFFF000 + addr % 0x1000

section
variable {mark : Pmm → Nat → Pmm} {addr endAddr fuel q x : Nat} {s : Pmm} {xs : List Nat}

theorem mem_cursors :
    x ∈ cursors addr endAddr ↔ addr ≤ x ∧ x < endAddr ∧ x % 0x1000 = addr % 0x1000 := by
  unfold cursors
  rw [List.mem_range']
  constructor
  · rintro ⟨i, hi, rfl⟩
    omega
  · rintro ⟨hle, hlt, hmod⟩
    exact ⟨(x - addr) / 0x1000, by omega, by omega⟩

theorem cursors_nil (h : endAddr ≤ addr) : cursors addr endAddr = [] := by
  unfold cursors
  rw [Nat.sub_eq_zero_of_le h]
  rfl

theorem cursors_cons (h : addr < endAddr) :
    cursors addr endAddr = addr :: cursors (addr + 0x1000) endAddr := by
  unfold cursors
  have hlen : (endAddr - addr + 0xFFF) / 0x1000 = (endAddr - (addr + 0x1000) + 0xFFF) / 0x1000 + 1 := by
    omega
  rw [hlen, List.range'_succ]

theorem cursors_length : (cursors addr endAddr).length = (endAddr - addr + 0xFFF) / 0x1000 :=
  List.length_range'

/-- **A page loop** marks one address after the other, if it passes its end before it wraps
around. -/
theorem pageLoop_eq (hstop : LoopStops addr endAddr) (hlt : addr < 2 ^ 32)
    (hfuel : (cursors addr endAddr).length < fuel) :
    pageLoop mark endAddr fuel addr s = .ok ((cursors addr endAddr).foldl mark s) := by
  induction fuel generalizing addr s with
  | zero => exact absurd hfuel (Nat.not_lt_zero _)
  | succ fuel ih =>
      rw [pageLoop]
      split
      case isFalse hge =>
          rw [cursors_nil (not_lt.mp hge)]
          rfl
      case isTrue hlt' =>
          rw [cursors_cons hlt'] at hfuel ⊢
          rw [List.length_cons] at hfuel
          -- the next cursor wraps around only if it is past the end anyway
          have hbound : endAddr ≤ 0xFFFFF000 + addr % 0x1000 := hstop.resolve_left (by omega)
          have hmod : (addr + 0x1000) % 2 ^ 32 = addr + 0x1000 := Nat.mod_eq_of_lt (by omega)
          rw [hmod, List.foldl_cons]
          exact ih (Or.inr (by omega)) (by omega) (by omega)

/-- A page loop that does not pass its end before it wraps around never stops. -/
theorem pageLoop_endless (hstop : ¬ LoopStops addr endAddr) :
    pageLoop mark endAddr fuel addr s = .error .endless := by
  have hend : 0xFFFFF000 + addr % 0x1000 < endAddr := by
    by_contra hle
    exact hstop (Or.inr (by omega))
  have hlt : addr < endAddr := by
    by_contra hle
    exact hstop (Or.inl (by omega))
  clear hstop
  induction fuel generalizing addr s with
  | zero => rfl
  | succ fuel ih =>
      rw [pageLoop, if_pos hlt]
      exact ih (by omega) (by omega)

theorem used_foldl_use : (xs.foldl use s).Used q ↔ s.Used q ∨ ∃ x ∈ xs, q = x / 0x1000 := by
  induction xs generalizing s with
  | nil => simp
  | cons x xs ih =>
      rw [List.foldl_cons, ih, used_use]
      simp only [List.exists_mem_cons_iff]
      tauto

theorem used_foldl_pmmFree :
    (xs.foldl pmmFree s).Used q ↔ s.Used q ∧ ∀ x ∈ xs, q ≠ x / 0x1000 := by
  induction xs generalizing s with
  | nil => simp
  | cons x xs ih =>
      rw [List.foldl_cons, ih, used_pmmFree]
      simp only [List.forall_mem_cons]
      tauto

/-- Pages of `[start, end)`, in terms of their bytes. -/
theorem page_has_byte {start q : Nat} (hal : start % 0x1000 = 0) :
    (∃ x ∈ cursors start endAddr, q = x / 0x1000) ↔
      ∃ x, x / 0x1000 = q ∧ start ≤ x ∧ x < endAddr := by
  constructor
  · rintro ⟨x, hx, rfl⟩
    obtain ⟨hle, hlt, -⟩ := mem_cursors.mp hx
    exact ⟨x, rfl, hle, hlt⟩
  · rintro ⟨x, rfl, hle, hlt⟩
    exact ⟨0x1000 * (x / 0x1000), mem_cursors.mpr (by omega), by omega⟩

theorem pageLoop_walk (hstop : LoopStops addr endAddr) (hlt : addr < 2 ^ 32)
    (hend : endAddr ≤ 2 ^ 32) :
    pageLoop mark endAddr walkLimit addr s = .ok ((cursors addr endAddr).foldl mark s) := by
  refine pageLoop_eq hstop hlt ?_
  rw [cursors_length, walkLimit]
  omega

end

/-! ## `InitPmm` -/

/-- What a boot loader may report: page-aligned regions of usable memory, every region
ending below 4 GB, page-aligned modules, 32-bit addresses. -/
structure MultibootInfo.Valid (info : MultibootInfo) : Prop where
  addr : info.addr < 2 ^ 32
  modsAddr : info.modsAddr < 2 ^ 32
  aligned : ∀ r ∈ info.mmap, r.type = 1 → r.base % 0x1000 = 0
  below : ∀ r ∈ info.mmap, r.base + r.length < 2 ^ 32
  mods : ∀ mod ∈ info.mods, mod.modStart % 0x1000 = 0 ∧ mod.modStart < 2 ^ 32 ∧ mod.modEnd < 2 ^ 32

/-- The page `q` lies inside some usable region. -/
def MultibootInfo.Usable (info : MultibootInfo) (q : Nat) : Prop :=
  ∃ r ∈ info.mmap, r.type = 1 ∧ r.base ≤ 0x1000 * q ∧ 0x1000 * q + 0x1000 ≤ r.base + r.length

/-- The page `q` holds a byte of the kernel image, the first byte of the multiboot info
structure or of the module table, a byte of a module or of the kernel heap, or address 0. -/
def MultibootInfo.Reserved (L : Layout) (info : MultibootInfo) (q : Nat) : Prop :=
  ∃ x, x / 0x1000 = q ∧ ((Layout.vmKernelStart ≤ x ∧ x < L.vmKernelEnd) ∨ x = info.addr ∨
    x = info.modsAddr ∨ (∃ mod ∈ info.mods, mod.modStart ≤ x ∧ x < mod.modEnd) ∨
    (L.heapStart ≤ x ∧ x < L.heapEnd) ∨ x = 0)

/-- No loop over a region or a module reaches the last page of the address space. -/
structure MultibootInfo.Stops (info : MultibootInfo) : Prop where
  regions : ∀ r ∈ info.mmap, r.type = 1 → r.base + r.length ≤ 0xFFFFF000
  mods : ∀ mod ∈ info.mods, mod.modEnd ≤ 0xFFFFF000

section
variable {L : Layout} {info : MultibootInfo}

theorem ok_bind {α β : Type} (a : α) (f : α → Except Fault β) : (Except.ok a >>= f) = f a := rfl

theorem error_bind {α β : Type} (e : Fault) (f : α → Except Fault β) :
    (Except.error e >>= f) = .error e := rfl

/-! ### All loops as one -/

/-- The addresses that the loop over an entry of the memory map frees. -/
def MultibootMmap.cursors (r : MultibootMmap) : List Nat :=
  if r.type = 1 then DayOS.cursors (r.base % 2 ^ 32) ((r.base % 2 ^ 32 + r.length) % 2 ^ 32) else []

/-- The loop over an entry of the memory map ends. -/
def MultibootMmap.LoopStops (r : MultibootMmap) : Prop :=
  r.type = 1 → DayOS.LoopStops (r.base % 2 ^ 32) ((r.base % 2 ^ 32 + r.length) % 2 ^ 32)

/-- The addresses that the loop over a module marks. -/
def MultibootModule.cursors (mod : MultibootModule) : List Nat := DayOS.cursors mod.modStart mod.modEnd

/-- The loop over a module ends. -/
def MultibootModule.LoopStops (mod : MultibootModule) : Prop :=
  DayOS.LoopStops mod.modStart mod.modEnd

/-- The fields of the module table, and the two addresses, are 32-bit words. -/
structure MultibootInfo.Words (info : MultibootInfo) : Prop where
  addr : info.addr < 2 ^ 32
  modsAddr : info.modsAddr < 2 ^ 32
  mods : ∀ mod ∈ info.mods, mod.modStart < 2 ^ 32 ∧ mod.modEnd < 2 ^ 32

/-- The addresses that `InitPmm` frees, in order. -/
def MultibootInfo.freed (info : MultibootInfo) : List Nat := info.mmap.flatMap MultibootMmap.cursors

/-- The addresses that `InitPmm` marks as used after that, in order. -/
def MultibootInfo.marks (L : Layout) (info : MultibootInfo) : List Nat :=
  cursors Layout.vmKernelStart L.vmKernelEnd ++ [info.addr, info.modsAddr] ++
    info.mods.flatMap MultibootModule.cursors ++ cursors L.heapStart L.heapEnd ++ [0]

/-- The bitmap and the counter as `memset` and the loader leave them. -/
def MultibootInfo.cleared (info : MultibootInfo) : Pmm where
  bitmap := fun _ => 0
  totalMemory := info.memUpper / 1024 + 1
  freeMemory := 0

/-- The state that all the marks lead to. -/
def MultibootInfo.booted (L : Layout) (info : MultibootInfo) : Pmm :=
  (info.marks L).foldl use (info.freed.foldl pmmFree info.cleared)

/-- Every loop over an entry of the memory map and over a module ends. -/
structure MultibootInfo.LoopsStop (info : MultibootInfo) : Prop where
  regions : ∀ r ∈ info.mmap, r.LoopStops
  mods : ∀ mod ∈ info.mods, mod.LoopStops

theorem freeRegion_eq {r : MultibootMmap} (s : Pmm) (h : r.LoopStops) :
    freeRegion s r = .ok (r.cursors.foldl pmmFree s) := by
  unfold freeRegion MultibootMmap.cursors
  split
  case isFalse => rfl
  case isTrue h1 => exact pageLoop_walk (h h1) (Nat.mod_lt _ (by decide)) (Nat.mod_lt _ (by decide)).le

theorem freeRegion_endless {r : MultibootMmap} (s : Pmm) (h : ¬ r.LoopStops) :
    freeRegion s r = .error .endless := by
  obtain ⟨h1, hstop⟩ := Classical.not_imp.mp h
  unfold freeRegion
  rw [if_pos h1]
  exact pageLoop_endless hstop

theorem useModule_eq {mod : MultibootModule} (s : Pmm) (hw : mod.modStart < 2 ^ 32 ∧ mod.modEnd < 2 ^ 32)
    (h : mod.LoopStops) : useModule s mod = .ok (mod.cursors.foldl use s) :=
  pageLoop_walk h hw.1 hw.2.le

theorem useModule_endless {mod : MultibootModule} (s : Pmm) (h : ¬ mod.LoopStops) :
    useModule s mod = .error .endless :=
  pageLoop_endless h

/-- Loops that all end mark all their addresses, one loop after the other. -/
theorem foldlM_loops {α : Type} {step : Pmm → α → Except Fault Pmm} {mark : Pmm → Nat → Pmm}
    {walk : α → List Nat} {as : List α} (s : Pmm)
    (hok : ∀ a ∈ as, ∀ s, step s a = .ok ((walk a).foldl mark s)) :
    as.foldlM step s = .ok ((as.flatMap walk).foldl mark s) := by
  induction as generalizing s with
  | nil => rfl
  | cons a as ih =>
      rw [List.foldlM_cons, hok a List.mem_cons_self, ok_bind,
        ih _ (fun b hb => hok b (List.mem_cons_of_mem a hb)), List.flatMap_cons, List.foldl_append]

/-- Of loops that end or do not, the first that does not is the last. -/
theorem foldlM_endless {α : Type} {step : Pmm → α → Except Fault Pmm} (stops : α → Prop)
    {as : List α} (s : Pmm) (hok : ∀ a ∈ as, stops a → ∀ s, ∃ s', step s a = .ok s')
    (herr : ∀ a ∈ as, ¬ stops a → ∀ s, step s a = .error .endless) (hbad : ∃ a ∈ as, ¬ stops a) :
    as.foldlM step s = .error .endless := by
  induction as generalizing s with
  | nil =>
      obtain ⟨a, ha, -⟩ := hbad
      cases ha
  | cons a as ih =>
      rw [List.foldlM_cons]
      by_cases hstop : stops a
      · obtain ⟨s', hs'⟩ := hok a List.mem_cons_self hstop s
        rw [hs', ok_bind]
        refine ih s' (fun b hb => hok b (List.mem_cons_of_mem a hb))
          (fun b hb => herr b (List.mem_cons_of_mem a hb)) ?_
        obtain ⟨b, hb, hnot⟩ := hbad
        rcases List.mem_cons.mp hb with rfl | hb
        · exact absurd hstop hnot
        · exact ⟨b, hb, hnot⟩
      · rw [herr a List.mem_cons_self hstop, error_bind]

theorem freeRegions_eq (s : Pmm) (h : ∀ r ∈ info.mmap, r.LoopStops) :
    info.mmap.foldlM freeRegion s = .ok (info.freed.foldl pmmFree s) :=
  foldlM_loops s (fun r hr s => freeRegion_eq s (h r hr))

theorem freeRegions_endless (s : Pmm) (h : ¬ ∀ r ∈ info.mmap, r.LoopStops) :
    info.mmap.foldlM freeRegion s = .error .endless := by
  refine foldlM_endless MultibootMmap.LoopStops s
    (fun r _ hr s => ⟨_, freeRegion_eq s hr⟩) (fun r _ hr s => freeRegion_endless s hr) ?_
  push Not at h
  exact h

theorem useModules_eq (s : Pmm) (hw : info.Words) (h : ∀ mod ∈ info.mods, mod.LoopStops) :
    info.mods.foldlM useModule s
      = .ok ((info.mods.flatMap MultibootModule.cursors).foldl use s) :=
  foldlM_loops s (fun mod hmod s => useModule_eq s (hw.mods mod hmod) (h mod hmod))

theorem useModules_endless (s : Pmm) (hw : info.Words) (h : ¬ ∀ mod ∈ info.mods, mod.LoopStops) :
    info.mods.foldlM useModule s = .error .endless := by
  refine foldlM_endless MultibootModule.LoopStops s
    (fun mod hmod hr s => ⟨_, useModule_eq s (hw.mods mod hmod) hr⟩)
    (fun mod _ hr s => useModule_endless s hr) ?_
  push Not at h
  exact h

theorem initPmm_small (h : ¬ MIN_MEMORY < info.memUpper / 1024 + 1) :
    initPmm L info = .error .noReturn := by
  unfold initPmm
  rw [if_pos h]
  rfl

theorem initPmm_eq (h : MIN_MEMORY < info.memUpper / 1024 + 1) :
    initPmm L info = (do
      let s ← info.mmap.foldlM freeRegion
        { bitmap := fun _ => 0, totalMemory := info.memUpper / 1024 + 1, freeMemory := 0 }
      let s ← pageLoop use L.vmKernelEnd walkLimit Layout.vmKernelStart s
      let s ← info.mods.foldlM useModule (use (use s info.addr) info.modsAddr)
      let s ← pageLoop use L.heapEnd walkLimit L.heapStart s
      return use s 0) := by
  unfold initPmm
  rw [if_neg (not_not.mpr h)]

/-- The loops over the kernel image and over the heap end. -/
theorem Layout.loopStops (L : Layout) : LoopStops Layout.vmKernelStart L.vmKernelEnd ∧
    LoopStops L.heapStart L.heapEnd ∧ L.vmKernelEnd ≤ 2 ^ 32 ∧ L.heapEnd ≤ 2 ^ 32 := by
  have hfits := L.heapEnd_le
  have hpool := L.heapStart_eq
  have hheap := L.heapEnd_eq
  have hkernel : L.vmKernelEnd = L.pagepoolStart := rfl
  have hstart : Layout.vmKernelStart = 0 := rfl
  unfold LoopStops
  omega

/-- **What `InitPmm` does**: it frees the pages of the memory map and then marks those in use. -/
theorem initPmm_folds (hmin : MIN_MEMORY < info.memUpper / 1024 + 1) (hw : info.Words)
    (hstop : info.LoopsStop) : initPmm L info = .ok (info.booted L) := by
  obtain ⟨hkernel, hheap, hkernelEnd, hheapEnd⟩ := L.loopStops
  have hstart : L.heapStart < 2 ^ 32 := by
    have := L.heapEnd_le
    have := L.heapEnd_eq
    omega
  rw [initPmm_eq hmin, freeRegions_eq _ hstop.regions, ok_bind,
    pageLoop_walk hkernel (by decide) hkernelEnd, ok_bind, useModules_eq _ hw hstop.mods, ok_bind,
    pageLoop_walk hheap hstart hheapEnd, ok_bind]
  simp only [MultibootInfo.booted, MultibootInfo.marks, List.foldl_append, List.foldl_cons,
    List.foldl_nil]
  rfl

/-- `InitPmm` never comes back from a loop that does not end. -/
theorem initPmm_endless (hmin : MIN_MEMORY < info.memUpper / 1024 + 1) (hw : info.Words)
    (hstop : ¬ info.LoopsStop) : initPmm L info = .error .endless := by
  obtain ⟨hkernel, -, hkernelEnd, -⟩ := L.loopStops
  rw [initPmm_eq hmin]
  by_cases hregions : ∀ r ∈ info.mmap, r.LoopStops
  · have hmods : ¬ ∀ mod ∈ info.mods, mod.LoopStops := fun hmods => hstop ⟨hregions, hmods⟩
    rw [freeRegions_eq _ hregions, ok_bind, pageLoop_walk hkernel (by decide) hkernelEnd, ok_bind,
      useModules_endless _ hw hmods, error_bind]
  · rw [freeRegions_endless _ hregions, error_bind]

/-- After the boot, the pages in use are those marked. -/
theorem used_booted {q : Nat} : (info.booted L).Used q ↔ ∃ x ∈ info.marks L, q = x / 0x1000 := by
  unfold MultibootInfo.booted
  rw [used_foldl_use, used_foldl_pmmFree]
  simp [Pmm.Used, MultibootInfo.cleared]

/-! ### Memory maps that a boot loader may report -/

theorem MultibootInfo.Valid.words (hv : info.Valid) : info.Words :=
  ⟨hv.addr, hv.modsAddr, fun mod hmod => (hv.mods mod hmod).2⟩

theorem MultibootInfo.Valid.loopsStop_iff (hv : info.Valid) : info.LoopsStop ↔ info.Stops := by
  have hregion : ∀ r ∈ info.mmap, r.type = 1 → (r.base % 2 ^ 32 = r.base ∧
      (r.base % 2 ^ 32 + r.length) % 2 ^ 32 = r.base + r.length) := by
    intro r hr _
    have := hv.below r hr
    omega
  constructor
  · intro h
    refine ⟨fun r hr h1 => ?_, fun mod hmod => ?_⟩
    · have hloop := h.regions r hr h1
      rw [(hregion r hr h1).2, (hregion r hr h1).1] at hloop
      have := hv.aligned r hr h1
      have := hv.below r hr
      rcases hloop with hle | hle <;> omega
    · obtain ⟨hal, hlt, -⟩ := hv.mods mod hmod
      rcases h.mods mod hmod with hle | hle <;> omega
  · intro h
    refine ⟨fun r hr h1 => Or.inr ?_, fun mod hmod => Or.inr ?_⟩
    · rw [(hregion r hr h1).2]
      exact (h.regions r hr h1).trans (Nat.le_add_right _ _)
    · exact (h.mods mod hmod).trans (Nat.le_add_right _ _)

theorem MultibootInfo.Valid.reserved_iff (hv : info.Valid) {q : Nat} :
    (∃ x ∈ info.marks L, q = x / 0x1000) ↔ info.Reserved L q := by
  have hat : ∀ a, (∃ x, x / 0x1000 = q ∧ x = a) ↔ q = a / 0x1000 := by simp [eq_comm]
  have hmods : (∃ x ∈ info.mods.flatMap MultibootModule.cursors, q = x / 0x1000) ↔
      ∃ x, x / 0x1000 = q ∧ ∃ mod ∈ info.mods, mod.modStart ≤ x ∧ x < mod.modEnd := by
    constructor
    · rintro ⟨x, hx, hq⟩
      obtain ⟨mod, hmod, hx⟩ := List.mem_flatMap.mp hx
      obtain ⟨y, hy, hin⟩ := (page_has_byte (hv.mods mod hmod).1).mp ⟨x, hx, hq⟩
      exact ⟨y, hy, mod, hmod, hin⟩
    · rintro ⟨y, hy, mod, hmod, hin⟩
      obtain ⟨x, hx, hq⟩ := (page_has_byte (hv.mods mod hmod).1).mpr ⟨y, hy, hin⟩
      exact ⟨x, List.mem_flatMap.mpr ⟨mod, hmod, hx⟩, hq⟩
  have hkernel : (∃ x ∈ cursors Layout.vmKernelStart L.vmKernelEnd, q = x / 0x1000) ↔ _ :=
    page_has_byte (by decide)
  have hheap : (∃ x ∈ cursors L.heapStart L.heapEnd, q = x / 0x1000) ↔ _ :=
    page_has_byte L.heapStart_aligned
  simp only [MultibootInfo.marks, List.mem_append, or_and_right, exists_or, hkernel, hmods, hheap,
    List.mem_cons, List.not_mem_nil, or_false, exists_eq_left, MultibootInfo.Reserved, and_or_left,
    hat, or_assoc]

/-- **The bitmap after `InitPmm`.** The pages in use are the reserved ones; no region of the
memory map makes a difference. -/
theorem initPmm_ok (hv : info.Valid) (hmin : MIN_MEMORY < info.memUpper / 1024 + 1)
    (hstop : info.Stops) :
    ∃ s, initPmm L info = .ok s ∧ ∀ q, s.Used q ↔ info.Reserved L q := by
  refine ⟨_, initPmm_folds hmin hv.words (hv.loopsStop_iff.mpr hstop), fun q => ?_⟩
  rw [used_booted, hv.reserved_iff]

theorem initPmm_error (hv : info.Valid)
    (h : ¬ (MIN_MEMORY < info.memUpper / 1024 + 1 ∧ info.Stops)) :
    ∃ e, initPmm L info = .error e := by
  by_cases hmin : MIN_MEMORY < info.memUpper / 1024 + 1
  case neg => exact ⟨.noReturn, initPmm_small hmin⟩
  exact ⟨.endless, initPmm_endless hmin hv.words
    (fun hstop => h ⟨hmin, hv.loopsStop_iff.mp hstop⟩)⟩

/-- **When `InitPmm` builds the bitmap the memory map asks for.** Everything is marked as free
at the start, so the code is right only when it gets to its end and no page outside the
usable regions is left unreserved. -/
theorem boot_map (L : Layout) (info : MultibootInfo) (hv : info.Valid) :
    (∃ s, initPmm L info = .ok s ∧
      ∀ q < MEMORY_SIZE, (¬ s.Used q ↔ info.Usable q ∧ ¬ info.Reserved L q)) ↔
    MIN_MEMORY < info.memUpper / 1024 + 1 ∧ info.Stops ∧
      ∀ q < MEMORY_SIZE, info.Reserved L q ∨ info.Usable q := by
  constructor
  · rintro ⟨s, hs, hq⟩
    by_cases h : MIN_MEMORY < info.memUpper / 1024 + 1 ∧ info.Stops
    case neg =>
        obtain ⟨e, he⟩ := initPmm_error (L := L) hv h
        rw [he] at hs
        cases hs
    obtain ⟨s', hs', hq'⟩ := initPmm_ok (L := L) hv h.1 h.2
    obtain rfl : s' = s := by
      rw [hs'] at hs
      exact Except.ok.inj hs
    refine ⟨h.1, h.2, fun q hlt => ?_⟩
    have := hq q hlt
    rw [hq'] at this
    tauto
  · rintro ⟨hmin, hstop, hcov⟩
    obtain ⟨s, hs, hq⟩ := initPmm_ok (L := L) hv hmin hstop
    refine ⟨s, hs, fun q hlt => ?_⟩
    have := hcov q hlt
    rw [hq]
    tauto

end

/-- A machine with 128 MB: one usable region from 1 MB on, and no modules. -/
def smallMachine : MultibootInfo where
  addr := 0x9000
  memUpper := 127 * 1024
  mmap := [⟨0x100000, 0x7F00000, 1⟩]
  modsAddr := 0x9000
  mods := []

theorem smallMachine_valid : smallMachine.Valid := by
  refine ⟨?_, ?_, ?_, ?_, ?_⟩ <;> simp [smallMachine]

/-- On that machine `boot_map` is about a boot that gets to its end. -/
theorem boot_map_smallMachine :
    (∃ s, initPmm Layout.least smallMachine = .ok s ∧
      ∀ q < MEMORY_SIZE,
        (¬ s.Used q ↔ smallMachine.Usable q ∧ ¬ smallMachine.Reserved Layout.least q)) ↔
    MIN_MEMORY < smallMachine.memUpper / 1024 + 1 ∧ smallMachine.Stops ∧
      ∀ q < MEMORY_SIZE, smallMachine.Reserved Layout.least q ∨ smallMachine.Usable q :=
  boot_map Layout.least smallMachine smallMachine_valid

/-- There the last page of the address space, in no region, is free after `InitPmm`. -/
theorem boot_map_fails :
    smallMachine.Valid ∧ ∃ s, initPmm Layout.least smallMachine = .ok s ∧ 0xFFFFF < MEMORY_SIZE ∧
      ¬ s.Used 0xFFFFF ∧ ¬ smallMachine.Usable 0xFFFFF := by
  obtain ⟨s, hs, hq⟩ := initPmm_ok (L := Layout.least) smallMachine_valid (by decide)
    ⟨by simp [smallMachine], by simp [smallMachine]⟩
  refine ⟨smallMachine_valid, s, hs, by decide, ?_, by simp [smallMachine, MultibootInfo.Usable]⟩
  rw [hq]
  rintro ⟨x, hx, h⟩
  have hend : Layout.least.heapEnd = 0x101000 + 0x200000 + 0x1400000 := rfl
  have hkernel : Layout.least.vmKernelEnd = 0x101000 := rfl
  simp only [smallMachine, List.not_mem_nil, false_and, exists_false, false_or] at h
  omega

/-! ## Taking pages -/

section
variable {s : Pmm} {start endAddr : Nat}

/-- The page `q` is the lowest free one of the pages that `P` allows. -/
structure Pmm.Lowest (s : Pmm) (P : Nat → Prop) (q : Nat) : Prop where
  mem : P q
  free : ¬ s.Used q
  least : ∀ r < q, P r → s.Used r

theorem pmmAllocScan_spec (hend : endAddr ≤ 0xFFFFF000) {fuel i : Nat} (hal : i % 0x1000 = 0)
    (hpos : 0 < fuel) (hfuel : endAddr + 0x1000 ≤ i + 0x1000 * fuel) (hlt : i < 2 ^ 32) :
    (∃ q, s.Lowest (fun q => i ≤ 0x1000 * q ∧ 0x1000 * q < endAddr) q ∧
      pmmAllocScan s endAddr fuel i = some (0x1000 * q, use s (0x1000 * q))) ∨
    ((∀ q, i ≤ 0x1000 * q → 0x1000 * q < endAddr → s.Used q) ∧
      pmmAllocScan s endAddr fuel i = some (NULL, s)) := by
  induction fuel generalizing i with
  | zero => omega
  | succ fuel ih =>
      rw [pmmAllocScan]
      by_cases hi : i < endAddr
      case neg => exact .inr ⟨fun q _ _ => by omega, if_neg hi⟩
      rw [if_pos hi]
      have hpage : 0x1000 * (i / 0x1000) = i := by omega
      by_cases hfree : isFree s i = 0
      · refine .inl ⟨i / 0x1000, ⟨by omega, isFree_eq_zero.mp hfree, fun r hr hin => by omega⟩, ?_⟩
        rw [if_pos hfree, hpage]
      · have hused : s.Used (i / 0x1000) := not_not.mp (mt isFree_eq_zero.mpr hfree)
        have hmod : (i + PAGESIZE) % 2 ^ 32 = i + 0x1000 := Nat.mod_eq_of_lt (by
          simp only [PAGESIZE]
          omega)
        have hat : ∀ q, i ≤ 0x1000 * q → ¬ i + 0x1000 ≤ 0x1000 * q → s.Used q := fun q h h' => by
          obtain rfl : q = i / 0x1000 := by omega
          exact hused
        rw [if_neg hfree, hmod]
        rcases ih (i := i + 0x1000) (by omega) (by omega) (by omega) (by omega) with
          ⟨q, hq, he⟩ | ⟨hq, he⟩
        · refine .inl ⟨q, ⟨⟨by have := hq.mem; omega, hq.mem.2⟩, hq.free, fun r hr hin => ?_⟩, he⟩
          by_cases hnext : i + 0x1000 ≤ 0x1000 * r
          · exact hq.least r hr ⟨hnext, hin.2⟩
          · exact hat r hin.1 hnext
        · refine .inr ⟨fun q h h' => ?_, he⟩
          by_cases hnext : i + 0x1000 ≤ 0x1000 * q
          · exact hq q hnext h'
          · exact hat q h hnext

/-- `pmm_alloc` takes the lowest free page of its range, or finds none. -/
theorem pmmAlloc_spec (s : Pmm) (hal : start % 0x1000 = 0) (hlt : start < endAddr)
    (hend : endAddr ≤ 0xFFFFF000) :
    (∃ q, s.Lowest (fun q => start ≤ 0x1000 * q ∧ 0x1000 * q < endAddr) q ∧
      pmmAlloc s start endAddr = some (0x1000 * q, use s (0x1000 * q))) ∨
    ((∀ q, start ≤ 0x1000 * q → 0x1000 * q < endAddr → s.Used q) ∧
      pmmAlloc s start endAddr = some (NULL, s)) := by
  rw [pmmAlloc, if_pos hlt]
  exact pmmAllocScan_spec hend hal (by decide) (by simp only [walkLimit]; omega) (by omega)

theorem pmmAllocStartScan_spec {fuel i : Nat} (hfuel : MEMORY_SIZE < i + fuel) :
    (∃ q, s.Lowest (fun q => i ≤ q ∧ q < MEMORY_SIZE) q ∧
      pmmAllocStartScan s fuel i = (0x1000 * q, use s (0x1000 * q))) ∨
    ((∀ q, i ≤ q → q < MEMORY_SIZE → s.Used q) ∧ pmmAllocStartScan s fuel i = (NULL, s)) := by
  induction fuel generalizing i with
  | zero => exact .inr ⟨fun q _ _ => by omega, rfl⟩
  | succ fuel ih =>
      rw [pmmAllocStartScan]
      by_cases hi : i < MEMORY_SIZE
      case neg => exact .inr ⟨fun q _ _ => by omega, if_neg hi⟩
      have hmod : i * PAGESIZE % 2 ^ 32 = 0x1000 * i := by
        simp only [MEMORY_SIZE, BITMAP_SIZE] at hi
        simp only [PAGESIZE]
        omega
      have hpage : 0x1000 * i / 0x1000 = i := by omega
      rw [if_pos hi, hmod]
      by_cases hfree : isFree s (0x1000 * i) = 0
      · have hunused := isFree_eq_zero.mp hfree
        rw [hpage] at hunused
        exact .inl ⟨i, ⟨⟨le_rfl, hi⟩, hunused, fun r hr hin => by omega⟩, if_pos hfree⟩
      · have hused : s.Used i := by
          have := not_not.mp (mt isFree_eq_zero.mpr hfree)
          rwa [hpage] at this
        rw [if_neg hfree]
        rcases ih (i := i + 1) (by omega) with ⟨q, hq, he⟩ | ⟨hq, he⟩
        · refine .inl ⟨q, ⟨⟨by have := hq.mem; omega, hq.mem.2⟩, hq.free, fun r hr hin => ?_⟩, he⟩
          rcases Nat.eq_or_lt_of_le hin.1 with rfl | hnext
          · exact hused
          · exact hq.least r hr ⟨hnext, hin.2⟩
        · refine .inr ⟨fun q h h' => ?_, he⟩
          rcases Nat.eq_or_lt_of_le h with rfl | hnext
          · exact hused
          · exact hq q hnext h'

/-- `pmm_alloc_start` takes the lowest free page from `start` on, or finds none. -/
theorem pmmAllocStart_spec (s : Pmm) (start : Nat) :
    (∃ q, s.Lowest (fun q => start / 0x1000 ≤ q ∧ q < MEMORY_SIZE) q ∧
      pmmAllocStart s start = (0x1000 * q, use s (0x1000 * q))) ∨
    ((∀ q, start / 0x1000 ≤ q → q < MEMORY_SIZE → s.Used q) ∧
      pmmAllocStart s start = (NULL, s)) :=
  pmmAllocStartScan_spec (by omega)

end

end DayOS
