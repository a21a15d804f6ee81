import DayOS.HeapBounds
import DayOS.Room
import DayOS.VmmRun

set_option autoImplicit false

/-! # The heap and the boot modules (`pmm.c`, `heap.c`, `init.c`)

The linker script fixes the heap's place, the boot loader chooses that of the modules, and
nothing on the way from `InitPmm` to `kinit_heap` compares the two: both are marked as used.
`modules_safe` says which placements the heap leaves alone, for those requests for which there is
room and for requests of any size. The memory here has no pages, so the second half keeps to modules
on the pages that `init_vmm` maps: behind the page at `HEAP_END` a stray header faults.
-/

namespace DayOS

open ByteMemory

/-- `init` gets past `InitPmm` and `InitVmm`, with the memory `m` behind them. -/
def Boots (L : Layout) (info : MultibootInfo) (m : Mem) : Prop :=
  ∃ s₀ m₀ K s, initPmm L info = .ok s₀ ∧ initVmm L m₀ s₀ = .ok (K, m, s)

/-- The module has the byte at `x`. -/
def MultibootModule.Has (mod : MultibootModule) (x : Nat) : Prop := mod.modStart ≤ x ∧ x < mod.modEnd

/-- After every boot, no byte of a module lies in the heap, and no use of the heap changes one. -/
def ModulesSafe (L : Layout) (info : MultibootInfo) (asked : Mem → Nat → Prop) : Prop :=
  ∀ m₁, Boots L info m₁ → ∀ mod ∈ info.mods, ∀ x, mod.Has x →
    ¬ (L.heapStart ≤ x ∧ x < L.heapEnd) ∧ ∀ m live, HeapUse L asked m₁ m live → m x = m₁ x

section
variable {L : Layout} {info : MultibootInfo} {m m₁ : Mem} {live : List Block}

/-- The heap keeps to its range. -/
theorem HeapUse.inside (h : HeapUse L (HasRoom L) m₁ m live) {x : Nat}
    (hx : ¬ (L.heapStart ≤ x ∧ x < L.heapEnd)) : m x = m₁ x := by
  induction h with
  | init =>
      have hend := L.heapEnd_eq
      exact kinitHeap_of_outside (by omega)
  | malloc hrun _ hroom hk ih =>
      obtain ⟨ns, hrow⟩ := hrun.roomyRun.row
      rw [hrow.kmalloc_inside (hroom ns hrow.heap) hk hx]
      exact ih
  | free hrun hb hk ih =>
      obtain ⟨ns, hrow⟩ := hrun.roomyRun.row
      rw [hrow.kfree_inside hb hk hx]
      exact ih
  | write hrun hw ih =>
      obtain ⟨ns, hrow⟩ := hrun.roomyRun.row
      rw [hw x (fun b hb hin => hx ?_)]
      · exact ih
      · obtain ⟨hge, hle⟩ := hrow.block_inside hb
        exact ⟨by have := hin.1; omega, by have := hin.2; omega⟩

/-- Two requests change any byte outside the heap. -/
theorem exists_heapUse_ne (m₁ : Mem) {x : Nat} (hpos : 1 < x) (hlt : x < 2 ^ 32)
    (hx : ¬ (L.heapStart ≤ x ∧ x < L.heapEnd)) :
    ∃ m live, HeapUse L AnySize m₁ m live ∧ m x ≠ m₁ x := by
  have hS := L.heapEnd_eq
  have htwice : ∀ n, 0 < n → n < 2 ^ 32 → (n + 16 ≤ L.heapStart + 28 ∨ L.heapStart + 32 ≤ n) →
      ∃ m live, HeapUse L AnySize m₁ m live ∧ m n = 0xBE ∧ m (n + 1) = 0xBA := by
    intro n hn hn' hapart
    obtain ⟨m', hfirst, hsecond⟩ := kmalloc_twice L m₁ hn hn' hapart
    have hrun : HeapUse L AnySize m₁ m' _ := .malloc .init (by decide) trivial hfirst
    exact ⟨_, _, .malloc hrun hn' trivial hsecond, strayHeader_magic⟩
  -- the two lowest bytes of the magic number differ
  by_cases hbyte : m₁ x = 0xBE
  · obtain ⟨m, live, hrun, -, hm⟩ := htwice (x - 1) (by omega) (by omega) (by omega)
    rw [Nat.sub_add_cancel (by omega)] at hm
    refine ⟨m, live, hrun, ?_⟩
    rw [hm, hbyte]
    decide
  · obtain ⟨m, live, hrun, hm, -⟩ := htwice x (by omega) hlt (by omega)
    refine ⟨m, live, hrun, ?_⟩
    rw [hm]
    exact Ne.symm hbyte

/-- No module on a page that `init_vmm` maps is safe from requests of every size. -/
theorem modulesSafe_anySize (hboots : ∃ m₁, Boots L info m₁)
    (hmods : ∀ mod ∈ info.mods, L.kernelEnd ≤ mod.modStart ∧ mod.modEnd < 2 ^ 32) :
    ModulesSafe L info AnySize ↔ ∀ mod ∈ info.mods, mod.modEnd ≤ mod.modStart := by
  have hpos := L.above
  constructor
  · intro hsafe mod hmod
    obtain ⟨m₁, hboot⟩ := hboots
    obtain ⟨hstart, hend⟩ := hmods mod hmod
    by_contra hne
    obtain ⟨hapart, hkeep⟩ := hsafe m₁ hboot mod hmod mod.modStart ⟨le_rfl, by omega⟩
    obtain ⟨m, live, huse, hm⟩ := exists_heapUse_ne m₁ (by omega) (by omega) hapart
    exact hm (hkeep m live huse)
  · intro hempty m₁ _ mod hmod x hx
    have hle := hempty mod hmod
    have hlow := hx.1
    have hhigh := hx.2
    omega

/-- A heap that is asked only where there is room leaves everything outside its range alone. -/
theorem modulesSafe_hasRoom (hboots : ∃ m₁, Boots L info m₁) :
    ModulesSafe L info (HasRoom L) ↔ ∀ mod ∈ info.mods, mod.modEnd ≤ mod.modStart ∨
      mod.modEnd ≤ L.kernelEnd + 0x200000 ∨ L.kernelEnd + 0x1600000 ≤ mod.modStart := by
  have hstart : L.heapStart = L.kernelEnd + 0x200000 := rfl
  have hend : L.heapEnd = L.kernelEnd + 0x200000 + 0x1400000 := rfl
  constructor
  · intro hsafe mod hmod
    obtain ⟨m₁, hboot⟩ := hboots
    by_contra hmeet
    -- a byte of both
    obtain ⟨hapart, -⟩ := hsafe m₁ hboot mod hmod (max mod.modStart L.heapStart)
      ⟨le_max_left _ _, by omega⟩
    exact hapart ⟨le_max_right _ _, by omega⟩
  · intro hplace m₁ _ mod hmod x hx
    have happart : ¬ (L.heapStart ≤ x ∧ x < L.heapEnd) := by
      have hlow := hx.1
      have hhigh := hx.2
      rcases hplace mod hmod with hempty | hbelow | habove <;> omega
    exact ⟨happart, fun m live huse => huse.inside happart⟩

/-- **Heap and modules.** With modules above the kernel image and a boot that gets past `InitPmm`
and `InitVmm`: as long as there is room for each request, the heap leaves the modules alone if and
only if every module that is not empty ends at most 2 MB behind the kernel or starts at least 22 MB
behind it. Where all modules start at or below `HEAP_END`, on pages that `init_vmm` maps, it does
so whatever is asked of it if and only if all of them are empty. -/
theorem modules_safe (hboots : ∃ m₁, Boots L info m₁)
    (hmods : ∀ mod ∈ info.mods, L.kernelEnd ≤ mod.modStart ∧ mod.modEnd < 2 ^ 32) :
    ((∀ mod ∈ info.mods, mod.modStart ≤ L.heapEnd) →
      (ModulesSafe L info AnySize ↔ ∀ mod ∈ info.mods, mod.modEnd ≤ mod.modStart)) ∧
    (ModulesSafe L info (HasRoom L) ↔ ∀ mod ∈ info.mods, mod.modEnd ≤ mod.modStart ∨
      mod.modEnd ≤ L.kernelEnd + 0x200000 ∨ L.kernelEnd + 0x1600000 ≤ mod.modStart) :=
  ⟨fun _ => modulesSafe_anySize hboots hmods, modulesSafe_hasRoom hboots⟩

end

/-- The small machine with one module of one page. -/
def moduleMachine (start : Nat) : MultibootInfo :=
  { smallMachine with mods := [⟨start, start + 0x1000⟩] }

/-- The boot of the small machine gets past `InitPmm` and `InitVmm`, with the module on any page
from the heap's start on. -/
theorem moduleMachine_boots (start : Nat) (hal : start % 0x1000 = 0) (hlow : 0x301000 ≤ start)
    (hhigh : start < 0x8000000) : ∃ m₁, Boots Layout.least (moduleMachine start) m₁ ∧
      ∀ x, Layout.least.heapStart ≤ x → m₁ x = 0 := by
  have hvalid : (moduleMachine start).Valid := by
    refine ⟨smallMachine_valid.addr, smallMachine_valid.modsAddr, fun r hr _ => ?_, fun r hr => ?_,
      fun mod hmod => ?_⟩
    · obtain rfl := List.mem_singleton.mp hr
      rfl
    · obtain rfl := List.mem_singleton.mp hr
      show 0x100000 + 0x7F00000 < 2 ^ 32
      omega
    · obtain rfl := List.mem_singleton.mp hmod
      exact ⟨hal, by show start < _; omega, by show start + 0x1000 < _; omega⟩
  have hstops : (moduleMachine start).Stops := by
    refine ⟨fun r hr _ => ?_, fun mod hmod => ?_⟩
    · obtain rfl := List.mem_singleton.mp hr
      show 0x100000 + 0x7F00000 ≤ 0xFFFFF000
      omega
    · obtain rfl := List.mem_singleton.mp hmod
      show start + 0x1000 ≤ 0xFFFFF000
      omega
  have hmin : MIN_MEMORY < smallMachine.memUpper / 1024 + 1 := by decide
  obtain ⟨s₀, hpmm, hused⟩ := initPmm_ok (L := Layout.least) hvalid hmin hstops
  -- nothing in the page pool is taken
  have hpool : usedPages Layout.least s₀ = ∅ := by
    rw [Finset.eq_empty_iff_forall_notMem]
    intro j hj
    rw [mem_usedPages, hused] at hj
    obtain ⟨hj, x, hx, hres⟩ := hj
    have hbase : Layout.least.pagepoolStart / 0x1000 = 0x101 := by decide
    have hkernel : Layout.least.vmKernelEnd = 0x101000 := rfl
    have hheap : Layout.least.heapStart = 0x301000 := rfl
    rw [hbase] at hx
    rcases hres with hres | rfl | rfl | ⟨mod, hmod, hres, -⟩ | hres | rfl
    · omega
    · exact absurd hx (by show ¬ 0x9000 / 0x1000 = _; omega)
    · exact absurd hx (by show ¬ 0x9000 / 0x1000 = _; omega)
    · obtain rfl := List.mem_singleton.mp hmod
      have hstart : start ≤ x := hres
      omega
    · omega
    · omega
  have hcount : poolCount Layout.least s₀ = 0 := by
    unfold poolCount
    rw [hpool, Finset.card_empty]
  have hend : Layout.least.heapEnd = 0x1701000 := rfl
  obtain ⟨K, m₁, s₁, hvmm, -⟩ := initVmm_returns Layout.least (fun _ => 0) s₀ (by omega)
  refine ⟨m₁, ⟨s₀, fun _ => 0, K, s₁, hpmm, hvmm⟩, fun x hx => ?_⟩
  obtain ⟨-, R, b⟩ := initVmm_ok hvmm
  exact b.keeps x (Or.inr hx)

/-- A module right behind the heap is safe from requests for which there is room. -/
theorem modules_safe_behind :
    ModulesSafe Layout.least (moduleMachine 0x1701000) (HasRoom Layout.least) := by
  obtain ⟨m₁, hboot, -⟩ := moduleMachine_boots 0x1701000 (by decide) (by decide) (by decide)
  refine (modules_safe ⟨m₁, hboot⟩ (fun mod hmod => ?_)).2.mpr (fun mod hmod => ?_)
  · obtain rfl := List.mem_singleton.mp hmod
    exact ⟨by decide, by decide⟩
  · obtain rfl := List.mem_singleton.mp hmod
    exact Or.inr (Or.inr (by decide))

/-- A module on the first page of the heap is overwritten by `kinit_heap`. -/
theorem modules_safe_fails : ∃ m₁, Boots Layout.least (moduleMachine 0x301000) m₁ ∧
    m₁ 0x301000 = 0 ∧ kinitHeap Layout.least m₁ 0x301000 = 0xBE ∧
    ¬ ModulesSafe Layout.least (moduleMachine 0x301000) AnySize ∧
    ¬ ModulesSafe Layout.least (moduleMachine 0x301000) (HasRoom Layout.least) := by
  obtain ⟨m₁, hboot, hzero⟩ := moduleMachine_boots 0x301000 (by decide) (by decide) (by decide)
  have hmagic : kinitHeap Layout.least m₁ 0x301000 = 0xBE := by
    show store32 _ 0x301000 MAGIC 0x301000 = 0xBE
    simp [store32, MAGIC]
  have hunsafe : ∀ asked, ¬ ModulesSafe Layout.least (moduleMachine 0x301000) asked := by
    intro asked hsafe
    obtain ⟨hapart, -⟩ := hsafe m₁ hboot ⟨0x301000, 0x302000⟩ (List.mem_singleton_self _) 0x301000
      ⟨by decide, by decide⟩
    exact hapart ⟨by decide, by decide⟩
  exact ⟨m₁, hboot, hzero _ (by decide), hmagic, hunsafe _, hunsafe _⟩

end DayOS
