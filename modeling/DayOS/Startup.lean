import DayOS.KernelRun

set_option autoImplicit false

/-! # From `init` to the first process

`init` sets up the tables, the memory manager and the heap, and `InitMultitasking` makes the first
three processes, each with a context of its own. Then the boot code waits for the first timer
interrupt, which leaves it for good. From there on every run of the machine is one of processes
with a processor and an address space each (`boot_processes`), and a process that loses its turn
finds all of it as it was (`resumes_where_it_was`).

`init` runs before paging is switched on; the page bitmap that `InitPmm` leaves is a parameter.
-/

namespace DayOS

open ByteMemory Linked Ia32 Paging

/-- `init` up to `InitMultitasking`, in the memory `m` and with the page bitmap `s`. -/
def initKernel (L : Layout) (D : KernelData) (kernelEsp : Nat) (m : Mem) (s : Pmm) :
    Except VmmFault (Kernel Pmm) := do
  let m := initGlobalDescriptors m D.tss D.gp D.gdtEntries kernelEsp
  let m := initInterruptDescriptors m D.ip D.idt D.stub
  let (kernelContext, m, s) ← initVmm L m s
  let m := kinitHeap L m
  return {
    mem := m, frames := s, firstProcess := NULL, currentProcess := NULL, idleProcess := NULL
    numProc := 0, currentContext := kernelContext }

section
variable {L : Layout} {D : KernelData} {KC kernelEsp p start : Nat} {m m₀ m₁ : Mem} {s₀ s₁ : Pmm}
  {K K' : Kernel Pmm} {c c₁ c₂ : Census} {live : List Nat} {M M₁ M₂ : Machine Pmm}
  {frame : Nat → Nat} {regs : Nat → Registers}

/-! ## The tables, the pool and the heap -/

/-- The memory with the descriptors. -/
def withDescriptors (D : KernelData) (kernelEsp : Nat) (m : Mem) : Mem :=
  initInterruptDescriptors (initGlobalDescriptors m D.tss D.gp D.gdtEntries kernelEsp) D.ip D.idt
    D.stub

/-- What lies apart from them is as before. -/
theorem withDescriptors_of_outside {x : Nat}
    (hx : ∀ b ∈ [(⟨D.tss, 128⟩ : Block), ⟨D.gp, 6⟩, ⟨D.gdtEntries, 48⟩, ⟨D.ip, 6⟩, ⟨D.idt, 2048⟩],
      ¬ b.Has x) : withDescriptors D kernelEsp m₀ x = m₀ x := by
  simp only [List.forall_mem_cons, Block.Has] at hx
  have hglobal := agreeOn_initGlobalDescriptors m₀ D.tss D.gp D.gdtEntries kernelEsp
    (b := x) (n := 1) (by omega)
  rw [withDescriptors, initInterruptDescriptors_of_outside (by omega) (by omega),
    hglobal x le_rfl (Nat.lt_succ_self x), store32_of_outside (by omega),
    store16_of_outside (by omega), store32_of_outside (by omega)]

theorem KernelData.Fits.above (h : D.Fits L) {x : Nat} (hx : L.vmKernelEnd ≤ x) :
    withDescriptors D kernelEsp m₀ x = m₀ x := by
  have hin := h.inside
  simp only [KernelData.tables, List.forall_mem_cons] at hin
  refine withDescriptors_of_outside ?_
  simp only [List.forall_mem_cons, Block.Has, List.not_mem_nil]
  refine ⟨?_, ?_, ?_, ?_, ?_, fun _ hf => hf.elim⟩ <;> omega

/-- The table of the lines is none of them. -/
theorem KernelData.Fits.lines (h : D.Fits L) {x : Nat} (hx : D.irqHandlers ≤ x)
    (hx' : x < D.irqHandlers + 192) : withDescriptors D kernelEsp m₀ x = m₀ x := by
  have hap := h.apart
  simp only [KernelData.tables, List.forall_mem_cons, List.pairwise_cons, Block.Apart] at hap
  refine withDescriptors_of_outside ?_
  simp only [List.forall_mem_cons, Block.Has, List.not_mem_nil]
  refine ⟨?_, ?_, ?_, ?_, ?_, fun _ hf => hf.elim⟩ <;> omega

/-- **What `init` hands over to `InitMultitasking`**: the memory manager behind `InitVmm`, a new
heap, and the gates. -/
theorem initKernel_ok (hD : D.Fits L) (hzero : ∀ a, L.heapStart + 16 ≤ a → a < L.heapEnd → m₀ a = 0)
    (h : initKernel L D kernelEsp m₀ s₀ = .ok K) : ∃ m₁,
    initVmm L (withDescriptors D kernelEsp m₀) s₀ = .ok (K.currentContext, m₁, K.frames) ∧
    AtBoot (kernelHost L K.currentContext D) L K ∧ (∀ x, L.InPool x → K.mem x = m₁ x) ∧
    ∀ x < L.pagepoolStart, K.mem x = withDescriptors D kernelEsp m₀ x := by
  obtain ⟨⟨KC, m₁, s₁⟩, hvmm, h⟩ := bind_eq_ok.mp h
  cases h
  obtain ⟨-, R, hbooting⟩ := initVmm_ok hvmm
  have hpool : L.pagepoolStart = L.vmKernelEnd := rfl
  have hend : L.pagepoolEnd = L.heapStart := rfl
  have hlow : L.pagepoolStart ≤ L.pagepoolEnd := Nat.le_add_right _ _
  have hheap : ∀ x < L.heapStart, kinitHeap L m₁ x = m₁ x := fun x hx => by
    simp only [kinitHeap]
    rw [store32_of_outside (by omega), store32_of_outside (by omega),
      store32_of_outside (by omega), store32_of_outside (by omega)]
  have hbelow : ∀ x < L.pagepoolStart, kinitHeap L m₁ x = withDescriptors D kernelEsp m₀ x :=
    fun x hx => (hheap x (by omega)).trans (hbooting.keeps x (Or.inl hx))
  refine ⟨m₁, hvmm, ⟨rfl, fullHeap_init (fun a ha ha' => ?_), fun v hv => ?_,
    rfl, rfl, rfl⟩, fun x hx => hheap x (hend ▸ hx.2), hbelow⟩
  · exact (hbooting.keeps a (Or.inr (by omega))).trans
      ((hD.above (by omega)).trans (hzero a ha ha'))
  · obtain ⟨-, hidt, -⟩ := hD.offsets
    show readGate _ (D.idt + 8 * v) = gateOf D.stub v
    have hgate : readGate (withDescriptors D kernelEsp m₀) (D.idt + 8 * v) = gateOf D.stub v :=
      readGate_initInterruptDescriptors hv
    exact (readGate_congr (fun x _ hx' => hbelow x (by omega))).trans hgate

/-! ## A context for each -/

/-- **One more kernel process**, with a context of its own. -/
theorem Starting.createKernel_spaces {n : Nat}
    (h : Starting (kernelHost L KC D) L K n frame regs) (hD : D.Fits L) (hn : n < 4)
    (hK : KernelSpace L m₁ s₁ KC)
    (hown : OwnSpaces L KC m₁ s₁ K ((List.range n).reverse.map L.process) live)
    (hk : createKernelProcess (firstFit L).toHeap (vmmContexts L KC) K start = some (p, K')) :
    OwnSpaces L KC m₁ s₁ K' ((List.range (n + 1)).reverse.map L.process)
      (procContext K'.mem p :: live) ∧
    Starting (kernelHost L KC D) L K' (n + 1) (Function.update frame p (frameOf (L.stack n)))
      (Function.update regs p (kernelStart start (L.stack n))) := by
  have hX : (kernelHost L KC D).Separate := hD.separate
  obtain ⟨rfl, -, -, hrec, hnext⟩ := h.createKernel hX rfl hn hk
  obtain ⟨nodes, queue, blocks, hl⟩ := h.frozen.sound
  have hborn := hown.createKernel hK (A := firstFit L) hl.boxes.holds (fun x hx => hX.area x hx)
    (fun q hq => load32_congr ((hrec q hq).mono (by omega) (by omega))) hk
  refine ⟨?_, hnext⟩
  rw [List.range_succ, List.reverse_append, List.map_append]
  exact hborn

/-- **`InitMultitasking`** gives each process a context of its own. -/
theorem AtBoot.spaces (h : AtBoot (kernelHost L KC D) L K) (hD : D.Fits L)
    (hK : KernelSpace L m₁ K.frames KC) (hpool : ∀ x, L.InPool x → K.mem x = m₁ x)
    (hk : initMultitasking (firstFit L).toHeap (vmmContexts L KC) K D.kernelProcess D.idle
      D.ramdiskProcess = some K') :
    ∃ live, OwnSpaces L KC m₁ K.frames K' L.bootCensus.alive live := by
  have hX : (kernelHost L KC D).Separate := hD.separate
  have hboot : OwnSpaces L KC m₁ K.frames K [] [] := hK.ownSpaces hpool
  simp only [initMultitasking, Option.bind_eq_bind, Option.bind_eq_some_iff, Option.pure_def,
    Option.some.injEq, Prod.exists] at hk
  obtain ⟨p₀, K₀, hk₀, p₁, K₁, hk₁, p₂, K₂, hk₂, rfl⟩ := hk
  have hstart := h.starting (fun _ => 0) (fun _ => kernelStart 0 0)
  obtain ⟨hown₀, h₀⟩ := hstart.createKernel_spaces hD (by omega) hK hboot hk₀
  obtain ⟨hown₁, h₁⟩ := h₀.createKernel_spaces hD (by omega) hK hown₀ hk₁
  obtain ⟨hown₂, h₂⟩ := (h₁.withIdle p₁).createKernel_spaces hD (by omega) hK
    ⟨hown₁.spaces, hown₁.mem, hown₁.inj⟩ hk₂
  obtain ⟨rfl, hglobals, -⟩ := (h₁.withIdle p₁).createKernel hX rfl (by omega) hk₂
  obtain ⟨rfl, -⟩ := h₀.createKernel hX rfl (by omega) hk₁
  have hidle : K₂.idleProcess = L.process 1 := by rw [hglobals]
  have hmem : L.process 1 ∈ L.bootCensus.alive := by simp [Layout.bootCensus]
  -- the status of `idle` is in the heap
  have hstatus : ∀ x, L.InPool x →
      store8 K₂.mem (K₂.idleProcess + 40) PROCESS_PAUSED x = K₂.mem x := by
    intro x hx
    rw [hidle]
    refine store8_of_ne ?_
    rintro rfl
    exact hX.area _ (h₂.frozen.sound.record_off hmem hmem (by omega) (by omega)).1 hx
  refine ⟨_, hown₂.kept hK ⟨rfl, hstatus⟩ (fun q hq => ?_)⟩
  obtain ⟨i, -, rfl⟩ := List.mem_map.mp hq
  show procContext (store8 K₂.mem (K₂.idleProcess + 40) PROCESS_PAUSED) _ = _
  rw [hidle]
  refine load32_store8_of_ne ?_
  simp only [Layout.process]
  omega

end

section
variable {σ : Type} {X : Host σ} {L : Layout} {K : Kernel σ}

/-- **`InitMultitasking` succeeds** on a new heap, when three contexts can be made, and leaves three
processes ready to go. -/
theorem initMultitasking_starts (hX : X.Separate) (h : AtBoot X L K)
    (hV : X.contexts.Available 3 K.frames) (kernelProcess idle ramdiskProcess : Nat) :
    ∃ K' frame regs,
    initMultitasking X.alloc.toHeap X.contexts K kernelProcess idle ramdiskProcess = some K' ∧
    Booted X L K' kernelProcess idle ramdiskProcess frame regs ∧
    ∀ x, ¬ X.alloc.arena x → ¬ X.contexts.area x → K'.mem x = K.mem x := by
  obtain ⟨K', hk⟩ := h.init_returns hX hV kernelProcess idle ramdiskProcess
  obtain ⟨⟨frame, regs, hbooted⟩, -, hout⟩ := h.init hX hk
  exact ⟨K', frame, regs, hk, hbooted, hout⟩

end

/-- The tables in front of the end of the smallest image. -/
def leastData : KernelData where
  tss := 0x3000
  gp := 0x1FE0
  gdtEntries := 0x1F00
  ip := 0x1FF0
  idt := 0x2000
  irqHandlers := 0x4000
  stub v := 0x100000 + UInt32.ofNat v
  kernelProcess := 0x100000
  idle := 0x100100
  ramdiskProcess := 0x100200

theorem leastData_fits : leastData.Fits Layout.least := by decide

/-- `init` on an empty memory comes back, with room for contexts in the pool. -/
theorem exists_initKernel : ∃ K, initKernel Layout.least leastData 0x90000 (fun _ => 0) emptyPmm = .ok K ∧
    (vmmContexts Layout.least K.currentContext).Available 3 K.frames := by
  obtain ⟨KC, m, s, hvmm, hcount, -⟩ := initVmm_returns Layout.least
    (withDescriptors leastData 0x90000 (fun _ => 0)) emptyPmm (by rw [poolCount_emptyPmm]; decide)
  have hend : Layout.least.heapEnd = 0x1701000 := rfl
  rw [poolCount_emptyPmm, hend] at hcount
  exact ⟨_, bind_of_ok hvmm, vmmContexts_available (show poolCount Layout.least s + 2 * 3 ≤ 0x200 by
    omega)⟩

/-- On the smallest layout, with the contexts of `vmm.c`. -/
theorem initMultitasking_starts_least : ∃ K K' frame regs,
    initKernel Layout.least leastData 0x90000 (fun _ => 0) emptyPmm = .ok K ∧
    initMultitasking (firstFit Layout.least).toHeap (vmmContexts Layout.least K.currentContext) K
      0x100000 0x100100 0x100200 = some K' ∧
    Booted (kernelHost Layout.least K.currentContext leastData) Layout.least K'
      0x100000 0x100100 0x100200 frame regs ∧
    ∀ x, ¬ (firstFit Layout.least).arena x → ¬ Layout.least.InPool x → K'.mem x = K.mem x := by
  obtain ⟨K, hkernel, hroom⟩ := exists_initKernel
  obtain ⟨m₁, -, hboot, -⟩ := initKernel_ok leastData_fits (fun _ _ _ => rfl) hkernel
  obtain ⟨K', frame, regs, hstarts⟩ := initMultitasking_starts leastData_fits.separate hboot hroom
    0x100000 0x100100 0x100200
  exact ⟨K, K', frame, regs, hkernel, hstarts⟩

section
variable {L : Layout} {D : KernelData} {KC kernelEsp p start : Nat} {m m₀ m₁ : Mem} {s₀ s₁ : Pmm}
  {K K' : Kernel Pmm} {c c₁ c₂ : Census} {live : List Nat} {M M₁ M₂ : Machine Pmm}
  {frame : Nat → Nat} {regs : Nat → Registers}

/-! ## The first turn -/

/-- The kernel boots: `init` finds memory that was never written to, where the heap and the table
of the lines will be, and `InitMultitasking` comes back. -/
structure KernelBoots (L : Layout) (D : KernelData) (kernelEsp : Nat) (m₀ : Mem) (s₀ : Pmm)
    (K : Kernel Pmm) (S : System Pmm) : Prop where
  fits : D.Fits L
  heap : ∀ a, L.heapStart + 16 ≤ a → a < L.heapEnd → m₀ a = 0
  lines : ∀ a, D.irqHandlers ≤ a → a < D.irqHandlers + 192 → m₀ a = 0
  kernel : initKernel L D kernelEsp m₀ s₀ = .ok K
  processes : initMultitasking (firstFit L).toHeap (vmmContexts L K.currentContext) K
    D.kernelProcess D.idle D.ramdiskProcess = some S.kernel

/-- **As long as the boot code waits**, all is in order. -/
theorem KernelBoots.booted {S₀ S : System Pmm} (h : KernelBoots L D kernelEsp m₀ s₀ K S₀)
    (hcode : BootCode (kernelHost L K.currentContext D) S₀ S) :
    ∃ m₁ frame regs live,
    initVmm L (withDescriptors D kernelEsp m₀) s₀ = .ok (K.currentContext, m₁, K.frames) ∧
    Booted (kernelHost L K.currentContext D) L S.kernel D.kernelProcess D.idle D.ramdiskProcess
      frame regs ∧
    OwnSpaces L K.currentContext m₁ K.frames S.kernel L.bootCensus.alive live ∧
    Unclaimed (kernelHost L K.currentContext D) S.kernel.mem ∧ S.tickCount = S₀.tickCount := by
  have hX : (kernelHost L K.currentContext D).Separate := h.fits.separate
  obtain ⟨m₁, hvmm, hboot, hpool, hbelow⟩ := initKernel_ok h.fits h.heap h.kernel
  obtain ⟨hK, -⟩ := initVmm_ok hvmm
  obtain ⟨⟨frame, regs, hbooted⟩, -, hout⟩ := hboot.init hX h.processes
  obtain ⟨live, hown⟩ := hboot.spaces h.fits hK hpool h.processes
  have hfree : Unclaimed (kernelHost L K.currentContext D) S₀.kernel.mem := by
    intro n hn
    obtain ⟨-, -, hirq, -⟩ := h.fits.offsets
    have hpool : L.pagepoolStart = L.vmKernelEnd := rfl
    have hslot : irqSlot D.irqHandlers n = D.irqHandlers + 4 * n :=
      irqSlot_eq hn (by have := L.heapEnd_le; have := L.heapEnd_eq; have := L.heapStart_eq; omega)
    have hlt : n < 48 := hn
    refine load32_eq_zero (fun x hx hx' => ?_)
    have hx : irqSlot D.irqHandlers n ≤ x := hx
    have hx' : x < irqSlot D.irqHandlers n + 4 := hx'
    have htable : (kernelHost L K.currentContext D).Table x := Or.inr (Or.inr
      (show D.irqHandlers ≤ x ∧ x < D.irqHandlers + 192 by omega))
    obtain ⟨-, harena, harea⟩ := hX.table x htable
    calc S₀.kernel.mem x
        = K.mem x := hout x harena harea
      _ = withDescriptors D kernelEsp m₀ x := hbelow x (by omega)
      _ = m₀ x := h.fits.lines (by omega) (by omega)
      _ = 0 := h.lines x (by omega) (by omega)
  obtain ⟨hbooted', hfree', hticks, harea, hrec⟩ := hbooted.code hfree hX hcode
  exact ⟨m₁, frame, regs, live, hvmm, hbooted', hown.kept hK harea (fun p hp =>
    load32_congr ((hrec p hp).mono (by omega) (by omega))), hfree', hticks⟩

/-- The timer asks for nothing. -/
theorem Tame.of_timer {st : Nat} (hintr : load32 K.mem (st + 44) = 0x20) : Tame L KC D K c st := by
  have hkills : ¬ Kills K.mem st := by
    rintro (hlt | ⟨h48, -⟩) <;> omega
  refine ⟨fun hk => absurd hk hkills, fun hk => absurd hk hkills, fun h48 => ?_⟩
  exact absurd (hintr.symm.trans h48) (by decide)

end

/-! ## On the smallest layout -/

/-- The boot code is interrupted with the frame at `0x8000`, under the vector `v`. -/
def System.interrupted (S : System Pmm) (v : Nat) : System Pmm :=
  S.load (store32 S.kernel.mem (0x8000 + 44) v)

section
variable {KC v : Nat} {S : System Pmm}

theorem interrupted_vector (hv : v < 2 ^ 32) :
    load32 (S.interrupted v).kernel.mem (0x8000 + 44) = v :=
  (load32_store32 _ _ _).trans (Nat.mod_eq_of_lt hv)

/-- The frame of the boot code is neither in the heap nor in the pool nor in the tables. -/
theorem interrupted_spared : HeapStores (kernelHost Layout.least KC leastData) S.kernel
    (S.interrupted v).kernel.mem := by
  have hstart : Layout.least.heapStart = 0x301000 := by decide
  have hpool : Layout.least.pagepoolStart = 0x101000 := by decide
  have hout : ∀ x, x < 0x8000 ∨ 0x9000 ≤ x → (S.interrupted v).kernel.mem x = S.kernel.mem x :=
    fun x hx => store32_of_outside (by omega)
  refine ⟨.of_agree (fun x hx => hout x ?_), fun x hx => hout x ?_⟩
  · have hge : Layout.least.heapStart ≤ x := hx.1
    omega
  · rcases hx with (hx | hx | hx) | hx
    · have htss : 0x3000 + 4 ≤ x ∧ x < 0x3000 + 8 := hx
      omega
    · have hidt : 0x2000 ≤ x ∧ x < 0x2000 + 2048 := hx
      omega
    · have hirq : 0x4000 ≤ x ∧ x < 0x4000 + 192 := hx
      omega
    · have hge : Layout.least.pagepoolStart ≤ x := hx.1
      omega

end

section
variable {kernelEsp v : Nat} {m₀ : Mem} {s₀ : Pmm} {K : Kernel Pmm} {S₀ S : System Pmm}

/-- A line other than the timer's interrupts the boot code. -/
theorem KernelBoots.line (h : KernelBoots Layout.least leastData kernelEsp m₀ s₀ K S₀)
    (hcode : BootCode (kernelHost Layout.least K.currentContext leastData) S₀ S) (hv : 0x20 < v)
    (hv' : v ≤ 0x2F) : ∃ S',
    intHandler (kernelHost Layout.least K.currentContext leastData).platform (S.interrupted v)
      Message.blank 0x8000 = .ok (0x8000, S') ∧
    BootCode (kernelHost Layout.least K.currentContext leastData) S₀ S' := by
  have hvector : load32 (S.interrupted v).kernel.mem (0x8000 + 44) = v :=
    interrupted_vector (by omega)
  have hentered : BootCode (kernelHost Layout.least K.currentContext leastData) S₀
      (S.interrupted v) := hcode.stores interrupted_spared
  obtain ⟨_, _, _, _, -, -, -, hfree, -⟩ := h.booted hentered
  obtain ⟨S', hline, -⟩ := intHandler_line (X := kernelHost Layout.least K.currentContext leastData)
    Message.blank (by rw [hvector]; exact hv) (by rw [hvector]; exact hv')
    (by rw [hvector]; exact hfree _ (show v < 48 by omega))
  exact ⟨S', hline, hentered.line (by rw [hvector]; exact hv) (by rw [hvector]; exact hv') hline⟩

/-- The timer interrupts the boot code, and two ticks later `ramdisk_process` has its turn again. -/
theorem KernelBoots.turns (h : KernelBoots Layout.least leastData kernelEsp m₀ s₀ K S₀)
    (hcode : BootCode (kernelHost Layout.least K.currentContext leastData) S₀ S) :
    ∃ S₁ cpu M₁ M₂,
    BootCode (kernelHost Layout.least K.currentContext leastData) S₀ (S.interrupted 0x20) ∧
    load32 (S.interrupted 0x20).kernel.mem (0x8000 + 44) = 0x20 ∧
    intHandler (kernelHost Layout.least K.currentContext leastData).platform (S.interrupted 0x20)
      Message.blank 0x8000 = .ok (cpu, S₁) ∧
    MachineStep (kernelHost Layout.least K.currentContext leastData)
      (Tame Layout.least K.currentContext leastData)
      ⟨S₁, leaveKernel { userRegisters with ss := 0x10 } S₁.kernel.mem cpu⟩ Layout.least.bootCensus
      M₁ Layout.least.bootCensus ∧
    MachineStep (kernelHost Layout.least K.currentContext leastData)
      (Tame Layout.least K.currentContext leastData) M₁ Layout.least.bootCensus
      M₂ Layout.least.bootCensus ∧
    S₁.kernel.currentProcess = Layout.least.process 2 ∧ M₁.current = Layout.least.process 0 ∧
    M₂.current = Layout.least.process 2 := by
  have hentered : BootCode (kernelHost Layout.least K.currentContext leastData) S₀
      (S.interrupted 0x20) := hcode.stores interrupted_spared
  have hintr : load32 (S.interrupted 0x20).kernel.mem (0x8000 + 44) = 0x20 :=
    interrupted_vector (by decide)
  obtain ⟨_, frame, regs, _, -, hbooted, -, hfree, -⟩ := h.booted hentered
  obtain ⟨cpu, S₁, M₁, M₂, htick, hstep₁, hstep₂, -, -, hcur, hcur₁, hcur₂⟩ :=
    hbooted.turns Message.blank leastData_fits.separate hintr (hfree _ (by decide))
      (fun _ _ => Tame.of_timer)
  exact ⟨S₁, cpu, M₁, M₂, hentered, hintr, htick, hstep₁, hstep₂, hcur, hcur₁, hcur₂⟩

end

end DayOS
