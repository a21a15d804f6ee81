import DayOS.Multitasking

set_option autoImplicit false

/-! # The first processes (`InitMultitasking`)

`InitMultitasking` makes three kernel processes out of a heap that is new (`AtBoot.init`). Behind
it the boot code goes on, takes blocks of the heap for the ramdisk, and waits: interrupts of other
lines do nothing then (`Booted.code`), and the first timer interrupt leaves the boot code for the
newest process (`Booted.started`).
-/

namespace DayOS

open ByteMemory Linked Ia32

/-- `InitMultitasking`. -/
def initMultitasking {σ : Type} (H : Heap) (V : Contexts σ) (K : Kernel σ)
    (kernelProcess idle ramdiskProcess : Nat) : Option (Kernel σ) := do
  let (_, K) ← createKernelProcess H V K kernelProcess
  let (process, K) ← createKernelProcess H V K idle
  let K := { K with idleProcess := process }
  let (_, K) ← createKernelProcess H V K ramdiskProcess
  return { K with mem := store8 K.mem (K.idleProcess + 40) PROCESS_PAUSED }

/-! ## A heap that only grows -/

/-- All nodes of the heap but the root are in use; they end at `e`, and behind them lies memory
that was never written to. -/
def FullHeap (L : Layout) (m : Mem) (e : Nat) (live : List Block) : Prop :=
  ∃ ns, HeapState L (heapLimit L) m ns live ∧ (∀ x ∈ ns, x.free = true → x.size = 0) ∧
    FirstFit.endOf headerSize L.heapStart ns = e ∧ ∀ a, e ≤ a → a < L.heapEnd → m a = 0

section
variable {σ : Type} {L : Layout} {V : Contexts σ} {K K' : Kernel σ} {m : Mem} {e n p entry : Nat}
  {ns : List FirstFit.Node} {live : List Block}

/-- A process that is ready to run. -/
def Awake (m : Mem) (p : Nat) : Prop := procStatus m p = PROCESS_RUNNABLE ∧ sleepTimer m p = 0

theorem Awake.congr {m' : Mem} (h : Awake m p) (hm : AgreeOn m m' (p + 36) 5) : Awake m' p :=
  ⟨(load8_congr (hm.mono (by omega) (by omega))).trans h.1,
    (load32_congr (hm.mono (by omega) (by omega))).trans h.2⟩

theorem Awake.eligible (h : Awake m p) (ticks : Nat) : DayOS.eligible m ticks p = true :=
  decide_eq_true (Or.inl h.1)

/-- A new kernel process is. -/
theorem createKernelProcess_awake {H : Heap} {m₁ : Mem} {stack : Nat}
    (hstack : H.kmalloc K.mem STACK_SIZE = some (stack, m₁))
    (hap : p + 52 ≤ stack ∨ stack + 4096 ≤ p) (harea : ∀ x, p ≤ x → x < p + 52 → ¬ V.area x)
    (hk : createKernelProcess H V K entry = some (p, K')) : Awake K'.mem p := by
  have hf := frameOf_eq stack
  have h72 : sizeofCpu = 72 := rfl
  simp only [createKernelProcess, Option.bind_eq_bind, Option.bind_eq_some_iff, Option.pure_def,
    Option.some.injEq, Prod.mk.injEq, Prod.exists] at hk
  obtain ⟨stack', w₁, hstack', process, m₂, -, context, m₃, frames, hctx, rfl, rfl⟩ := hk
  obtain ⟨rfl, rfl⟩ : stack = stack' ∧ m₁ = w₁ := by simpa [hstack] using hstack'
  have hkeep := V.create_keeps hctx
  have hfive : AgreeOn m₃ (store32 (store32 (store32 (store32 m₃ (process + 4) context)
      (process + 24) 0) (process + 44) ROOT_UID) (process + 20) 0) (process + 36) 5 := by
    intro x hx hx'
    rw [store32_of_outside (by omega), store32_of_outside (by omega),
      store32_of_outside (by omega), store32_of_outside (by omega)]
  refine Awake.congr (Awake.congr ?_ (fun x hx hx' => hkeep x (harea x (by omega) (by omega)))) hfive
  simp only [Awake, enlist, procStatus, sleepTimer]
  constructor
  · rw [load8_store32_of_ne (by omega), load8_store32_of_ne (by omega),
      load8_store32_of_ne (by omega), load8_congr (fun x _ _ => writeCpu_of_outside (by omega)),
      load8_store8]
    rfl
  · rw [load32_store32_of_ne (by omega), load32_store32_of_ne (by omega),
      load32_store32_of_ne (by omega), load32_congr (fun x _ _ => writeCpu_of_outside (by omega)),
      load32_store8_of_ne (by omega), load32_store32]
    rfl

/-- As many kernel contexts can be made, one after the other. -/
def Contexts.Available (V : Contexts σ) : Nat → σ → Prop
  | 0, _ => True
  | n + 1, s => ∀ m, ∃ c m' s', V.createUsermodeContext m s 1 = some (c, m', s') ∧
      V.Available n s'

theorem createKernelProcess_returns {H : Heap} {m₁ m₂ : Mem} {stack k : Nat}
    (hV : V.Available (k + 1) K.frames) (h₁ : H.kmalloc K.mem STACK_SIZE = some (stack, m₁))
    (h₂ : H.kmalloc m₁ sizeofProcess = some (p, m₂)) (entry : Nat) :
    ∃ p K', createKernelProcess H V K entry = some (p, K') ∧ V.Available k K'.frames := by
  obtain ⟨context, m', frames, hctx, hrest⟩ := hV (enlist (store32 m₂ (p + 28) stack) p stack
    (newState entry (stack + STACK_SIZE) 0x08 0x10) K.firstProcess K.numProc)
  simp only [createKernelProcess, h₁, h₂, hctx, Option.bind_eq_bind, Option.bind_some,
    Option.pure_def, Option.some.injEq, Prod.mk.injEq]
  exact ⟨_, _, ⟨rfl, rfl⟩, hrest⟩

theorem kernelRecord_eq {H : Heap} {m₁ m₂ : Mem} {stack : Nat}
    (h₁ : H.kmalloc K.mem STACK_SIZE = some (stack, m₁))
    (h₂ : H.kmalloc m₁ sizeofProcess = some (p, m₂)) : kernelRecord H K = some (p, m₂) := by
  simp only [kernelRecord, h₁, h₂, Option.bind_eq_bind, Option.bind_some]

theorem malloc_append (hused : ∀ x ∈ ns, x.free = true → x.size = 0) (hn : 0 < n)
    (hend : FirstFit.endOf headerSize L.heapStart ns = e) (hlt : e < L.heapEnd) :
    FirstFit.malloc headerSize L.heapStart L.heapEnd n ns = some (e, ns ++ [⟨e, n, false⟩]) := by
  have hnone : ns.find? (FirstFit.fits n) = none := by
    rw [List.find?_eq_none]
    intro x hx hfits
    simp only [FirstFit.fits, Bool.and_eq_true, decide_eq_true_eq] at hfits
    have := hused x hx (by tauto)
    omega
  rw [FirstFit.malloc, hnone, hend]
  exact if_pos hlt

/-- An allocation out of new memory. -/
theorem HeapState.append (h : HeapState L (heapLimit L) m ns live)
    (hused : ∀ x ∈ ns, x.free = true → x.size = 0)
    (hend : FirstFit.endOf headerSize L.heapStart ns = e) (hn : 0 < n) (hn' : n ≤ 0x1000)
    (hlt : e < L.heapEnd) :
    ∃ m', (firstFit L).kmalloc m n = some (e + headerSize, m') ∧
      HeapState L (heapLimit L) m' (ns ++ [⟨e, n, false⟩]) (⟨e + headerSize, n⟩ :: live) ∧
      (∀ x ∈ ns ++ [⟨e, n, false⟩], x.free = true → x.size = 0) ∧
      FirstFit.endOf headerSize L.heapStart (ns ++ [⟨e, n, false⟩]) = e + headerSize + n ∧
      ∀ a, e + headerSize ≤ a → m' a = m a := by
  obtain ⟨m', hk, hs, hf⟩ := firstFit_kmalloc h hn hn' (malloc_append hused hn hend hlt)
  refine ⟨m', hk, hs, ?_, ?_, fun a ha => hf a (fun x hx hxa => ?_)⟩
  · intro x hx hfree
    rcases List.mem_append.mp hx with hx | hx
    · exact hused x hx hfree
    · rw [List.mem_singleton.mp hx] at hfree
      cases hfree
  · rw [FirstFit.endOf_append, hend]
    rfl
  · simp only [Block.Has, FirstFit.Node.header] at hxa
    rcases List.mem_append.mp hx with hx | hx
    · have hfin := h.heap.laid.fin_le_endOf hx
      simp only [FirstFit.Node.fin] at hfin
      omega
    · rw [List.mem_singleton.mp hx] at hxa
      simp only at hxa
      omega

/-- **`CreateKernelProcess` on such a heap**: the blocks come one behind the other, and the record
is clean. -/
theorem FullHeap.createKernel (h : FullHeap L K.mem e live) (hroom : e + 4180 ≤ L.heapEnd)
    (hV : ∀ a, (firstFit L).arena a → ¬ V.area a)
    (hk : createKernelProcess (firstFit L).toHeap V K entry = some (p, K')) :
    p = e + 4128 ∧ procStack K'.mem p = e + 16 ∧ Awake K'.mem p ∧
      FullHeap L K'.mem (e + 4180) (procBlock p :: ⟨e + 16, STACK_SIZE⟩ :: live) ∧
      ∀ q m, kernelRecord (firstFit L).toHeap K = some (q, m) → msgFirst m q = NULL := by
  have h16 : headerSize = 16 := rfl
  have hL := L.heapEnd_le
  obtain ⟨ns, hs, hused, hend, hzero⟩ := h
  have hge : L.heapStart ≤ e := hend ▸ hs.heap.laid.le_endOf
  obtain ⟨m₁, hk₁, hs₁, hused₁, hend₁, hf₁⟩ :=
    hs.append hused hend (n := STACK_SIZE) (by decide) (by decide) (by omega)
  have hsize : STACK_SIZE = 4096 := rfl
  have hproc : sizeofProcess = 52 := rfl
  obtain ⟨m₂, hk₂, hs₂, hused₂, hend₂, hf₂⟩ :=
    hs₁.append hused₁ hend₁ (n := sizeofProcess) (by decide) (by decide) (by omega)
  obtain ⟨stack, w₁, w₂, context, h₁, h₂, hK, hnew⟩ := createKernelProcess_spec hk
  obtain ⟨rfl, rfl⟩ : e + headerSize = stack ∧ m₁ = w₁ := by simpa [hk₁] using h₁
  obtain ⟨rfl, rfl⟩ : e + headerSize + STACK_SIZE + headerSize = p ∧ m₂ = w₂ := by
    simpa [hk₂] using h₂
  have harena : ∀ a, L.heapStart ≤ a → a < L.heapEnd → (firstFit L).arena a := fun a ha ha' =>
    ⟨ha, by omega⟩
  obtain ⟨hrec, -⟩ := hnew (by omega) (by omega) (fun a ha => hV a (harena a (by omega) (by omega)))
  have hawake := createKernelProcess_awake h₁ (by omega)
    (fun a ha ha' => hV a (harena a (by omega) (by omega))) hk
  refine ⟨by omega, hrec.stack_eq, hawake, ⟨_, hs₂.writeOutside (fun a ha hb => ?_), hused₂, by omega,
    fun a ha ha' => ?_⟩, fun q w hrecord => ?_⟩
  · have hp := hb ⟨e + headerSize + STACK_SIZE + headerSize, sizeofProcess⟩ (by simp)
    have hstack := hb ⟨e + headerSize, STACK_SIZE⟩ (by simp)
    simp only [Block.Has] at hp hstack
    have hlim : heapLimit L = L.heapEnd + 0x1010 := rfl
    exact hrec.outside a (hV a ⟨ha.1, by omega⟩) (by omega) (by omega)
  · rw [hrec.outside a (hV a (harena a (by omega) ha')) (by omega) (by omega),
      hf₂ a (by omega), hf₁ a (by omega)]
    exact hzero a (by omega) ha'
  · have hboth := kernelRecord_eq (H := (firstFit L).toHeap) h₁ h₂
    obtain ⟨rfl, rfl⟩ : e + headerSize + STACK_SIZE + headerSize = q ∧ m₂ = w := by
      simpa [hboth] using hrecord
    refine load32_eq_zero (fun a ha ha' => ?_)
    rw [hf₂ a (by omega), hf₁ a (by omega)]
    exact hzero a (by omega) (by omega)

end

/-! ## `InitMultitasking` -/

section
variable {σ : Type} {X : Host σ} {L : Layout} {K K' : Kernel σ} {c c₁ c₂ : Census} {frame : Nat → Nat}
  {regs : Nat → Registers} {p entry : Nat} {m : Mem} {M M₁ M₂ : Machine σ}
  {Q : Kernel σ → Census → Nat → Prop}

/-- Before `InitMultitasking`: a new heap, the table of the gates, and no process. -/
structure AtBoot (X : Host σ) (L : Layout) (K : Kernel σ) : Prop where
  alloc : X.alloc = firstFit L
  heap : FullHeap L K.mem (L.heapStart + 16) []
  gates : HasGates K.mem X.idt X.stub
  first : K.firstProcess = NULL
  current : K.currentProcess = NULL
  num : K.numProc = 0

/-- The `n`th process of a new heap, and its kernel stack. -/
def Layout.process (L : Layout) (n : Nat) : Nat := L.heapStart + 16 + 4180 * n + 4128

def Layout.stack (L : Layout) (n : Nat) : Nat := L.heapStart + 16 + 4180 * n + 16

/-- The registers a kernel process starts with. -/
def kernelStart (entry stack : Nat) : Registers :=
  startRegisters entry (stack + STACK_SIZE) 0x08 0x10 stack

/-- While the kernel boots: `n` kernel processes, newest first, and no current one. -/
structure Starting (X : Host σ) (L : Layout) (K : Kernel σ) (n : Nat) (frame : Nat → Nat)
    (regs : Nat → Registers) : Prop where
  frozen : Frozen X K ⟨(List.range n).reverse.map L.process, fun _ => false⟩ frame regs
  heap : ∃ live, FullHeap L K.mem (L.heapStart + 16 + 4180 * n) live ∧
    ∀ i < n, procBlock (L.process i) ∈ live
  pid : ∀ i < n, procPid K.mem (L.process i) = i
  stack : ∀ i < n, procStack K.mem (L.process i) = L.stack i
  awake : ∀ i < n, Awake K.mem (L.process i)
  num : K.numProc = n
  current : K.currentProcess = NULL
  first : n ≠ 0 → K.firstProcess = L.process (n - 1)

/-- Nothing there yet. -/
theorem AtBoot.starting (h : AtBoot X L K) (frame : Nat → Nat) (regs : Nat → Registers) :
    Starting X L K 0 frame regs := by
  have hheap := h.heap
  obtain ⟨ns, hs, -⟩ := h.heap
  have hholds : X.alloc.Holds K.mem [] := by
    rw [h.alloc]
    exact ⟨ns, hs⟩
  refine ⟨⟨⟨_, _, [], Lived.boot hholds h.first (by rw [h.num]; decide) rfl⟩, by simp, h.gates,
    by simp, by simp, by simp, by simp⟩, ⟨[], hheap, by simp⟩, by simp, by simp, by simp, h.num, h.current, fun hn => absurd rfl hn⟩

/-- **One more kernel process.** -/
theorem Starting.createKernel {n : Nat} (h : Starting X L K n frame regs) (hX : X.Separate)
    (halloc : X.alloc = firstFit L) (hn : n < 4)
    (hk : createKernelProcess X.alloc.toHeap X.contexts K entry = some (p, K')) :
    p = L.process n ∧ K' = { K with
      mem := K'.mem, frames := K'.frames, firstProcess := p, numProc := (K.numProc + 1) % 2 ^ 32 } ∧
    (∀ x, ¬ X.alloc.arena x → ¬ X.contexts.area x → K'.mem x = K.mem x) ∧
    (∀ q ∈ (List.range n).reverse.map L.process, AgreeOn K.mem K'.mem q 52) ∧
    Starting X L K' (n + 1) (Function.update frame p (frameOf (L.stack n)))
      (Function.update regs p (kernelStart entry (L.stack n))) := by
  have hS := L.heapEnd_eq
  have harea : ∀ a, (firstFit L).arena a → ¬ X.contexts.area a := by
    rw [← halloc]
    exact hX.area
  have hk' := hk
  rw [halloc] at hk'
  obtain ⟨live, hfull, hblocks⟩ := h.heap
  obtain ⟨hp, hstack, hawake, hheap, hrecord⟩ := hfull.createKernel (by omega) harea hk'
  rw [← halloc] at hrecord
  have hnum := h.num
  have hjoined := h.frozen.createKernel hX (by omega) ⟨fun r hr => ?_, hrecord⟩ hk
  · have hpn : p = L.process n := hp
    have hglobals := hjoined.globals
    have hfrozen := hjoined.frozen
    have hstackn : procStack K'.mem p = L.stack n := hstack
    have hcensus : Census.birth ⟨(List.range n).reverse.map L.process, fun _ => false⟩ p false
        = ⟨(List.range (n + 1)).reverse.map L.process, fun _ => false⟩ := by
      rw [List.range_succ, List.reverse_append, List.map_append, hpn]
      exact congrArg (Census.mk _) (Function.update_eq_self _ _)
    rw [hcensus, hstackn] at hfrozen
    have hmem : ∀ i < n, L.process i ∈ (List.range n).reverse.map L.process := fun i hi =>
      List.mem_map_of_mem (List.mem_reverse.mpr (List.mem_range.mpr hi))
    refine ⟨hpn, hglobals, hjoined.outside, hjoined.records, hfrozen, ?_, fun i hi => ?_, fun i hi => ?_, fun i hi => ?_, ?_, ?_,
      fun _ => ?_⟩
    · rw [show L.heapStart + 16 + 4180 * (n + 1) = L.heapStart + 16 + 4180 * n + 4180 by omega]
      refine ⟨_, hheap, fun i hi => ?_⟩
      by_cases hin : i = n
      · rw [hin, ← hpn]
        exact List.mem_cons_self
      · exact List.mem_cons_of_mem _ (List.mem_cons_of_mem _ (hblocks i (by omega)))
    · by_cases hin : i = n
      · rw [hin, ← hpn, hjoined.pid, hnum]
      · rw [(hjoined.others _ (hmem i (by omega))).pid_eq]
        exact h.pid i (by omega)
    · by_cases hin : i = n
      · rw [hin, ← hpn, hstackn]
      · rw [(hjoined.others _ (hmem i (by omega))).stack_eq]
        exact h.stack i (by omega)
    · by_cases hin : i = n
      · rw [hin, ← hpn]
        exact hawake
      · have hrec := hjoined.records _ (hmem i (by omega))
        exact (h.awake i (by omega)).congr (hrec.mono (by omega) (by omega))
    · rw [hglobals]
      show (K.numProc + 1) % 2 ^ 32 = n + 1
      omega
    · rw [hglobals]
      exact h.current
    · rw [hglobals]
      exact hpn
  · obtain ⟨i, hi, rfl⟩ := List.mem_map.mp hr
    have hlt : i < n := List.mem_range.mp (List.mem_reverse.mp hi)
    rw [h.pid i hlt, hnum]
    omega

theorem Frozen.withIdle (h : Frozen X K c frame regs) (q : Nat) :
    Frozen X { K with idleProcess := q } c frame regs := by
  obtain ⟨nodes, queue, live, hl⟩ := h.sound
  exact ⟨⟨nodes, queue, live, hl.list, hl.num, hl.boxes, hl.stackLive, hl.stackNodup, hl.stackOwn,
    hl.history⟩, h.pids, h.gates, h.ring, h.ss, h.saved, h.state⟩

theorem Starting.withIdle {n : Nat} (h : Starting X L K n frame regs) (q : Nat) :
    Starting X L { K with idleProcess := q } n frame regs :=
  ⟨h.frozen.withIdle q, h.heap, h.pid, h.stack, h.awake, h.num, h.current, h.first⟩

/-- The status of a process is its own. -/
theorem Frozen.setStatus (h : Frozen X K c frame regs) (hX : X.Separate) (hp : p ∈ c.alive)
    (v : Nat) : Quiet X c frame regs K { K with mem := store8 K.mem (p + 40) v } := by
  have htable : ∀ x, X.Table x → store8 K.mem (p + 40) v x = K.mem x := by
    intro x hx
    refine store8_of_ne ?_
    rintro rfl
    exact (hX.table _ hx).2.1 (h.sound.record_off hp hp (by omega) (by omega)).1
  refine h.quiet_of_fields (fun x _ hfield => store8_of_ne ?_) (Host.gates_agree htable)
    (Host.tss_agree htable) rfl
  have := hfield p hp
  omega

/-- What `InitMultitasking` leaves behind: `ramdisk_process`, `idle` and `kernel_process`, in this
order and each at its entry point, with the pids 2, 1 and 0. All may run but `idle`. -/
structure Booted (X : Host σ) (L : Layout) (K : Kernel σ) (kernelProcess idle ramdiskProcess : Nat)
    (frame : Nat → Nat) (regs : Nat → Registers) : Prop where
  frozen : Frozen X K ⟨[L.process 2, L.process 1, L.process 0], fun _ => false⟩ frame regs
  kernelProcess : regs (L.process 0) = kernelStart kernelProcess (L.stack 0)
  idle : regs (L.process 1) = kernelStart idle (L.stack 1)
  ramdiskProcess : regs (L.process 2) = kernelStart ramdiskProcess (L.stack 2)
  pid : ∀ i < 3, procPid K.mem (L.process i) = i
  stack : ∀ i < 3, procStack K.mem (L.process i) = L.stack i
  awake : Awake K.mem (L.process 0) ∧ Awake K.mem (L.process 2)
  paused : procStatus K.mem (L.process 1) = PROCESS_PAUSED ∧ sleepTimer K.mem (L.process 1) = 0
  first : K.firstProcess = L.process 2
  current : K.currentProcess = NULL
  idleProcess : K.idleProcess = L.process 1

theorem Layout.process_ne {i j : Nat} (h : i ≠ j) : L.process i ≠ L.process j := by
  simp only [Layout.process]
  omega

/-- **`InitMultitasking`.** -/
theorem AtBoot.init {kernelProcess idle ramdiskProcess : Nat} (h : AtBoot X L K) (hX : X.Separate)
    (hk : initMultitasking X.alloc.toHeap X.contexts K kernelProcess idle ramdiskProcess
      = some K') :
    (∃ frame regs, Booted X L K' kernelProcess idle ramdiskProcess frame regs) ∧
      (∃ live, FullHeap L K'.mem (L.heapStart + 16 + 4180 * 3) live) ∧
      ∀ x, ¬ X.alloc.arena x → ¬ X.contexts.area x → K'.mem x = K.mem x := by
  simp only [initMultitasking, Option.bind_eq_bind, Option.bind_eq_some_iff, Option.pure_def,
    Option.some.injEq, Prod.exists] at hk
  obtain ⟨p₀, K₀, hk₀, p₁, K₁, hk₁, p₂, K₂, hk₂, rfl⟩ := hk
  have hstart := h.starting (fun _ => 0) (fun _ => kernelStart 0 0)
  obtain ⟨rfl, -, hout₀, -, h₀⟩ := hstart.createKernel hX h.alloc (by omega) hk₀
  obtain ⟨rfl, -, hout₁, -, h₁⟩ := h₀.createKernel hX h.alloc (by omega) hk₁
  obtain ⟨rfl, hglobals, hout₂, -, h₂⟩ := (h₁.withIdle (L.process 1)).createKernel hX h.alloc (by omega) hk₂
  have hne := fun i j hij => @Layout.process_ne L i j hij
  have hidle : K₂.idleProcess = L.process 1 := by rw [hglobals]
  have hmem : L.process 1 ∈ [L.process 2, L.process 1, L.process 0] := by simp
  have hq := h₂.frozen.setStatus hX hmem PROCESS_PAUSED
  have hother : ∀ i, i ≠ 1 → Awake K₂.mem (L.process i) →
      Awake (store8 K₂.mem (L.process 1 + 40) PROCESS_PAUSED) (L.process i) := by
    intro i hi hawake
    refine hawake.congr (fun x hx hx' => store8_of_ne ?_)
    simp only [Layout.process] at hx hx' ⊢
    omega
  have hmem' : store8 K₂.mem (K₂.idleProcess + 40) PROCESS_PAUSED
      = store8 K₂.mem (L.process 1 + 40) PROCESS_PAUSED := by rw [hidle]
  rw [hmem']
  refine ⟨⟨_, _, h₂.frozen.quiet hq, ?_, ?_, ?_, fun i hi => ?_, fun i hi => ?_, ⟨?_, ?_⟩, ⟨?_, ?_⟩,
    ?_, ?_, ?_⟩, ?_, fun x hx hx' => ?_⟩
  · rw [Function.update_of_ne (hne 0 2 (by omega)), Function.update_of_ne (hne 0 1 (by omega)),
      Function.update_self]
  · rw [Function.update_of_ne (hne 1 2 (by omega)), Function.update_self]
  · rw [Function.update_self]
  · rw [procPid, load32_store8_of_ne ?_]
    · exact h₂.pid i hi
    · simp only [Layout.process]
      omega
  · rw [procStack, load32_store8_of_ne ?_]
    · exact h₂.stack i hi
    · simp only [Layout.process]
      omega
  · exact hother 0 (by omega) (h₂.awake 0 (by omega))
  · exact hother 2 (by omega) (h₂.awake 2 (by omega))
  · exact load8_store8 _ _ _
  · rw [sleepTimer, load32_store8_of_ne (by omega)]
    exact (h₂.awake 1 (by omega)).2
  · exact h₂.first (by omega)
  · exact h₂.current
  · exact hidle
  · obtain ⟨live, ⟨ns, hs, hused, hend, hzero⟩, hblocks⟩ := h₂.heap
    have hblock := hblocks 1 (by omega)
    refine ⟨live, ns, hs.writeOutside (fun a _ hb => store8_of_ne ?_), hused, hend,
      fun a ha ha' => (store8_of_ne ?_).trans (hzero a ha ha')⟩
    · rintro rfl
      refine hb _ hblock ?_
      simp only [Block.Has, procBlock, sizeofProcess]
      omega
    · simp only [Layout.process]
      omega
  · have hstatus : x ≠ L.process 1 + 40 := by
      rintro rfl
      exact hx (h₂.frozen.sound.record_off hmem hmem (by omega) (by omega)).1
    calc store8 K₂.mem (L.process 1 + 40) PROCESS_PAUSED x
        = K₂.mem x := store8_of_ne hstatus
      _ = K₁.mem x := hout₂ x hx hx'
      _ = K₀.mem x := hout₁ x hx hx'
      _ = K.mem x := hout₀ x hx hx'

/-! ## The first interrupt -/

/-- **The first timer interrupt** finds no current process, and the machine is in order then. -/
theorem Frozen.firstTick {S S' : System σ} {stale : Message} {st cpuNew : Nat}
    (h : Frozen X S.kernel c frame regs) (hX : X.Separate) (hnull : S.kernel.currentProcess = NULL)
    (hidle : S.kernel.idleProcess ∈ c.alive) (hintr : load32 S.kernel.mem (st + 44) = 0x20)
    (hk : intHandler X.platform S stale st = .ok (cpuNew, S')) :
    Ready X S'.kernel c frame regs cpuNew ∧ TrapStack X S'.kernel regs ∧
      S'.kernel.currentProcess = S.kernel.firstProcess ∧ AreaKept X.contexts S.kernel S'.kernel ∧
      ∀ p ∈ c.alive, procContext S'.kernel.mem p = procContext S.kernel.mem p := by
  obtain ⟨nodes, queue, live, hl⟩ := h.sound
  have hnot : S.kernel.currentProcess ∉ c.alive := by
    rw [hnull]
    exact fun hmem => hl.list.chain.ne_zero_of_mem hmem rfl
  dsimp only [intHandler] at hk
  rw [if_neg (by omega), if_pos (by omega), hintr] at hk
  obtain ⟨⟨cpu₂, S₂⟩, hline, hk⟩ := bind_eq_ok.mp hk
  cases hk
  obtain ⟨⟨cpu₁, S₁⟩, htimer, hline⟩ := bind_eq_ok.mp hline
  obtain ⟨K₂, hmessage, hline⟩ := bind_eq_ok.mp hline
  cases hline
  obtain ⟨⟨cpu, K₁⟩, hs, htimer⟩ := bind_eq_ok.mp htimer
  dsimp only at htimer
  rw [if_pos rfl] at htimer
  cases htimer
  rw [irqSwitch, if_pos rfl] at hs
  obtain ⟨hready, -, hcontexts, harea⟩ :=
    h.schedule hX (Or.inl hnull) (fun hmem => absurd hmem hnot) hidle hs
  rw [DayOS.schedule, if_pos hnull] at hs
  obtain ⟨-, -, hcur, -⟩ := switchTo_frames hs
  obtain ⟨-, hrec, -⟩ := hready.frozen.setKernelStack hX cpu₂
  obtain ⟨hready, htrap⟩ := hready.setKernelStack hX
  obtain ⟨hq, harea'⟩ := hready.frozen.irqMessage hX hready.current hmessage
  obtain ⟨hready', htrap'⟩ := hready.quiet hq
  refine ⟨hready', htrap' htrap, hq.current.trans hcur,
    (harea.trans (setKernelStack_area hX K₁ cpu₂)).trans harea', fun p hp => ?_⟩
  refine (hq.sameContexts p hp).trans (Eq.trans ?_ (hcontexts p hp))
  exact load32_congr ((hrec p hp).mono (by omega) (by omega))

/-- The processes there are then. -/
def Layout.bootCensus (L : Layout) : Census :=
  ⟨[L.process 2, L.process 1, L.process 0], fun _ => false⟩

/-- The boot code takes blocks of the heap and fills them. -/
theorem Booted.kept {kernelProcess idle ramdiskProcess : Nat}
    (h : Booted X L K kernelProcess idle ramdiskProcess frame regs) (hm : HeapStores X K m) :
    Booted X L { K with mem := m } kernelProcess idle ramdiskProcess frame regs ∧
      ∀ p ∈ L.bootCensus.alive, AgreeOn K.mem m p 52 := by
  obtain ⟨hkept, hspared⟩ := hm
  have hq : Quiet X _ frame regs K { K with mem := m } :=
    h.frozen.loadsPages ⟨rfl, hkept, fun x hx => hspared x (Or.inl hx)⟩
  obtain ⟨nodes, queue, live, hl⟩ := h.frozen.sound
  have hboth := (hl.blocksKept hkept).2
  have hrec : ∀ i < 3, AgreeOn K.mem m (L.process i) 52 := by
    intro i hi
    refine (hboth (L.process i) ?_).1
    interval_cases i <;> simp
  have hawake : ∀ i < 3, AgreeOn K.mem m (L.process i + 36) 5 := fun i hi =>
    (hrec i hi).mono (by omega) (by omega)
  refine ⟨⟨h.frozen.quiet hq, h.kernelProcess, h.idle, h.ramdiskProcess, fun i hi => ?_,
    fun i hi => ?_, ⟨h.awake.1.congr (hawake 0 (by omega)), h.awake.2.congr (hawake 2 (by omega))⟩, ⟨?_, ?_⟩,
    h.first, h.current, h.idleProcess⟩, fun p hp => (hboth p hp).1⟩
  · exact (load32_congr ((hrec i hi).mono (by omega) (by omega))).trans (h.pid i hi)
  · exact (load32_congr ((hrec i hi).mono (by omega) (by omega))).trans (h.stack i hi)
  · exact (load8_congr ((hrec 1 (by omega)).mono (by omega) (by omega))).trans h.paused.1
  · exact (load32_congr ((hrec 1 (by omega)).mono (by omega) (by omega))).trans h.paused.2

/-- A line that nobody has registered: its interrupt leaves the kernel as it is. -/
theorem intHandler_line {S : System σ} (stale : Message) {st : Nat}
    (hlow : 0x20 < load32 S.kernel.mem (st + 44)) (hhigh : load32 S.kernel.mem (st + 44) ≤ 0x2F)
    (hfree : irqHandler X.irqHandlers S.kernel.mem (load32 S.kernel.mem (st + 44)) = 0) :
    ∃ S', intHandler X.platform S stale st = .ok (st, S') ∧ S'.kernel = S.kernel ∧
      S'.tickCount = S.tickCount := by
  have hcases : ¬ load32 S.kernel.mem (st + 44) < 32 ∧ load32 S.kernel.mem (st + 44) ≤ 0x2F ∧
      load32 S.kernel.mem (st + 44) ≠ 0x20 := by omega
  obtain ⟨hexc, hline, hne⟩ := hcases
  have htimer : timerEntry X.platform S st (load32 S.kernel.mem (st + 44)) = .ok (st, S) := by
    simp only [timerEntry, irqSwitch, if_neg hne]
    rfl
  have hmessage : irqMessage X.platform.irqHandlers X.platform.heap S.kernel
      (load32 S.kernel.mem (st + 44)) stale = .ok S.kernel :=
    if_neg (fun hpos => absurd hfree (Nat.ne_of_gt hpos))
  have hentry : ∃ ports, lineEntry X.platform S stale st (load32 S.kernel.mem (st + 44))
      = .ok (st, { S with ports := ports }) := by
    rw [lineEntry, bind_of_ok htimer]
    dsimp only
    rw [bind_of_ok hmessage]
    exact ⟨_, rfl⟩
  obtain ⟨ports, hentry⟩ := hentry
  refine ⟨{ S with kernelMode := false, ports := ports ++ [(0x20, 0x20)] }, ?_, rfl, rfl⟩
  dsimp only [intHandler]
  rw [if_neg hexc, if_pos hline, bind_of_ok hentry]
  rfl

/-- Nobody has registered a line. -/
def Unclaimed (X : Host σ) (m : Mem) : Prop :=
  ∀ n < NUM_HANDLERS, irqHandler X.irqHandlers m n = 0

/-- The boot code behind `InitMultitasking`: it takes blocks of the heap and fills them, and lines
other than the timer's interrupt it. -/
inductive BootCode (X : Host σ) (S : System σ) : System σ → Prop
  | start : BootCode X S S
  | stores {S₁ : System σ} {m : Mem} : BootCode X S S₁ → HeapStores X S₁.kernel m →
      BootCode X S (S₁.load m)
  | line {S₁ S₂ : System σ} {stale : Message} {st cpuNew : Nat} : BootCode X S S₁ →
      0x20 < load32 S₁.kernel.mem (st + 44) → load32 S₁.kernel.mem (st + 44) ≤ 0x2F →
      intHandler X.platform S₁ stale st = .ok (cpuNew, S₂) → BootCode X S S₂

/-- **The boot code** leaves the processes alone. -/
theorem Booted.code {kernelProcess idle ramdiskProcess : Nat} {S S' : System σ}
    (h : Booted X L S.kernel kernelProcess idle ramdiskProcess frame regs)
    (hfree : Unclaimed X S.kernel.mem) (hX : X.Separate) (hcode : BootCode X S S') :
    Booted X L S'.kernel kernelProcess idle ramdiskProcess frame regs ∧
    Unclaimed X S'.kernel.mem ∧ S'.tickCount = S.tickCount ∧
    AreaKept X.contexts S.kernel S'.kernel ∧
    ∀ p ∈ L.bootCensus.alive, AgreeOn S.kernel.mem S'.kernel.mem p 52 := by
  induction hcode with
  | start => exact ⟨h, hfree, rfl, .refl _ _, fun p _ => AgreeOn.refl _ _ _⟩
  | @stores S₁ m _ hm ih =>
      obtain ⟨hbooted, hfree₁, hticks, harea, hrec⟩ := ih
      obtain ⟨hbooted', hrec'⟩ := hbooted.kept hm
      have harea' : AreaKept X.contexts S₁.kernel (S₁.load m).kernel :=
        ⟨rfl, fun x hx => hm.2 x (Or.inr hx)⟩
      refine ⟨hbooted', fun n hn => ?_, hticks, harea.trans harea', fun p hp =>
        (hrec p hp).trans (hrec' p hp)⟩
      exact (irqHandler_of_table hX hn (fun x hx _ => hm.2 x (Or.inl hx))).trans (hfree₁ n hn)
  | line _ hlow hhigh hk ih =>
      obtain ⟨hbooted, hfree₁, hticks, harea, hrec⟩ := ih
      obtain ⟨S', hreturns, hkernel, hsame⟩ :=
        intHandler_line _ hlow hhigh (hfree₁ _ (Nat.lt_succ_of_le hhigh))
      rw [hreturns] at hk
      cases hk
      rw [hkernel]
      exact ⟨hbooted, hfree₁, hsame.trans hticks, harea, hrec⟩

/-- **The first timer interrupt** starts `ramdisk_process`. -/
theorem Booted.started {kernelProcess idle ramdiskProcess st cpuNew : Nat} {S S' : System σ}
    {stale : Message} {k : Registers}
    (h : Booted X L S.kernel kernelProcess idle ramdiskProcess frame regs) (hX : X.Separate)
    (hintr : load32 S.kernel.mem (st + 44) = 0x20)
    (hk : intHandler X.platform S stale st = .ok (cpuNew, S')) (hss : k.ss = 0x10) :
    Represents X S'.kernel L.bootCensus regs ∧
    regs S'.kernel.currentProcess = leaveKernel k S'.kernel.mem cpuNew ∧
    S'.kernel.currentProcess = L.process 2 ∧ AreaKept X.contexts S.kernel S'.kernel ∧
    ∀ p ∈ L.bootCensus.alive, procContext S'.kernel.mem p = procContext S.kernel.mem p := by
  have hidle : S.kernel.idleProcess ∈ L.bootCensus.alive := by
    rw [h.idleProcess]
    simp [Layout.bootCensus]
  obtain ⟨hready, htrap, hcur, hkept⟩ := h.frozen.firstTick hX h.current hidle hintr hk
  exact ⟨hready.represents htrap, (hready.leaves hss).symm, hcur.trans h.first, hkept⟩

/-- With an entry for nobody in the table, the first timer interrupt comes back. -/
theorem Booted.tick {kernelProcess idle ramdiskProcess st : Nat} {S : System σ} (stale : Message)
    (h : Booted X L S.kernel kernelProcess idle ramdiskProcess frame regs) (hX : X.Separate)
    (hintr : load32 S.kernel.mem (st + 44) = 0x20)
    (hfree : irqHandler X.irqHandlers S.kernel.mem 0x20 = 0) :
    ∃ cpu S', intHandler X.platform S stale st = .ok (cpu, S') ∧
      irqHandler X.irqHandlers S'.kernel.mem 0x20 = 0 ∧
      ∀ x, (x < X.tss + 4 ∨ X.tss + 8 ≤ x) → S'.kernel.mem x = S.kernel.mem x := by
  have hfirst : S.kernel.firstProcess ≠ NULL := by
    rw [h.first]
    simp only [Layout.process, NULL]
    omega
  have hs : schedule S.kernel ((S.tickCount + 1) % 2 ^ 32) st = switchTo S.kernel S.kernel.mem
      S.kernel.firstProcess := if_pos h.current
  rw [switchTo, if_neg hfirst] at hs
  have hout : ∀ v x, (x < X.tss + 4 ∨ X.tss + 8 ≤ x) →
      store32 S.kernel.mem (X.tss + 4) v x = S.kernel.mem x := fun v x hx => store32_of_outside hx
  have hirq : ∀ v, irqHandler X.irqHandlers (store32 S.kernel.mem (X.tss + 4) v) 0x20 = 0 := by
    intro v
    rw [irqHandler_of_table hX (by decide) (fun x _ hx => hout v x hx), hfree]
  obtain ⟨S', hk, hS'⟩ := intHandler_tick (X := X) stale hintr hs (hirq _)
  refine ⟨_, S', hk, ?_, fun x hx => ?_⟩ <;> rw [hS']
  · exact hirq _
  · exact hout _ x hx

/-! ## It works -/

theorem fullHeap_init (hzero : ∀ a, L.heapStart + 16 ≤ a → a < L.heapEnd → m a = 0) :
    FullHeap L (kinitHeap L m) (L.heapStart + 16) [] := by
  have hS := L.heapEnd_eq
  have h16 : headerSize = 16 := rfl
  have hlim : heapLimit L = L.heapEnd + 0x1010 := rfl
  refine ⟨_, heapState_init m (by omega), fun x hx _ => ?_, rfl, fun a ha ha' => ?_⟩
  · rw [List.mem_singleton.mp hx]
  · simp only [kinitHeap]
    rw [store32_of_outside (by omega), store32_of_outside (by omega),
      store32_of_outside (by omega), store32_of_outside (by omega)]
    exact hzero a ha ha'

theorem Starting.createKernel_returns {n k : Nat} (h : Starting X L K n frame regs)
    (halloc : X.alloc = firstFit L) (hV : X.contexts.Available (k + 1) K.frames) (hn : n < 4)
    (entry : Nat) : ∃ p K',
    createKernelProcess X.alloc.toHeap X.contexts K entry = some (p, K') ∧
      X.contexts.Available k K'.frames := by
  have hS := L.heapEnd_eq
  have h16 : headerSize = 16 := rfl
  have hsize : STACK_SIZE = 4096 := rfl
  obtain ⟨live, ⟨ns, hs, hused, hend, -⟩, -⟩ := h.heap
  obtain ⟨m₁, hk₁, hs₁, hused₁, hend₁, -⟩ :=
    hs.append hused hend (n := STACK_SIZE) (by decide) (by decide) (by omega)
  obtain ⟨m₂, hk₂, -⟩ :=
    hs₁.append hused₁ hend₁ (n := sizeofProcess) (by decide) (by decide) (by omega)
  rw [halloc]
  exact createKernelProcess_returns (H := (firstFit L).toHeap) hV hk₁ hk₂ entry

theorem AtBoot.init_returns (h : AtBoot X L K) (hX : X.Separate)
    (hV : X.contexts.Available 3 K.frames)
    (kernelProcess idle ramdiskProcess : Nat) : ∃ K',
    initMultitasking X.alloc.toHeap X.contexts K kernelProcess idle ramdiskProcess = some K' := by
  have hstart := h.starting (fun _ => 0) (fun _ => kernelStart 0 0)
  obtain ⟨p₀, K₀, hk₀, hV₀⟩ := hstart.createKernel_returns h.alloc hV (by omega) kernelProcess
  obtain ⟨-, -, -, -, h₀⟩ := hstart.createKernel hX h.alloc (by omega) hk₀
  obtain ⟨p₁, K₁, hk₁, hV₁⟩ := h₀.createKernel_returns h.alloc hV₀ (by omega) idle
  obtain ⟨-, -, -, -, h₁⟩ := h₀.createKernel hX h.alloc (by omega) hk₁
  obtain ⟨p₂, K₂, hk₂, -⟩ :=
    (h₁.withIdle p₁).createKernel_returns h.alloc hV₁ (by omega) ramdiskProcess
  refine ⟨{ K₂ with mem := store8 K₂.mem (K₂.idleProcess + 40) PROCESS_PAUSED }, ?_⟩
  simp only [initMultitasking, hk₀, hk₁, hk₂, Option.bind_eq_bind, Option.bind_some,
    Option.pure_def]

theorem kernelStart_cpl (entry stack : Nat) : (kernelStart entry stack).cpl = 0 :=
  show (UInt32.ofNat 0x08).toUInt16.toNat % 4 = 0 by decide

theorem kernelStart_esp {stack : Nat} (hstack : stack + STACK_SIZE ≤ 2 ^ 32) :
    (kernelStart entry stack).esp.toNat = stack + 4088 := by
  have hesp : (kernelStart entry stack).esp = UInt32.ofNat (frameOf stack + 64) :=
    if_neg (not_not.mpr (kernelStart_cpl entry stack))
  have hsize : STACK_SIZE = 4096 := rfl
  rw [hesp, frameOf_eq, UInt32.toNat_ofNat', Nat.mod_eq_of_lt (by omega)]

theorem Layout.stack_le (L : Layout) {n : Nat} (hn : n < 3) : L.stack n + STACK_SIZE ≤ 2 ^ 32 := by
  have hS := L.heapEnd_eq
  have hL := L.heapEnd_le
  have hsize : STACK_SIZE = 4096 := rfl
  simp only [Layout.stack]
  omega

/-- A kernel process that has just been started has room in its stack. -/
theorem stackRoom_start {i : Nat} (hi : i < 3)
    (hstack : procStack K.mem K.currentProcess = L.stack i) :
    StackRoom K (kernelStart entry (L.stack i)) := by
  intro _
  have hfits := L.stack_le hi
  have hsize : STACK_SIZE = 4096 := rfl
  rw [kernelStart_esp hfits, hstack]
  omega

/-- **The first three turns**: `ramdisk_process`, `kernel_process`, and `ramdisk_process` again. -/
theorem Booted.turns {kernelProcess idle ramdiskProcess st : Nat} {S : System σ} (stale : Message)
    (h : Booted X L S.kernel kernelProcess idle ramdiskProcess frame regs) (hX : X.Separate)
    (hintr : load32 S.kernel.mem (st + 44) = 0x20)
    (hfree : irqHandler X.irqHandlers S.kernel.mem 0x20 = 0)
    (hQ : ∀ K st, load32 K.mem (st + 44) = 0x20 → Q K L.bootCensus st) :
    ∃ cpu S' M₁ M₂, intHandler X.platform S stale st = .ok (cpu, S') ∧
      MachineStep X Q ⟨S', leaveKernel { userRegisters with ss := 0x10 } S'.kernel.mem cpu⟩
        L.bootCensus M₁ L.bootCensus ∧
      MachineStep X Q M₁ L.bootCensus M₂ L.bootCensus ∧
      Represents X S'.kernel L.bootCensus regs ∧
      regs S'.kernel.currentProcess
        = leaveKernel { userRegisters with ss := 0x10 } S'.kernel.mem cpu ∧
      S'.kernel.currentProcess = L.process 2 ∧ M₁.current = L.process 0 ∧
      M₂.current = L.process 2 := by
  obtain ⟨cpu, S', hk, hfree', hmem⟩ := h.tick stale hX hintr hfree
  obtain ⟨hrep, hregs, hcur, -⟩ := h.started hX hintr hk (k := { userRegisters with ss := 0x10 }) rfl
  -- the records are as `InitMultitasking` has left them
  have hrec : ∀ i < 3, AgreeOn S.kernel.mem S'.kernel.mem (L.process i) 52 := by
    intro i hi x hx hx'
    have hi' : L.process i ∈ L.bootCensus.alive := by
      interval_cases i <;> simp [Layout.bootCensus]
    refine hmem x ?_
    by_contra hin
    have htable : X.Table x := Or.inl (by omega)
    exact (hX.table x htable).2.1 (h.frozen.sound.record_off hi' hi' hx hx').1
  have hstack : ∀ i < 3, procStack S'.kernel.mem (L.process i) = L.stack i := fun i hi =>
    (load32_congr ((hrec i hi).mono (by omega) (by omega))).trans (h.stack i hi)
  have hawake₀ := h.awake.1.congr ((hrec 0 (by omega)).mono (by omega) (by omega))
  have hawake₂ := h.awake.2.congr ((hrec 2 (by omega)).mono (by omega) (by omega))
  have hpaused : ∀ ticks, eligible S'.kernel.mem ticks (L.process 1) = false := by
    intro ticks
    rw [eligible_congr ((hrec 1 (by omega)).mono (by omega) (by omega))]
    refine decide_eq_false ?_
    rw [h.paused.1, h.paused.2]
    rintro (hstatus | ⟨htimer, -⟩)
    · exact absurd hstatus (by decide)
    · exact absurd htimer (by decide)
  have hboth : ∀ K st, load32 K.mem (st + 44) = 0x20 →
      Orderly X K L.bootCensus st ∧ Q K L.bootCensus st := fun K st hk =>
    ⟨.of_timer hk, hQ K st hk⟩
  -- `kernel_process` is next
  obtain ⟨M₁, hstep₁, hcur₁, hfree₁, hrec₁⟩ := hrep.tick
    (Q := fun K c st => Orderly X K c st ∧ Q K c st)
    (M := ⟨S', leaveKernel { userRegisters with ss := 0x10 } S'.kernel.mem cpu⟩)
    [] [L.process 1, L.process 0] hX hregs
    (by
      rw [← hregs, hcur, h.ramdiskProcess]
      exact stackRoom_start (by omega) (hcur ▸ hstack 2 (by omega)))
    (by rw [Machine.current, hcur]; rfl)
    (by rw [scanned, if_neg (by simp), List.find?_cons, hpaused, List.find?_cons, hawake₀.eligible])
    hawake₀.1 hfree' hboth
  obtain ⟨regs₁, hrep₁, hregs₁, hone, -⟩ :=
    (hstep₁.mono (fun _ _ _ => And.left)).simulates hX hrep hregs
  have hne : M₁.current ≠ S'.kernel.currentProcess := by
    rw [hcur₁, hcur]
    exact Layout.process_ne (by omega)
  obtain rfl : regs₁ = regs := hone.regs_eq_of_ne hne
  have hmem₀ : L.process 0 ∈ L.bootCensus.alive := by simp [Layout.bootCensus]
  have hmem₂ : L.process 2 ∈ L.bootCensus.alive := by simp [Layout.bootCensus]
  have hawake₂' := hawake₂.congr ((hrec₁ _ hmem₂).mono (by omega) (by omega))
  -- and it has nobody behind it
  obtain ⟨M₂, hstep₂, hcur₂, -⟩ := hrep₁.tick
    (Q := fun K c st => Orderly X K c st ∧ Q K c st) [L.process 2, L.process 1] [] hX hregs₁
    (by
      rw [← hregs₁, hcur₁, h.kernelProcess]
      refine stackRoom_start (i := 0) (by omega) ?_
      rw [show M₁.system.kernel.currentProcess = L.process 0 from hcur₁]
      exact (load32_congr ((hrec₁ _ hmem₀).mono (by omega) (by omega))).trans (hstack 0 (by omega)))
    (by rw [hcur₁]; rfl)
    (by rw [scanned, if_pos rfl, List.cons_append, List.find?_cons, hawake₂'.eligible])
    hawake₂'.1 hfree₁ hboth
  exact ⟨cpu, S', M₁, M₂, hk, hstep₁.mono (fun _ _ _ => And.right),
    hstep₂.mono (fun _ _ _ => And.right), hrep, hregs, hcur, hcur₁, hcur₂⟩

end

end DayOS
