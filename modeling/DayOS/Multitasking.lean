import DayOS.Dispatch

set_option autoImplicit false

/-! # Processes that take turns

The processor runs the code of the current process until something brings it into the kernel:
the stub saves the registers in a frame, `int_handler` does its work, and the registers come back
from the frame it returns. Seen from the processes this is a machine with a processor for each
of them (`MachineStep.simulates`), and the timer always gives the turn to the next that is ready
(`Represents.tick`).

A process writes to its own stacks, and outside the heap, the kernel's tables and the pages of the
contexts. A kernel process may take blocks of the heap as well, if nothing comes in between.
-/

namespace DayOS

open ByteMemory Linked Ia32

/-- Between two instructions of a process. -/
structure Machine (σ : Type) where
  system : System σ
  regs : Registers

/-- The process that runs. -/
def Machine.current {σ : Type} (M : Machine σ) : Nat := M.system.kernel.currentProcess

/-- The memory replaced. -/
def System.load {σ : Type} (S : System σ) (m : Mem) : System σ :=
  { S with kernel := { S.kernel with mem := m } }

/-- The current process spares the heap, but for its own stacks, the tables, and the pages of the
contexts. -/
def OwnStores {σ : Type} (X : Host σ) (K : Kernel σ) (c : Census) (m : Mem) : Prop :=
  ∀ x, X.alloc.arena x ∨ X.Table x ∨ X.contexts.area x →
    (∀ b ∈ stacksOf (c.user K.currentProcess) K.mem K.currentProcess, ¬ b.Has x) → m x = K.mem x

/-- Code in ring 0 has its stack pointer in the kernel stack, with room for a frame. -/
def StackRoom {σ : Type} (K : Kernel σ) (r : Registers) : Prop :=
  r.cpl = 0 → procStack K.mem K.currentProcess + 64 ≤ r.esp.toNat ∧
    r.esp.toNat ≤ procStack K.mem K.currentProcess + STACK_SIZE

/-- Everything from a trap to the next instruction. Below the frame the kernel uses the stack for
itself, and `Q` says what it lets through. -/
def TrapStep {σ : Type} (X : Host σ) (Q : Kernel σ → Census → Nat → Prop) (M : Machine σ) (c : Census)
    (source : Source) (vector : Nat) (M' : Machine σ) (c' : Census) : Prop :=
  ∃ (high : Nat → UInt16) (cpuNew : Nat) (code : UInt32) (r k : Registers) (m m' : Mem)
    (stale : Message) (S : System σ),
    Arises M.regs.cpl source vector ∧ StackRoom M.system.kernel M.regs ∧
    trap X.tss X.idt high M.system.kernel.mem M.regs source vector code = (r, m) ∧
    (∀ x, ¬ (procStack M.system.kernel.mem M.current ≤ x ∧ x < r.esp.toNat) → m' x = m x) ∧
    Q (M.system.load m').kernel c r.esp.toNat ∧
    intHandler X.platform (M.system.load m') stale r.esp.toNat = .ok (cpuNew, S) ∧
    k.ss = 0x10 ∧ M' = ⟨S, leaveKernel k S.kernel.mem cpuNew⟩ ∧
    c' = c.after (M.system.load m').kernel S.kernel r.esp.toNat

/-- Only blocks of the heap that are not in use have changed. -/
def HeapStores {σ : Type} (X : Host σ) (K : Kernel σ) (m : Mem) : Prop :=
  BlocksKept X.alloc K.mem m ∧ ∀ x, X.Table x ∨ X.contexts.area x → m x = K.mem x

/-- A step of the process that runs: an instruction, or blocks of the heap that it takes and fills
in ring 0. -/
inductive ProcessStep {σ : Type} (X : Host σ) (c : Census) (M : Machine σ) : Machine σ → Prop
  | compute {r : Registers} {m : Mem} :
      r.cpl = M.regs.cpl → (r.cpl = 0 → r.ss = 0x10) → OwnStores X M.system.kernel c m →
      ProcessStep X c M ⟨M.system.load m, r⟩
  | heap {m : Mem} : M.regs.cpl = 0 → HeapStores X M.system.kernel m →
      ProcessStep X c M ⟨M.system.load m, M.regs⟩

/-- One step of the machine: one of the process that runs, or a trap. -/
inductive MachineStep {σ : Type} (X : Host σ) (Q : Kernel σ → Census → Nat → Prop) :
    Machine σ → Census → Machine σ → Census → Prop
  | process {M M' : Machine σ} {c : Census} : ProcessStep X c M M' → MachineStep X Q M c M' c
  | trap {M M' : Machine σ} {c c' : Census} {source : Source} {vector : Nat} :
      TrapStep X Q M c source vector M' c' → MachineStep X Q M c M' c'

/-- Any number of steps. -/
inductive MachineRun {σ : Type} (X : Host σ) (Q : Kernel σ → Census → Nat → Prop) (M : Machine σ)
    (c : Census) : Machine σ → Census → Prop
  | start : MachineRun X Q M c M c
  | step {M₁ M₂ : Machine σ} {c₁ c₂ : Census} : MachineRun X Q M c M₁ c₁ →
      MachineStep X Q M₁ c₁ M₂ c₂ → MachineRun X Q M c M₂ c₂

/-- Any number of steps that others than `p` make. -/
inductive MachineWaits {σ : Type} (X : Host σ) (Q : Kernel σ → Census → Nat → Prop) (p : Nat)
    (M : Machine σ) (c : Census) : Machine σ → Census → Prop
  | start : MachineWaits X Q p M c M c
  | step {M₁ M₂ : Machine σ} {c₁ c₂ : Census} : MachineWaits X Q p M c M₁ c₁ → M₁.current ≠ p →
      MachineStep X Q M₁ c₁ M₂ c₂ → MachineWaits X Q p M c M₂ c₂

/-- **The processes are in the kernel's memory**: the current one is on the processor, and all
others are frames where their records say. -/
structure Represents {σ : Type} (X : Host σ) (K : Kernel σ) (c : Census)
    (regs : Nat → Registers) : Prop where
  sound : Sound X K c
  idle : K.idleProcess ∈ c.alive
  pids : ∀ p ∈ c.alive, procPid K.mem p ≠ 2 ^ 32 - 1
  gates : HasGates K.mem X.idt X.stub
  ring : ∀ p ∈ c.alive, (regs p).cpl = if c.user p then 3 else 0
  ss : ∀ p ∈ c.alive, (regs p).cpl = 0 → (regs p).ss = 0x10
  current : K.currentProcess ∈ c.alive
  context : K.currentContext = procContext K.mem K.currentProcess
  trapStack : TrapStack X K regs
  saved : ∀ p ∈ c.alive, p ≠ K.currentProcess →
    SavedFrame K.mem (procStack K.mem p) (procState K.mem p) (regs p)

section
variable {σ : Type} {X : Host σ} {K : Kernel σ} {c c' c₁ c₂ : Census} {regs : Nat → Registers}
  {frame : Nat → Nat} {st p : Nat} {M M' M₁ M₂ : Machine σ} {m' : Mem} {r : Registers}
  {Q : Kernel σ → Census → Nat → Prop}

/-! ## Into the kernel and back -/

/-- All processes are frames once the current one is. -/
theorem Represents.ready (h : Represents X K c regs)
    (hsaved : SavedFrame K.mem (procStack K.mem K.currentProcess) st (regs K.currentProcess)) :
    Ready X K c (Function.update (procState K.mem) K.currentProcess st) regs st := by
  refine ⟨⟨h.sound, h.pids, h.gates, h.ring, h.ss, fun p hp => ?_, fun p _ hne => ?_⟩,
    h.current, h.idle, by rw [Function.update_self], h.context⟩
  · by_cases hpc : p = K.currentProcess
    · subst hpc
      rwa [Function.update_self]
    · rw [Function.update_of_ne hpc]
      exact h.saved p hp hpc
  · rw [Function.update_of_ne hne]

/-- The kernel leaves through the frame of the current process. -/
theorem Ready.represents (h : Ready X K c frame regs st) (htrap : TrapStack X K regs) :
    Represents X K c regs := by
  refine ⟨h.frozen.sound, h.idle, h.frozen.pids, h.frozen.gates, h.frozen.ring, h.frozen.ss,
    h.current, h.context, htrap, fun p hp hne => ?_⟩
  rw [h.frozen.state p hp hne]
  exact h.frozen.saved p hp

/-- What comes back are the registers of the process that is current. -/
theorem Ready.leaves {k : Registers} (h : Ready X K c frame regs st) (hk : k.ss = 0x10) :
    leaveKernel k K.mem st = regs K.currentProcess := by
  obtain ⟨nodes, queue, live, hl⟩ := h.frozen.sound
  have hfin := X.alloc.fin_le hl.boxes.holds (hl.stack_live h.current)
  rw [h.cpu]
  exact (h.frozen.saved _ h.current).leave hfin hk

/-- **The stores of a process** leave the others alone. -/
theorem Represents.own (h : Represents X K c regs) (hX : X.Separate) (hm : OwnStores X K c m')
    (hcpl : r.cpl = (regs K.currentProcess).cpl) (hss : r.cpl = 0 → r.ss = 0x10) :
    Represents X { K with mem := m' } c (Function.update regs K.currentProcess r) ∧
      ∀ p ∈ c.alive, AgreeOn K.mem m' p 52 := by
  have hrec : ∀ q ∈ c.alive, AgreeOn K.mem m' q 52 := fun q hq x hx hx' =>
    have hoff := h.sound.record_off h.current hq hx hx'
    hm x (Or.inl hoff.1) hoff.2
  have htable : ∀ x, X.Table x → m' x = K.mem x := fun x hx =>
    hm x (Or.inr (Or.inl hx)) (h.sound.table_off hX h.current hx)
  have hword : ∀ q ∈ c.alive, ∀ n, n + 4 ≤ 52 → load32 m' (q + n) = load32 K.mem (q + n) :=
    fun q hq n hn => load32_congr ((hrec q hq).mono (by omega) (by omega))
  have hstack : ∀ q ∈ c.alive, procStack m' q = procStack K.mem q := fun q hq =>
    hword q hq 28 (by omega)
  have hring : ∀ q, (Function.update regs K.currentProcess r q).cpl = (regs q).cpl := by
    intro q
    by_cases hqc : q = K.currentProcess
    · rw [hqc, Function.update_self, hcpl]
    · rw [Function.update_of_ne hqc]
  obtain ⟨nodes, queue, live, hl⟩ := h.sound
  refine ⟨⟨⟨nodes, queue, live, hl.fields (fun x hx _ hoff => ?_) rfl rfl⟩, h.idle, fun q hq => ?_,
    h.gates.congr (Host.gates_agree htable), fun q hq => ?_, fun q hq hzero => ?_, h.current, ?_,
    fun hne => ?_, fun q hq hne => ?_⟩, hrec⟩
  · exact hm x (Or.inl hx) (hoff _ h.current)
  · have hpid : procPid m' q = procPid K.mem q := hword q hq 8 (by omega)
    exact hpid ▸ h.pids q hq
  · rw [hring]
    exact h.ring q hq
  · rw [hring] at hzero
    by_cases hqc : q = K.currentProcess
    · rw [hqc, Function.update_self]
      exact hss (hcpl.trans (hqc ▸ hzero))
    · rw [Function.update_of_ne hqc]
      exact h.ss q hq hzero
  · exact h.context.trans (hword _ h.current 4 (by omega)).symm
  · show load32 m' (X.tss + 4) = (procStack m' K.currentProcess + STACK_SIZE) % 2 ^ 32
    rw [load32_congr (Host.tss_agree htable), hstack _ h.current]
    exact h.trapStack (by rwa [← hring])
  · have hstate : procState m' q = procState K.mem q := hword q hq 0 (by omega)
    have hsaved := h.saved q hq hne
    show SavedFrame m' (procStack m' q) (procState m' q) _
    rw [hstack q hq, hstate, Function.update_of_ne hne]
    refine hsaved.congr (fun x hx hx' => ?_)
    have hlow := hsaved.low.trans hx
    have hhigh := hx'.trans_le hsaved.high
    exact hm x (Or.inl (h.sound.stack_arena hq hlow hhigh))
      (h.sound.stack_off h.current hq hne hlow hhigh)

/-- The stacks of a process are not in the pages of the contexts. -/
theorem OwnStores.area (hm : OwnStores X K c m') (hX : X.Separate) (hs : Sound X K c)
    (hcur : K.currentProcess ∈ c.alive) {x : Nat} (hx : X.contexts.area x) : m' x = K.mem x := by
  refine hm x (Or.inr (Or.inr hx)) (fun b hb hbx => ?_)
  obtain ⟨nodes, queue, live, hl⟩ := hs
  have hin := (X.alloc.inArena hl.boxes.holds b (hl.stackLive _ hcur b hb)).2 _ hbx
  exact hX.area x hin hx

/-- **New blocks of the heap** leave all processes alone. -/
theorem Represents.heap (h : Represents X K c regs) (hm : HeapStores X K m') :
    Represents X { K with mem := m' } c regs ∧ ∀ p ∈ c.alive, AgreeOn K.mem m' p 52 := by
  obtain ⟨hkept, hspared⟩ := hm
  have htable : ∀ x, X.Table x → m' x = K.mem x := fun x hx => hspared x (Or.inl hx)
  obtain ⟨nodes, queue, live, hl⟩ := h.sound
  obtain ⟨⟨live', hl'⟩, hboth⟩ := hl.blocksKept hkept
  have hrec : ∀ q ∈ c.alive, AgreeOn K.mem m' q 52 := fun q hq => (hboth q hq).1
  refine ⟨⟨⟨nodes, queue, live', hl'⟩, h.idle, fun q hq => ?_, h.gates.congr (Host.gates_agree htable),
    h.ring, h.ss, h.current, ?_, fun hne => ?_, fun q hq hne => ?_⟩, hrec⟩
  · have hpid : procPid m' q = procPid K.mem q :=
      load32_congr ((hrec q hq).mono (by omega) (by omega))
    exact hpid ▸ h.pids q hq
  · exact h.context.trans (load32_congr ((hrec _ h.current).mono (by omega) (by omega))).symm
  · show load32 m' (X.tss + 4) = (procStack m' K.currentProcess + STACK_SIZE) % 2 ^ 32
    rw [load32_congr (Host.tss_agree htable), (hboth _ h.current).2.stack_eq]
    exact h.trapStack hne
  · have hsaved := h.saved q hq hne
    show SavedFrame m' (procStack m' q) (procState m' q) _
    rw [(hboth q hq).2.stack_eq, (hboth q hq).2.state_eq]
    exact hsaved.congr ((hboth q hq).2.stack.mono hsaved.low hsaved.high)

/-- **A trap** puts the registers of the current process in a frame, and writes to its kernel
stack only. -/
theorem Represents.trap {high : Nat → UInt16} {source : Source} {vector : Nat} {code : UInt32}
    {r₁ : Registers} {m₁ : Mem} (h : Represents X K c regs)
    (harise : Arises (regs K.currentProcess).cpl source vector)
    (hroom : StackRoom K (regs K.currentProcess))
    (htrap : DayOS.trap X.tss X.idt high K.mem (regs K.currentProcess) source vector code = (r₁, m₁))
    (hbelow : ∀ x, ¬ (procStack K.mem K.currentProcess ≤ x ∧ x < r₁.esp.toNat) → m' x = m₁ x) :
    OwnStores X K c m' ∧
      SavedFrame m' (procStack K.mem K.currentProcess) r₁.esp.toNat (regs K.currentProcess) ∧
      load32 m' (r₁.esp.toNat + 44) = served source vector := by
  have hss := h.ss _ h.current
  have htss := h.trapStack
  have hcpl := frameLength_le (regs K.currentProcess).cpl
  unfold TrapStack at htss
  unfold StackRoom at hroom
  generalize hr : regs K.currentProcess = r at *
  obtain ⟨nodes, queue, live, hl⟩ := h.sound
  have hfin := X.alloc.fin_le hl.boxes.holds (hl.stack_live h.current)
  simp only at hfin
  -- where the frame ends
  obtain ⟨top, hsp, hlow, hhigh, hout⟩ : ∃ top,
      (if r.cpl ≠ 0 then load32 K.mem (X.tss + 4) else r.esp.toNat) = top % 2 ^ 32 ∧
      procStack K.mem K.currentProcess + 4 * frameLength r.cpl ≤ top ∧
      top ≤ procStack K.mem K.currentProcess + STACK_SIZE ∧
      (r.cpl ≠ 0 → top = procStack K.mem K.currentProcess + STACK_SIZE) := by
    by_cases hring : r.cpl = 0
    · have hlen : frameLength r.cpl = 16 := if_neg (fun hne => hne hring)
      obtain ⟨hfits, hle⟩ := hroom hring
      refine ⟨r.esp.toNat, ?_, by omega, hle, fun hne => absurd hring hne⟩
      rw [if_neg (fun hne => hne hring), Nat.mod_eq_of_lt r.esp.toNat_lt]
    · refine ⟨_, ?_, ?_, le_rfl, fun _ => rfl⟩
      · rw [if_pos hring, htss hring]
      · simp only [STACK_SIZE]
        omega
  obtain ⟨code', hcode, heq⟩ := trap_eq X.tss high code h.gates harise
  rw [heq] at htrap
  obtain ⟨hmem, hesp⟩ := enterKernel_eq high (gateOf X.stub (served source vector)) hcode
    hsp (hhigh.trans hfin) (by omega)
  have hknown := (arrive_served X.stub code
    (Nat.le_of_lt_succ (Nat.mod_lt _ (by decide))) harise).2.1
  have hvector := enterKernel_vector high (gateOf X.stub (served source vector)) hcode
    hsp (hhigh.trans hfin) (by omega) (by rcases hknown with h | h <;> omega)
  have hkeep : ∀ x, r₁.esp.toNat ≤ x → m' x = m₁ x := fun x hx => hbelow x (by omega)
  have hsaved := SavedFrame.of_enter high m'
    (gateOf X.stub (served source vector)) hcode hsp (hhigh.trans hfin) hlow hhigh hout hss
    (by rw [htrap]) (fun x hx _ => by rw [hkeep x hx, htrap])
  simp only [htrap] at hvector
  refine ⟨fun x _ hoff => ?_, hsaved,
    (load32_congr (fun x hx _ => hkeep x (by omega))).trans hvector⟩
  have hstack := hoff _ (stack_mem_stacksOf _ _ _)
  simp only [Block.Has] at hstack
  rw [htrap] at hmem hesp
  simp only at hmem hesp
  rw [hbelow x (by omega), hmem]
  refine writeWords_of_outside ?_
  rw [List.length_take, Cpu.words_length]
  omega

/-! ## The timer -/

/-- A timer interrupt that nobody waits for. -/
theorem intHandler_tick {S : System σ} (stale : Message) {cpu : Nat} {K₁ : Kernel σ}
    (hintr : load32 S.kernel.mem (st + 44) = 0x20)
    (hs : schedule S.kernel ((S.tickCount + 1) % 2 ^ 32) st = .ok (cpu, K₁))
    (hfree : irqHandler X.irqHandlers (setKernelStack X.platform K₁ cpu).mem 0x20 = 0) :
    ∃ S', intHandler X.platform S stale st = .ok (cpu, S') ∧
      S'.kernel = setKernelStack X.platform K₁ cpu := by
  have htimer : timerEntry X.platform S st 0x20 = .ok (cpu, { S with
      kernel := setKernelStack X.platform K₁ cpu, tickCount := (S.tickCount + 1) % 2 ^ 32 }) := by
    simp only [timerEntry, irqSwitch, if_true, hs]
    rfl
  have hmessage : irqMessage X.platform.irqHandlers X.platform.heap (setKernelStack X.platform K₁ cpu)
      0x20 stale = .ok (setKernelStack X.platform K₁ cpu) := by
    have hnone : ¬ irqHandler X.irqHandlers (setKernelStack X.platform K₁ cpu).mem 0x20 > 0 := by
      omega
    exact if_neg hnone
  have hline : lineEntry X.platform S stale st 0x20 = .ok (cpu, { S with
      kernel := setKernelStack X.platform K₁ cpu, tickCount := (S.tickCount + 1) % 2 ^ 32 }) := by
    rw [lineEntry, bind_of_ok htimer]
    dsimp only
    rw [bind_of_ok hmessage]
    rfl
  refine ⟨{ S with
      kernel := setKernelStack X.platform K₁ cpu, tickCount := (S.tickCount + 1) % 2 ^ 32
      kernelMode := false, ports := S.ports ++ [(0x20, 0x20)] }, ?_, rfl⟩
  dsimp only [intHandler]
  rw [hintr, if_neg (by omega), if_pos (by omega), bind_of_ok hline]
  rfl

/-- The handler of a line is off the heap and the task state segment. -/
theorem irqHandler_of_table (hX : X.Separate) {m : Mem} {i : Nat} (hi : i < NUM_HANDLERS)
    (hm : ∀ x, X.Table x → (x < X.tss + 4 ∨ X.tss + 8 ≤ x) → m' x = m x) :
    irqHandler X.irqHandlers m' i = irqHandler X.irqHandlers m i := by
  have hfits := hX.irqFits
  have hap := hX.irqTss
  simp only [NUM_HANDLERS] at hi
  have hslot : irqSlot X.irqHandlers i = X.irqHandlers + 4 * i := Nat.mod_eq_of_lt (by omega)
  refine load32_congr (fun x hx hx' => hm x (Or.inr (Or.inr ?_)) ?_) <;> omega

/-- **The timer gives the turn to the next one** that is ready, whatever the current process is
doing. -/
theorem Represents.tick (pre post : List Nat) {q : Nat} (h : Represents X M.system.kernel c regs)
    (hX : X.Separate) (hr : regs M.current = M.regs) (hroom : StackRoom M.system.kernel M.regs)
    (hsplit : c.alive = pre ++ M.current :: post)
    (hnext : (scanned pre M.current post).find? (eligible M.system.kernel.mem
      ((M.system.tickCount + 1) % 2 ^ 32)) = some q)
    (hawake : procStatus M.system.kernel.mem q = PROCESS_RUNNABLE)
    (hfree : irqHandler X.irqHandlers M.system.kernel.mem 0x20 = 0)
    (hQ : ∀ K st, load32 K.mem (st + 44) = 0x20 → Q K c st) :
    ∃ M', MachineStep X Q M c M' c ∧ M'.current = q ∧
      irqHandler X.irqHandlers M'.system.kernel.mem 0x20 = 0 ∧
      ∀ p ∈ c.alive, AgreeOn M.system.kernel.mem M'.system.kernel.mem (p + 4) 48 := by
  have harise : Arises (regs M.current).cpl .device 32 := ⟨by decide, by decide⟩
  rw [← hr] at hroom
  generalize htrap : DayOS.trap X.tss X.idt (fun _ => 0) M.system.kernel.mem (regs M.current)
    .device 32 0 = trapped
  obtain ⟨r, m⟩ := trapped
  obtain ⟨hown, -, hvector⟩ := h.trap harise hroom htrap (fun _ _ => rfl)
  obtain ⟨hrep, hrec⟩ := h.own hX hown (r := regs M.current) rfl (h.ss _ h.current)
  rw [Machine.current, Function.update_eq_self] at hrep
  obtain ⟨nodes, queue, live, hl⟩ := hrep.sound
  have hrecs : ProcRecords X.contexts.area m M.system.kernel.firstProcess
      (pre ++ M.current :: post) := hsplit ▸ hl.list.records
  have hq : q ∈ pre ++ M.current :: post := mem_scanned (List.mem_of_find?_eq_some hnext)
  have hcur : M.current ∈ pre ++ M.current :: post := by simp
  -- what the scheduler reads is as before
  have hfind : (scanned pre M.current post).find? (eligible m
      ((M.system.tickCount + 1) % 2 ^ 32)) = some q := by
    rw [← hnext]
    refine List.find?_congr (fun p hp => eligible_congr ?_)
    have hp' : p ∈ c.alive := hsplit ▸ mem_scanned hp
    exact (hrec p hp').mono (by omega) (by omega)
  have hstore : ∀ p ∈ pre ++ M.current :: post,
      AgreeOn m (store32 m M.current r.esp.toNat) (p + 4) 48 := by
    intro p hp x hx hx'
    refine store32_of_outside ?_
    by_cases hpc : p = M.current
    · omega
    · have hap := hrecs.record_apart hp hcur hpc
      omega
  have hstatus : procStatus (store32 m M.current r.esp.toNat) q = PROCESS_RUNNABLE := by
    rw [← hawake]
    have hq' : q ∈ c.alive := hsplit ▸ hq
    exact (load8_congr ((hstore q hq).mono (by omega) (by omega))).trans
      (load8_congr ((hrec q hq').mono (by omega) (by omega)))
  have hschedule := schedule_eq (K := (M.system.load m).kernel) hrecs
    ((M.system.tickCount + 1) % 2 ^ 32) r.esp.toNat
  rw [show (M.system.load m).kernel.currentProcess = M.current from rfl,
    show (M.system.load m).kernel.mem = m from rfl, hfind] at hschedule
  simp only [wake, if_pos hstatus, switchTo, if_neg (hrecs.chain.ne_zero_of_mem hq)] at hschedule
  -- the tables are as they were
  have htable : ∀ x, X.Table x → store32 m M.current r.esp.toNat x = M.system.kernel.mem x := by
    intro x hx
    have hoff : ¬ (M.current ≤ x ∧ x < M.current + 52) := fun hin =>
      (hX.table x hx).2.1 (h.sound.record_off h.current h.current hin.1 hin.2).1
    rw [store32_of_outside (by omega)]
    exact hown x (Or.inr (Or.inl hx)) (h.sound.table_off hX h.current hx)
  have hirq : irqHandler X.irqHandlers (store32 (store32 m M.current r.esp.toNat) (X.tss + 4)
      (procState (store32 m M.current r.esp.toNat) q + sizeofCpu)) 0x20 = 0 := by
    rw [irqHandler_of_table hX (by decide) (fun x hx htss => ?_), hfree]
    rw [store32_of_outside htss]
    exact htable x hx
  obtain ⟨S, hticked, hS⟩ := intHandler_tick (X := X) Message.blank hvector hschedule hirq
  have hintr : load32 m (r.esp.toNat + 44) = 0x20 := hvector
  have hkills : ¬ Kills m r.esp.toNat := by
    rintro (hlt | ⟨h48, -⟩) <;> omega
  rw [hr] at harise hroom htrap
  have hfirst : S.kernel.firstProcess = (M.system.load m).kernel.firstProcess := by
    rw [hS]
    rfl
  have hstep : TrapStep X Q M c .device 32
      ⟨S, leaveKernel { M.regs with ss := 0x10 } S.kernel.mem _⟩ c :=
    ⟨_, _, _, _, _, _, _, _, _, harise, hroom, htrap, fun _ _ => rfl, hQ _ _ hintr, hticked, rfl, rfl,
      (Census.after_same hkills hfirst).symm⟩
  refine ⟨_, .trap hstep, ?_, ?_, fun p hp x hx hx' => ?_⟩ <;> dsimp only [Machine.current] <;> rw [hS]
  · rfl
  · exact hirq
  have hoff : ¬ (X.tss + 4 ≤ x ∧ x < X.tss + 8) := fun hin =>
    (hX.table x (Or.inl hin)).2.1 (h.sound.record_off hp hp (by omega) (by omega)).1
  have htss : X.platform.tss = X.tss := rfl
  have hp' : p ∈ pre ++ M.current :: post := hsplit ▸ hp
  refine (store32_of_outside (by omega)).trans ((hstore p hp' x hx hx').trans ?_)
  exact hrec p hp x (by omega) (by omega)

/-! ## The simulation -/

/-- The timer asks for nothing. -/
theorem Orderly.of_timer (hintr : load32 K.mem (st + 44) = 0x20) : Orderly X K c st := by
  have hkills : ¬ Kills K.mem st := by
    rintro (hlt | ⟨h48, -⟩) <;> omega
  refine ⟨fun hk => absurd hk hkills, fun hk => absurd hk hkills, fun h48 => ?_⟩
  exact absurd (hintr.symm.trans h48) (by decide)

theorem MachineStep.mono {Q' : Kernel σ → Census → Nat → Prop} (h : MachineStep X Q M c M' c')
    (hQ : ∀ K c st, Q K c st → Q' K c st) : MachineStep X Q' M c M' c' := by
  cases h with
  | process hstep => exact .process hstep
  | trap hstep =>
      obtain ⟨high, cpuNew, code, r, k, m, m', stale, S, harise, hroom, htrap, hbelow, hq, hrest⟩ :=
        hstep
      exact .trap ⟨high, cpuNew, code, r, k, m, m', stale, S, harise, hroom, htrap, hbelow,
        hQ _ _ _ hq, hrest⟩

/-- A trap of the machine, as `int_handler` sees it: the stores in front of it spare the others, and
the kernel is ready. -/
theorem Represents.entered {high : Nat → UInt16} {source : Source} {vector : Nat} {code : UInt32}
    {m : Mem} (h : Represents X M.system.kernel c regs) (hX : X.Separate)
    (hr : regs M.current = M.regs) (harise : Arises M.regs.cpl source vector)
    (hroom : StackRoom M.system.kernel M.regs)
    (htrap : DayOS.trap X.tss X.idt high M.system.kernel.mem M.regs source vector code = (r, m))
    (hbelow : ∀ x, ¬ (procStack M.system.kernel.mem M.current ≤ x ∧ x < r.esp.toNat) → m' x = m x) :
    OwnStores X M.system.kernel c m' ∧ load32 m' (r.esp.toNat + 44) = served source vector ∧
    Represents X (M.system.load m').kernel c regs ∧
    (∀ p ∈ c.alive, AgreeOn M.system.kernel.mem m' p 52) ∧
    Ready X (M.system.load m').kernel c
      (Function.update (procState m') M.system.kernel.currentProcess r.esp.toNat) regs
      r.esp.toNat := by
  rw [← hr] at harise hroom htrap
  obtain ⟨hown, hsaved, hvector⟩ := h.trap harise hroom htrap hbelow
  obtain ⟨hrep, hrec⟩ := h.own hX hown (r := regs M.current) rfl (h.ss _ h.current)
  rw [Machine.current, Function.update_eq_self] at hrep
  have hstack : procStack m' M.system.kernel.currentProcess
      = procStack M.system.kernel.mem M.system.kernel.currentProcess :=
    load32_congr ((hrec _ h.current).mono (by omega) (by omega))
  rw [← hstack] at hsaved
  exact ⟨hown, hvector, hrep, hrec, hrep.ready hsaved⟩

/-- **A trap is one step of the processes**, when all that is let through is orderly: the frame is
pushed, which spares the others, and then `int_handler` does its work. -/
theorem TrapStep.turns {source : Source} {vector : Nat}
    (hstep : TrapStep X Q M c source vector M' c') (hX : X.Separate)
    (h : Represents X M.system.kernel c regs) (hr : regs M.current = M.regs)
    (hQ : ∀ m' st, OwnStores X M.system.kernel c m' →
      Represents X (M.system.load m').kernel c regs → Q (M.system.load m').kernel c st →
      Orderly X (M.system.load m').kernel c st) : ∃ m' st regs',
    OwnStores X M.system.kernel c m' ∧ Represents X (M.system.load m').kernel c regs ∧
    (∀ p ∈ c.alive, AgreeOn M.system.kernel.mem m' p 52) ∧ Q (M.system.load m').kernel c st ∧
    c' = c.after (M.system.load m').kernel M'.system.kernel st ∧
    PagesStep X (M.system.load m').kernel st M'.system.kernel ∧
    Represents X M'.system.kernel c' regs' ∧ regs' M'.current = M'.regs ∧
    VirtualCpus.Step ⟨c.alive, regs, M.current⟩ ⟨c'.alive, regs', M'.current⟩ ∧
    ∀ p ∈ c.alive, p ∈ c'.alive →
      procContext M'.system.kernel.mem p = procContext m' p := by
  obtain ⟨high, cpuNew, code, r, k, m, m', stale, S, harise, hroom, htrap, hbelow, hq, hk, hkss,
    rfl, rfl⟩ := hstep
  obtain ⟨hown, -, hrep, hrec, hready⟩ := h.entered hX hr harise hroom htrap hbelow
  obtain ⟨⟨frame', regs', hturn, htrap'⟩, hpages⟩ := intHandler_turns (S := M.system.load m') hready
    hX hrep.trapStack (hQ m' _ hown hrep hq) hk
  exact ⟨m', _, regs', hown, hrep, hrec, hq, rfl, hpages, hturn.ready.represents htrap',
    (hturn.ready.leaves hkss).symm, hturn.step, hturn.contexts⟩

/-- **A step of the process that runs** leaves the others alone. -/
theorem ProcessStep.simulates (hstep : ProcessStep X c M M') (hX : X.Separate)
    (h : Represents X M.system.kernel c regs) (hr : regs M.current = M.regs) : ∃ regs',
    Represents X M'.system.kernel c regs' ∧ regs' M'.current = M'.regs ∧
    VirtualCpus.Step ⟨c.alive, regs, M.current⟩ ⟨c.alive, regs', M'.current⟩ ∧
    (∀ p ∈ c.alive, AgreeOn M.system.kernel.mem M'.system.kernel.mem p 52) ∧
    AreaKept X.contexts M.system.kernel M'.system.kernel := by
  cases hstep with
  | @compute r m hcpl hss hown =>
      rw [← hr] at hcpl
      obtain ⟨hrep, hrec⟩ := h.own hX hown hcpl hss
      exact ⟨_, hrep, Function.update_self _ _ _, .run r, hrec, rfl, fun x hx =>
        hown.area hX h.sound h.current hx⟩
  | heap hcpl hm =>
      obtain ⟨hrep, hrec⟩ := h.heap hm
      exact ⟨regs, hrep, hr, .turn h.current, hrec, rfl, fun x hx => hm.2 x (Or.inr hx)⟩

/-- **One step of the machine is one step of the processes.** -/
theorem MachineStep.simulates (hstep : MachineStep X (Orderly X) M c M' c') (hX : X.Separate)
    (h : Represents X M.system.kernel c regs) (hr : regs M.current = M.regs) : ∃ regs',
    Represents X M'.system.kernel c' regs' ∧ regs' M'.current = M'.regs ∧
    VirtualCpus.Step ⟨c.alive, regs, M.current⟩ ⟨c'.alive, regs', M'.current⟩ ∧
    ∀ p ∈ c.alive, p ∈ c'.alive →
      procContext M'.system.kernel.mem p = procContext M.system.kernel.mem p := by
  cases hstep with
  | process hstep =>
      obtain ⟨regs', hrep, hregs, hone, hrec, -⟩ := hstep.simulates hX h hr
      exact ⟨regs', hrep, hregs, hone, fun p hp _ =>
        load32_congr ((hrec p hp).mono (by omega) (by omega))⟩
  | trap hstep =>
      obtain ⟨m', st, regs', -, -, hrec, -, -, -, hrep, hregs, hone, hcontexts⟩ :=
        hstep.turns hX h hr (fun _ _ _ _ => id)
      exact ⟨regs', hrep, hregs, hone, fun p hp hp' => (hcontexts p hp hp').trans
        (load32_congr ((hrec p hp).mono (by omega) (by omega)))⟩

end

end DayOS
