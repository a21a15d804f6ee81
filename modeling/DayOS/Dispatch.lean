import DayOS.Handling

set_option autoImplicit false

/-! # What `int_handler` does to the processes

Whichever branch `int_handler` takes, it does one of four things to the processes: the
interrupted one gets an answer in `eax`, another one gets the turn, a process comes in, or the
interrupted one ends (`intHandler_turns`).

The code makes no such promise for everything a process may ask of it. A process may have the
kernel store a message over the kernel's own data, register a line behind the table, or end
`idle_process`; `Orderly` says that this call does not.
-/

namespace DayOS

open ByteMemory Linked Ia32 Paging

section
variable {σ : Type} {X : Host σ} {K K' : Kernel σ} {c : Census} {frame : Nat → Nat}
  {regs : Nat → Registers} {p : Nat}

/-! ## Births and deaths -/

/-- A new process, made by `CreateUserProcess` or not. -/
def Census.birth (c : Census) (p : Nat) (user : Bool) : Census :=
  ⟨p :: c.alive, Function.update c.user p user⟩

/-- The end of a process. -/
def Census.death (c : Census) (p : Nat) : Census := ⟨c.alive.erase p, c.user⟩

/-- **A birth.** -/
theorem Frozen.birth {g : Lives} {nodes nodes' : Nat → List Nat} {queue queue' : Nat → List Message}
    {live live' : List Block} {area : Nat → Prop} {state : Cpu} {u : Bool} {r : Registers}
    (h : Frozen X K c frame regs) (hX : X.Separate)
    (halive : g.alive = c.alive) (huser : g.user = c.user)
    (hl : Lived X.alloc X.contexts K g nodes queue live)
    (hl' : Lived X.alloc X.contexts K' (g.birth p u) nodes' queue' live')
    (hb : Born X.alloc area K K' live p state) (harea : ∀ x, area x → X.contexts.area x)
    (hnum : K.numProc ≠ 2 ^ 32 - 1)
    (hr : r = resumed state (frameOf (procStack K'.mem p)) 0x10)
    (hring : r.cpl = if u then 3 else 0) :
    p ∉ c.alive ∧ Frozen X K' (c.birth p u)
      (Function.update frame p (frameOf (procStack K'.mem p))) (Function.update regs p r) := by
  have hp : p ∉ c.alive := by
    rw [← halive]
    exact (List.nodup_cons.mp hl'.list.chain.nodup).1
  have hne : ∀ q ∈ c.alive, q ≠ p := by
    rintro q hq rfl
    exact hp hq
  have hunt : ∀ q ∈ c.alive, Untouched K.mem K'.mem q := fun q hq =>
    hl.untouched_of_born hb (halive ▸ hq)
  have htable : ∀ x, X.Table x → K'.mem x = K.mem x := fun x hx =>
    hb.outside x (hX.table x hx).2.1 (fun hxa => (hX.table x hx).2.2 (harea x hxa))
  have hcur' : K'.currentProcess = K.currentProcess := by rw [hb.globals]
  refine ⟨hp, ⟨?_, ?_, h.gates.congr (Host.gates_agree htable), ?_, ?_, ?_, ?_⟩⟩
  · have hsound := Sound.of_lived hl'
    rwa [Lives.birth, halive, huser] at hsound
  · refine List.forall_mem_cons.mpr ⟨?_, fun q hq => ?_⟩
    · rw [hb.pid, Nat.mod_eq_of_lt hl.num]
      exact hnum
    · rw [(hunt q hq).pid_eq]
      exact h.pids q hq
  · refine List.forall_mem_cons.mpr ⟨?_, fun q hq => ?_⟩
    · simp only [Census.birth, Function.update_self, hring]
    · simp only [Census.birth, Function.update_of_ne (hne q hq)]
      exact h.ring q hq
  · refine List.forall_mem_cons.mpr ⟨fun hcpl => ?_, fun q hq hcpl => ?_⟩
    · rw [Function.update_self] at hcpl ⊢
      rw [hr] at hcpl ⊢
      exact if_neg (fun hcs => hcs hcpl)
    · rw [Function.update_of_ne (hne q hq)] at hcpl ⊢
      exact h.ss q hq hcpl
  · refine List.forall_mem_cons.mpr ⟨?_, fun q hq => ?_⟩
    · rw [Function.update_self, Function.update_self, hr]
      have hlen := frameLength_le (resumed state (frameOf (procStack K'.mem p)) 0x10).cpl
      have hframe := frameOf_eq (procStack K'.mem p)
      refine ⟨by omega, ?_, fun _ => rfl, by rw [hb.frame]⟩
      simp only [STACK_SIZE]
      omega
    · rw [Function.update_of_ne (hne q hq), Function.update_of_ne (hne q hq), (hunt q hq).stack_eq]
      exact (h.saved q hq).congr (h.frame_agree hq (hunt q hq).stack)
  · refine List.forall_mem_cons.mpr ⟨fun _ => ?_, fun q hq hqc => ?_⟩
    · rw [Function.update_self]
      exact hb.state_eq
    · rw [Function.update_of_ne (hne q hq), (hunt q hq).state_eq]
      exact h.state q hq (by rwa [hcur'] at hqc)

/-- The process `p` has come in, with the registers `r`, and is the first of the list. -/
structure Joined (X : Host σ) (K K' : Kernel σ) (c : Census) (frame : Nat → Nat)
    (regs : Nat → Registers) (p : Nat) (user : Bool) (r : Registers) : Prop where
  fresh : p ∉ c.alive
  others : ∀ q ∈ c.alive, Untouched K.mem K'.mem q
  records : ∀ q ∈ c.alive, AgreeOn K.mem K'.mem q 52
  outside : ∀ x, ¬ X.alloc.arena x → ¬ X.contexts.area x → K'.mem x = K.mem x
  pid : procPid K'.mem p = K.numProc
  globals : K' = { K with
    mem := K'.mem, frames := K'.frames, firstProcess := p, numProc := (K.numProc + 1) % 2 ^ 32 }
  frozen : Frozen X K' (c.birth p user) (Function.update frame p (frameOf (procStack K'.mem p)))
    (Function.update regs p r)

/-- `CreateUserProcess` on a clean block. -/
theorem Frozen.createUser {entry context : Nat} (h : Frozen X K c frame regs) (hX : X.Separate)
    (hnum : K.numProc ≠ 2 ^ 32 - 1)
    (hclean : Clean X.alloc.toHeap K ⟨c.alive, c.user, fun _ => [], fun _ => []⟩
      (.createUser entry context))
    (hk : createUserProcess X.alloc.toHeap K entry context = some (p, K')) :
    Joined X K K' c frame regs p true (startRegisters entry (userStack K'.mem p + STACK_SIZE)
      0x1B 0x23 (procStack K'.mem p)) := by
  obtain ⟨nodes, queue, live, hl⟩ := h.sound
  obtain ⟨nodes', queue', live', hl'⟩ := hl.createUser hX.area hclean hk
  have hb := createUser_born hl.boxes.holds hk
  obtain ⟨hp, hborn⟩ := h.birth hX rfl rfl hl hl' hb (fun _ hx => hx.elim) hnum rfl
    (show (UInt32.ofNat 0x1B).toUInt16.toNat % 4 = 3 by decide)
  exact ⟨hp, fun q hq => hl.untouched_of_born hb hq,
    fun q hq => hb.agree _ (hl.boxes.procLive q hq), fun x hx _ => hb.outside x hx id,
    hb.pid.trans (Nat.mod_eq_of_lt hl.num), hb.globals, hborn⟩

/-- `CreateKernelProcess` on a clean block. -/
theorem Frozen.createKernel {entry : Nat} (h : Frozen X K c frame regs) (hX : X.Separate)
    (hnum : K.numProc ≠ 2 ^ 32 - 1)
    (hclean : Clean X.alloc.toHeap K ⟨c.alive, c.user, fun _ => [], fun _ => []⟩
      (.createKernel entry))
    (hk : createKernelProcess X.alloc.toHeap X.contexts K entry = some (p, K')) :
    Joined X K K' c frame regs p false (startRegisters entry (procStack K'.mem p + STACK_SIZE)
      0x08 0x10 (procStack K'.mem p)) := by
  obtain ⟨nodes, queue, live, hl⟩ := h.sound
  obtain ⟨nodes', queue', live', hl'⟩ := hl.createKernel hX.area hclean hk
  have hb := createKernel_born hl.boxes.holds hX.area hk
  obtain ⟨hp, hborn⟩ := h.birth hX rfl rfl hl hl' hb (fun _ hx => hx) hnum rfl
    (show (UInt32.ofNat 0x08).toUInt16.toNat % 4 = 0 by decide)
  exact ⟨hp, fun q hq => hl.untouched_of_born hb hq,
    fun q hq => hb.agree _ (hl.boxes.procLive q hq), hb.outside,
    hb.pid.trans (Nat.mod_eq_of_lt hl.num), hb.globals, hborn⟩

/-- **A death.** Nobody is current then. -/
theorem Frozen.death (h : Frozen X K c frame regs) (hX : X.Separate)
    (hcur : K.currentProcess ∈ c.alive)
    (hclean : c.user K.currentProcess = true ∨ userStack K.mem K.currentProcess = NULL)
    (hk : killProcess X.alloc.toHeap X.contexts K K.currentProcess = .ok K') :
    Frozen X { K' with currentProcess := NULL } (c.death K.currentProcess) frame regs := by
  obtain ⟨nodes, queue, live, hl⟩ := h.sound
  obtain ⟨live', hl'⟩ := hl.kill hX.area hcur hclean hk
  obtain ⟨hunt, ⟨m₁, hdestroy, hout⟩, -⟩ := hl.kill_untouched hX.area hcur hclean hk
  have hnodup : c.alive.Nodup := hl.list.chain.nodup
  have hsub : ∀ q ∈ c.alive.erase K.currentProcess, q ∈ c.alive ∧ q ≠ K.currentProcess := by
    intro q hq
    refine ⟨List.mem_of_mem_erase hq, ?_⟩
    rintro rfl
    exact hnodup.not_mem_erase hq
  have htable : ∀ x, X.Table x → K'.mem x = K.mem x := fun x hx =>
    (hout x (hX.table x hx).2.1).trans
      (X.contexts.destroy_keeps hdestroy x (hX.table x hx).2.2)
  refine ⟨⟨nodes, queue, live', ⟨hl'.list, hl'.num, hl'.boxes, hl'.stackLive, hl'.stackNodup,
      hl'.stackOwn, hl'.history⟩⟩, fun q hq => ?_, h.gates.congr (Host.gates_agree htable),
    fun q hq => h.ring q (hsub q hq).1, fun q hq => h.ss q (hsub q hq).1, fun q hq => ?_,
    fun q hq _ => ?_⟩
  · show procPid K'.mem q ≠ _
    rw [(hunt q hq).pid_eq]
    exact h.pids q (hsub q hq).1
  · show SavedFrame K'.mem (procStack K'.mem q) _ _
    rw [(hunt q hq).stack_eq]
    exact (h.saved q (hsub q hq).1).congr (h.frame_agree (hsub q hq).1 (hunt q hq).stack)
  · show procState K'.mem q = _
    rw [(hunt q hq).state_eq]
    exact h.state q (hsub q hq).1 (hsub q hq).2

/-! ## What a process may ask for -/

/-- The process that runs is to end. -/
def Kills (m : Mem) (st : Nat) : Prop :=
  load32 m (st + 44) < 32 ∨ load32 m (st + 44) = 0x30 ∧ load32 m (st + 16) = 2

instance (m : Mem) (st : Nat) : Decidable (Kills m st) := inferInstanceAs (Decidable (_ ∨ _ ∧ _))

/-- The process that runs, with its frame at `st`, may have `x` written to: it is on its stacks
and not in the frame, or neither in the heap nor in the tables nor in the pages of the contexts. -/
def Own (X : Host σ) (K : Kernel σ) (c : Census) (st x : Nat) : Prop :=
  X.alloc.arena x ∨ X.Table x ∨ X.contexts.area x →
    (∃ b ∈ stacksOf (c.user K.currentProcess) K.mem K.currentProcess, b.Has x) ∧
    ¬ (st ≤ x ∧ x < st + 4 * frameLength (if c.user K.currentProcess then 3 else 0))

/-- At `va` the process has a message of its own: wherever the heap and the message itself are
written to, the bytes are mapped to the same places. -/
def OwnMessage (X : Host σ) (K : Kernel σ) (c : Census) (st va : Nat) : Prop :=
  ∃ d : Nat → Nat, (∀ i < sizeofMessage, Own X K c st (d i)) ∧
    ∀ m₁ m₂, HeapOnly X.alloc K.mem m₁ → OnlyAt d sizeofMessage m₁ m₂ →
      pagedir m₁ K.currentContext = K.activeDir ∧
      ∀ i < sizeofMessage, resolve m₂ K.activeDir (va + i) = some (d i)

/-- Only pages have changed: the heap, but for the break of the process that runs, and the tables
are as before. -/
def PagesOnly (X : Host σ) (K K' : Kernel σ) : Prop :=
  K' = { K with mem := K'.mem, frames := K'.frames } ∧
  ∀ x, X.alloc.arena x ∨ X.Table x → x < K.currentProcess + 24 ∨ K.currentProcess + 28 ≤ x →
    K'.mem x = K.mem x

/-- Whatever blocks of the heap are in use, they stay in use, with the bytes they have. There may
be new ones. -/
def BlocksKept (A : Allocator) (m m' : Mem) : Prop :=
  ∀ live, A.Holds m live →
    ∃ new, A.Holds m' (new ++ live) ∧ ∀ b ∈ live, AgreeOn m m' b.addr b.size

/-- A program has been loaded: pages have changed, and blocks of the heap have come and gone. -/
def LoadsPages (X : Host σ) (K K' : Kernel σ) : Prop :=
  K' = { K with mem := K'.mem, frames := K'.frames } ∧ BlocksKept X.alloc K.mem K'.mem ∧
    ∀ x, X.Table x → K'.mem x = K.mem x

/-- A launch makes pages and a context, and perhaps a process of them. -/
def Launches (X : Host σ) (K : Kernel σ) (c : Census) (K' : Kernel σ) : Prop :=
  ∃ K₁, LoadsPages X K K₁ ∧ (K' = K₁ ∨
    ∃ entry context p, K₁.numProc ≠ 2 ^ 32 - 1 ∧
      Clean X.alloc.toHeap K₁ ⟨c.alive, c.user, fun _ => [], fun _ => []⟩
        (.createUser entry context) ∧
      createUserProcess X.alloc.toHeap K₁ entry context = some (p, K'))

/-- The system call in the frame at `st` is one the kernel can bear. -/
def OrderlyCall (X : Host σ) (K : Kernel σ) (c : Census) (st : Nat) : Prop :=
  let ebx := load32 K.mem (st + 20)
  match load32 K.mem (st + 16) with
  | 3 => ebx = NULL ∨ OwnMessage X K c st ebx
  | 4 => ebx = NULL ∨ OwnMessage X K c st ebx
  | 5 => ∀ eax K', X.sbrk K ebx = .ok (eax, K') → PagesOnly X K K'
  | 6 => ebx < NUM_HANDLERS
  | 7 => ebx < NUM_HANDLERS
  | 9 => ∀ K', X.launchElfProgram K ebx = .ok K' → Launches X K c K'
  | _ => True

/-- What happens does not have the kernel destroy its own data: `idle_process` does not end, a
process that ends has a user stack or none, and a system call is one the kernel can bear. -/
structure Orderly (X : Host σ) (K : Kernel σ) (c : Census) (st : Nat) : Prop where
  idle : Kills K.mem st → K.currentProcess ≠ K.idleProcess
  clean : Kills K.mem st →
    c.user K.currentProcess = true ∨ userStack K.mem K.currentProcess = NULL
  call : load32 K.mem (st + 44) = 0x30 → OrderlyCall X K c st

/-- The processes there are when `int_handler` returns. -/
def Census.after (c : Census) (K K' : Kernel σ) (st : Nat) : Census :=
  if Kills K.mem st then c.death K.currentProcess
  else if K'.firstProcess = K.firstProcess then c
  else c.birth K'.firstProcess true

/-! ## One call -/

/-- What a call of `int_handler` does to the pages of the contexts: nothing, or it destroys the
context of a process that ends, or it is a system call that is about pages. -/
inductive PagesStep (X : Host σ) (K : Kernel σ) (st : Nat) (K' : Kernel σ) : Prop
  | kept : ¬ Kills K.mem st → K'.firstProcess = K.firstProcess → AreaKept X.contexts K K' →
      PagesStep X K st K'
  | ends {m : Mem} {frames : σ} : Kills K.mem st →
      X.contexts.destroyContext K.mem K.frames (procContext K.mem K.currentProcess)
        = some (m, frames) →
      AreaKept X.contexts { K with mem := m, frames := frames } K' → PagesStep X K st K'
  | sbrk {eax : Nat} {K₁ : Kernel σ} : ¬ Kills K.mem st → load32 K.mem (st + 44) = 0x30 →
      load32 K.mem (st + 16) = 5 → X.sbrk K (load32 K.mem (st + 20)) = .ok (eax, K₁) →
      K'.firstProcess = K.firstProcess → K'.currentProcess = K.currentProcess →
      AreaKept X.contexts K₁ K' → PagesStep X K st K'
  | launch {K₁ : Kernel σ} : ¬ Kills K.mem st → load32 K.mem (st + 44) = 0x30 →
      load32 K.mem (st + 16) = 9 → X.launchElfProgram K (load32 K.mem (st + 20)) = .ok K₁ →
      K'.firstProcess = K₁.firstProcess → K'.currentProcess = K.currentProcess →
      procContext K'.mem K₁.firstProcess = procContext K₁.mem K₁.firstProcess →
      AreaKept X.contexts K₁ K' → PagesStep X K st K'

/-- From `K` to `K'`, where the kernel leaves through the frame at `cpuNew`, the processes have
made one step. -/
structure Turn (X : Host σ) (K K' : Kernel σ) (c c' : Census) (frame' : Nat → Nat)
    (regs regs' : Nat → Registers) (cpuNew : Nat) : Prop where
  ready : Ready X K' c' frame' regs' cpuNew
  step : VirtualCpus.Step ⟨c.alive, regs, K.currentProcess⟩ ⟨c'.alive, regs', K'.currentProcess⟩
  contexts : ∀ p ∈ c.alive, p ∈ c'.alive → procContext K'.mem p = procContext K.mem p

variable {frame' : Nat → Nat} {regs' : Nat → Registers} {c' : Census} {st cpuNew ticks : Nat}

theorem Turn.setKernelStack (h : Turn X K K' c c' frame' regs regs' st) (hX : X.Separate) :
    Turn X K (setKernelStack X.platform K' st) c c' frame' regs regs' st ∧
      TrapStack X (DayOS.setKernelStack X.platform K' st) regs' := by
  obtain ⟨hready, htrap⟩ := h.ready.setKernelStack hX
  obtain ⟨-, hrec, -⟩ := h.ready.frozen.setKernelStack hX st
  refine ⟨⟨hready, h.step, fun p hp hp' => ?_⟩, htrap⟩
  rw [← h.contexts p hp hp']
  exact load32_congr ((hrec p hp').mono (by omega) (by omega))

theorem Turn.quiet {K₁ : Kernel σ} (h : Turn X K K₁ c c' frame' regs regs' st)
    (hq : Quiet X c' frame' regs' K₁ K') : Turn X K K' c c' frame' regs regs' st := by
  refine ⟨(h.ready.quiet hq).1, ?_, fun p hp hp' => ?_⟩
  · rw [hq.current]
    exact h.step
  · exact (hq.sameContexts p hp').trans (h.contexts p hp hp')

theorem Ready.mem_nonnull (h : Ready X K c frame regs st) : NULL ∉ c.alive := by
  obtain ⟨nodes, queue, live, hl⟩ := h.frozen.sound
  exact fun hmem => hl.list.chain.ne_zero_of_mem hmem rfl

theorem Ready.first_mem (h : Ready X K c frame regs st) : K.firstProcess ∈ c.alive := by
  obtain ⟨nodes, queue, live, hl⟩ := h.frozen.sound
  have hchain : Linked.Chain (procNext K.mem) K.firstProcess c.alive := hl.list.chain
  have hidle := h.idle
  cases halive : c.alive with
  | nil =>
      rw [halive] at hidle
      cases hidle
  | cons p l =>
      rw [halive] at hchain
      rw [hchain.head]
      exact List.mem_cons_self

/-- The process that runs goes on. -/
theorem Ready.stays (h : Ready X K c frame regs st) (hq : Quiet X c frame regs K K') :
    Turn X K K' c c frame regs regs st := by
  refine ⟨(h.quiet hq).1, ?_, fun p hp _ => hq.sameContexts p hp⟩
  rw [hq.current]
  exact .turn h.current

/-- It goes on with an answer. -/
theorem Ready.answers (h : Ready X K c frame regs st) (hX : X.Separate)
    (hq : Quiet X c frame regs K K') (v : Nat) :
    Turn X K (answer K' st v) c c frame regs (Function.update regs K.currentProcess
      { regs K.currentProcess with eax := UInt32.ofNat v }) st := by
  have h' := (h.quiet hq).1
  have hcur' : K'.currentProcess = K.currentProcess := hq.current
  have hanswer := h'.frozen.answer hX h'.current v
  have hcontext : ∀ q ∈ c.alive, procContext (answer K' st v).mem q = procContext K'.mem q := by
    intro q hq
    rw [h'.cpu]
    exact load32_congr ((h'.frozen.answer_record h'.current hq v).mono (by omega) (by omega))
  rw [← h'.cpu, hcur'] at hanswer
  refine ⟨⟨hanswer, hcur' ▸ h.current, h'.idle, hcur' ▸ h.cpu, ?_⟩, ?_, fun q hmem _ => ?_⟩
  · show K'.currentContext = procContext (answer K' st v).mem K'.currentProcess
    rw [h'.context, hcontext _ h'.current]
  · show VirtualCpus.Step _ ⟨c.alive, _, K'.currentProcess⟩
    rw [hcur']
    exact .run _
  · exact (hcontext q hmem).trans (hq.sameContexts q hmem)

/-- The frame is off the pages of the contexts. -/
theorem Ready.answer_area (h : Ready X K c frame regs st) (hX : X.Separate)
    (hq : Quiet X c frame regs K K') (v : Nat) : AreaKept X.contexts K' (answer K' st v) := by
  have h' := (h.quiet hq).1
  rw [h'.cpu]
  exact h'.frozen.answer_area hX h'.current v

/-- It gives the turn away. -/
theorem Ready.yields {K₁ : Kernel σ} (h : Ready X K c frame regs st) (hX : X.Separate)
    (hq : Quiet X c frame regs K K₁) (harea : AreaKept X.contexts K K₁)
    (hs : schedule K₁ ticks st = .ok (cpuNew, K')) :
    Turn X K K' c c frame regs regs cpuNew ∧ K'.firstProcess = K.firstProcess ∧
      AreaKept X.contexts K K' := by
  have h' := (h.quiet hq).1
  obtain ⟨hready, hfirst, hcontexts, harea'⟩ :=
    h'.frozen.schedule hX (Or.inr h'.current) (fun _ => h'.cpu) h'.idle hs
  exact ⟨⟨hready, .turn hready.current, fun p hp _ =>
    (hcontexts p hp).trans (hq.sameContexts p hp)⟩, hfirst.trans hq.first, harea.trans harea'⟩

/-- It ends. -/
theorem Ready.exits (h : Ready X K c frame regs st) (hX : X.Separate)
    (hidle : K.currentProcess ≠ K.idleProcess)
    (hclean : c.user K.currentProcess = true ∨ userStack K.mem K.currentProcess = NULL)
    (hk : killCurrentProcess X.alloc.toHeap X.contexts K ticks = .ok (cpuNew, K')) :
    Turn X K K' c (c.death K.currentProcess) frame regs regs cpuNew ∧ ∃ m frames,
      X.contexts.destroyContext K.mem K.frames (procContext K.mem K.currentProcess)
        = some (m, frames) ∧ AreaKept X.contexts { K with mem := m, frames := frames } K' := by
  obtain ⟨nodes, queue, live, hl⟩ := h.frozen.sound
  obtain ⟨K₁, hkill, hs⟩ := bind_eq_ok.mp hk
  have hdead := h.frozen.death hX h.current hclean hkill
  obtain ⟨hunt, ⟨m, hdestroy, hout⟩, hK⟩ := hl.kill_untouched hX.area h.current hclean hkill
  have hidle' : K₁.idleProcess ∈ (c.death K.currentProcess).alive := by
    rw [hK]
    exact (List.mem_erase_of_ne hidle.symm).mpr h.idle
  have hnull : NULL ∉ (c.death K.currentProcess).alive := fun hmem =>
    h.mem_nonnull (List.mem_of_mem_erase hmem)
  obtain ⟨hready, -, hcontexts, harea⟩ :=
    hdead.schedule hX (Or.inl rfl) (fun hmem => absurd hmem hnull) hidle' hs
  have hkilled : AreaKept X.contexts { K with mem := m, frames := K₁.frames } K₁ :=
    ⟨rfl, fun x hx => hout x (fun ha => hX.area x ha hx)⟩
  refine ⟨⟨hready, .death (List.mem_of_mem_erase hready.current) (fun hsame => ?_),
    fun p _ hp => (hcontexts p hp).trans (hunt p hp).context_eq⟩, m, K₁.frames, hdestroy,
    harea.frames.trans hkilled.frames, fun x hx => (harea.area x hx).trans (hkilled.area x hx)⟩
  have hrun : K'.currentProcess = K.currentProcess := hsame
  have hmem := hready.current
  rw [hrun] at hmem
  exact hl.list.chain.nodup.not_mem_erase hmem

/-! ## System calls -/

theorem returning_eq_ok {α : Type} {x : Option α} {a : α} : returning x = .ok a ↔ x = some a := by
  cases x <;> simp [returning]

theorem Frozen.pagesOnly (h : Frozen X K c frame regs) (hX : X.Separate)
    (hcur : K.currentProcess ∈ c.alive) (hp : PagesOnly X K K') : Quiet X c frame regs K K' := by
  obtain ⟨hK, hmem⟩ := hp
  have htable : ∀ x, X.Table x → K'.mem x = K.mem x := by
    intro x hx
    refine hmem x (Or.inr hx) ?_
    by_contra hcon
    exact (hX.table x hx).2.1 (h.sound.record_off hcur hcur (x := x) (by omega) (by omega)).1
  refine h.quiet_of_fields (fun x hx hfield => hmem x (Or.inl hx) ?_) (Host.gates_agree htable)
    (Host.tss_agree htable) hK
  have := hfield _ hcur
  omega

/-- Nothing happens in the heap. -/
theorem BlocksKept.of_agree {A : Allocator} {m m' : Mem} (h : ∀ x, A.arena x → m' x = m x) :
    BlocksKept A m m' := by
  intro live hholds
  refine ⟨[], A.write hholds (fun x hx _ => h x hx), fun b hb x hx hx' => h x ?_⟩
  exact (A.inArena hholds b hb).2 x ⟨hx, hx'⟩

theorem BlocksKept.trans {A : Allocator} {m m₁ m' : Mem} (h : BlocksKept A m m₁)
    (h' : BlocksKept A m₁ m') : BlocksKept A m m' := by
  intro live hholds
  obtain ⟨new, hholds₁, hsame⟩ := h live hholds
  obtain ⟨new', hholds', hsame'⟩ := h' _ hholds₁
  refine ⟨new' ++ new, by rwa [List.append_assoc], fun b hb => ?_⟩
  exact (hsame b hb).trans (hsame' b (List.mem_append_right new hb))

/-- Nothing of a process is outside the blocks in use. -/
theorem Lived.blocksKept {A : Allocator} {V : Contexts σ} {g : Lives} {nodes : Nat → List Nat}
    {queue : Nat → List Message} {live : List Block} {m' : Mem}
    (h : Lived A V K g nodes queue live) (hk : BlocksKept A K.mem m') :
    (∃ live', Lived A V { K with mem := m' } g nodes queue live') ∧
      ∀ p ∈ g.alive, AgreeOn K.mem m' p 52 ∧ Untouched K.mem m' p := by
  obtain ⟨new, hholds, hblock⟩ := hk live h.boxes.holds
  have hmem : ∀ b ∈ live, b ∈ new ++ live := fun b hb => List.mem_append_right new hb
  have hrec : ∀ p ∈ g.alive, AgreeOn K.mem m' p 52 := fun p hp =>
    hblock _ (h.boxes.procLive p hp)
  constructor
  · refine ⟨new ++ live, h.of_keep (fun p hp a ha ha' _ => hrec p hp a ha ha')
      (h.boxes.keep (fun _ => id) hholds (fun p hp => ⟨hmem _ (h.boxes.procLive p hp), ?_⟩)
        (fun p hp n hn => ⟨hmem _ (h.boxes.nodeLive p hp n hn), ?_⟩))
      (fun p hp b hb => hmem b (h.stackLive p hp b hb)) h.history⟩
    · exact (hrec p hp).mono (by omega) (by omega)
    · exact hblock _ (h.boxes.nodeLive p hp n hn)
  · intro p hp
    refine ⟨hrec p hp, (hrec p hp).mono (by omega) (by omega),
      (hrec p hp).mono (by omega) (by omega), ?_⟩
    exact hblock _ (h.stackLive p hp _ (stack_mem_stacksOf _ _ _))

theorem Frozen.loadsPages (h : Frozen X K c frame regs) (hl : LoadsPages X K K') :
    Quiet X c frame regs K K' := by
  obtain ⟨hK, hkept, htable⟩ := hl
  obtain ⟨nodes, queue, live, hl⟩ := h.sound
  obtain ⟨⟨live', hl'⟩, hrec⟩ := hl.blocksKept hkept
  have hq := h.quiet_of_untouched (Sound.of_lived hl') (fun p hp => (hrec p hp).2) htable
  rw [hK]
  obtain ⟨nodes', queue', live', hs⟩ := hq.sound
  exact ⟨⟨nodes', queue', live', hs.list, hs.num, hs.boxes, hs.stackLive, hs.stackNodup,
    hs.stackOwn, hs.history⟩, hq.record, hq.words, hq.saved, hq.gates, hq.tss, rfl, rfl, rfl, rfl⟩

/-- Storing a message of its own back. -/
theorem Ready.puts {K₁ : Kernel σ} {va : Nat} {msg : Message} (h : Ready X K c frame regs st)
    (hX : X.Separate) (hq : Quiet X c frame regs K K₁) (hheap : HeapOnly X.alloc K.mem K₁.mem)
    (hframes : K₁.frames = K.frames) (hown : OwnMessage X K c st va)
    (hput : putUserMessage K₁ va msg = some K') :
    Quiet X c frame regs K K' ∧ AreaKept X.contexts K K' := by
  obtain ⟨d, hd, hmap⟩ := hown
  obtain ⟨m, hstore, rfl⟩ := Option.map_eq_some_iff.mp hput
  have hdir : K₁.activeDir = K.activeDir := by
    rw [Kernel.activeDir, hq.context]
    exact (hmap K₁.mem K₁.mem hheap (OnlyAt.refl _ _ _)).1
  rw [hdir] at hstore
  have honly := storeAt_only (fun i hi m' hm' => (hmap K₁.mem m' hheap hm').2 i hi) hstore
  have hstacks : stacksOf (c.user K.currentProcess) K₁.mem K.currentProcess
      = stacksOf (c.user K.currentProcess) K.mem K.currentProcess :=
    stacksOf_congr (hq.words _ h.current)
  refine ⟨hq.trans ((h.frozen.quiet hq).harmless hX h.current (fun x hx hoff => ?_)), hframes,
    fun x hx => ?_⟩
  · refine honly x (fun i hi hix => ?_)
    subst hix
    obtain ⟨⟨b, hb, hbx⟩, hframe⟩ := hd i hi (hx.imp id Or.inl)
    rw [h.cpu, ← h.frozen.ring _ h.current] at hframe
    rcases hoff with hoff | hoff
    · exact hoff b (hstacks ▸ hb) hbx
    · exact hframe hoff
  · refine (honly x (fun i hi hix => ?_)).trans (hheap.area hX hx)
    subst hix
    -- what is on its stacks is in the heap
    obtain ⟨⟨b, hb, hbx⟩, -⟩ := hd i hi (Or.inr (Or.inr hx))
    obtain ⟨nodes, queue, live, hl⟩ := h.frozen.sound
    have hin := (X.alloc.inArena hl.boxes.holds b (hl.stackLive _ h.current b hb)).2 _ hbx
    exact hX.area _ hin hx

theorem putUserMessage_of_elim {out : Option Message} {va : Nat}
    (h : out.elim none (putUserMessage K va) = some K') :
    ∃ msg, putUserMessage K va msg = some K' := by
  cases out with
  | none => cases h
  | some msg =>
      rw [Option.elim_some] at h
      exact ⟨msg, h⟩

/-- `send_message`. -/
theorem Ready.sends {ebx eax : Nat} (h : Ready X K c frame regs st) (hX : X.Separate)
    (hown : ebx = NULL ∨ OwnMessage X K c st ebx)
    (hk : sendFrom X.alloc.toHeap K ebx = .ok (eax, K')) :
    Quiet X c frame regs K K' ∧ AreaKept X.contexts K K' := by
  unfold sendFrom at hk
  split at hk
  case isTrue =>
      cases hk
      exact ⟨Quiet.refl h.frozen.sound, .refl _ _⟩
  case isFalse hne =>
      have hown := hown.resolve_left hne
      obtain ⟨msg, -, hk⟩ := bind_eq_ok.mp hk
      obtain ⟨⟨ret, out, K₁⟩, hsend, hk⟩ := bind_eq_ok.mp hk
      obtain ⟨K₂, hput, hk⟩ := bind_eq_ok.mp hk
      cases hk
      rw [returning_eq_ok] at hsend hput
      simp only [sendMessageCall, Option.bind_eq_bind, Option.bind_eq_some_iff] at hsend
      obtain ⟨proc, hproc, ⟨ret', out', m'⟩, hksend, hsend⟩ := hsend
      cases hsend
      obtain ⟨nodes, queue, live, hl⟩ := h.frozen.sound
      obtain ⟨q, hq, hmem⟩ := hl.list.getProcessByPid msg.receiver.toNat
      rw [hq] at hproc
      cases hproc
      obtain ⟨hquiet, hheap⟩ := h.frozen.send hX h.current (hmem.imp And.left And.left) hksend
      obtain ⟨msg', hput⟩ := putUserMessage_of_elim hput
      exact h.puts hX hquiet hheap rfl hown hput

/-- `receive_message`. -/
theorem Ready.receives {ebx eax : Nat} {who : UInt32} (h : Ready X K c frame regs st)
    (hX : X.Separate) (hown : ebx = NULL ∨ OwnMessage X K c st ebx)
    (hk : receiveInto X.alloc.toHeap K ebx who = .ok (eax, K')) :
    Quiet X c frame regs K K' ∧ AreaKept X.contexts K K' := by
  unfold receiveInto at hk
  split at hk
  case isTrue =>
      cases hk
      exact ⟨Quiet.refl h.frozen.sound, .refl _ _⟩
  case isFalse hne =>
      have hown := hown.resolve_left hne
      obtain ⟨msg, -, hk⟩ := bind_eq_ok.mp hk
      obtain ⟨⟨ret, out, K₁⟩, hreceive, hk⟩ := bind_eq_ok.mp hk
      obtain ⟨K₂, hput, hk⟩ := bind_eq_ok.mp hk
      cases hk
      rw [returning_eq_ok] at hreceive hput
      simp only [receiveMessageCall, Option.bind_eq_bind, Option.bind_eq_some_iff] at hreceive
      obtain ⟨⟨ret', out', m'⟩, hkreceive, hreceive⟩ := hreceive
      cases hreceive
      obtain ⟨hquiet, hheap⟩ := h.frozen.receive hX h.current hkreceive
      obtain ⟨msg', hput⟩ := putUserMessage_of_elim hput
      exact h.puts hX hquiet hheap rfl hown hput

/-- The stores of `set_timer`. -/
theorem Ready.setTimer (h : Ready X K c frame regs st) (hX : X.Separate) (ticks time : Nat) :
    Quiet X c frame regs K { K with
      mem := store8 (store32 K.mem (K.currentProcess + 36) (ticks + time)) (K.currentProcess + 40)
        PROCESS_SLEEPING } ∧
    AreaKept X.contexts K { K with
      mem := store8 (store32 K.mem (K.currentProcess + 36) (ticks + time)) (K.currentProcess + 40)
        PROCESS_SLEEPING } := by
  have hmem : ∀ x, x < K.currentProcess + 36 ∨ K.currentProcess + 41 ≤ x →
      store8 (store32 K.mem (K.currentProcess + 36) (ticks + time)) (K.currentProcess + 40)
        PROCESS_SLEEPING x = K.mem x := by
    intro x hx
    rw [store8_of_ne (by omega), store32_of_outside (by omega)]
  have hout : ∀ x, ¬ X.alloc.arena x → store8 (store32 K.mem (K.currentProcess + 36) (ticks + time))
      (K.currentProcess + 40) PROCESS_SLEEPING x = K.mem x := by
    intro x hx
    refine hmem x ?_
    by_contra hcon
    exact hx (h.frozen.sound.record_off h.current h.current (x := x) (by omega) (by omega)).1
  have htable := fun x hx => hout x (hX.table x hx).2.1
  refine ⟨h.frozen.quiet_of_fields (fun x _ hfield => hmem x ?_) (Host.gates_agree htable)
    (Host.tss_agree htable) rfl, rfl, fun x hx => hout x (fun ha => hX.area x ha hx)⟩
  have := hfield _ h.current
  omega

/-- `launch_elf_program`. -/
theorem Ready.launches (h : Ready X K c frame regs st) (hX : X.Separate)
    (hlaunch : Launches X K c K') : ∃ frame' regs',
    Turn X K K' c (if K'.firstProcess = K.firstProcess then c else c.birth K'.firstProcess true)
      frame' regs regs' st ∧ K'.currentProcess = K.currentProcess := by
  obtain ⟨K₁, hpages, hlaunch⟩ := hlaunch
  have hq := h.frozen.loadsPages hpages
  have hfirst := hq.first
  rcases hlaunch with rfl | ⟨entry, context, p, hnum, hclean, hcreate⟩
  · rw [if_pos hfirst]
    exact ⟨frame, regs, h.stays hq, hq.current⟩
  · have h₁ := (h.quiet hq).1
    have hjoined := h₁.frozen.createUser hX hnum hclean hcreate
    have hp := hjoined.fresh
    have hcur : K'.currentProcess = K₁.currentProcess := by rw [hjoined.globals]
    have hctx : K'.currentContext = K₁.currentContext := by rw [hjoined.globals]
    have hidle : K'.idleProcess = K₁.idleProcess := by rw [hjoined.globals]
    have hnew : K'.firstProcess = p := by rw [hjoined.globals]
    have hne : p ≠ K.firstProcess := by
      rintro rfl
      exact hp (hfirst ▸ h₁.first_mem)
    rw [hnew, if_neg hne]
    refine ⟨_, _, ⟨⟨hjoined.frozen, ?_, ?_, ?_, ?_⟩, ?_, fun q hmem _ => ?_⟩, hcur.trans hq.current⟩
    · rw [hcur]
      exact List.mem_cons_of_mem _ h₁.current
    · rw [hidle]
      exact List.mem_cons_of_mem _ h₁.idle
    · have hcp : K₁.currentProcess ≠ p := fun he => hp (he ▸ h₁.current)
      rw [hcur, Function.update_of_ne hcp]
      exact h₁.cpu
    · rw [hcur, hctx, (hjoined.others _ h₁.current).context_eq]
      exact h₁.context
    · rw [hcur, hq.current]
      exact .birth _ hp
    · exact (hjoined.others q hmem).context_eq.trans (hq.sameContexts q hmem)

/-! ## `int_handler` -/

theorem Census.after_same (hkills : ¬ Kills K.mem st) (hfirst : K'.firstProcess = K.firstProcess) :
    c.after K K' st = c := by
  rw [Census.after, if_neg hkills, if_pos hfirst]

/-- The processes make a step, and so do the pages. -/
def Advances (X : Host σ) (K K' : Kernel σ) (c : Census) (regs : Nat → Registers) (st cpuNew : Nat) :
    Prop :=
  (∃ frame' regs', Turn X K K' c (c.after K K' st) frame' regs regs' cpuNew) ∧ PagesStep X K st K'

/-- A call with an answer and no more. -/
theorem Ready.answered (h : Ready X K c frame regs st) (hX : X.Separate)
    (hkills : ¬ Kills K.mem st) (hq : Quiet X c frame regs K K') (harea : AreaKept X.contexts K K')
    (v : Nat) : Advances X K (answer K' st v) c regs st st := by
  have hfirst : (answer K' st v).firstProcess = K.firstProcess := hq.first
  have hanswer := h.answer_area hX hq v
  unfold Advances
  rw [Census.after_same hkills hfirst]
  exact ⟨⟨frame, _, h.answers hX hq v⟩, .kept hkills hfirst (harea.trans hanswer)⟩

/-- A call without. -/
theorem Ready.stayed (h : Ready X K c frame regs st) (hkills : ¬ Kills K.mem st)
    (hq : Quiet X c frame regs K K') (harea : AreaKept X.contexts K K') :
    Advances X K K' c regs st st := by
  unfold Advances
  rw [Census.after_same hkills hq.first]
  exact ⟨⟨frame, regs, h.stays hq⟩, .kept hkills hq.first harea⟩

/-- The end of the process that runs. -/
theorem Ready.ended (h : Ready X K c frame regs st) (hX : X.Separate) (ho : Orderly X K c st)
    (hends : Kills K.mem st)
    (hk : killCurrentProcess X.alloc.toHeap X.contexts K ticks = .ok (cpuNew, K')) :
    Advances X K K' c regs st cpuNew := by
  obtain ⟨hturn, m, frames, hdestroy, harea⟩ := h.exits hX (ho.idle hends) (ho.clean hends) hk
  unfold Advances
  rw [Census.after, if_pos hends]
  exact ⟨⟨frame, regs, hturn⟩, .ends hends hdestroy harea⟩

/-- **A system call.** -/
theorem syscall_turn {S S' : System σ} (h : Ready X S.kernel c frame regs st) (hX : X.Separate)
    (ho : Orderly X S.kernel c st) (hintr : load32 S.kernel.mem (st + 44) = 0x30)
    (hk : syscall X.platform S st = .ok (cpuNew, S')) :
    Advances X S.kernel S'.kernel c regs st cpuNew := by
  have hkills : load32 S.kernel.mem (st + 16) ≠ 2 → ¬ Kills S.kernel.mem st := by
    rintro heax (hlt | ⟨-, h2⟩)
    · omega
    · exact heax h2
  have hrefl : Quiet X c frame regs S.kernel S.kernel := Quiet.refl h.frozen.sound
  have hcall := ho.call hintr
  unfold OrderlyCall at hcall
  dsimp only [syscall] at hk
  split at hk
  case h_1 heax =>
      cases hk
      exact h.stayed (hkills (by omega)) hrefl (.refl _ _)
  case h_2 heax =>
      obtain ⟨⟨cpu, K₁⟩, hkill, hk⟩ := bind_eq_ok.mp hk
      cases hk
      have hended := h.ended hX ho (Or.inr ⟨hintr, heax⟩) hkill
      exact hended
  case h_3 heax =>
      simp only [heax] at hcall
      obtain ⟨⟨eax, K₁⟩, hsend, hk⟩ := bind_eq_ok.mp hk
      cases hk
      obtain ⟨hq, harea⟩ : Quiet X c frame regs S.kernel K₁ ∧ AreaKept X.contexts S.kernel K₁ :=
        h.sends hX hcall hsend
      exact h.answered hX (hkills (by omega)) hq harea eax
  case h_4 heax =>
      simp only [heax] at hcall
      obtain ⟨⟨eax, K₁⟩, hreceive, hk⟩ := bind_eq_ok.mp hk
      cases hk
      obtain ⟨hq, harea⟩ : Quiet X c frame regs S.kernel K₁ ∧ AreaKept X.contexts S.kernel K₁ :=
        h.receives hX hcall hreceive
      exact h.answered hX (hkills (by omega)) hq harea eax
  case h_5 heax =>
      simp only [heax] at hcall
      obtain ⟨⟨eax, K₁⟩, hsbrk, hk⟩ := bind_eq_ok.mp hk
      cases hk
      have hq := h.frozen.pagesOnly hX h.current (hcall eax K₁ hsbrk)
      have hfirst : (answer K₁ st eax).firstProcess = S.kernel.firstProcess := hq.first
      unfold Advances
      rw [Census.after_same (hkills (by omega)) hfirst]
      exact ⟨⟨frame, _, h.answers hX hq eax⟩, .sbrk (hkills (by omega)) hintr heax hsbrk hq.first
        hq.current (h.answer_area hX hq eax)⟩
  case h_6 heax =>
      simp only [heax] at hcall
      cases hk
      obtain ⟨hq, harea⟩ := (h.frozen.registerIrq hX hcall).1
      exact h.stayed (hkills (by omega)) hq harea
  case h_7 heax =>
      simp only [heax] at hcall
      cases hk
      obtain ⟨hq, harea⟩ := (h.frozen.registerIrq hX hcall).2
      exact h.stayed (hkills (by omega)) hq harea
  case h_8 heax =>
      obtain ⟨⟨cpu, K₁⟩, htimer, hk⟩ := bind_eq_ok.mp hk
      cases hk
      obtain ⟨hq, harea⟩ := h.setTimer hX S.tickCount (load32 S.kernel.mem (st + 20))
      obtain ⟨hturn, hfirst, harea'⟩ := h.yields hX hq harea htimer
      unfold Advances
      rw [Census.after_same (hkills (by omega)) hfirst]
      exact ⟨⟨frame, regs, hturn⟩, .kept (hkills (by omega)) hfirst harea'⟩
  case h_9 heax =>
      simp only [heax] at hcall
      obtain ⟨K₁, hlaunch, hk⟩ := bind_eq_ok.mp hk
      cases hk
      obtain ⟨frame', regs', hturn, hcur⟩ := h.launches hX (hcall K₁ hlaunch)
      unfold Advances
      rw [Census.after, if_neg (hkills (by omega))]
      exact ⟨⟨frame', regs', hturn⟩, .launch (hkills (by omega)) hintr heax hlaunch rfl hcur rfl
        (.refl _ _)⟩
  case h_10 =>
      cases hk
      exact h.stayed (hkills (by assumption)) hrefl (.refl _ _)

/-- One step of the processes, after which the stack for the next trap is the right one, and one of
the pages. -/
def Turns (X : Host σ) (K K' : Kernel σ) (c : Census) (regs : Nat → Registers) (st cpuNew : Nat) :
    Prop :=
  (∃ frame' regs', Turn X K K' c (c.after K K' st) frame' regs regs' cpuNew ∧
    TrapStack X K' regs') ∧ PagesStep X K st K'

/-- The kernel sets the stack for the next trap last. -/
theorem Turns.of_setKernelStack (hX : X.Separate) (h : Advances X K K' c regs st cpuNew) :
    Turns X K (setKernelStack X.platform K' cpuNew) c regs st cpuNew := by
  obtain ⟨⟨frame', regs', hturn⟩, hpages⟩ := h
  have harea := setKernelStack_area hX K' cpuNew
  obtain ⟨-, hrec, -⟩ := hturn.ready.frozen.setKernelStack hX cpuNew
  refine ⟨⟨frame', regs', hturn.setKernelStack hX⟩, ?_⟩
  cases hpages with
  | kept hkills hfirst hkept => exact .kept hkills hfirst (hkept.trans harea)
  | ends hends hdestroy hkept => exact .ends hends hdestroy (hkept.trans harea)
  | sbrk hkills hintr heax hsbrk hfirst hcur hkept =>
      exact .sbrk hkills hintr heax hsbrk hfirst hcur (hkept.trans harea)
  | launch hkills hintr heax hlaunch hfirst hcur hcontext hkept =>
      refine .launch hkills hintr heax hlaunch hfirst hcur ?_ (hkept.trans harea)
      have hmem := hturn.ready.first_mem
      rw [hfirst] at hmem
      rw [← hcontext]
      exact load32_congr ((hrec _ hmem).mono (by omega) (by omega))

variable {S S' : System σ} {stale : Message}

theorem exceptionEntry_turns (h : Ready X S.kernel c frame regs st) (hX : X.Separate)
    (ho : Orderly X S.kernel c st) (hintr : load32 S.kernel.mem (st + 44) < 32)
    (hk : exceptionEntry X.platform S = .ok (cpuNew, S')) :
    Turns X S.kernel S'.kernel c regs st cpuNew := by
  obtain ⟨⟨cpu, K₁⟩, hbranch, hk⟩ := bind_eq_ok.mp hk
  cases hk
  unfold exceptionBranch at hbranch
  split at hbranch
  case isTrue => cases hbranch
  case isFalse => exact Turns.of_setKernelStack hX (h.ended hX ho (Or.inl hintr) hbranch)

/-- What the timer does, on its line or not. -/
theorem timerEntry_turns {intr : Nat} (h : Ready X S.kernel c frame regs st) (hX : X.Separate)
    (htrap : TrapStack X S.kernel regs)
    (hk : timerEntry X.platform S st intr = .ok (cpuNew, S')) :
    Turn X S.kernel S'.kernel c c frame regs regs cpuNew ∧ TrapStack X S'.kernel regs ∧
      S'.kernel.firstProcess = S.kernel.firstProcess ∧
      AreaKept X.contexts S.kernel S'.kernel := by
  obtain ⟨⟨cpu, K₁⟩, hswitch, hk⟩ := bind_eq_ok.mp hk
  have hrefl : Quiet X c frame regs S.kernel S.kernel := Quiet.refl h.frozen.sound
  unfold irqSwitch at hswitch
  by_cases htimer : intr = 0x20
  · rw [if_pos htimer] at hswitch
    dsimp only at hk
    rw [if_pos htimer] at hk
    cases hk
    obtain ⟨hturn, hfirst, harea⟩ := h.yields hX hrefl (.refl _ _) hswitch
    obtain ⟨hturn', htrap'⟩ := hturn.setKernelStack hX
    exact ⟨hturn', htrap', hfirst, harea.trans (setKernelStack_area hX K₁ cpuNew)⟩
  · rw [if_neg htimer] at hswitch
    dsimp only at hk
    rw [if_neg htimer] at hk
    cases hswitch
    cases hk
    exact ⟨h.stays hrefl, htrap, rfl, .refl _ _⟩

theorem lineEntry_turns {intr : Nat} (h : Ready X S.kernel c frame regs st) (hX : X.Separate)
    (htrap : TrapStack X S.kernel regs) (hkills : ¬ Kills S.kernel.mem st)
    (hk : lineEntry X.platform S stale st intr = .ok (cpuNew, S')) :
    Turns X S.kernel S'.kernel c regs st cpuNew := by
  obtain ⟨⟨cpu, S₁⟩, htimer, hk⟩ := bind_eq_ok.mp hk
  obtain ⟨K₂, hmessage, hk⟩ := bind_eq_ok.mp hk
  cases hk
  obtain ⟨hturn, htrap', hfirst, harea⟩ := timerEntry_turns h hX htrap htimer
  obtain ⟨hq, harea'⟩ := hturn.ready.frozen.irqMessage hX hturn.ready.current hmessage
  have hsame : K₂.firstProcess = S.kernel.firstProcess := hq.first.trans hfirst
  refine ⟨⟨frame, regs, ?_, (hturn.ready.quiet hq).2 htrap'⟩, .kept hkills hsame (harea.trans harea')⟩
  rw [Census.after_same hkills hsame]
  exact hturn.quiet hq

/-- **One call of `int_handler` is one step of the processes.** -/
theorem intHandler_turns (h : Ready X S.kernel c frame regs st) (hX : X.Separate)
    (htrap : TrapStack X S.kernel regs) (ho : Orderly X S.kernel c st)
    (hk : intHandler X.platform S stale st = .ok (cpuNew, S')) :
    Turns X S.kernel S'.kernel c regs st cpuNew := by
  dsimp only [intHandler] at hk
  split at hk
  case isTrue hexc =>
      obtain ⟨⟨cpu, S₁⟩, hentry, hk⟩ := bind_eq_ok.mp hk
      cases hk
      have hturns := exceptionEntry_turns h hX ho hexc hentry
      exact hturns
  case isFalse hexc =>
  split at hk
  case isTrue hline =>
      obtain ⟨⟨cpu, S₁⟩, hentry, hk⟩ := bind_eq_ok.mp hk
      cases hk
      have hkills : ¬ Kills S.kernel.mem st := by
        rintro (hlt | ⟨h48, -⟩) <;> omega
      have hturns := lineEntry_turns h hX htrap hkills hentry
      exact hturns
  case isFalse =>
  split at hk
  case isTrue hcall =>
      obtain ⟨⟨cpu, S₁⟩, hentry, hk⟩ := bind_eq_ok.mp hk
      cases hk
      obtain ⟨⟨cpu₁, S₂⟩, hsyscall, hentry⟩ := bind_eq_ok.mp hentry
      cases hentry
      exact Turns.of_setKernelStack hX
        (syscall_turn (S := { S with kernelMode := true }) h hX ho hcall hsyscall)
  case isFalse =>
      rw [bind_of_error rfl] at hk
      cases hk

end

end DayOS
