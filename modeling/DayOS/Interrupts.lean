import DayOS.MailboxRun
import DayOS.Schedule

set_option autoImplicit false

/-! # Interrupts and system calls (`idt.c`, `syscall.c`)

`irqHandlers` holds, for each interrupt line, the pid of the process that handles it, or `0`.
The table is part of the kernel image, at an address that is a parameter here. Neither function
that writes to it compares the line with its length.

The cases of `Syscall` are functions of their own. The registers they read are arguments, and
what they leave in `eax` is a result.
-/

namespace DayOS

open ByteMemory Linked

/-! ## The table of handlers -/

def NUM_HANDLERS : Nat := 48

/-- Where `irqHandlers[irqno]` lies. -/
def irqSlot (irqHandlers irqno : Nat) : Nat := (irqHandlers + 4 * irqno) % 2 ^ 32

/-- `irqHandlers[irqno]`. -/
def irqHandler (irqHandlers : Nat) (m : Mem) (irqno : Nat) : Nat :=
  load32 m (irqSlot irqHandlers irqno)

/-- `registerHandlerProcess`. -/
def registerHandlerProcess (irqHandlers : Nat) (m : Mem) (irqno pid : Nat) : Nat × Mem :=
  if irqHandler irqHandlers m irqno ≠ 0 then (0, m)
  else (1, store32 m (irqSlot irqHandlers irqno) pid)

/-- `resetHandlerProcess`. -/
def resetHandlerProcess (irqHandlers : Nat) (m : Mem) (irqno pid : Nat) : Nat × Mem :=
  if irqHandler irqHandlers m irqno = pid then (1, store32 m (irqSlot irqHandlers irqno) 0)
  else (0, m)

/-! ## System calls -/

section
variable {σ : Type}

/-- `send_message`. The receiver is looked up before the null check, which reads page 0 for a
null pointer and changes nothing. -/
def sendMessageCall (H : Heap) (K : Kernel σ) (msg : Option Message) :
    Option (Nat × Option Message × Kernel σ) := do
  match msg with
  | none => return (MESSAGE_ERR_SEND, none, K)
  | some msg =>
      let proc ← getProcessByPid K msg.receiver.toNat
      let (ret, msg, m) ← ksendMessage H K.mem K.currentProcess proc (some msg)
      return (ret, msg, { K with mem := m })

/-- `receive_message`. -/
def receiveMessageCall (H : Heap) (K : Kernel σ) (msg : Option Message) (who : UInt32) :
    Option (Nat × Option Message × Kernel σ) := do
  let (ret, msg, m) ← kreceiveMessage H K.mem K.currentProcess msg who
  return (ret, msg, { K with mem := m })

/-- `register_irq`. -/
def registerIrqCall (irqHandlers : Nat) (K : Kernel σ) (irqno : Nat) : Kernel σ :=
  if procUid K.mem K.currentProcess ≠ ROOT_UID then K
  else { K with mem :=
    (registerHandlerProcess irqHandlers K.mem irqno (procPid K.mem K.currentProcess)).2 }

/-- The call that takes `register_irq` back. -/
def resetIrqCall (irqHandlers : Nat) (K : Kernel σ) (irqno : Nat) : Kernel σ :=
  if procUid K.mem K.currentProcess ≠ ROOT_UID then K
  else { K with mem :=
    (resetHandlerProcess irqHandlers K.mem irqno (procPid K.mem K.currentProcess)).2 }

/-- `set_timer`. -/
def setTimerCall (K : Kernel σ) (ticks time cpuOld : Nat) : Except Fault (Nat × Kernel σ) :=
  let m := store32 K.mem (K.currentProcess + 36) (ticks + time)
  let m := store8 m (K.currentProcess + 40) PROCESS_SLEEPING
  schedule { K with mem := m } ticks cpuOld

/-! ## Interrupts -/

/-- The first half of the IRQ branch of `int_handler`: the timer switches processes. -/
def irqSwitch (K : Kernel σ) (ticks cpuOld intr : Nat) : Except Fault (Nat × Kernel σ) :=
  if intr = 0x20 then schedule K ((ticks + 1) % 2 ^ 32) cpuOld else .ok (cpuOld, K)

/-- The second half: the process that handles the line gets a message, whose sender is
`current_process`. The message is a local variable; `stale` is what it held before. -/
def irqMessage (irqHandlers : Nat) (H : Heap) (K : Kernel σ) (intr : Nat) (stale : Message) :
    Except Fault (Kernel σ) :=
  let msg := { stale with signal := UInt32.ofNat intr }
  if irqHandler irqHandlers K.mem intr > 0 then
    match getProcessByPid K (irqHandler irqHandlers K.mem intr) with
    | none => .error .endless
    | some proc =>
        match ksendMessage H K.mem K.currentProcess proc (some msg) with
        | none => .error .noReturn
        | some (_, _, m) => .ok { K with mem := m }
  else .ok K

/-- The IRQ branch of `int_handler`, at the tick count `ticks`. -/
def irqBranch (irqHandlers : Nat) (H : Heap) (K : Kernel σ) (ticks cpuOld intr : Nat)
    (stale : Message) : Except Fault (Nat × Kernel σ) := do
  let (cpuNew, K) ← irqSwitch K ticks cpuOld intr
  let K ← irqMessage irqHandlers H K intr stale
  return (cpuNew, K)

/-- The exception branch of `int_handler`. In kernel mode it panics. -/
def exceptionBranch (H : Heap) (V : Contexts σ) (K : Kernel σ) (kernelMode : Bool) (ticks : Nat) :
    Except Fault (Nat × Kernel σ) :=
  if kernelMode then .error .noReturn else killCurrentProcess H V K ticks

/-! ## What a switch changes -/

/-- What a process switch leaves alone: all but the state pointers, timers and statuses of the
processes `procs`, and the two globals that say who runs. -/
structure Switched (procs : List Nat) (K K' : Kernel σ) : Prop where
  current : K'.currentProcess ∈ procs
  first : K'.firstProcess = K.firstProcess
  idle : K'.idleProcess = K.idleProcess
  num : K'.numProc = K.numProc
  frames : K'.frames = K.frames
  mem : ∀ x, (∀ p ∈ procs, (x < p ∨ p + 4 ≤ x) ∧ (x < p + 36 ∨ p + 41 ≤ x)) →
    K'.mem x = K.mem x

variable {K K' : Kernel σ} {area : Nat → Prop} {procs : List Nat} {ticks cpuOld st : Nat}

theorem switchTo_switched {m : Mem} {p : Nat} (hp : p ∈ procs)
    (hm : ∀ x, (∀ p ∈ procs, (x < p ∨ p + 4 ≤ x) ∧ (x < p + 36 ∨ p + 41 ≤ x)) → m x = K.mem x)
    (h : switchTo K m p = .ok (st, K')) : Switched procs K K' := by
  unfold switchTo at h
  split at h
  · cases h
  · obtain ⟨-, rfl⟩ := Prod.mk.inj (Except.ok.inj h)
    exact ⟨hp, rfl, rfl, rfl, rfl, hm⟩

/-- `Schedule` takes a process of the list. -/
theorem schedule_switched (h : ProcRecords area K.mem K.firstProcess procs)
    (hcur : K.currentProcess = NULL ∨ K.currentProcess ∈ procs) (hidle : K.idleProcess ∈ procs)
    (hs : schedule K ticks cpuOld = .ok (st, K')) : Switched procs K K' := by
  rcases hcur with hcur | hcur
  · -- no current process: the head of the list
    rw [schedule, if_pos hcur] at hs
    cases procs with
    | nil => simp at hidle
    | cons p l =>
        have hfirst : K.firstProcess = p := h.chain.head
        exact switchTo_switched (by simp [hfirst]) (fun _ _ => rfl) hs
  · obtain ⟨pre, post, rfl⟩ := List.append_of_mem hcur
    rw [schedule_eq h] at hs
    have hstore : ∀ x, (∀ p ∈ pre ++ K.currentProcess :: post,
        (x < p ∨ p + 4 ≤ x) ∧ (x < p + 36 ∨ p + 41 ≤ x)) →
        store32 K.mem K.currentProcess cpuOld x = K.mem x := fun x hx =>
      store32_of_outside (hx _ (by simp)).1
    cases hf : (scanned pre K.currentProcess post).find? (eligible K.mem ticks) with
    | none =>
        rw [hf] at hs
        exact switchTo_switched hidle hstore hs
    | some q =>
        rw [hf] at hs
        have hq := mem_scanned (List.mem_of_find?_eq_some hf)
        refine switchTo_switched hq (fun x hx => ?_) hs
        rw [wake_of_outside (hx q hq).2, hstore x hx]

theorem irqSwitch_switched {intr : Nat} (h : ProcRecords area K.mem K.firstProcess procs)
    (hcur : K.currentProcess = NULL ∨ K.currentProcess ∈ procs) (hidle : K.idleProcess ∈ procs)
    (hs : irqSwitch K ticks cpuOld intr = .ok (st, K')) : K' = K ∨ Switched procs K K' := by
  unfold irqSwitch at hs
  split at hs
  · exact Or.inr (schedule_switched h hcur hidle hs)
  · exact Or.inl (Prod.mk.inj (Except.ok.inj hs)).2.symm

end

end DayOS
