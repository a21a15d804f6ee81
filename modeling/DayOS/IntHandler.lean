import DayOS.Console
import DayOS.Elf
import DayOS.Interrupts

set_option autoImplicit false

/-! # The kernel's entry point (`int_handler`, `Syscall`)

Whatever brings the processor into the kernel, `int_handler` gets the frame and returns the one
to go on with. The registers of a system call are read from the frame, and its result is stored
there. Pointers in them go through the page tables of the process that calls; a page that is not
there is a panic, since the kernel is in `kernel_mode` by then.

What a call prints for debugging is left out, and so is the text in front of the end of a
process. `StackTrace` is part of that. Before an exception ends a process it follows the chain of
frame pointers from the `ebp` of the interrupted code, which may lead to a page that is not there;
the model is of exceptions whose trace comes to its end.
-/

namespace DayOS

open ByteMemory Linked Paging

/-- The kernel, the globals of `idt.c`, the console, and what was written to the ports. -/
structure System (σ : Type) where
  kernel : Kernel σ
  tickCount : Nat
  kernelMode : Bool
  console : Console
  ports : List (Nat × Nat)

/-- What `int_handler` calls: the heap, `vmm.c`, and the two system calls that are about pages.
`irqHandlers` and `tss` are where these globals lie. `kernelHost` puts in `sbrk` and
`launch_elf_program` as the source has them. -/
structure Platform (σ : Type) where
  heap : Heap
  contexts : Contexts σ
  irqHandlers : Nat
  tss : Nat
  sbrk : Kernel σ → Nat → Except Fault (Nat × Kernel σ)
  launchElfProgram : Kernel σ → Nat → Except Fault (Kernel σ)

section
variable {σ : Type}

/-! ## Messages in the memory of a process -/

def sizeofMessage : Nat := 528

/-- Memory as the code that runs sees it. -/
def seen (m : Mem) (dir : Nat) : Mem := fun va =>
  match resolve m dir va with
  | some p => m p
  | none => 0

/-- The message at `va`, when all its bytes are mapped. -/
def userMessage (K : Kernel σ) (va : Nat) : Option Message :=
  if ∀ i < sizeofMessage, (resolve K.mem K.activeDir (va + i)).isSome then
    some (readMessage (seen K.mem K.activeDir) va)
  else none

/-- Store the fields of a message at `va`. -/
def putUserMessage (K : Kernel σ) (va : Nat) (msg : Message) : Option (Kernel σ) :=
  (storeAt K.activeDir va (fun _ i => some (copyMessage (fun _ => 0) 0 msg i)) sizeofMessage
    K.mem).map (fun m => { K with mem := m })

/-- The case `send_message`. -/
def sendFrom (H : Heap) (K : Kernel σ) (ebx : Nat) : Except Fault (Nat × Kernel σ) :=
  if ebx = NULL then .ok (MESSAGE_ERR_SEND, K)
  else do
    let msg ← returning (userMessage K ebx)
    let (ret, msg, K) ← returning (sendMessageCall H K (some msg))
    let K ← returning (msg.elim none (putUserMessage K ebx))
    return (ret, K)

/-- The case `receive_message`. -/
def receiveInto (H : Heap) (K : Kernel σ) (ebx : Nat) (who : UInt32) :
    Except Fault (Nat × Kernel σ) :=
  if ebx = NULL then .ok (MESSAGE_ERR_RECEIVE, K)
  else do
    let msg ← returning (userMessage K ebx)
    let (ret, msg, K) ← returning (receiveMessageCall H K (some msg) who)
    let K ← returning (msg.elim none (putUserMessage K ebx))
    return (ret, K)

/-! ## `Syscall` -/

/-- `cpu_old->eax = eax`. -/
def answer (K : Kernel σ) (cpuOld eax : Nat) : Kernel σ :=
  { K with mem := store32 K.mem (cpuOld + 16) eax }

/-- `Syscall`. -/
def syscall (P : Platform σ) (S : System σ) (cpuOld : Nat) : Except Fault (Nat × System σ) :=
  let K := S.kernel
  let ebx := load32 K.mem (cpuOld + 20)
  let ecx := load32 K.mem (cpuOld + 24)
  match load32 K.mem (cpuOld + 16) with
  | 1 => .ok (cpuOld, { S with console := S.console.kputch (UInt8.ofNat ebx) })
  | 2 => do
      let (cpu, K) ← killCurrentProcess P.heap P.contexts K S.tickCount
      return (cpu, { S with kernel := K })
  | 3 => do
      let (eax, K) ← sendFrom P.heap K ebx
      return (cpuOld, { S with kernel := answer K cpuOld eax })
  | 4 => do
      let (eax, K) ← receiveInto P.heap K ebx (UInt32.ofNat ecx)
      return (cpuOld, { S with kernel := answer K cpuOld eax })
  | 5 => do
      let (eax, K) ← P.sbrk K ebx
      return (cpuOld, { S with kernel := answer K cpuOld eax })
  | 6 => .ok (cpuOld, { S with kernel := registerIrqCall P.irqHandlers K ebx })
  | 7 => .ok (cpuOld, { S with kernel := resetIrqCall P.irqHandlers K ebx })
  | 8 => do
      let (cpu, K) ← setTimerCall K S.tickCount ebx cpuOld
      return (cpu, { S with kernel := K })
  | 9 => do
      let K ← P.launchElfProgram K ebx
      return (cpuOld, { S with kernel := K })
  | _ => .ok (cpuOld, S)

/-! ## `int_handler` -/

/-- `tss[1] = (uint32_t) (cpu_new + 1)`. -/
def setKernelStack (P : Platform σ) (K : Kernel σ) (cpuNew : Nat) : Kernel σ :=
  { K with mem := store32 K.mem (P.tss + 4) (cpuNew + sizeofCpu) }

/-- An exception. -/
def exceptionEntry (P : Platform σ) (S : System σ) : Except Fault (Nat × System σ) := do
  let (cpuNew, K) ← exceptionBranch P.heap P.contexts S.kernel S.kernelMode S.tickCount
  return (cpuNew, { S with kernel := setKernelStack P K cpuNew })

/-- The timer counts and switches processes. -/
def timerEntry (P : Platform σ) (S : System σ) (cpuOld intr : Nat) :
    Except Fault (Nat × System σ) := do
  let (cpuNew, K) ← irqSwitch S.kernel S.tickCount cpuOld intr
  if intr = 0x20 then
    return (cpuNew, { S with
      kernel := setKernelStack P K cpuNew, tickCount := (S.tickCount + 1) % 2 ^ 32 })
  else return (cpuNew, { S with kernel := K })

/-- An interrupt line. Those of the second controller are acknowledged there as well. -/
def lineEntry (P : Platform σ) (S : System σ) (stale : Message) (cpuOld intr : Nat) :
    Except Fault (Nat × System σ) := do
  let (cpuNew, S) ← timerEntry P S cpuOld intr
  let K ← irqMessage P.irqHandlers P.heap S.kernel intr stale
  return (cpuNew, { S with
    kernel := K, ports := if intr ≥ 40 then S.ports ++ [(0xA0, 0x20)] else S.ports })

/-- A system call. -/
def syscallEntry (P : Platform σ) (S : System σ) (cpuOld : Nat) : Except Fault (Nat × System σ) := do
  let (cpuNew, S) ← syscall P { S with kernelMode := true } cpuOld
  return (cpuNew, { S with kernel := setKernelStack P S.kernel cpuNew })

/-- `int_handler`. `stale` is what the stack holds where the message for a process will be. A
vector that is none of these is reported, and the kernel stops. -/
def intHandler (P : Platform σ) (S : System σ) (stale : Message) (cpuOld : Nat) :
    Except Fault (Nat × System σ) := do
  let intr := load32 S.kernel.mem (cpuOld + 44)
  let (cpuNew, S) ←
    if intr < 32 then exceptionEntry P S
    else if intr ≤ 0x2F then lineEntry P S stale cpuOld intr
    else if intr = 0x30 then syscallEntry P S cpuOld
    else .error .endless
  return (cpuNew, { S with ports := S.ports ++ [(0x20, 0x20)], kernelMode := false })

end

end DayOS
