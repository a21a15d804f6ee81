import DayOS.Buffers
import DayOS.Lib.Access
import DayOS.Process
import DayOS.Vmm

set_option autoImplicit false

/-! # Loading programs (`elf.c`)

`ParseElf` reads the image through the active page tables, takes each segment into a block of
the heap, gives the new context pages for it, and copies the block there with that context
active. Sizes and addresses come from the image, and every field is read where the code reads
it. The active directory is the one of `current_context`.

The kernel's other accesses (the heap's headers, the tables) are to memory that every context
maps to itself, as in `vmm.c`.
-/

namespace DayOS

open ByteMemory Paging

/-- Why loading does not come back: an assertion in `vmm.c` or in the heap fails, or a byte
touched is not mapped. -/
inductive ElfFault where
  | vmm (fault : VmmFault)
  | heap
  | pageFault
  deriving DecidableEq

/-! ## The code -/

def ELF_MAGIC : Nat := 0x464C457F

/-- A call into `vmm.c`. -/
def vmmCall {α : Type} : Except VmmFault α → Except ElfFault α
  | .error fault => .error (.vmm fault)
  | .ok a => .ok a

/-- A call of `kmalloc` or `kfree`. -/
def heapCall {α : Type} : Option α → Except ElfFault α
  | none => .error .heap
  | some a => .ok a

/-- An access to memory through the page tables. -/
def touch {α : Type} : Option α → Except ElfFault α
  | none => .error .pageFault
  | some a => .ok a

section
variable {σ : Type}

/-- The directory in `cr3`. -/
def Kernel.activeDir (K : Kernel σ) : Nat := pagedir K.mem K.currentContext

/-- `activate_memory_context`. -/
def activateMemoryContext (K : Kernel σ) (context : Nat) : Kernel σ :=
  { K with currentContext := context }

/-- The field of `n` bytes at `va`. -/
def Kernel.peek (K : Kernel σ) (va n : Nat) : Except ElfFault Nat :=
  touch (readAt K.mem K.activeDir va n)

/-- `header->magic`. -/
def headerMagic (K : Kernel σ) (header : Nat) : Except ElfFault Nat := K.peek header 4

/-- `header->entry`. -/
def headerEntry (K : Kernel σ) (header : Nat) : Except ElfFault Nat := K.peek (header + 24) 4

/-- `header->offset`. -/
def headerOffset (K : Kernel σ) (header : Nat) : Except ElfFault Nat := K.peek (header + 28) 4

/-- `header->pentry_count`, of 16 bits. -/
def headerPentryCount (K : Kernel σ) (header : Nat) : Except ElfFault Nat :=
  K.peek (header + 44) 2

/-- `program->type`. -/
def programType (K : Kernel σ) (program : Nat) : Except ElfFault Nat := K.peek program 4

/-- `program->offset`. -/
def programOffset (K : Kernel σ) (program : Nat) : Except ElfFault Nat := K.peek (program + 4) 4

/-- `program->vaddr`. -/
def programVaddr (K : Kernel σ) (program : Nat) : Except ElfFault Nat := K.peek (program + 8) 4

/-- `program->fsize`. -/
def programFsize (K : Kernel σ) (program : Nat) : Except ElfFault Nat := K.peek (program + 16) 4

/-- `program->msize`. -/
def programMsize (K : Kernel σ) (program : Nat) : Except ElfFault Nat := K.peek (program + 20) 4

end

/-- `sizeof(program_t)`. -/
def sizeofProgram : Nat := 32

section
variable (L : Layout) (H : Heap)

/-- The body of the loop behind the `continue`: one segment goes through the heap into the
context. -/
def loadSegment (context dest src program : Nat) (K : Kernel Pmm) :
    Except ElfFault (Kernel Pmm) := do
  let n ← programFsize K program
  let (buf, m) ← heapCall (H.kmalloc K.mem n)
  let K := { K with mem := m }
  let msize ← programMsize K program
  let fsize ← programFsize K program
  let n ← programFsize K program
  let m ← touch (copyAt K.activeDir buf src n K.mem)
  let K := { K with mem := m }
  let vaddr ← programVaddr K program
  let sz ← programMsize K program
  let (m, frames) ← vmmCall (vmmAlloc L K.mem K.frames context vaddr sz)
  let K := { K with mem := m, frames := frames }
  let oldContext := K.currentContext
  let K := activateMemoryContext K context
  let m ← touch (fillAt K.activeDir dest 0 msize K.mem)
  let K := { K with mem := m }
  let m ← touch (copyAt K.activeDir dest buf fsize K.mem)
  let K := { K with mem := m }
  let K := activateMemoryContext K oldContext
  let m ← heapCall (H.kfree K.mem buf)
  return { K with mem := m }

/-- One round of the loop of `ParseElf`. -/
def loadProgram (addr context program : Nat) (K : Kernel Pmm) : Except ElfFault (Kernel Pmm) := do
  let dest ← programVaddr K program
  let offset ← programOffset K program
  let src := (addr + offset) % 2 ^ 32
  let type ← programType K program
  if type ≠ 1 ∨ dest = NULL ∨ src = NULL then return K
  else loadSegment L H context dest src program K

/-- The loop of `ParseElf`. The count is of 16 bits, so there are at most `2 ^ 16 - 1` rounds. -/
def loadPrograms (addr context program : Nat) : Nat → Nat → Kernel Pmm →
    Except ElfFault (Kernel Pmm)
  | 0, _, K => .ok K
  | fuel + 1, i, K => do
      let count ← headerPentryCount K addr
      if i < count then do
        let K ← loadProgram L H addr context ((program + sizeofProgram * i) % 2 ^ 32) K
        loadPrograms addr context program fuel (i + 1) K
      else return K

/-- `ParseElf`. -/
def parseElf (K : Kernel Pmm) (addr context : Nat) : Except ElfFault (Nat × Kernel Pmm) := do
  if addr = NULL ∨ context = NULL then return (NULL, K)
  else
    let offset ← headerOffset K addr
    let program := (addr + offset) % 2 ^ 32
    let magic ← headerMagic K addr
    if magic ≠ ELF_MAGIC then return (NULL, K)
    else
      let K ← loadPrograms L H addr context program (2 ^ 16) 0 K
      let entry ← headerEntry K addr
      return (entry, K)

/-- The syscall `launch_elf_program`. -/
def launchElfProgram (kernelContext : Nat) (K : Kernel Pmm) (ebx : Nat) :
    Except ElfFault (Kernel Pmm) := do
  let (context, m, frames) ← vmmCall (createUsermodeContext L kernelContext K.mem K.frames)
  let (entry, K) ← parseElf L H { K with mem := m, frames := frames } ebx context
  if entry = NULL then return K
  else
    let (_, K) ← heapCall (createUserProcess H K entry context)
    return K

end

/-! ## The error exits -/

/-- `ParseElf` returns through one of its error exits: an argument is null, or there is no magic
at the start of the image. -/
def Rejects (K : Kernel Pmm) (addr context : Nat) : Prop :=
  (addr = NULL ∨ context = NULL) ∨ ∃ offset magic,
    headerOffset K addr = .ok offset ∧ headerMagic K addr = .ok magic ∧ magic ≠ ELF_MAGIC

section
variable {L : Layout} {H : Heap} {K : Kernel Pmm} {addr context : Nat}

theorem vmmCall_ok {α : Type} {x : Except VmmFault α} {a : α} :
    vmmCall x = .ok a ↔ x = .ok a := by
  cases x with
  | error fault => exact ⟨fun h => (nomatch h), fun h => (nomatch h)⟩
  | ok b =>
      show Except.ok b = Except.ok a ↔ _
      simp

theorem heapCall_ok {α : Type} {x : Option α} {a : α} : heapCall x = .ok a ↔ x = some a := by
  cases x with
  | none => exact ⟨fun h => (nomatch h), fun h => (nomatch h)⟩
  | some b =>
      show Except.ok b = Except.ok a ↔ _
      simp

theorem touch_ok {α : Type} {x : Option α} {a : α} : touch x = .ok a ↔ x = some a := by
  cases x with
  | none => exact ⟨fun h => (nomatch h), fun h => (nomatch h)⟩
  | some b =>
      show Except.ok b = Except.ok a ↔ _
      simp

/-- Through an error exit nothing has changed. -/
theorem parseElf_rejects (h : Rejects K addr context) :
    parseElf L H K addr context = .ok (NULL, K) := by
  unfold parseElf
  by_cases hnull : addr = NULL ∨ context = NULL
  · rw [if_pos hnull]
    rfl
  · obtain ⟨offset, magic, hoffset, hmagic, hne⟩ := h.resolve_left hnull
    rw [if_neg hnull, bind_of_ok hoffset, bind_of_ok hmagic, if_pos hne]
    rfl

end

end DayOS
