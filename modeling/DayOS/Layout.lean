import DayOS.Lib.Memory
import DayOS.Lib.Chain

set_option autoImplicit false

/-! # The kernel's place in the address space

The linker script puts the image at 1 MB and `kernel_end` behind it, on a page boundary; the
page pool, 2 MB long, and the kernel heap, 20 MB long, follow without gaps. `kernel_start` is
the location counter's first value, so it is `0`, and the low megabyte counts as part of the
image. The size of the image is not in the sources, so every result holds for any `Layout`.

The kernel reaches its own memory (image, page pool, heap) at virtual addresses equal to the
physical ones, so one `Mem` serves for both. Addresses are natural numbers below `2 ^ 32`;
where the code's pointer arithmetic can wrap, the `% 2 ^ 32` is written out.
-/

namespace DayOS

open ByteMemory

/-- The null pointer. -/
@[simp] abbrev NULL : Nat := 0

def PAGESIZE : Nat := 0x1000

/-- What the linker fixes: where the kernel image ends. The regions behind it end at least
two pages below the top of the address space. -/
structure Layout where
  kernelEnd : Nat
  aligned : kernelEnd % 0x1000 = 0
  above : 0x101000 ≤ kernelEnd
  fits : kernelEnd + 0x200000 + 0x1400000 + 0x2000 ≤ 2 ^ 32

namespace Layout

variable (L : Layout)

/-- `VM_KERNEL_START`. -/
def vmKernelStart : Nat := 0

/-- `VM_KERNEL_END`. -/
def vmKernelEnd : Nat := L.kernelEnd

/-- `PAGEPOOL_START`. -/
def pagepoolStart : Nat := L.vmKernelEnd

/-- `PAGEPOOL_END`. -/
def pagepoolEnd : Nat := L.pagepoolStart + 0x200000

/-- `HEAP_START`. -/
def heapStart : Nat := L.pagepoolEnd

/-- `HEAP_END`, with `HEAP_SIZE = 0x1400000`. -/
def heapEnd : Nat := L.heapStart + 0x1400000

theorem heapEnd_eq : L.heapEnd = L.heapStart + 0x1400000 := rfl

theorem heapStart_eq : L.heapStart = L.pagepoolStart + 0x200000 := rfl

theorem pagepoolStart_ge : 0x101000 ≤ L.pagepoolStart := L.above

theorem heapEnd_le : L.heapEnd + 0x2000 ≤ 2 ^ 32 := L.fits

theorem pagepoolStart_aligned : L.pagepoolStart % 0x1000 = 0 := L.aligned

theorem heapStart_aligned : L.heapStart % 0x1000 = 0 := by
  have := L.pagepoolStart_aligned
  rw [heapStart_eq]
  omega

theorem heapEnd_aligned : L.heapEnd % 0x1000 = 0 := by
  have := L.heapStart_aligned
  rw [heapEnd_eq]
  omega

theorem heapStart_ge : 0x301000 ≤ L.heapStart := by
  have := L.pagepoolStart_ge
  rw [heapStart_eq]
  omega

/-- The smallest layout the linker script allows. -/
def least : Layout := ⟨0x101000, by decide, by decide, by decide⟩

end Layout

/-- A loop that follows links visits at most one node per address; a longer walk would be at
some node for the second time and never end. -/
def walkLimit : Nat := 2 ^ 32

/-- Why a call does not come back: a callee does not, a loop never ends, or a link followed
was `NULL`. -/
inductive Fault where
  | noReturn
  | endless
  | nullLink
  deriving DecidableEq

/-- What the kernel calls for memory: `kmalloc` and `kfree`. `none` means that the call does
not return, because an assertion has failed. -/
structure Heap where
  kmalloc : Mem → Nat → Option (Nat × Mem)
  kfree : Mem → Nat → Option Mem

end DayOS
