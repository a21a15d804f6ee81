import DayOS.Records

set_option autoImplicit false

/-! # Saved registers (`struct cpu`)

Eighteen words without padding. `intr_common_handler` builds such a frame on a process's
kernel stack and `CreateUserProcess` builds the first one by hand, right below the stack's
end.
-/

namespace DayOS

open ByteMemory

/-- `struct cpu`. -/
structure Cpu where
  ds : UInt32
  es : UInt32
  fs : UInt32
  gs : UInt32
  eax : UInt32
  ebx : UInt32
  ecx : UInt32
  edx : UInt32
  esi : UInt32
  edi : UInt32
  ebp : UInt32
  intr : UInt32
  error : UInt32
  eip : UInt32
  cs : UInt32
  eflags : UInt32
  esp : UInt32
  ss : UInt32
  deriving DecidableEq

def sizeofCpu : Nat := 72

/-- The words of a frame, in memory order. -/
def Cpu.words (c : Cpu) : List UInt32 :=
  [c.ds, c.es, c.fs, c.gs, c.eax, c.ebx, c.ecx, c.edx, c.esi, c.edi, c.ebp, c.intr, c.error,
    c.eip, c.cs, c.eflags, c.esp, c.ss]

/-- The word at `a`. -/
def readWord (m : Mem) (a : Nat) : UInt32 := UInt32.ofNat (load32 m a)

/-- The frame at `a`. -/
def readCpu (m : Mem) (a : Nat) : Cpu where
  ds := readWord m a
  es := readWord m (a + 4)
  fs := readWord m (a + 8)
  gs := readWord m (a + 12)
  eax := readWord m (a + 16)
  ebx := readWord m (a + 20)
  ecx := readWord m (a + 24)
  edx := readWord m (a + 28)
  esi := readWord m (a + 32)
  edi := readWord m (a + 36)
  ebp := readWord m (a + 40)
  intr := readWord m (a + 44)
  error := readWord m (a + 48)
  eip := readWord m (a + 52)
  cs := readWord m (a + 56)
  eflags := readWord m (a + 60)
  esp := readWord m (a + 64)
  ss := readWord m (a + 68)

/-- Store a frame at `a`. -/
def writeCpu (m : Mem) (a : Nat) (c : Cpu) : Mem := writeWords m a c.words

theorem Cpu.words_length (c : Cpu) : c.words.length = 18 := rfl

theorem readCpu_congr {m m' : Mem} {a : Nat} (h : AgreeOn m m' a sizeofCpu) :
    readCpu m' a = readCpu m a := by
  have hw : ∀ k, k + 4 ≤ 72 → readWord m' (a + k) = readWord m (a + k) := fun k hk =>
    congrArg UInt32.ofNat (load32_congr (h.mono (by omega) (by simp only [sizeofCpu]; omega)))
  have h₀ : readWord m' a = readWord m a := hw 0 (by omega)
  simp only [readCpu, h₀, hw 4 (by omega), hw 8 (by omega), hw 12 (by omega), hw 16 (by omega),
    hw 20 (by omega), hw 24 (by omega), hw 28 (by omega), hw 32 (by omega), hw 36 (by omega),
    hw 40 (by omega), hw 44 (by omega), hw 48 (by omega), hw 52 (by omega), hw 56 (by omega),
    hw 60 (by omega), hw 64 (by omega), hw 68 (by omega)]

@[simp] theorem readCpu_writeCpu (m : Mem) (a : Nat) (c : Cpu) :
    readCpu (writeCpu m a c) a = c := by
  have hw : ∀ k w, c.words[k]? = some w → readWord (writeCpu m a c) (a + 4 * k) = w := by
    intro k w hk
    rw [readWord, writeCpu, load32_writeWords hk, UInt32.ofNat_toNat]
  have h₀ : readWord (writeCpu m a c) a = c.ds := hw 0 _ rfl
  simp only [readCpu, h₀, hw 1 _ rfl, hw 2 _ rfl, hw 3 _ rfl, hw 4 _ rfl, hw 5 _ rfl, hw 6 _ rfl,
    hw 7 _ rfl, hw 8 _ rfl, hw 9 _ rfl, hw 10 _ rfl, hw 11 _ rfl, hw 12 _ rfl, hw 13 _ rfl,
    hw 14 _ rfl, hw 15 _ rfl, hw 16 _ rfl, hw 17 _ rfl]

theorem writeCpu_of_outside {m : Mem} {a x : Nat} {c : Cpu} (h : x < a ∨ a + 72 ≤ x) :
    writeCpu m a c x = m x := writeWords_of_outside (by rw [c.words_length]; omega)

end DayOS
