import DayOS.Lib.Memory

set_option autoImplicit false

/-! # Descriptors and interrupts of a 32-bit x86 processor

What the processor makes of the bytes of a descriptor table, and what it does with its stack
when an interrupt comes and when `iret` goes back.

An interrupt gate to ring 0 takes a fresh stack from the task state segment when the code it
interrupts runs in an outer ring, and otherwise goes on with the stack there is. So a frame ends
with the stack pointer of the interrupted code only when the ring changes; `iret` knows which
frame it has by the ring in the code selector it pops.

A selector is pushed as a word whose upper half the processor may leave as it likes.
-/

namespace Ia32

open ByteMemory

/-! ## Half words -/

/-- The little-endian half word in the two bytes from `a` on. -/
def load16 (m : Mem) (a : Nat) : Nat := load8 m a + 2 ^ 8 * load8 m (a + 1)

/-- Store the low 16 bits of `v`, little-endian, in the two bytes from `a` on. -/
def store16 (m : Mem) (a v : Nat) : Mem := store8 (store8 m a v) (a + 1) (v / 2 ^ 8)

theorem store16_of_outside {m : Mem} {a v x : Nat} (h : x < a ∨ a + 2 ≤ x) :
    store16 m a v x = m x := by
  rw [store16, store8_of_ne (by omega), store8_of_ne (by omega)]

@[simp] theorem load16_store16 (m : Mem) (a v : Nat) :
    load16 (store16 m a v) a = v % 2 ^ 16 := by
  rw [load16, store16, load8_store8, load8_store8_of_ne (by omega), load8_store8]
  omega

theorem load16_congr {m m' : Mem} {a : Nat} (h : AgreeOn m m' a 2) : load16 m' a = load16 m a := by
  rw [load16, load16, load8_congr (h.mono (by omega) (by omega)),
    load8_congr (h.mono (by omega) (by omega))]

theorem agreeOn_store16 {m : Mem} {a v b n : Nat} (h : b + n ≤ a ∨ a + 2 ≤ b) :
    AgreeOn m (store16 m a v) b n := fun _ _ _ => store16_of_outside (by omega)

theorem load16_store16_of_ne {m : Mem} {a v b : Nat} (h : b + 2 ≤ a ∨ a + 2 ≤ b) :
    load16 (store16 m a v) b = load16 m b := load16_congr (agreeOn_store16 h)

theorem load16_store8_of_ne {m : Mem} {a v b : Nat} (h : b + 2 ≤ a ∨ a + 1 ≤ b) :
    load16 (store8 m a v) b = load16 m b := load16_congr (agreeOn_store8 h)

theorem load8_store16_of_ne {m : Mem} {a v b : Nat} (h : b + 1 ≤ a ∨ a + 2 ≤ b) :
    load8 (store16 m a v) b = load8 m b := load8_congr (agreeOn_store16 h)

/-! ## Descriptors -/

/-- A segment: where it starts, its limit of 20 bits, its access byte and its four flags. -/
structure Segment where
  base : Nat
  limit : Nat
  access : Nat
  flags : Nat
  deriving DecidableEq

/-- The segment descriptor at `a`. -/
def readSegment (m : Mem) (a : Nat) : Segment where
  base := load16 m (a + 2) + 2 ^ 16 * load8 m (a + 4) + 2 ^ 24 * load8 m (a + 7)
  limit := load16 m a + 2 ^ 16 * (load8 m (a + 6) % 16)
  access := load8 m (a + 5)
  flags := load8 m (a + 6) / 16

/-- The largest offset inside a segment: the limit counts bytes or pages. -/
def Segment.top (s : Segment) : Nat :=
  if 8 ≤ s.flags then 0x1000 * s.limit + 0xFFF else s.limit

/-- The ring that a descriptor or a gate is for. -/
def ring (access : Nat) : Nat := access / 2 ^ 5 % 4

/-- Present, as opposed to empty. -/
def Present (access : Nat) : Prop := 2 ^ 7 ≤ access

instance (access : Nat) : Decidable (Present access) := inferInstanceAs (Decidable (_ ≤ _))

/-- A gate: where it leads, in which segment, and its access byte. -/
structure Gate where
  offset : Nat
  selector : Nat
  access : Nat
  deriving DecidableEq

/-- The gate at `a`. -/
def readGate (m : Mem) (a : Nat) : Gate where
  offset := load16 m a + 2 ^ 16 * load16 m (a + 6)
  selector := load16 m (a + 2)
  access := load8 m (a + 5)

/-- An interrupt gate of 32 bits. -/
def Gate.IsInterrupt (g : Gate) : Prop := g.access % 2 ^ 5 = 0xE

instance (g : Gate) : Decidable g.IsInterrupt := inferInstanceAs (Decidable (_ = _))

theorem readSegment_congr {m m' : Mem} {a : Nat} (h : AgreeOn m m' a 8) :
    readSegment m' a = readSegment m a := by
  simp only [readSegment]
  rw [load16_congr (h.mono (by omega) (by omega)), load16_congr (h.mono (by omega) (by omega)),
    load8_congr (h.mono (by omega) (by omega)), load8_congr (h.mono (by omega) (by omega)),
    load8_congr (h.mono (by omega) (by omega)), load8_congr (h.mono (by omega) (by omega))]

theorem readGate_congr {m m' : Mem} {a : Nat} (h : AgreeOn m m' a 8) :
    readGate m' a = readGate m a := by
  simp only [readGate]
  rw [load16_congr (h.mono (by omega) (by omega)), load16_congr (h.mono (by omega) (by omega)),
    load16_congr (h.mono (by omega) (by omega)), load8_congr (h.mono (by omega) (by omega))]

/-! ## The way of an interrupt -/

/-- Where an interrupt comes from: the processor itself, a device, or an `int` instruction. -/
inductive Source where
  | exception
  | device
  | software
  deriving DecidableEq

/-- The exceptions with an error code. -/
def HasCode (vector : Nat) : Prop :=
  vector = 8 ∨ vector = 10 ∨ vector = 11 ∨ vector = 12 ∨ vector = 13 ∨ vector = 14 ∨ vector = 17

instance (vector : Nat) : Decidable (HasCode vector) := inferInstanceAs (Decidable (_ ∨ _))

/-- The vector that is served for `vector`, and the error code pushed. Behind a gate that is not
an interrupt gate, or one that an `int` instruction may not use, there is a general protection
fault (13); behind one that is not present, there is a fault of that name (11). The gates of
these two are taken to be in order. -/
def arrive (gate : Nat → Gate) (cpl : Nat) (source : Source) (vector : Nat) (code : UInt32) :
    Nat × Option UInt32 :=
  let external : Nat := if source = .software then 0 else 1
  if ¬ (gate vector).IsInterrupt then (13, some (UInt32.ofNat (8 * vector + 2 + external)))
  else if source = .software ∧ ring (gate vector).access < cpl then
    (13, some (UInt32.ofNat (8 * vector + 2)))
  else if ¬ Present (gate vector).access then
    (11, some (UInt32.ofNat (8 * vector + 2 + external)))
  else (vector, if source = .exception ∧ HasCode vector then some code else none)

/-! ## Stacks -/

/-- A stack in memory. It grows downwards, and its pointer wraps around at 32 bits. -/
structure Stack where
  mem : Mem
  sp : Nat

namespace Stack

def push (s : Stack) (w : UInt32) : Stack :=
  let sp := (s.sp + (2 ^ 32 - 4)) % 2 ^ 32
  ⟨store32 s.mem sp w.toNat, sp⟩

def pushAll (s : Stack) (ws : List UInt32) : Stack := ws.foldl push s

def pop (s : Stack) : UInt32 × Stack :=
  (UInt32.ofNat (load32 s.mem s.sp), { s with sp := (s.sp + 4) % 2 ^ 32 })

end Stack

section
variable {m m' : Mem} {a b top : Nat} {w : UInt32} {ws vs : List UInt32}

theorem store32_comm {v u : Nat} (h : b + 4 ≤ a ∨ a + 4 ≤ b) :
    store32 (store32 m a v) b u = store32 (store32 m b u) a v := by
  funext x
  simp only [store32]
  split_ifs <;> first | rfl | omega

/-- A word below others may be stored before or after them. -/
theorem store32_writeWords {u : Nat} (h : b + 4 ≤ a) :
    store32 (writeWords m a ws) b u = writeWords (store32 m b u) a ws := by
  induction ws generalizing m a with
  | nil => rfl
  | cons v ws ih =>
      rw [writeWords, ih (by omega), store32_comm (Or.inl (by omega))]
      rfl

/-- **A row of pushes** leaves the words in memory in the opposite order. The top of the stack may
be the end of the address space. -/
theorem Stack.pushAll_eq (htop : top ≤ 2 ^ 32) (hlen : 4 * ws.length ≤ top) :
    Stack.pushAll ⟨m, top % 2 ^ 32⟩ ws
      = ⟨writeWords m (top - 4 * ws.length) ws.reverse, (top - 4 * ws.length) % 2 ^ 32⟩ := by
  induction ws using List.reverseRecOn with
  | nil => rfl
  | append_singleton ws w ih =>
      simp only [List.length_append, List.length_singleton] at hlen ⊢
      have hpush : Stack.pushAll ⟨m, top % 2 ^ 32⟩ (ws ++ [w])
          = Stack.push (Stack.pushAll ⟨m, top % 2 ^ 32⟩ ws) w := by
        simp [Stack.pushAll]
      have hsp : ((top - 4 * ws.length) % 2 ^ 32 + (2 ^ 32 - 4)) % 2 ^ 32
          = top - 4 * (ws.length + 1) := by
        omega
      have hmod : (top - 4 * (ws.length + 1)) % 2 ^ 32 = top - 4 * (ws.length + 1) := by omega
      have hnext : top - 4 * ws.length = top - 4 * (ws.length + 1) + 4 := by omega
      rw [hpush, ih (by omega)]
      simp only [Stack.push, hsp, hmod, List.reverse_append, List.reverse_singleton,
        List.singleton_append, writeWords]
      rw [store32_writeWords (by omega), ← hnext]

end

namespace Stack

theorem pushAll_append (s : Stack) (ws vs : List UInt32) :
    s.pushAll (ws ++ vs) = (s.pushAll ws).pushAll vs := List.foldl_append

theorem push_sp_lt (s : Stack) (w : UInt32) : (s.push w).sp < 2 ^ 32 :=
  Nat.mod_lt _ (Nat.two_pow_pos 32)

theorem pushAll_sp_lt {s : Stack} (h : s.sp < 2 ^ 32) (ws : List UInt32) :
    (s.pushAll ws).sp < 2 ^ 32 := by
  induction ws generalizing s with
  | nil => exact h
  | cons w ws ih =>
      rw [pushAll, List.foldl_cons]
      exact ih (s.push_sp_lt w)

/-- The stack behind a pointer in a register. -/
theorem ofNat_sp {s : Stack} (h : s.sp < 2 ^ 32) : (⟨s.mem, (UInt32.ofNat s.sp).toNat⟩ : Stack) = s := by
  rw [UInt32.toNat_ofNat', Nat.mod_eq_of_lt h]

end Stack

/-! ## Registers -/

/-- What the code that runs sees of the processor. -/
structure Registers where
  eax : UInt32
  ebx : UInt32
  ecx : UInt32
  edx : UInt32
  esi : UInt32
  edi : UInt32
  ebp : UInt32
  esp : UInt32
  eip : UInt32
  eflags : UInt32
  cs : UInt16
  ds : UInt16
  es : UInt16
  fs : UInt16
  gs : UInt16
  ss : UInt16
  deriving DecidableEq

/-- The ring in which code runs. -/
def Registers.cpl (r : Registers) : Nat := r.cs.toNat % 4

/-- A selector as a word on the stack. -/
def selectorWord (high selector : UInt16) : UInt32 := high.toUInt32 <<< 16 ||| selector.toUInt32

@[simp] theorem toUInt16_selectorWord (high selector : UInt16) :
    (selectorWord high selector).toUInt16 = selector := by
  have hlt := selector.toNat_lt
  apply UInt16.toNat_inj.mp
  simp only [selectorWord, UInt32.toNat_toUInt16, UInt32.toNat_or, UInt32.toNat_shiftLeft,
    UInt16.toNat_toUInt32]
  rw [Nat.or_mod_two_pow]
  simp [Nat.shiftLeft_eq]

/-- The flags that are cleared behind an interrupt gate: `IF`, `TF`, `NT`, `RF` and `VM`. -/
def gateFlags : UInt32 := 0x34300

/-- An interrupt through `gate` to ring 0, with the task state segment at `tss`. -/
def interrupt (tss : Nat) (high : Nat → UInt16) (m : Mem) (r : Registers) (gate : Gate)
    (code : Option UInt32) : Registers × Mem :=
  let outer : Bool := r.cpl ≠ 0
  let stack : Stack :=
    if outer then Stack.pushAll ⟨m, load32 m (tss + 4)⟩ [selectorWord (high 0) r.ss, r.esp]
    else ⟨m, r.esp.toNat⟩
  let stack := stack.pushAll ([r.eflags, selectorWord (high 1) r.cs, r.eip] ++ code.toList)
  ({ r with
      esp := UInt32.ofNat stack.sp
      ss := if outer then UInt16.ofNat (load16 m (tss + 8)) else r.ss
      cs := UInt16.ofNat gate.selector
      eip := UInt32.ofNat gate.offset
      eflags := r.eflags &&& ~~~gateFlags }, stack.mem)

/-- Where the pushes of an interrupt start. -/
def interruptStack (tss : Nat) (m : Mem) (r : Registers) : Stack :=
  ⟨m, if r.cpl ≠ 0 then load32 m (tss + 4) else r.esp.toNat⟩

/-- The words that an interrupt pushes. -/
def interruptWords (high : Nat → UInt16) (r : Registers) (code : Option UInt32) : List UInt32 :=
  (if r.cpl ≠ 0 then [selectorWord (high 0) r.ss, r.esp] else []) ++
    ([r.eflags, selectorWord (high 1) r.cs, r.eip] ++ code.toList)

/-- The stack behind an interrupt, as the registers and the memory show it. -/
theorem interrupt_stack (tss : Nat) (high : Nat → UInt16) (m : Mem) (r : Registers) (gate : Gate)
    (code : Option UInt32) :
    (⟨(interrupt tss high m r gate code).2, (interrupt tss high m r gate code).1.esp.toNat⟩ : Stack)
      = (interruptStack tss m r).pushAll (interruptWords high r code) := by
  have hsp : (interruptStack tss m r).sp < 2 ^ 32 := by
    unfold interruptStack
    split
    · exact load32_lt m _
    · exact r.esp.toNat_lt
  have hlt := Stack.pushAll_sp_lt hsp (interruptWords high r code)
  rw [← Stack.ofNat_sp hlt]
  unfold interruptStack interruptWords interrupt
  by_cases hring : r.cpl = 0
  · simp only [hring, ne_eq, not_true, decide_false, Bool.false_eq_true, if_false, List.nil_append]
  · simp only [hring, ne_eq, not_false_eq_true, decide_true, if_true, Stack.pushAll_append]

/-- `iret` in ring 0, to this ring or an outer one. -/
def iret (r : Registers) (s : Stack) : Registers :=
  let (eip, s) := s.pop
  let (cs, s) := s.pop
  let (eflags, s) := s.pop
  let r := { r with eip := eip, cs := cs.toUInt16, eflags := eflags }
  if r.cpl ≠ 0 then
    let (esp, s) := s.pop
    let (ss, _) := s.pop
    { r with esp := esp, ss := ss.toUInt16 }
  else { r with esp := UInt32.ofNat s.sp }

end Ia32
