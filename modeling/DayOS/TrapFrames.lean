import DayOS.Descriptors
import DayOS.Process

set_option autoImplicit false

/-! # The way into the kernel and back (`isr.asm`)

A stub pushes an error code of zero where the processor pushes none, and the number of its
vector; `intr_common_handler` pushes the other registers, so that the stack pointer it hands to
`int_handler` is a `struct cpu`. What `int_handler` returns becomes the stack pointer, and the
registers are popped from there.

Code that runs in ring 0 keeps its stack, and its frame ends behind `eflags`: the last two words
of the `struct cpu` are whatever lay on that stack before. Either way the registers that come
back from a frame nobody has changed are the ones that went in (`trap_transparent`).
-/

namespace DayOS

open ByteMemory Ia32

/-! ## The code -/

/-- What the stub of a vector pushes, from `intr_stub_0` on. -/
def intrStub (vector : Nat) : List UInt32 :=
  if vector ∈ [8, 10, 11, 12, 13, 14, 17] then [UInt32.ofNat vector]
  else [0, UInt32.ofNat vector]

/-- The pushes of `intr_common_handler`. -/
def pushRegisters (high : Nat → UInt16) (r : Registers) (s : Stack) : Stack :=
  let s := s.pushAll [r.ebp, r.edi, r.esi, r.edx, r.ecx, r.ebx, r.eax]
  s.pushAll [selectorWord (high 2) r.gs, selectorWord (high 3) r.fs, selectorWord (high 4) r.es,
    selectorWord (high 5) r.ds]

/-- From the interrupt to the call of `int_handler`, whose argument is the stack pointer. -/
def enterKernel (tss : Nat) (high : Nat → UInt16) (m : Mem) (r : Registers) (gate : Gate)
    (vector : Nat) (code : Option UInt32) : Registers × Mem :=
  let (r, m) := interrupt tss high m r gate code
  let s := Stack.pushAll ⟨m, r.esp.toNat⟩ (intrStub vector)
  let s := pushRegisters high r s
  ({ r with esp := UInt32.ofNat s.sp, ds := 0x10, es := 0x10, fs := 0x10, gs := 0x10, ss := 0x10 },
    s.mem)

/-- From the return of `int_handler`, with `cpu_new` in `eax`, to the code that goes on. -/
def leaveKernel (r : Registers) (m : Mem) (cpuNew : Nat) : Registers :=
  let s : Stack := ⟨m, cpuNew⟩
  let (ds, s) := s.pop
  let (es, s) := s.pop
  let (fs, s) := s.pop
  let (gs, s) := s.pop
  let (eax, s) := s.pop
  let (ebx, s) := s.pop
  let (ecx, s) := s.pop
  let (edx, s) := s.pop
  let (esi, s) := s.pop
  let (edi, s) := s.pop
  let (ebp, s) := s.pop
  iret { r with
      ds := ds.toUInt16, es := es.toUInt16, fs := fs.toUInt16, gs := gs.toUInt16
      eax := eax, ebx := ebx, ecx := ecx, edx := edx, esi := esi, edi := edi, ebp := ebp }
    { s with sp := (s.sp + 8) % 2 ^ 32 }

/-! ## The frame -/

/-- The frame of code interrupted with the registers `r`. -/
def trapFrame (high : Nat → UInt16) (r : Registers) (vector : Nat) (code : Option UInt32) : Cpu where
  ds := selectorWord (high 5) r.ds
  es := selectorWord (high 4) r.es
  fs := selectorWord (high 3) r.fs
  gs := selectorWord (high 2) r.gs
  eax := r.eax
  ebx := r.ebx
  ecx := r.ecx
  edx := r.edx
  esi := r.esi
  edi := r.edi
  ebp := r.ebp
  intr := UInt32.ofNat vector
  error := code.getD 0
  eip := r.eip
  cs := selectorWord (high 1) r.cs
  eflags := r.eflags
  esp := r.esp
  ss := selectorWord (high 0) r.ss

/-- How many words of a frame are pushed. -/
def frameLength (cpl : Nat) : Nat := if cpl ≠ 0 then 18 else 16

/-- The registers that come back from the frame `c` at `cpuNew`, to code on the stack `ss` when
the ring does not change. -/
def resumed (c : Cpu) (cpuNew : Nat) (ss : UInt16) : Registers where
  eax := c.eax
  ebx := c.ebx
  ecx := c.ecx
  edx := c.edx
  esi := c.esi
  edi := c.edi
  ebp := c.ebp
  esp := if c.cs.toUInt16.toNat % 4 ≠ 0 then c.esp else UInt32.ofNat (cpuNew + 64)
  eip := c.eip
  eflags := c.eflags
  cs := c.cs.toUInt16
  ds := c.ds.toUInt16
  es := c.es.toUInt16
  fs := c.fs.toUInt16
  gs := c.gs.toUInt16
  ss := if c.cs.toUInt16.toNat % 4 ≠ 0 then c.ss.toUInt16 else ss

section
variable {tss vector top st : Nat} {high : Nat → UInt16} {m m' : Mem} {r r' : Registers}
  {gate : Gate} {code : Option UInt32} {s : Stack}

/-- A pop where the words do not wrap around. -/
theorem pop_at {k : Nat} (h : st + k < 2 ^ 32) :
    Stack.pop ⟨m, (st + k) % 2 ^ 32⟩ = (readWord m (st + k), ⟨m, (st + (k + 4)) % 2 ^ 32⟩) := by
  rw [Stack.pop, Nat.mod_eq_of_lt h, readWord, Nat.add_assoc]

theorem ofNat_mod (n : Nat) : UInt32.ofNat (n % 2 ^ 32) = UInt32.ofNat n := by
  apply UInt32.toNat_inj.mp
  simp

/-- **What comes back from a frame.** -/
theorem leaveKernel_eq (h : st + 64 ≤ 2 ^ 32)
    (hout : (readCpu m st).cs.toUInt16.toNat % 4 ≠ 0 → st + 72 ≤ 2 ^ 32) :
    leaveKernel r m st = resumed (readCpu m st) st r.ss := by
  have hst : st = (st + 0) % 2 ^ 32 := by omega
  have h8 : ((st + 44) % 2 ^ 32 + 8) % 2 ^ 32 = (st + 52) % 2 ^ 32 := by omega
  have hpops : leaveKernel r m ((st + 0) % 2 ^ 32) = resumed (readCpu m st) st r.ss := by
    simp (disch := omega) only [leaveKernel, pop_at, h8, iret, Registers.cpl]
    by_cases hring : (readWord m (st + 56)).toUInt16.toNat % 4 = 0
    · -- the ring stays, and with it the stack
      simp only [resumed, readCpu, hring, ofNat_mod, ne_eq, not_true, if_false, Nat.reduceAdd,
        Nat.zero_add, Nat.add_zero]
    · have hlen : st + 72 ≤ 2 ^ 32 := hout hring
      simp (disch := omega) only [resumed, readCpu, hring, pop_at, ne_eq, not_false_eq_true,
        if_true, Nat.reduceAdd, Nat.zero_add, Nat.add_zero]
  rwa [← hst] at hpops

/-- The words pushed on the way into the kernel, in the order of the pushes. -/
def pushedWords (high : Nat → UInt16) (r : Registers) (vector : Nat) (code : Option UInt32) :
    List UInt32 :=
  interruptWords high r code ++ intrStub vector ++
    ([r.ebp, r.edi, r.esi, r.edx, r.ecx, r.ebx, r.eax] ++
      [selectorWord (high 2) r.gs, selectorWord (high 3) r.fs, selectorWord (high 4) r.es,
        selectorWord (high 5) r.ds])

variable (high r) in
/-- In memory they are the words of the frame. -/
theorem reverse_pushedWords (hcode : code.isSome ↔ HasCode vector) :
    (pushedWords high r vector code).reverse
      = (trapFrame high r vector code).words.take (frameLength r.cpl) := by
  have hstub : vector ∈ [8, 10, 11, 12, 13, 14, 17] ↔ HasCode vector := by simp [HasCode]
  cases code with
  | none =>
      have hzero : intrStub vector = [0, UInt32.ofNat vector] :=
        if_neg (fun h => by simpa using hcode.mpr (hstub.mp h))
      rw [pushedWords, interruptWords, hzero, frameLength]
      split <;> rfl
  | some e =>
      have hcpu : intrStub vector = [UInt32.ofNat vector] := if_pos (hstub.mpr (hcode.mp rfl))
      rw [pushedWords, interruptWords, hcpu, frameLength]
      split <;> rfl

theorem frameLength_le (cpl : Nat) : frameLength cpl ≤ 18 := by
  unfold frameLength
  split <;> omega

theorem sixteen_le_frameLength (cpl : Nat) : 16 ≤ frameLength cpl := by
  unfold frameLength
  split <;> omega

theorem length_pushedWords (hcode : code.isSome ↔ HasCode vector) :
    (pushedWords high r vector code).length = frameLength r.cpl := by
  have hle := frameLength_le r.cpl
  have h := congrArg List.length (reverse_pushedWords high r hcode)
  rw [List.length_reverse, List.length_take, Cpu.words_length] at h
  omega

variable (tss high m r vector code) in
/-- All pushes together. -/
theorem enterKernel_stack (gate : Gate) :
    (⟨(enterKernel tss high m r gate vector code).2,
      (enterKernel tss high m r gate vector code).1.esp.toNat⟩ : Stack)
      = (interruptStack tss m r).pushAll (pushedWords high r vector code) := by
  have hlt : ((interruptStack tss m r).pushAll (pushedWords high r vector code)).sp < 2 ^ 32 := by
    refine Stack.pushAll_sp_lt ?_ _
    unfold interruptStack
    split
    · exact load32_lt m _
    · exact r.esp.toNat_lt
  have hs := interrupt_stack tss high m r gate code
  rw [← Stack.ofNat_sp hlt]
  simp only [enterKernel, pushRegisters, hs, pushedWords, Stack.pushAll_append]
  rfl

variable (high) in
/-- **What goes into a frame.** The frame ends at `top`: at the stack pointer in the task state
segment when the ring changes, and at the stack pointer of the code itself when it does not. -/
theorem enterKernel_eq (gate : Gate) (hcode : code.isSome ↔ HasCode vector)
    (hsp : (if r.cpl ≠ 0 then load32 m (tss + 4) else r.esp.toNat) = top % 2 ^ 32)
    (htop : top ≤ 2 ^ 32) (hlen : 4 * frameLength r.cpl ≤ top) :
    (enterKernel tss high m r gate vector code).2
      = writeWords m (top - 4 * frameLength r.cpl)
          ((trapFrame high r vector code).words.take (frameLength r.cpl)) ∧
    (enterKernel tss high m r gate vector code).1.esp.toNat = top - 4 * frameLength r.cpl := by
  have hpos := sixteen_le_frameLength r.cpl
  have hs := enterKernel_stack tss vector high m r code gate
  rw [interruptStack, hsp, Stack.pushAll_eq htop (by rwa [length_pushedWords hcode]),
    length_pushedWords hcode, reverse_pushedWords high r hcode] at hs
  obtain ⟨hmem, hesp⟩ := Stack.mk.inj hs
  refine ⟨hmem, ?_⟩
  rw [hesp]
  omega

variable (high) in
/-- The words of the frame. -/
theorem enterKernel_word (gate : Gate) (hcode : code.isSome ↔ HasCode vector)
    (hsp : (if r.cpl ≠ 0 then load32 m (tss + 4) else r.esp.toNat) = top % 2 ^ 32)
    (htop : top ≤ 2 ^ 32) (hlen : 4 * frameLength r.cpl ≤ top) {k : Nat} {w : UInt32}
    (hk : k < frameLength r.cpl) (hget : (trapFrame high r vector code).words[k]? = some w) :
    load32 (enterKernel tss high m r gate vector code).2
      ((enterKernel tss high m r gate vector code).1.esp.toNat + 4 * k) = w.toNat := by
  obtain ⟨hmem, hesp⟩ := enterKernel_eq high gate hcode hsp htop hlen
  have htake : ((trapFrame high r vector code).words.take (frameLength r.cpl))[k]? = some w := by
    rw [List.getElem?_take_of_lt hk, hget]
  rw [hmem, hesp, load32_writeWords htake]

variable (high) in
/-- The vector in the frame. -/
theorem enterKernel_vector (gate : Gate) (hcode : code.isSome ↔ HasCode vector)
    (hsp : (if r.cpl ≠ 0 then load32 m (tss + 4) else r.esp.toNat) = top % 2 ^ 32)
    (htop : top ≤ 2 ^ 32) (hlen : 4 * frameLength r.cpl ≤ top) (hlt : vector < 2 ^ 32) :
    load32 (enterKernel tss high m r gate vector code).2
      ((enterKernel tss high m r gate vector code).1.esp.toNat + 44) = vector := by
  have hpos := sixteen_le_frameLength r.cpl
  have hword := enterKernel_word high gate hcode hsp htop hlen (by omega : 11 < frameLength r.cpl) rfl
  rw [hword, trapFrame, UInt32.toNat_ofNat', Nat.mod_eq_of_lt hlt]

variable (high) in
/-- `eax` in the frame. -/
theorem enterKernel_eax (gate : Gate) (hcode : code.isSome ↔ HasCode vector)
    (hsp : (if r.cpl ≠ 0 then load32 m (tss + 4) else r.esp.toNat) = top % 2 ^ 32)
    (htop : top ≤ 2 ^ 32) (hlen : 4 * frameLength r.cpl ≤ top) :
    readWord (enterKernel tss high m r gate vector code).2
      ((enterKernel tss high m r gate vector code).1.esp.toNat + 16) = r.eax := by
  have hpos := sixteen_le_frameLength r.cpl
  have hword := enterKernel_word high gate hcode hsp htop hlen (by omega : 4 < frameLength r.cpl) rfl
  rw [readWord, hword, UInt32.ofNat_toNat]
  rfl

/-! ## There and back -/

/-- The registers that come back from a frame which is as it was pushed, `eax` apart. -/
theorem resumed_of_words (hss : r.cpl = 0 → r.ss = 0x10)
    (hesp : r.cpl = 0 → UInt32.ofNat (st + 64) = r.esp)
    (hw : ∀ k w, k ≠ 4 → k < frameLength r.cpl →
      (trapFrame high r vector code).words[k]? = some w → readWord m (st + 4 * k) = w) :
    resumed (readCpu m st) st 0x10 = { r with eax := readWord m (st + 16) } := by
  have hlow : ∀ k w, k ≠ 4 → k < 16 → (trapFrame high r vector code).words[k]? = some w →
      readWord m (st + 4 * k) = w := by
    intro k w hne hk hget
    exact hw k w hne (lt_of_lt_of_le hk (sixteen_le_frameLength r.cpl)) hget
  have h₀ : readWord m st = _ := hlow 0 _ (by decide) (by decide) rfl
  have hcs : (readWord m (st + 56)).toUInt16 = r.cs := by
    rw [hlow 14 _ (by decide) (by decide) rfl]
    exact toUInt16_selectorWord _ _
  have hstack : (if r.cpl ≠ 0 then readWord m (st + 64) else UInt32.ofNat (st + 64)) = r.esp ∧
      (if r.cpl ≠ 0 then (readWord m (st + 68)).toUInt16 else 0x10) = r.ss := by
    by_cases hring : r.cpl = 0
    · simp only [hring, ne_eq, not_true, if_false]
      exact ⟨hesp hring, (hss hring).symm⟩
    · have hlen : frameLength r.cpl = 18 := if_pos hring
      simp only [ne_eq, hring, not_false_eq_true, if_true]
      rw [hw 16 _ (by decide) (by omega) rfl, hw 17 _ (by decide) (by omega) rfl]
      exact ⟨rfl, toUInt16_selectorWord _ _⟩
  have hcpl : r.cs.toNat % 4 = r.cpl := rfl
  simp only [resumed, readCpu, hcs, hcpl, hstack.1, hstack.2, h₀,
    hlow 1 _ (by decide) (by decide) rfl, hlow 2 _ (by decide) (by decide) rfl,
    hlow 3 _ (by decide) (by decide) rfl, hlow 5 _ (by decide) (by decide) rfl,
    hlow 6 _ (by decide) (by decide) rfl, hlow 7 _ (by decide) (by decide) rfl,
    hlow 8 _ (by decide) (by decide) rfl, hlow 9 _ (by decide) (by decide) rfl,
    hlow 10 _ (by decide) (by decide) rfl, hlow 13 _ (by decide) (by decide) rfl,
    hlow 15 _ (by decide) (by decide) rfl, trapFrame, toUInt16_selectorWord]

variable (high m') in
/-- **Nothing is lost on the way.** Whatever the kernel does to its own registers and to the rest
of the memory: if it goes back through the frame it was entered with, the interrupted code has
its registers again. Only `eax` may have been given a new value in the frame. -/
theorem leave_enter {k : Registers} (gate : Gate) (hcode : code.isSome ↔ HasCode vector)
    (hsp : (if r.cpl ≠ 0 then load32 m (tss + 4) else r.esp.toNat) = top % 2 ^ 32)
    (htop : top ≤ 2 ^ 32) (hlen : 4 * frameLength r.cpl ≤ top) (hss : r.cpl = 0 → r.ss = 0x10)
    (hk : k.ss = 0x10)
    (hst : (enterKernel tss high m r gate vector code).1.esp.toNat = st)
    (hbelow : AgreeOn (enterKernel tss high m r gate vector code).2 m' st 16)
    (habove : AgreeOn (enterKernel tss high m r gate vector code).2 m' (st + 20)
      (4 * frameLength r.cpl - 20)) :
    leaveKernel k m' st = { r with eax := readWord m' (st + 16) } := by
  obtain ⟨hmem, hesp⟩ := enterKernel_eq high gate hcode hsp htop hlen
  have hle := frameLength_le r.cpl
  have hsum : st + 4 * frameLength r.cpl = top := by omega
  -- every word of the frame but `eax` is as it was pushed
  have hw : ∀ k w, k ≠ 4 → k < frameLength r.cpl →
      (trapFrame high r vector code).words[k]? = some w → readWord m' (st + 4 * k) = w := by
    intro k w hne hk hget
    have hkeep : AgreeOn (enterKernel tss high m r gate vector code).2 m' (st + 4 * k) 4 := by
      rcases Nat.lt_or_gt_of_ne hne with h4 | h4
      · exact hbelow.mono (by omega) (by omega)
      · exact habove.mono (by omega) (by omega)
    have htake : ((trapFrame high r vector code).words.take (frameLength r.cpl))[k]? = some w := by
      rw [List.getElem?_take_of_lt hk, hget]
    rw [readWord, load32_congr hkeep, hmem, ← hesp, hst, load32_writeWords htake,
      UInt32.ofNat_toNat]
  have hesp₀ : r.cpl = 0 → UInt32.ofNat (st + 64) = r.esp := by
    intro hring
    rw [if_neg (fun h => h hring)] at hsp
    have hlen₀ : frameLength r.cpl = 16 := if_neg (fun h => h hring)
    have hend : st + 64 = top := by omega
    apply UInt32.toNat_inj.mp
    rw [hend, UInt32.toNat_ofNat', hsp]
  have hcs : (readCpu m' st).cs.toUInt16 = r.cs := by
    have hlt : 14 < frameLength r.cpl := lt_of_lt_of_le (by decide) (sixteen_le_frameLength r.cpl)
    have h := hw 14 _ (by decide) hlt rfl
    exact (congrArg UInt32.toUInt16 h).trans (toUInt16_selectorWord _ _)
  have hfit : st + 64 ≤ 2 ^ 32 := by
    have hpos := sixteen_le_frameLength r.cpl
    omega
  have hout : (readCpu m' st).cs.toUInt16.toNat % 4 ≠ 0 → st + 72 ≤ 2 ^ 32 := by
    intro hne
    rw [hcs] at hne
    have hlen₃ : frameLength r.cpl = 18 := if_pos hne
    omega
  rw [leaveKernel_eq hfit hout, hk]
  exact resumed_of_words hss hesp₀ hw

/-! ## Traps -/

/-- An interrupt with the descriptor table at `idt`: the stub behind the gate is the one of the
vector that is served. -/
def trap (tss idt : Nat) (high : Nat → UInt16) (m : Mem) (r : Registers) (source : Source)
    (vector : Nat) (code : UInt32) : Registers × Mem :=
  let (v, code) := arrive (fun v => readGate m (idt + 8 * v)) r.cpl source vector code
  enterKernel tss high m r (readGate m (idt + 8 * v)) v code

/-- The table is in memory. -/
def HasGates (m : Mem) (idt : Nat) (stub : Nat → UInt32) : Prop :=
  ∀ v < 256, readGate m (idt + 8 * v) = gateOf stub v

theorem arrive_congr {gate gate' : Nat → Gate} {cpl : Nat} {source : Source} {e : UInt32}
    (h : gate' vector = gate vector) :
    arrive gate' cpl source vector e = arrive gate cpl source vector e := by
  simp only [arrive, h]

theorem Arises.lt {cpl : Nat} {source : Source} (h : Arises cpl source vector) : vector < 256 := by
  cases source with
  | exception =>
      have : vector < 32 := h
      omega
  | device =>
      have : 32 ≤ vector ∧ vector ≤ 47 := h
      omega
  | software => exact h.1

variable (tss high) in
/-- A trap goes through the gate of the vector that is served. -/
theorem trap_eq {idt : Nat} {stub : Nat → UInt32} {source : Source} (e : UInt32)
    (hgates : HasGates m idt stub) (harise : Arises r.cpl source vector) :
    ∃ code : Option UInt32, (code.isSome ↔ HasCode (served source vector)) ∧
      trap tss idt high m r source vector e
        = enterKernel tss high m r (gateOf stub (served source vector)) (served source vector) code := by
  have hcpl : r.cpl ≤ 3 := Nat.le_of_lt_succ (Nat.mod_lt _ (by decide))
  obtain ⟨hv, hknown, hcode⟩ := arrive_served stub e hcpl harise
  have hlt : served source vector < 256 := by
    rcases hknown with h | h <;> omega
  refine ⟨(arrive (gateOf stub) r.cpl source vector e).2, hcode, ?_⟩
  simp only [trap]
  rw [arrive_congr (hgates vector harise.lt), hv, hgates _ hlt]

/-- The gates that are there lead to their stubs, in ring 0. -/
theorem gateOf_known {v : Nat} (stub : Nat → UInt32) (h : Known v) :
    (gateOf stub v).offset = (stub v).toNat ∧ (gateOf stub v).selector = 0x08 := by
  rcases h with h | ⟨hlo, hhi⟩
  · rw [gateOf_ringZero (Or.inl h)]
    exact ⟨rfl, rfl⟩
  · by_cases h48 : v = 48
    · rw [h48, gateOf_48]
      exact ⟨rfl, rfl⟩
    · rw [gateOf_ringZero (Or.inr ⟨hlo, by omega⟩)]
      exact ⟨rfl, rfl⟩

/-- **Traps are transparent.** Any exception, interrupt line or system call in any ring leads to
its stub, and the frame that `int_handler` gets bears a vector it knows and the `eax` that went in.
And whatever the kernel does to its own registers and to the rest of the memory: if it goes back
through that frame, the interrupted code has its registers again, but for what was put in the
frame's `eax`. -/
theorem trap_transparent {idt : Nat} {stub : Nat → UInt32} {source : Source} {e : UInt32}
    {r₁ : Registers} {m₁ : Mem} (hgates : HasGates m idt stub) (harise : Arises r.cpl source vector)
    (hsp : (if r.cpl ≠ 0 then load32 m (tss + 4) else r.esp.toNat) = top % 2 ^ 32)
    (htop : top ≤ 2 ^ 32) (hlen : 4 * frameLength r.cpl ≤ top) (hss : r.cpl = 0 → r.ss = 0x10)
    (htrap : trap tss idt high m r source vector e = (r₁, m₁)) :
    r₁.cpl = 0 ∧ r₁.eip = stub (served source vector) ∧
    load32 m₁ (r₁.esp.toNat + 44) = served source vector ∧ Known (served source vector) ∧
    readWord m₁ (r₁.esp.toNat + 16) = r.eax ∧
    (∀ x, x < r₁.esp.toNat ∨ top ≤ x → m₁ x = m x) ∧
    ∀ (k : Registers) (m₂ : Mem), k.ss = 0x10 → AgreeOn m₁ m₂ r₁.esp.toNat 16 →
      AgreeOn m₁ m₂ (r₁.esp.toNat + 20) (4 * frameLength r.cpl - 20) →
      leaveKernel k m₂ r₁.esp.toNat = { r with eax := readWord m₂ (r₁.esp.toNat + 16) } := by
  obtain ⟨code, hcode, heq⟩ := trap_eq tss high e hgates harise
  have hcpl : r.cpl ≤ 3 := Nat.le_of_lt_succ (Nat.mod_lt _ (by decide))
  have hknown := (arrive_served stub e hcpl harise).2.1
  obtain ⟨hoff, hsel⟩ := gateOf_known stub hknown
  obtain ⟨hmem, hesp⟩ := enterKernel_eq high (gateOf stub (served source vector)) hcode
    hsp htop hlen
  have hlt : served source vector < 2 ^ 32 := by
    rcases hknown with h | h <;> omega
  have hvector := enterKernel_vector high (gateOf stub (served source vector)) hcode
    hsp htop hlen hlt
  have heax := enterKernel_eax high (gateOf stub (served source vector)) hcode hsp htop hlen
  have hcs : (enterKernel tss high m r (gateOf stub (served source vector))
      (served source vector) code).1.cs = 0x08 :=
    (congrArg UInt16.ofNat hsel).trans rfl
  have heip : (enterKernel tss high m r (gateOf stub (served source vector))
      (served source vector) code).1.eip = UInt32.ofNat (gateOf stub (served source vector)).offset :=
    rfl
  rw [heq] at htrap
  simp only [htrap] at hmem hesp hcs heip hvector heax
  have hleave := fun k m₂ (hk : k.ss = 0x10) => leave_enter high m₂ (k := k)
    (gateOf stub (served source vector)) hcode hsp htop hlen hss hk rfl
  simp only [htrap] at hleave
  refine ⟨?_, ?_, hvector, hknown, heax, fun x hx => ?_, hleave⟩
  · rw [Registers.cpl, hcs]
    rfl
  · rw [heip, hoff, UInt32.ofNat_toNat]
  · have hlen₁ : ((trapFrame high r (served source vector) code).words.take
        (frameLength r.cpl)).length = frameLength r.cpl := by
      have := frameLength_le r.cpl
      rw [List.length_take, Cpu.words_length]
      omega
    rw [hmem]
    refine writeWords_of_outside ?_
    rw [hlen₁]
    omega

end

/-- A memory with the table at address 8 and a stack pointer in the task state segment. -/
def tableMemory : Mem :=
  store32 (initInterruptDescriptors (fun _ => 0) 0 8 (fun v => 0x100000 + UInt32.ofNat v)) 0x2004
    0x5000

theorem tableMemory_gates : HasGates tableMemory 8 (fun v => 0x100000 + UInt32.ofNat v) :=
  fun v hv => (readGate_congr (agreeOn_store32 (by omega))).trans
    (readGate_initInterruptDescriptors hv)

/-- The registers of a user process. -/
def userRegisters : Registers where
  eax := 1
  ebx := 2
  ecx := 3
  edx := 4
  esi := 5
  edi := 6
  ebp := 7
  esp := 0x8000
  eip := 0x40000000
  eflags := 0x202
  cs := 0x1B
  ds := 0x23
  es := 0x23
  fs := 0x23
  gs := 0x23
  ss := 0x23

/-- The keyboard interrupts a user process, which has all its registers again behind the frame. -/
theorem trap_transparent_keyboard : ∃ r₁ m₁,
    trap 0x2000 8 (fun _ => 0) tableMemory userRegisters .device 33 0 = (r₁, m₁) ∧
    load32 m₁ (r₁.esp.toNat + 44) = 33 ∧
    leaveKernel r₁ m₁ r₁.esp.toNat = userRegisters := by
  have hesp0 : load32 tableMemory (0x2000 + 4) = 0x5000 :=
    (load32_store32 _ 0x2004 0x5000).trans (by decide)
  have harise : Arises userRegisters.cpl .device 33 := ⟨by decide, by decide⟩
  have hsp : (if userRegisters.cpl ≠ 0 then load32 tableMemory (0x2000 + 4)
      else userRegisters.esp.toNat) = 0x5000 % 2 ^ 32 := by
    rw [if_pos (by decide), hesp0, Nat.mod_eq_of_lt (by decide)]
  generalize htrap : trap 0x2000 8 (fun _ => 0) tableMemory userRegisters .device 33 0 = trapped
  obtain ⟨r₁, m₁⟩ := trapped
  obtain ⟨-, -, hintr, -, heax, -, hleave⟩ := trap_transparent tableMemory_gates harise hsp
    (by decide) (by decide) (fun h => absurd h (by decide)) htrap
  have hss : r₁.ss = 0x10 := by
    rw [← (Prod.mk.inj htrap).1]
  have hback := hleave r₁ m₁ hss (AgreeOn.refl _ _ _) (AgreeOn.refl _ _ _)
  rw [heax] at hback
  exact ⟨r₁, m₁, rfl, hintr, hback⟩

end DayOS
