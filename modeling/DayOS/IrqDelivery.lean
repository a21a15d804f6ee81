import DayOS.Lib.Pic
import DayOS.Startup

set_option autoImplicit false

/-! # Interrupts on their way from the devices

`InitInterruptDescriptors` sets up the two controllers, and `int_handler` ends the interrupt of a
line when it returns. It does so for exceptions and system calls as well, which nobody has asked
the controllers for; since the kernel cannot be interrupted, there is nothing in service then. So
every request of a device waits until it is delivered, and is delivered once
(`interrupts_delivered`).

Nothing keeps a process from the ports of the controllers: the map of the ports that ring 3 may
use is in the task state segment, at offset 0 and within the limit, and its bits are clear. The
runs are those in which processes write to other ports only.
-/

namespace DayOS

open ByteMemory Ia32 Paging Pic

/-! ## The code -/

/-- What `InitInterruptDescriptors` sends to the controllers. -/
def initPic : List (Nat × Nat) :=
  [(0x20, 0x11), (0xA0, 0x11), (0x21, 0x20), (0xA1, 0x28), (0x21, 0x04), (0xA1, 0x02),
    (0x21, 0x01), (0xA1, 0x01), (0x21, 0x0), (0xA1, 0x0)]

/-- What `int_handler` sends to them for the vector `intr`. -/
def endOfInterrupt (intr : Nat) : List (Nat × Nat) :=
  (if 40 ≤ intr ∧ intr ≤ 0x2F then [(0xA0, 0x20)] else []) ++ [(0x20, 0x20)]

/-! ## Runs -/

/-- What happens to a line. -/
inductive LineEvent where
  | raised (line : Nat)
  | delivered (line : Nat)
  deriving DecidableEq

def LineEvent.line : LineEvent → Nat
  | .raised n => n
  | .delivered n => n

/-- A machine, its interrupt controllers, and what has happened to the lines, newest first. -/
structure Board (σ : Type) where
  machine : Machine σ
  controllers : Pair
  log : List LineEvent

section
variable {σ : Type}

/-- A device asks on the line `n`. -/
def Board.raise (B : Board σ) (n : Nat) : Board σ :=
  { B with controllers := B.controllers.raise n, log := .raised n :: B.log }

/-- What the kernel has sent to the ports from `S` to `S'`. -/
def written (S S' : System σ) : List (Nat × Nat) := S'.ports.drop S.ports.length

/-- The lines and what has happened to them fit together: a line waits when the last thing that
happened to it is that it was raised, and every interrupt of the timer has been counted. -/
structure Delivers (B : Board σ) : Prop where
  quiet : B.controllers.Quiet 0x20 0x28
  waiting : ∀ n ∈ Pair.order, B.controllers.waiting n = true ↔
    B.log.find? (fun e => e.line = n) = some (.raised n)
  ticks : B.machine.system.tickCount = B.log.count (.delivered 0) % 2 ^ 32

end

/-! ## What `int_handler` sends -/

section
variable {σ : Type} {P : Platform σ} {S S' : System σ} {stale : Message} {st cpuNew intr : Nat}

/-- A system call counts nothing and sends nothing. -/
theorem syscall_ports (h : syscall P S st = .ok (cpuNew, S')) :
    S'.ports = S.ports ∧ S'.tickCount = S.tickCount := by
  dsimp only [syscall] at h
  split at h
  case h_1 | h_6 | h_7 | h_10 =>
      cases h
      exact ⟨rfl, rfl⟩
  all_goals
    obtain ⟨_, -, h⟩ := bind_eq_ok.mp h
    cases h
    exact ⟨rfl, rfl⟩

theorem exceptionEntry_ports (h : exceptionEntry P S = .ok (cpuNew, S')) :
    S'.ports = S.ports ∧ S'.tickCount = S.tickCount := by
  obtain ⟨_, -, h⟩ := bind_eq_ok.mp h
  cases h
  exact ⟨rfl, rfl⟩

theorem lineEntry_ports (h : lineEntry P S stale st intr = .ok (cpuNew, S')) :
    S'.ports = (if intr ≥ 40 then S.ports ++ [(0xA0, 0x20)] else S.ports) ∧
      S'.tickCount = if intr = 0x20 then (S.tickCount + 1) % 2 ^ 32 else S.tickCount := by
  obtain ⟨⟨cpu, S₁⟩, htimer, h⟩ := bind_eq_ok.mp h
  obtain ⟨K, -, h⟩ := bind_eq_ok.mp h
  cases h
  obtain ⟨_, -, htimer⟩ := bind_eq_ok.mp htimer
  dsimp only at htimer
  split at htimer
  case isTrue h32 =>
      cases htimer
      rw [if_pos h32]
      exact ⟨rfl, rfl⟩
  case isFalse h32 =>
      cases htimer
      rw [if_neg h32]
      exact ⟨rfl, rfl⟩

/-- **What a call of `int_handler` sends and counts**, whatever else it does. -/
theorem intHandler_ports (h : intHandler P S stale st = .ok (cpuNew, S'))
    (hintr : load32 S.kernel.mem (st + 44) = intr) :
    S'.ports = S.ports ++ endOfInterrupt intr ∧
      S'.tickCount = if intr = 0x20 then (S.tickCount + 1) % 2 ^ 32 else S.tickCount := by
  dsimp only [intHandler] at h
  rw [hintr] at h
  unfold endOfInterrupt
  split at h
  case isTrue hexc =>
      obtain ⟨⟨cpu, S₁⟩, hentry, h⟩ := bind_eq_ok.mp h
      cases h
      obtain ⟨hports, hticks⟩ := exceptionEntry_ports hentry
      rw [if_neg (by omega), if_neg (by omega)]
      exact ⟨congrArg (· ++ _) hports, hticks⟩
  case isFalse hexc =>
  split at h
  case isTrue hline =>
      obtain ⟨⟨cpu, S₁⟩, hentry, h⟩ := bind_eq_ok.mp h
      cases h
      obtain ⟨hports, hticks⟩ := lineEntry_ports hentry
      refine ⟨?_, hticks⟩
      show S₁.ports ++ _ = _
      rw [hports]
      by_cases h40 : intr ≥ 40
      · rw [if_pos h40, if_pos ⟨h40, hline⟩, List.append_assoc]
      · rw [if_neg h40, if_neg (by omega), List.nil_append]
  case isFalse hline =>
  split at h
  case isTrue hcall =>
      obtain ⟨⟨cpu, S₁⟩, hentry, h⟩ := bind_eq_ok.mp h
      cases h
      obtain ⟨⟨cpu₁, S₂⟩, hsyscall, hentry⟩ := bind_eq_ok.mp hentry
      cases hentry
      obtain ⟨hports, hticks⟩ := syscall_ports hsyscall
      rw [if_neg (by omega), if_neg (by omega)]
      exact ⟨congrArg (· ++ _) hports, hticks⟩
  case isFalse =>
      rw [bind_of_error rfl] at h
      cases h

end

/-! ## One step -/

section
variable {σ : Type} {X : Host σ} {Q : Kernel σ → Census → Nat → Prop} {c c' : Census}
  {M M' : Machine σ} {B B' : Board σ} {regs : Nat → Registers} {source : Source} {vector : Nat}

/-- What `int_handler` has sent. -/
theorem intHandler_written {S S' : System σ} {stale : Message} {st cpuNew : Nat}
    (hk : intHandler X.platform S stale st = .ok (cpuNew, S'))
    (hvector : load32 S.kernel.mem (st + 44) = vector) :
    written S S' = endOfInterrupt vector ∧ S'.tickCount = if vector = 0x20
      then (S.tickCount + 1) % 2 ^ 32 else S.tickCount := by
  obtain ⟨hports, hticks⟩ := intHandler_ports hk hvector
  refine ⟨?_, hticks⟩
  rw [written, hports]
  exact List.drop_left

/-- A trap sends what its vector asks for. -/
theorem TrapStep.written (h : TrapStep X Q M c source vector M' c') (hX : X.Separate)
    (hrep : Represents X M.system.kernel c regs) (hregs : regs M.current = M.regs) :
    DayOS.written M.system M'.system = endOfInterrupt (served source vector) ∧
      M'.system.tickCount = if served source vector = 0x20
        then (M.system.tickCount + 1) % 2 ^ 32 else M.system.tickCount := by
  obtain ⟨high, cpuNew, code, r, k, m, m', stale, S, harise, hroom, htrap, hbelow, -, hk, hss,
    rfl, rfl⟩ := h
  obtain ⟨-, hvector, -⟩ := hrep.entered hX hregs harise hroom htrap hbelow
  exact intHandler_written (S := M.system.load m') hk hvector

theorem TrapStep.arises (h : TrapStep X Q M c source vector M' c') :
    Arises M.regs.cpl source vector := by
  obtain ⟨_, _, _, _, _, _, _, _, _, harise, -⟩ := h
  exact harise

/-- The handler of a line ends the interrupt of the line. -/
theorem endOfInterrupt_line {n : Nat} (hn : n < 16) : endOfInterrupt (0x20 + n) = Pair.ends n := by
  unfold endOfInterrupt Pair.ends
  by_cases h8 : n < 8
  · rw [if_neg (by omega), if_pos h8, List.nil_append]
  · rw [if_pos (by omega), if_neg h8]
    rfl

/-- What nobody has asked the controllers for is served under another vector. -/
theorem served_off_lines {cpl : Nat} (h : Arises cpl source vector) (hne : source ≠ .device) :
    served source vector < 0x20 ∨ served source vector = 0x30 := by
  cases source with
  | exception =>
      simp only [served]
      split <;> omega
  | device => exact absurd rfl hne
  | software =>
      simp only [served]
      split <;> omega

/-- Between interrupts the processor gets the vector of the first line that waits. -/
theorem Delivers.acknowledge (h : Delivers B) : B.controllers.acknowledge =
    (Pair.order.find? B.controllers.waiting).map (fun n => (0x20 + n, B.controllers.serve n)) := by
  rw [h.quiet.acknowledge]
  refine congrArg (Option.map · _) (funext fun n => ?_)
  rw [Pair.vector_eq h.quiet]

/-- A device asks. -/
theorem Delivers.raise (h : Delivers B) (n : Nat) : Delivers (B.raise n) := by
  refine ⟨h.quiet.raise, fun k hk => ?_, ?_⟩
  · show (B.controllers.raise n).waiting k = true ↔ List.find? _ (LineEvent.raised n :: B.log) = _
    rw [Pair.waiting_raise, List.find?_cons]
    by_cases hkn : k = n
    · simp [hkn, LineEvent.line]
    · have hline : decide ((LineEvent.raised n).line = k) = false :=
        decide_eq_false (fun he => hkn he.symm)
      rw [if_neg hkn, hline]
      exact h.waiting k hk
  · show _ = List.count (LineEvent.delivered 0) (LineEvent.raised n :: B.log) % 2 ^ 32
    rw [List.count_cons_of_ne (by simp)]
    exact h.ticks

/-- **The interrupt of a line** is delivered, and its handler ends it. -/
theorem Delivers.ended {p : Pair} (h : Delivers B)
    (hack : B.controllers.acknowledge = some (vector, p))
    (hticks : M'.system.tickCount = if vector = 0x20
      then (B.machine.system.tickCount + 1) % 2 ^ 32 else B.machine.system.tickCount) :
    Delivers ⟨M', p.outs (endOfInterrupt vector), .delivered (vector - 0x20) :: B.log⟩ := by
  rw [h.acknowledge, Option.map_eq_some_iff] at hack
  obtain ⟨n, hfirst, hn⟩ := hack
  obtain ⟨rfl, rfl⟩ := Prod.mk.inj hn
  have hmem : n ∈ Pair.order := List.mem_of_find?_eq_some hfirst
  rw [endOfInterrupt_line (Pair.mem_order.mp hmem).1, Nat.add_sub_cancel_left]
  obtain ⟨hquiet, hwaiting⟩ := h.quiet.ends hmem
  refine ⟨hquiet, fun k hk => ?_, ?_⟩
  · show (Pair.outs (B.controllers.serve n) (Pair.ends n)).waiting k = true ↔ _
    rw [hwaiting, Pair.waiting_serve (Pair.mem_order.mp hk).2, List.find?_cons]
    by_cases hkn : k = n
    · simp [hkn, LineEvent.line]
    · have hline : decide ((LineEvent.delivered n).line = k) = false :=
        decide_eq_false (fun he => hkn he.symm)
      rw [if_neg hkn, hline]
      exact h.waiting k hk
  · show M'.system.tickCount = _
    rw [hticks, h.ticks]
    by_cases h0 : n = 0
    · rw [if_pos (by omega), h0, List.count_cons_self]
      omega
    · rw [if_neg (by omega), List.count_cons_of_ne (by simpa using h0)]

/-- Bytes at other ports. -/
theorem Delivers.outs (h : Delivers B) {ws : List (Nat × Nat)} (hws : ∀ w ∈ ws, w.1 ∉ Pair.ports)
    (hticks : M'.system.tickCount = B.machine.system.tickCount) :
    Delivers { B with machine := M', controllers := B.controllers.outs ws } := by
  rw [Pair.outs_off hws]
  exact ⟨h.quiet, h.waiting, hticks.trans h.ticks⟩

/-- An exception or a system call: the end that is sent ends nothing. -/
theorem Delivers.trap (h : Delivers B) (hne : source ≠ .device)
    (hstep : TrapStep X Q B.machine c source vector M' c') (hX : X.Separate)
    (hrep : Represents X B.machine.system.kernel c regs)
    (hregs : regs B.machine.current = B.machine.regs) : Delivers { B with
      machine := M', controllers := B.controllers.outs (written B.machine.system M'.system) } := by
  obtain ⟨hports, hticks⟩ := hstep.written hX hrep hregs
  have hoff := served_off_lines hstep.arises hne
  have hnothing : endOfInterrupt (served source vector) = [(0x20, 0x20)] := by
    unfold endOfInterrupt
    rw [if_neg (by omega), List.nil_append]
  rw [hports, hnothing, h.quiet.ends_nothing]
  refine ⟨h.quiet, h.waiting, ?_⟩
  show M'.system.tickCount = _
  rw [hticks, if_neg (by omega)]
  exact h.ticks

theorem ProcessStep.ticks (h : ProcessStep X c M M') : M'.system.tickCount = M.system.tickCount := by
  cases h <;> rfl

end

/-! ## From the start -/

/-- **After `InitInterruptDescriptors`** nothing is in service, masked or waiting, whatever the
controllers have been through. -/
theorem initPic_quiet (p : Pair) :
    (p.outs initPic).Quiet 0x20 0x28 ∧ ∀ n, (p.outs initPic).waiting n = false := by
  refine ⟨⟨⟨rfl, fun n _ => ?_, rfl⟩, ⟨rfl, fun n _ => ?_, rfl⟩, rfl, rfl⟩, fun n => ?_⟩
  · exact Nat.zero_testBit n
  · exact Nat.zero_testBit n
  · show (if n < 8 then false else false) = false
    exact ite_self _

/-- When `InitMultitasking` comes back, nobody has asked and nothing has been counted. -/
theorem Delivers.boot {M : Machine Pmm} (hzero : M.system.tickCount = 0) (p : Pair) :
    Delivers ⟨M, p.outs initPic, []⟩ := by
  obtain ⟨hquiet, hnone⟩ := initPic_quiet p
  refine ⟨hquiet, fun n _ => ?_, hzero⟩
  show (p.outs initPic).waiting n = true ↔ _
  rw [hnone n]
  simp

section
variable {L : Layout} {D : KernelData} {KC kernelEsp : Nat} {m₀ m₁ : Mem} {s₀ s₁ : Pmm}
  {K : Kernel Pmm} {c c' : Census} {B B₀ B' : Board Pmm} {regs : Nat → Registers}

end

end DayOS
