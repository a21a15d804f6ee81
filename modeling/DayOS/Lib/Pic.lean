import Mathlib.Data.List.Find
import Mathlib.Data.List.Range
import Mathlib.Logic.Function.Basic

set_option autoImplicit false

/-! # A pair of 8259A interrupt controllers

A controller has eight lines. A request waits until the processor takes it; then it is in
service, and keeps its line and those behind it from interrupting, until the processor reports
the end of the interrupt. The second controller of a pair sits behind line 2 of the first one,
so there are fifteen lines, and `order` says which of them comes first.

Requests are edges, which are kept until they are taken, and the controllers are written to
through four ports. Automatic ends of interrupts, rotating priorities, special masks and polling
are left out: a program that does not ask for them does not see them.
-/

namespace Pic

/-- What a controller takes the next byte at its data port for. -/
inductive Expects where
  | mask
  | vector
  | cascade
  | mode
  deriving DecidableEq

/-- One controller. -/
structure Chip where
  requests : Nat → Bool
  inService : Nat → Bool
  masked : Nat → Bool
  base : Nat
  single : Bool
  hasMode : Bool
  expects : Expects

namespace Chip

/-- The first line with the property. -/
def first (P : Nat → Bool) : Option Nat := (List.range 8).find? P

/-- The line that interrupts: the first one that asks and is not masked, if it comes before all
lines in service. -/
def interrupts (c : Chip) : Option Nat :=
  (first (fun n => c.requests n && !c.masked n)).filter
    (fun n => (first c.inService).all (fun k => n < k))

/-- The processor takes the interrupt of a line. -/
def serve (c : Chip) (n : Nat) : Chip :=
  { c with
    requests := Function.update c.requests n false
    inService := Function.update c.inService n true }

/-- The end of the interrupt that came first. -/
def endOfInterrupt (c : Chip) : Chip :=
  match first c.inService with
  | none => c
  | some n => { c with inService := Function.update c.inService n false }

/-- A byte at the command port: the start of the initialisation, or the end of an interrupt. -/
def command (c : Chip) (v : Nat) : Chip :=
  if v.testBit 4 then
    { c with
      requests := fun _ => false, inService := fun _ => false, masked := fun _ => false
      single := v.testBit 1, hasMode := v.testBit 0, expects := .vector }
  else if v / 8 = 4 then c.endOfInterrupt
  else c

/-- A byte at the data port. -/
def data (c : Chip) (v : Nat) : Chip :=
  match c.expects with
  | .mask => { c with masked := v.testBit }
  | .vector =>
      { c with
        base := v / 8 * 8
        expects := if !c.single then .cascade else if c.hasMode then .mode else .mask }
  | .cascade => { c with expects := if c.hasMode then .mode else .mask }
  | .mode => { c with expects := .mask }

/-- No interrupt is in service. -/
def Idle (c : Chip) : Prop := first c.inService = none

/-- The controller has been initialised, and no line is masked. -/
structure Ready (c : Chip) (base : Nat) : Prop where
  base : c.base = base
  masked : ∀ n < 8, c.masked n = false
  expects : c.expects = .mask

end Chip

/-- The two controllers. -/
structure Pair where
  master : Chip
  slave : Chip

namespace Pair

/-- A byte at a port. -/
def outb (p : Pair) (w : Nat × Nat) : Pair :=
  match w.1 with
  | 0x20 => { p with master := p.master.command w.2 }
  | 0x21 => { p with master := p.master.data w.2 }
  | 0xA0 => { p with slave := p.slave.command w.2 }
  | 0xA1 => { p with slave := p.slave.data w.2 }
  | _ => p

/-- The ports of the two controllers. -/
def ports : List Nat := [0x20, 0x21, 0xA0, 0xA1]

/-- Bytes at the ports, one after the other. -/
def outs (p : Pair) (ws : List (Nat × Nat)) : Pair := ws.foldl outb p

/-- A device asks on a line. -/
def raise (p : Pair) (n : Nat) : Pair :=
  if n < 8 then { p with master := { p.master with
    requests := Function.update p.master.requests n true } }
  else { p with slave := { p.slave with
    requests := Function.update p.slave.requests (n - 8) true } }

/-- The first controller, with the second one behind line 2. -/
def wired (p : Pair) : Chip :=
  { p.master with
    requests := Function.update p.master.requests 2 p.slave.interrupts.isSome }

/-- The processor asks for a vector. -/
def acknowledge (p : Pair) : Option (Nat × Pair) :=
  match p.wired.interrupts with
  | none => none
  | some 2 => p.slave.interrupts.map
      (fun k => (p.slave.base + k, ⟨p.master.serve 2, p.slave.serve k⟩))
  | some n => some (p.master.base + n, { p with master := p.master.serve n })

/-! ## The lines of a pair -/

/-- The lines, in the order in which they are served. -/
def order : List Nat := [0, 1] ++ List.range' 8 8 ++ List.range' 3 5

/-- A line waits to be served. -/
def waiting (p : Pair) (n : Nat) : Bool :=
  if n < 8 then p.master.requests n else p.slave.requests (n - 8)

/-- The vector of a line. -/
def vector (p : Pair) (n : Nat) : Nat :=
  if n < 8 then p.master.base + n else p.slave.base + (n - 8)

/-- A line is served. -/
def serve (p : Pair) (n : Nat) : Pair :=
  if n < 8 then { p with master := p.master.serve n }
  else ⟨p.master.serve 2, p.slave.serve (n - 8)⟩

/-- What a handler writes to the ports at the end of the interrupt of a line. -/
def ends (n : Nat) : List (Nat × Nat) :=
  if n < 8 then [(0x20, 0x20)] else [(0xA0, 0x20), (0x20, 0x20)]

/-- **Between interrupts**: both controllers have been initialised, no line is masked, and nothing
is in service. -/
structure Quiet (p : Pair) (masterBase slaveBase : Nat) : Prop where
  master : p.master.Ready masterBase
  slave : p.slave.Ready slaveBase
  masterIdle : p.master.Idle
  slaveIdle : p.slave.Idle

end Pair

/-! ## One controller -/

section
variable {c : Chip} {n k b : Nat} {P Q : Nat → Bool}

namespace Chip

theorem first_eq_some : first P = some n ↔ n < 8 ∧ P n = true ∧ ∀ k < n, P k = false := by
  rw [first, List.find?_range_eq_some, List.mem_range]
  simp only [Bool.not_eq_true']
  tauto

theorem first_eq_none : first P = none ↔ ∀ n < 8, P n = false := by
  simp [first]

theorem first_congr (h : ∀ n < 8, P n = Q n) : first P = first Q :=
  List.find?_congr (fun n hn => h n (List.mem_range.mp hn))

theorem first_append : first P =
    ([0, 1].find? P).or (if P 2 then some 2 else (List.range' 3 5).find? P) := by
  have hsplit : List.range 8 = [0, 1] ++ ([2] ++ List.range' 3 5) := by decide
  rw [first, hsplit, List.find?_append, List.find?_append, List.find?_singleton]
  cases P 2 <;> rfl

/-- With nothing in service and no mask the first request interrupts. -/
theorem Ready.interrupts (h : c.Ready b) (hidle : c.Idle) : c.interrupts = first c.requests := by
  have hmask : first (fun n => c.requests n && !c.masked n) = first c.requests := by
    refine first_congr (fun n hn => ?_)
    rw [h.masked n hn, Bool.not_false, Bool.and_true]
  rw [Chip.interrupts, hmask, show first c.inService = none from hidle]
  cases first c.requests <;> rfl

theorem Ready.serve (h : c.Ready b) : (c.serve n).Ready b := ⟨h.base, h.masked, h.expects⟩

/-- The end of an interrupt changes what is in service, and nothing else. -/
theorem endOfInterrupt_eq (c : Chip) :
    c.endOfInterrupt = { c with inService := c.endOfInterrupt.inService } := by
  unfold endOfInterrupt
  cases first c.inService <;> rfl

theorem Ready.endOfInterrupt (h : c.Ready b) : c.endOfInterrupt.Ready b := by
  rw [endOfInterrupt_eq]
  exact ⟨h.base, h.masked, h.expects⟩

theorem requests_endOfInterrupt : c.endOfInterrupt.requests = c.requests := by
  rw [endOfInterrupt_eq]

/-- An end that ends nothing. -/
theorem Idle.endOfInterrupt_eq_self (h : c.Idle) : c.endOfInterrupt = c := by
  unfold endOfInterrupt
  rw [show first c.inService = none from h]

/-- **The only interrupt in service ends.** -/
theorem Idle.endOfInterrupt_serve (h : c.Idle) (hn : n < 8) : (c.serve n).endOfInterrupt.Idle := by
  have hnone := first_eq_none.mp h
  have hfirst : first (c.serve n).inService = some n := by
    refine first_eq_some.mpr ⟨hn, by simp only [Chip.serve, Function.update_self], fun k hk => ?_⟩
    exact (Function.update_of_ne (by omega) _ _).trans (hnone k (by omega))
  have hend : (c.serve n).endOfInterrupt.inService = Function.update (c.serve n).inService n false := by
    unfold endOfInterrupt
    rw [hfirst]
  refine first_eq_none.mpr (fun k hk => ?_)
  rw [hend]
  by_cases hkn : k = n
  · rw [hkn, Function.update_self]
  · rw [Function.update_of_ne hkn]
    exact (Function.update_of_ne hkn _ _).trans (hnone k hk)

end Chip

end

/-! ## The pair -/

section
variable {p : Pair} {n k b mb sb : Nat} {ws : List (Nat × Nat)}

namespace Pair

/-- Bytes at other ports do not reach the controllers. -/
theorem outb_off {w : Nat × Nat} (hw : w.1 ∉ ports) : p.outb w = p := by
  simp only [ports, List.mem_cons, List.not_mem_nil, or_false, not_or] at hw
  obtain ⟨h20, h21, hA0, hA1⟩ := hw
  unfold outb
  split
  · contradiction
  · contradiction
  · contradiction
  · contradiction
  · rfl

theorem outs_off (hws : ∀ w ∈ ws, w.1 ∉ ports) : p.outs ws = p := by
  induction ws with
  | nil => rfl
  | cons w ws ih =>
      rw [List.forall_mem_cons] at hws
      show (p.outb w).outs ws = p
      rw [outb_off hws.1, ih hws.2]

/-- A device that asks disturbs nobody. -/
theorem Quiet.raise (h : p.Quiet mb sb) : (p.raise n).Quiet mb sb := by
  unfold Pair.raise
  split
  · exact ⟨⟨h.master.base, h.master.masked, h.master.expects⟩, h.slave, h.masterIdle, h.slaveIdle⟩
  · exact ⟨h.master, ⟨h.slave.base, h.slave.masked, h.slave.expects⟩, h.masterIdle, h.slaveIdle⟩

theorem mem_order : n ∈ order ↔ n < 16 ∧ n ≠ 2 := by
  simp only [order, List.mem_append, List.mem_cons, List.not_mem_nil, or_false, List.mem_range'_1]
  omega

/-- After a line has asked it waits; for the others nothing has changed. -/
theorem waiting_raise : (p.raise n).waiting k = if k = n then true else p.waiting k := by
  unfold Pair.raise Pair.waiting
  by_cases hn : n < 8
  · rw [if_pos hn]
    by_cases hk : k < 8
    · rw [if_pos hk, if_pos hk]
      exact Function.update_apply ..
    · rw [if_neg hk, if_neg hk, if_neg (by omega)]
  · rw [if_neg hn]
    by_cases hk : k < 8
    · rw [if_pos hk, if_pos hk, if_neg (by omega)]
    · rw [if_neg hk, if_neg hk]
      refine (Function.update_apply ..).trans ?_
      by_cases hkn : k = n
      · rw [if_pos hkn, if_pos (by omega)]
      · rw [if_neg hkn, if_neg (by omega)]

/-- Serving a line takes its request, and no other one. -/
theorem waiting_serve (hk : k ≠ 2) : (p.serve n).waiting k = if k = n then false else p.waiting k := by
  unfold Pair.serve Pair.waiting
  by_cases hn : n < 8
  · rw [if_pos hn]
    by_cases hk8 : k < 8
    · rw [if_pos hk8, if_pos hk8]
      exact Function.update_apply ..
    · rw [if_neg hk8, if_neg hk8, if_neg (by omega)]
  · rw [if_neg hn]
    by_cases hk8 : k < 8
    · rw [if_pos hk8, if_pos hk8, if_neg (by omega)]
      exact Function.update_of_ne hk _ _
    · rw [if_neg hk8, if_neg hk8]
      refine (Function.update_apply ..).trans ?_
      by_cases hkn : k = n
      · rw [if_pos hkn, if_pos (by omega)]
      · rw [if_neg hkn, if_neg (by omega)]

/-- Line 2 of the first controller stands for the second one. -/
theorem Quiet.wired (h : p.Quiet mb sb) : p.wired.interrupts = ([0, 1].find? p.master.requests).or
    (if (Chip.first p.slave.requests).isSome then some 2
      else (List.range' 3 5).find? p.master.requests) := by
  have hready : p.wired.Ready mb := ⟨h.master.base, h.master.masked, h.master.expects⟩
  have hkept : ∀ l : List Nat, 2 ∉ l → l.find? p.wired.requests = l.find? p.master.requests :=
    fun l hl => List.find?_congr (fun n hn => Function.update_of_ne (ne_of_mem_of_not_mem hn hl) _ _)
  have htwo : p.wired.requests 2 = (Chip.first p.slave.requests).isSome := by
    simp only [Pair.wired, Function.update_self, h.slave.interrupts h.slaveIdle]
  rw [hready.interrupts h.masterIdle, Chip.first_append, hkept _ (by decide), hkept _ (by decide),
    htwo]

/-- **Between interrupts the first line that waits is served.** -/
theorem Quiet.acknowledge (h : p.Quiet mb sb) :
    p.acknowledge = (order.find? p.waiting).map (fun n => (p.vector n, p.serve n)) := by
  have hlow : ∀ l : List Nat, (∀ n ∈ l, n < 8) → l.find? p.waiting = l.find? p.master.requests :=
    fun l hl => List.find?_congr (fun n hn => if_pos (hl n hn))
  have hhigh : (List.range' 8 8).find? p.waiting = (Chip.first p.slave.requests).map (fun k => 8 + k) := by
    rw [List.range'_eq_map_range, List.find?_map]
    refine congrArg _ (List.find?_congr (fun k hk => ?_))
    show (if 8 + k < 8 then p.master.requests (8 + k) else p.slave.requests (8 + k - 8)) = _
    rw [if_neg (by omega), Nat.add_sub_cancel_left]
  have horder : order.find? p.waiting = (([0, 1].find? p.master.requests).or
      ((Chip.first p.slave.requests).map (fun k => 8 + k))).or
        ((List.range' 3 5).find? p.master.requests) := by
    rw [order, List.find?_append, List.find?_append, hlow [0, 1] (by decide), hhigh,
      hlow (List.range' 3 5) (by decide)]
  have hslave := h.slave.interrupts h.slaveIdle
  have hsmall : ∀ l : List Nat, (∀ n ∈ l, n < 8 ∧ n ≠ 2) → ∀ n, l.find? p.master.requests = some n →
      n < 8 ∧ n ≠ 2 := fun l hl n hn => hl n (List.mem_of_find?_eq_some hn)
  have hlast : ∀ n, n < 8 ∧ n ≠ 2 → p.wired.interrupts = some n →
      p.acknowledge = some (p.vector n, p.serve n) := fun n hn hi => by
    unfold Pair.acknowledge Pair.vector Pair.serve
    rw [hi, if_pos hn.1, if_pos hn.1]
    split
    · contradiction
    · rename_i heq
      exact absurd (Option.some.inj heq) hn.2
    · rename_i heq
      rw [Option.some.inj heq]
  have hwired := h.wired
  rw [horder]
  cases h₁ : [0, 1].find? p.master.requests with
  | some n =>
      rw [h₁] at hwired
      exact hlast n (hsmall _ (by decide) n h₁) hwired
  | none =>
      rw [h₁] at hwired
      cases h₂ : Chip.first p.slave.requests with
      | some k =>
          rw [h₂] at hwired hslave
          have hk : ¬ 8 + k < 8 := by omega
          simp only [Pair.acknowledge, hwired, hslave, Pair.vector, Pair.serve, if_neg hk,
            Nat.add_sub_cancel_left, Option.isSome_some, if_true, Option.none_or, Option.map_some,
            Option.some_or]
      | none =>
          rw [h₂] at hwired
          cases h₃ : (List.range' 3 5).find? p.master.requests with
          | some n =>
              rw [h₃] at hwired
              exact hlast n (hsmall _ (by decide) n h₃) hwired
          | none =>
              rw [h₃] at hwired
              simp only [Pair.acknowledge, hwired, Option.isSome_none, Option.none_or, Option.map_none,
                Bool.false_eq_true, if_false]

theorem vector_eq (h : p.Quiet b (b + 8)) : p.vector n = b + n := by
  unfold Pair.vector
  rw [h.master.base, h.slave.base]
  split <;> omega

/-- **The handler of a line ends its interrupt**, and takes no request. -/
theorem Quiet.ends (h : p.Quiet mb sb) (hn : n ∈ order) :
    ((p.serve n).outs (ends n)).Quiet mb sb ∧
      ∀ k, ((p.serve n).outs (ends n)).waiting k = (p.serve n).waiting k := by
  have hlt := mem_order.mp hn
  unfold Pair.ends Pair.serve
  by_cases hn : n < 8
  · rw [if_pos hn, if_pos hn]
    refine ⟨⟨h.master.serve.endOfInterrupt, h.slave, h.masterIdle.endOfInterrupt_serve hn,
      h.slaveIdle⟩, fun k => ?_⟩
    show (if k < 8 then (p.master.serve n).endOfInterrupt.requests k else _) = _
    rw [Chip.requests_endOfInterrupt]
    rfl
  · rw [if_neg hn, if_neg hn]
    refine ⟨⟨h.master.serve.endOfInterrupt, h.slave.serve.endOfInterrupt,
      h.masterIdle.endOfInterrupt_serve (by omega),
      h.slaveIdle.endOfInterrupt_serve (by omega)⟩, fun k => ?_⟩
    show (if k < 8 then (p.master.serve 2).endOfInterrupt.requests k
      else (p.slave.serve (n - 8)).endOfInterrupt.requests (k - 8)) = _
    rw [Chip.requests_endOfInterrupt, Chip.requests_endOfInterrupt]
    rfl

/-- A handler that nobody has asked for ends nothing. -/
theorem Quiet.ends_nothing (h : p.Quiet mb sb) : p.outs [(0x20, 0x20)] = p := by
  show { p with master := p.master.endOfInterrupt } = p
  rw [h.masterIdle.endOfInterrupt_eq_self]

end Pair

end

end Pic
