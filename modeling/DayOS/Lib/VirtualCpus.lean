import Mathlib.Logic.Function.Basic
import Mathlib.Data.List.Basic
import Mathlib.Logic.Relation

set_option autoImplicit false

/-! # Processors of their own

Processes that take turns on one processor, seen as processes with a processor each. The one
that runs changes its registers and no others; the turn passes on, a new process comes in with
registers of its own, or the one that runs ends. So a process finds its registers, when it gets
the turn again, as it has left them (`Waits.regs_eq`).
-/

namespace VirtualCpus

variable {P R : Type} [DecidableEq P]

/-- The processes there are, the registers of each, and who runs. -/
structure State (P R : Type) where
  alive : List P
  regs : P → R
  running : P

/-- One step. -/
inductive Step : State P R → State P R → Prop
  | run {s : State P R} (r : R) : Step s { s with regs := Function.update s.regs s.running r }
  | turn {s : State P R} {q : P} : q ∈ s.alive → Step s { s with running := q }
  | birth {s : State P R} {p : P} (r : R) : p ∉ s.alive →
      Step s { s with alive := p :: s.alive, regs := Function.update s.regs p r }
  | death {s : State P R} {q : P} : q ∈ s.alive → q ≠ s.running →
      Step s { s with alive := s.alive.erase s.running, running := q }

/-- Any number of steps. -/
abbrev Steps : State P R → State P R → Prop := Relation.ReflTransGen Step

/-- Any number of steps that others make. -/
abbrev Waits (p : P) : State P R → State P R → Prop :=
  Relation.ReflTransGen (fun s s' => Step s s' ∧ p ∈ s.alive ∧ s.running ≠ p)

variable {s s' : State P R} {p : P}

/-- A step that passes the turn on changes no registers. -/
theorem Step.regs_eq_of_ne (h : Step s s') (hne : s'.running ≠ s.running) : s'.regs = s.regs := by
  cases h with
  | run r => exact absurd rfl hne
  | turn hq => rfl
  | birth r hb => exact absurd rfl hne
  | death hq hqne => rfl

/-- Who waits is not ended by others. -/
theorem Step.alive (h : Step s s') (hp : p ∈ s.alive) (hne : s.running ≠ p) : p ∈ s'.alive := by
  cases h with
  | run r => exact hp
  | turn hq => exact hp
  | birth r hb => exact List.mem_cons_of_mem _ hp
  | death hq hqne => exact (List.mem_erase_of_ne hne.symm).mpr hp

end VirtualCpus
