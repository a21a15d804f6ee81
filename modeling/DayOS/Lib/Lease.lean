import Mathlib.Logic.Function.Basic
import Mathlib.Data.List.Basic
import Mathlib.Tactic

set_option autoImplicit false

/-! # Leases

A table says who holds each of a number of lines. A line that nobody holds can be taken; its
holder can give it back, and a holder can be dropped, which frees all its lines. Between two
times that a line is taken, its holder has given it back or has been dropped
(`Run.released_between`).
-/

namespace Lease

variable {Line Owner : Type} [DecidableEq Line] [DecidableEq Owner]

/-- Who holds a line. -/
abbrev Table (Line Owner : Type) := Line → Option Owner

/-- The calls. -/
inductive Call (Line Owner : Type) where
  | take (l : Line) (o : Owner)
  | giveBack (l : Line) (o : Owner)
  | drop (o : Owner)

/-- Who calls, or is dropped. -/
def Call.owner : Call Line Owner → Owner
  | .take _ o => o
  | .giveBack _ o => o
  | .drop o => o

/-- Whether a call succeeds, and the table behind it. -/
def step (t : Table Line Owner) : Call Line Owner → Bool × Table Line Owner
  | .take l o => if t l = none then (true, Function.update t l (some o)) else (false, t)
  | .giveBack l o => if t l = some o then (true, Function.update t l none) else (false, t)
  | .drop o => (true, fun l => if t l = some o then none else t l)

/-- The calls so far, each with its result, and the table they have led to from one that nobody
holds a line of. -/
inductive Run : List (Call Line Owner × Bool) → Table Line Owner → Prop
  | start : Run [] (fun _ => none)
  | call {h : List (Call Line Owner × Bool)} {t : Table Line Owner} (c : Call Line Owner) :
      Run h t → Run (h ++ [(c, (step t c).1)]) (step t c).2

/-- The call ends that `o` holds `l`. -/
def Releases (l : Line) (o : Owner) (e : Call Line Owner × Bool) : Prop :=
  e = (.giveBack l o, true) ∨ e.1 = .drop o

variable {h h₁ h₂ h₃ : List (Call Line Owner × Bool)} {t : Table Line Owner} {l : Line}
  {o o' : Owner} {c : Call Line Owner}

/-! ## One call -/

theorem step_take : step t (.take l o)
    = if t l = none then (true, Function.update t l (some o)) else (false, t) := rfl

theorem step_giveBack : step t (.giveBack l o)
    = if t l = some o then (true, Function.update t l none) else (false, t) := rfl

theorem step_drop : step t (.drop o) = (true, fun l => if t l = some o then none else t l) := rfl

theorem step_take_true (hs : (step t (.take l o)).1 = true) :
    t l = none ∧ (step t (.take l o)).2 l = some o := by
  rw [step_take] at hs ⊢
  by_cases hl : t l = none
  · rw [if_pos hl]
    exact ⟨hl, Function.update_self _ _ _⟩
  · rw [if_neg hl] at hs
    cases hs

/-- Only the holder can give a line back. -/
theorem step_giveBack_true : (step t (.giveBack l o)).1 = true ↔ t l = some o := by
  rw [step_giveBack]
  split <;> simp_all

/-- Who holds a line keeps it, but for a release. -/
theorem step_holds (hl : t l = some o) (hc : ¬ Releases l o (c, (step t c).1)) :
    (step t c).2 l = some o := by
  cases c with
  | take k p =>
      rw [step_take]
      split
      case isTrue hk =>
          have hne : l ≠ k := by
            rintro rfl
            rw [hk] at hl
            cases hl
          exact (Function.update_of_ne hne _ _).trans hl
      case isFalse => exact hl
  | giveBack k p =>
      by_cases hk : t k = some p
      · have hne : l ≠ k := by
          rintro rfl
          -- the holder itself gives it back
          obtain rfl : o = p := Option.some.inj (hl.symm.trans hk)
          apply hc
          left
          rw [step_giveBack_true.mpr hk]
        rw [step_giveBack, if_pos hk]
        exact (Function.update_of_ne hne _ _).trans hl
      · rw [step_giveBack, if_neg hk]
        exact hl
  | drop p =>
      have hne : o ≠ p := by
        rintro rfl
        exact hc (Or.inr rfl)
      rw [step_drop]
      show (if t l = some p then none else t l) = some o
      rw [hl, if_neg (fun he => hne (Option.some.inj he))]

/-! ## Runs -/

/-- A run splits where its history does. -/
theorem Run.split {e : Call Line Owner × Bool} (hr : Run (h ++ [e]) t) :
    ∃ t₀, Run h t₀ ∧ e.2 = (step t₀ e.1).1 ∧ t = (step t₀ e.1).2 := by
  generalize hh : h ++ [e] = h' at hr
  cases hr with
  | start => exact absurd hh (by simp)
  | call c hr =>
      obtain ⟨rfl, he⟩ := List.append_inj' hh rfl
      obtain rfl := (List.cons.inj he).1
      exact ⟨_, hr, rfl, rfl⟩

/-- A line once taken is held, as long as there is no release. -/
theorem Run.held (hr : Run (h₁ ++ (.take l o, true) :: h₂) t) (hno : ∀ e ∈ h₂, ¬ Releases l o e) :
    t l = some o := by
  induction h₂ using List.reverseRecOn generalizing t with
  | nil =>
      obtain ⟨t₀, -, hs, rfl⟩ := hr.split
      exact (step_take_true hs.symm).2
  | append_singleton h₂ e ih =>
      rw [← List.cons_append, ← List.append_assoc] at hr
      obtain ⟨t₀, hr₀, hs, rfl⟩ := hr.split
      have hheld := ih hr₀ (fun e' he' => hno e' (List.mem_append_left _ he'))
      refine step_holds hheld ?_
      rw [← hs]
      exact hno e (List.mem_append_right _ (List.mem_singleton_self e))

/-- **Between two times a line is taken**, the first holder has given it back or been dropped. -/
theorem Run.released_between
    (hr : Run (h₁ ++ (.take l o, true) :: h₂ ++ (.take l o', true) :: h₃) t) :
    ∃ e ∈ h₂, Releases l o e := by
  induction h₃ using List.reverseRecOn generalizing t with
  | nil =>
      obtain ⟨t₀, hr₀, hs, -⟩ := hr.split
      by_contra hno
      have hheld := hr₀.held (fun e he hrel => hno ⟨e, he, hrel⟩)
      rw [(step_take_true hs.symm).1] at hheld
      cases hheld
  | append_singleton h₃ e ih =>
      rw [← List.cons_append, ← List.append_assoc] at hr
      obtain ⟨t₀, hr₀, -, -⟩ := hr.split
      exact ih hr₀

end Lease
