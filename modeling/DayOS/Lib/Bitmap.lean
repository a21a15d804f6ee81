import Mathlib.Tactic

set_option autoImplicit false

/-! # Sets of numbers as bits of words

Member `q` of the set is bit `q % w` of word `q / w`. Adding, removing and testing a member
each touch one word; `get_set`, `get_clear` and `probe_eq_zero` say what they do to the set.
The split into word and bit is injective, which is all the proofs need.
-/

namespace Bitmap

variable {w : Nat}

/-- Words of `w` bits, by their index. -/
abbrev Words (w : Nat) := Nat → BitVec w

/-- Is `q` a member? -/
def get (b : Words w) (q : Nat) : Bool := (b (q / w)).getLsbD (q % w)

/-- The word in which only the bit of `q` is set. -/
def bit (w q : Nat) : BitVec w := 1#w <<< (q % w)

/-- Add `q`. -/
def set (b : Words w) (q : Nat) : Words w := Function.update b (q / w) (b (q / w) ||| bit w q)

/-- Remove `q`. -/
def clear (b : Words w) (q : Nat) : Words w := Function.update b (q / w) (b (q / w) &&& ~~~bit w q)

variable {b : Words w} {q r : Nat}

theorem getLsbD_bit (hw : 0 < w) : (bit w q).getLsbD (r % w) = decide (r % w = q % w) := by
  have hr := Nat.mod_lt r hw
  rw [bit, BitVec.getLsbD_shiftLeft, BitVec.getLsbD_one]
  simp only [hr, decide_true, Bool.true_and, hw]
  by_cases hlt : r % w < q % w
  · simp [hlt, Nat.ne_of_lt hlt]
  · simp only [hlt, decide_false, Bool.not_false, Bool.true_and, decide_eq_decide]
    omega

/-- Word and bit together determine the number. -/
theorem eq_iff : r = q ↔ r / w = q / w ∧ r % w = q % w := by
  refine ⟨fun h => by rw [h]; exact ⟨rfl, rfl⟩, fun ⟨h₁, h₂⟩ => ?_⟩
  rw [← Nat.div_add_mod r w, ← Nat.div_add_mod q w, h₁, h₂]

theorem get_set (hw : 0 < w) : get (set b q) r = (decide (r = q) || get b r) := by
  have hiff : r = q ↔ r / w = q / w ∧ r % w = q % w := eq_iff
  by_cases hword : r / w = q / w
  · simp only [get, set, hword, Function.update_self, BitVec.getLsbD_or, getLsbD_bit hw]
    rw [Bool.or_comm]
    congr 1
    simp [hiff, hword]
  · simp [get, set, hiff, hword]

theorem get_clear (hw : 0 < w) : get (clear b q) r = (!decide (r = q) && get b r) := by
  have hiff : r = q ↔ r / w = q / w ∧ r % w = q % w := eq_iff
  by_cases hword : r / w = q / w
  · have hr := Nat.mod_lt r hw
    simp only [get, clear, hword, Function.update_self, BitVec.getLsbD_and, BitVec.getLsbD_not,
      getLsbD_bit hw, hr, decide_true, Bool.true_and]
    rw [Bool.and_comm]
    congr 2
    simp [hiff, hword]
  · simp [get, clear, hiff, hword]

/-- Masking a word with the bit of `q` gives zero exactly when `q` is no member. -/
theorem probe_eq_zero (hw : 0 < w) : b (q / w) &&& bit w q = 0 ↔ get b q = false := by
  constructor
  · intro h
    have hbit := congrArg (fun v => v.getLsbD (q % w)) h
    simpa [getLsbD_bit hw, get] using hbit
  · intro h
    refine BitVec.eq_of_getLsbD_eq (fun i hi => ?_)
    have hq : (bit w q).getLsbD i = decide (i = q % w) := by
      have := getLsbD_bit (q := q) (r := i) hw
      rwa [Nat.mod_eq_of_lt hi] at this
    have hzero : (0 : BitVec w).getLsbD i = false := BitVec.getLsbD_zero
    rw [BitVec.getLsbD_and, hq, hzero]
    by_cases hiq : i = q % w
    · subst hiq
      simpa [get] using h
    · simp [hiq]

@[simp] theorem get_zero : get (fun _ => 0#w) q = false := by simp [get]

end Bitmap
