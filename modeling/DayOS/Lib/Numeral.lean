import Mathlib.Tactic
import Mathlib.Data.Nat.Digits.Lemmas

set_option autoImplicit false

/-! # Numerals

The numeral of `n` in base `b` is a list of digits, the most significant one first. It is the only
list of digits below `b` that has the value `n` and no leading zero (`isNumeral_iff`). Division
with remainder splits off its last digit (`numeral_step`), so a loop that divides by the base
writes it from its end.
-/

namespace Numeral

/-- The value of a list of digits, read from the left. -/
def value (b : Nat) (ds : List Nat) : Nat := ds.foldl (fun v d => b * v + d) 0

/-- The numeral of `n` in base `b`. -/
def numeral (b n : Nat) : List Nat := if n = 0 then [0] else (b.digits n).reverse

/-- `ds` is a numeral of `n` in base `b`, without leading zeros. -/
structure IsNumeral (b n : Nat) (ds : List Nat) : Prop where
  nonempty : ds ≠ []
  below : ∀ d ∈ ds, d < b
  leading : ds.head? = some 0 → ds = [0]
  value : value b ds = n

section
variable {b n d k : Nat} {ds : List Nat}

theorem value_snoc : value b (ds ++ [d]) = b * value b ds + d := by
  unfold value
  rw [List.foldl_append]
  rfl

/-- Reading from the left is reading the reversed list from its units. -/
theorem value_eq_ofDigits : value b ds = Nat.ofDigits b ds.reverse := by
  induction ds using List.reverseRecOn with
  | nil => rfl
  | append_singleton ds d ih =>
      rw [value_snoc, ih, List.reverse_append, List.reverse_singleton, List.singleton_append,
        Nat.ofDigits_cons]
      exact Nat.add_comm _ _

theorem isNumeral_numeral (hb : 1 < b) : IsNumeral b n (numeral b n) := by
  unfold numeral
  by_cases hn : n = 0
  · rw [if_pos hn]
    exact ⟨List.cons_ne_nil _ _, by simp; omega, fun _ => rfl, hn.symm⟩
  rw [if_neg hn]
  have hne : b.digits n ≠ [] := Nat.digits_ne_nil_iff_ne_zero.mpr hn
  refine ⟨by simpa using hne, fun d hd => ?_, fun hlead => ?_, ?_⟩
  · exact Nat.digits_lt_base hb (List.mem_reverse.mp hd)
  · have hlast : (b.digits n).getLast hne = 0 := by
      rw [List.head?_reverse, List.getLast?_eq_getLast_of_ne_nil hne] at hlead
      exact Option.some.inj hlead
    exact absurd hlast (Nat.getLast_digit_ne_zero b hn)
  · rw [value_eq_ofDigits, List.reverse_reverse]
    exact Nat.ofDigits_digits b n

/-- There is no other numeral. -/
theorem isNumeral_iff (hb : 1 < b) : IsNumeral b n ds ↔ ds = numeral b n := by
  constructor
  · rintro ⟨hne, hbelow, hlead, rfl⟩
    unfold numeral
    by_cases hzero : value b ds = 0
    · rw [if_pos hzero]
      refine hlead ?_
      rw [value_eq_ofDigits] at hzero
      have hall := Nat.digits_zero_of_eq_zero (by omega) hzero
      obtain ⟨d, rest, rfl⟩ := List.exists_cons_of_ne_nil hne
      exact congrArg some (hall d (by simp))
    · rw [if_neg hzero, value_eq_ofDigits, Nat.digits_ofDigits b hb, List.reverse_reverse]
      · exact fun d hd => hbelow d (List.mem_reverse.mp hd)
      · intro hne'
        rw [List.getLast_reverse]
        intro hhead
        have hds := hlead ((List.head?_eq_some_head hne).trans (congrArg some hhead))
        rw [hds] at hzero
        exact hzero rfl
  · rintro rfl
    exact isNumeral_numeral hb

theorem numeral_of_lt (hn : n < b) : numeral b n = [n] := by
  unfold numeral
  by_cases hzero : n = 0
  · rw [if_pos hzero, hzero]
  · rw [if_neg hzero, Nat.digits_of_lt b n hzero hn]
    rfl

/-- The last digit is the remainder, and the others are those of the quotient. -/
theorem numeral_step (hb : 1 < b) (hn : b ≤ n) :
    numeral b n = numeral b (n / b) ++ [n % b] := by
  have hquot : n / b ≠ 0 := (Nat.div_pos hn (by omega)).ne'
  unfold numeral
  rw [if_neg (by omega), if_neg hquot, Nat.digits_def' hb (by omega), List.reverse_cons]

/-- A number below `b ^ (k + 1)` has at most `k + 1` digits. -/
theorem length_numeral_le (hb : 1 < b) (hn : n < b ^ (k + 1)) :
    (numeral b n).length ≤ k + 1 := by
  unfold numeral
  split
  · exact Nat.succ_le_succ (Nat.zero_le k)
  · rw [List.length_reverse]
    exact (Nat.digits_length_le_iff hb n).mpr hn

end

end Numeral
