import DayOS.Pmm

set_option autoImplicit false

/-! # Runs of the page allocator

A run takes pages with `pmm_alloc` and `pmm_alloc_start` and gives back, with `pmm_free`, pages
it holds. The ghost list `out` of `PmmRun` holds the pages handed out and not yet freed; the
run theorem says that the bitmap is the one at the start with exactly these pages added.
-/

namespace DayOS

/-- Whether an allocation from `start` on that returned `p` handed out a page. The address of
page 0 is the null pointer, so there the returned value alone does not tell. -/
def HandsOut (s : Pmm) (start p : Nat) : Prop := p ≠ NULL ∨ (start = 0 ∧ ¬ s.Used 0)

instance (s : Pmm) (start p : Nat) : Decidable (HandsOut s start p) :=
  inferInstanceAs (Decidable (_ ∨ _))

/-- The pages handed out after an allocation that returned `p`. -/
def handOut (s : Pmm) (start p : Nat) (out : List Nat) : List Nat :=
  if HandsOut s start p then p / 0x1000 :: out else out

/-- The states a run from `s₀` reaches, with the pages it holds there. -/
inductive PmmRun (s₀ : Pmm) : Pmm → List Nat → Prop
  | start : PmmRun s₀ s₀ []
  | alloc {s s' : Pmm} {out : List Nat} {start endAddr p : Nat} :
      PmmRun s₀ s out → start % 0x1000 = 0 → start < endAddr → endAddr ≤ 0xFFFFF000 →
      pmmAlloc s start endAddr = some (p, s') → PmmRun s₀ s' (handOut s start p out)
  | allocStart {s s' : Pmm} {out : List Nat} {start p : Nat} :
      PmmRun s₀ s out → 0x1000 ≤ start → start < 2 ^ 32 →
      pmmAllocStart s start = (p, s') → PmmRun s₀ s' (handOut s start p out)
  | free {s : Pmm} {out : List Nat} {q : Nat} :
      PmmRun s₀ s out → q ∈ out → PmmRun s₀ (pmmFree s (0x1000 * q)) (out.erase q)

/-- The bitmap of `s` is that of `s₀` and the pages `out`, which were free there. -/
structure Holds (s₀ s : Pmm) (out : List Nat) : Prop where
  used : ∀ q, s.Used q ↔ s₀.Used q ∨ q ∈ out
  fresh : ∀ q ∈ out, ¬ s₀.Used q
  nodup : out.Nodup

section
variable {s₀ s s' : Pmm} {out : List Nat} {q start p : Nat}

theorem use_page : (use s (0x1000 * q)).Used p ↔ p = q ∨ s.Used p := by
  rw [used_use, Nat.mul_div_cancel_left q (by decide)]

theorem pmmFree_page : (pmmFree s (0x1000 * q)).Used p ↔ p ≠ q ∧ s.Used p := by
  rw [used_pmmFree, Nat.mul_div_cancel_left q (by decide)]

theorem Holds.init : Holds s₀ s₀ [] := ⟨by simp, by simp, List.nodup_nil⟩

theorem Holds.take (h : Holds s₀ s out) (hq : ¬ s.Used q) :
    Holds s₀ (use s (0x1000 * q)) (q :: out) := by
  have hout : q ∉ out := fun hmem => hq ((h.used q).mpr (Or.inr hmem))
  have hfree : ¬ s₀.Used q := fun hu => hq ((h.used q).mpr (Or.inl hu))
  refine ⟨fun r => ?_, ?_, List.nodup_cons.mpr ⟨hout, h.nodup⟩⟩
  · rw [use_page, h.used r, List.mem_cons]
    tauto
  · exact List.forall_mem_cons.mpr ⟨hfree, h.fresh⟩

theorem Holds.give (h : Holds s₀ s out) (hq : q ∈ out) :
    Holds s₀ (pmmFree s (0x1000 * q)) (out.erase q) := by
  refine ⟨fun r => ?_, fun r hr => h.fresh r (List.mem_of_mem_erase hr), h.nodup.erase q⟩
  rw [pmmFree_page, h.used r, h.nodup.mem_erase_iff]
  constructor
  · rintro ⟨hne, hu | hmem⟩
    · exact Or.inl hu
    · exact Or.inr ⟨hne, hmem⟩
  · rintro (hu | ⟨hne, hmem⟩)
    · exact ⟨fun he => h.fresh q hq (he ▸ hu), Or.inl hu⟩
    · exact ⟨hne, Or.inr hmem⟩

/-- An allocation hands out a page exactly when it takes one. -/
theorem handOut_page (h0 : q = 0 → start = 0) (hfree : ¬ s.Used q) :
    handOut s start (0x1000 * q) out = q :: out := by
  have hands : HandsOut s start (0x1000 * q) := by
    by_cases hq : q = 0
    · subst hq
      exact Or.inr ⟨h0 rfl, hfree⟩
    · exact Or.inl (Nat.mul_ne_zero (by decide) hq)
  rw [handOut, if_pos hands, Nat.mul_div_cancel_left q (by decide)]

theorem handOut_null (h : start = 0 → s.Used 0) : handOut s start NULL out = out := by
  rw [handOut, if_neg]
  rintro (hne | ⟨h0, hfree⟩)
  · exact hne rfl
  · exact hfree (h h0)

theorem PmmRun.holds (h : PmmRun s₀ s out) : Holds s₀ s out := by
  induction h with
  | start => exact Holds.init
  | @alloc s s' out start endAddr p _ hal hlt hend he ih =>
      rcases pmmAlloc_spec s hal hlt hend with ⟨q, hq, hs⟩ | ⟨hq, hs⟩
      · obtain ⟨rfl, rfl⟩ := Prod.mk.inj (Option.some.inj (he.symm.trans hs))
        rw [handOut_page (fun h0 => by have := hq.mem.1; omega) hq.free]
        exact ih.take hq.free
      · obtain ⟨rfl, rfl⟩ := Prod.mk.inj (Option.some.inj (he.symm.trans hs))
        rw [handOut_null (fun h0 => hq 0 (by omega) (by omega))]
        exact ih
  | @allocStart s s' out start p _ hge hlt he ih =>
      rcases pmmAllocStart_spec s start with ⟨q, hq, hs⟩ | ⟨hq, hs⟩
      · obtain ⟨rfl, rfl⟩ := Prod.mk.inj (he.symm.trans hs)
        rw [handOut_page (fun h0 => by have := hq.mem.1; omega) hq.free]
        exact ih.take hq.free
      · obtain ⟨rfl, rfl⟩ := Prod.mk.inj (he.symm.trans hs)
        rw [handOut_null (fun h0 => by omega)]
        exact ih
  | free _ hq ih => exact ih.give hq

/-- What one allocation over the pages `P` returns and leaves behind: the lowest free page,
now in use and not held before, or nothing when all of `P` is in use. -/
def Allocates (P : Nat → Prop) (s : Pmm) (out : List Nat) (p : Nat) (s' : Pmm) : Prop :=
  (∃ q, s.Lowest P q ∧ q ∉ out ∧ p = 0x1000 * q ∧ ∀ r, s'.Used r ↔ r = q ∨ s.Used r) ∨
  (∀ q, P q → s.Used q) ∧ p = NULL ∧ s' = s

theorem Holds.allocates {P : Nat → Prop} (h : Holds s₀ s out)
    (hspec : (∃ q, s.Lowest P q ∧ p = 0x1000 * q ∧ s' = use s (0x1000 * q)) ∨
      (∀ q, P q → s.Used q) ∧ p = NULL ∧ s' = s) : Allocates P s out p s' := by
  rcases hspec with ⟨q, hq, rfl, rfl⟩ | hnone
  · exact Or.inl ⟨q, hq, fun hmem => hq.free ((h.used q).mpr (Or.inr hmem)), rfl,
      fun r => use_page⟩
  · exact Or.inr hnone

/-- **Physical page allocator.** In every state a run reaches, from any bitmap, both
allocators return the lowest free page of their range or find that there is none, freeing a
page held makes exactly this page free, the pages held are distinct and were free at the
start, and no other page has changed. -/
theorem page_allocator (s₀ : Pmm) {s : Pmm} {out : List Nat} (h : PmmRun s₀ s out) :
    (∀ start endAddr, start % 0x1000 = 0 → start < endAddr → endAddr ≤ 0xFFFFF000 →
      ∃ p s', pmmAlloc s start endAddr = some (p, s') ∧
        Allocates (fun q => start ≤ 0x1000 * q ∧ 0x1000 * q < endAddr) s out p s') ∧
    (∀ start, 0x1000 ≤ start → start < 2 ^ 32 → ∃ p s', pmmAllocStart s start = (p, s') ∧
      Allocates (fun q => start / 0x1000 ≤ q ∧ q < 2 ^ 20) s out p s') ∧
    (∀ q ∈ out, ∀ r, (pmmFree s (0x1000 * q)).Used r ↔ r ≠ q ∧ s.Used r) ∧
    out.Nodup ∧ (∀ q ∈ out, ¬ s₀.Used q) ∧ ∀ q, s.Used q ↔ s₀.Used q ∨ q ∈ out := by
  have hs := h.holds
  refine ⟨fun start endAddr hal hlt hend => ?_, fun start hge hlt => ?_, fun q _ r => pmmFree_page,
    hs.nodup, hs.fresh, hs.used⟩
  · rcases pmmAlloc_spec s hal hlt hend with ⟨q, hq, he⟩ | ⟨hq, he⟩
    · exact ⟨_, _, he, hs.allocates (Or.inl ⟨q, hq, rfl, rfl⟩)⟩
    · exact ⟨_, _, he, hs.allocates (Or.inr ⟨fun q hin => hq q hin.1 hin.2, rfl, rfl⟩)⟩
  · rcases pmmAllocStart_spec s start with ⟨q, hq, he⟩ | ⟨hq, he⟩
    · exact ⟨_, _, he, hs.allocates (Or.inl ⟨q, hq, rfl, rfl⟩)⟩
    · exact ⟨_, _, he, hs.allocates (Or.inr ⟨fun q hin => hq q hin.1 hin.2, rfl, rfl⟩)⟩

end

/-- The allocator over an empty bitmap, after it has taken page 1. -/
theorem page_allocator_first :
    (use ⟨fun _ => 0, 0, 0⟩ 0x1000).Used 1 ∧ ∀ q ∈ [1], ¬ (⟨fun _ => 0, 0, 0⟩ : Pmm).Used q := by
  have hempty : ∀ q, ¬ (⟨fun _ => 0, 0, 0⟩ : Pmm).Used q := by simp [Pmm.Used, Bitmap.get_zero]
  have hrun : PmmRun ⟨fun _ => 0, 0, 0⟩ (use ⟨fun _ => 0, 0, 0⟩ 0x1000) [1] := by
    rcases pmmAllocStart_spec ⟨fun _ => 0, 0, 0⟩ 0x1000 with ⟨q, hq, he⟩ | ⟨hq, -⟩
    · have hq1 : q = 1 := by
        have := hq.mem.1
        by_contra hne
        exact hempty 1 (hq.least 1 (by omega) ⟨by decide, by decide⟩)
      subst hq1
      exact PmmRun.allocStart PmmRun.start (by decide) (by decide) he
    · exact absurd (hq 1 (by decide) (by decide)) (hempty 1)
  obtain ⟨-, -, -, -, hfresh, hused⟩ := page_allocator _ hrun
  exact ⟨(hused 1).mpr (Or.inr (by simp)), hfresh⟩

end DayOS
