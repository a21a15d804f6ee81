import DayOS.Pmm

set_option autoImplicit false

/-! # The loops over the memory map (`pmm.c`)

Base and length of an entry have 64 bits, the cursor of its loop has 32. A region that starts at
4 GB or above is cut to one below, and its pages are freed there; where the cut end lies in the
last page, the cursor wraps around and the loop never ends. `region_loops` says for which
memory maps neither happens.
-/

namespace DayOS

/-- The loop over `r` turns the page `q` from used to free. -/
def MultibootMmap.Frees (r : MultibootMmap) (q : Nat) : Prop :=
  ∃ s s', freeRegion s r = .ok s' ∧ s.Used q ∧ ¬ s'.Used q

/-- The page `q` and the region have a byte in common. -/
def MultibootMmap.Meets (r : MultibootMmap) (q : Nat) : Prop :=
  ∃ x, x / 0x1000 = q ∧ r.base ≤ x ∧ x < r.base + r.length

/-- `InitPmm` gets to its end, and frees no page outside the region at hand. -/
structure RegionsRight (L : Layout) (info : MultibootInfo) : Prop where
  ends : ∃ s, initPmm L info = .ok s
  inside : ∀ r ∈ info.mmap, ∀ q, r.Frees q → r.Meets q

/-- Cut to 32 bits, a usable region is empty; or it starts below 4 GB, and its end can be passed
by a cursor that keeps the offset of the base in its page. -/
def MultibootMmap.Sound (r : MultibootMmap) : Prop :=
  r.type = 1 → (r.base % 2 ^ 32 + r.length) % 2 ^ 32 ≤ r.base % 2 ^ 32 ∨
    (r.base < 2 ^ 32 ∧ (r.base % 2 ^ 32 + r.length) % 2 ^ 32 ≤ 0xFFFFF000 + r.base % 0x1000)

section
variable {L : Layout} {info : MultibootInfo} {r : MultibootMmap} {q : Nat}

/-- A bitmap in which every page is used. -/
def fullPmm : Pmm := ⟨fun _ => BitVec.allOnes 32, 0, 0⟩

theorem used_fullPmm : fullPmm.Used q := by
  unfold Pmm.Used Bitmap.get fullPmm
  rw [BitVec.getLsbD_allOnes]
  exact decide_eq_true (Nat.mod_lt _ (by decide))

/-- A loop that ends frees the pages of its cursors. -/
theorem MultibootMmap.frees_iff (h : r.LoopStops) :
    r.Frees q ↔ ∃ x ∈ r.cursors, q = x / 0x1000 := by
  constructor
  · rintro ⟨s, s', hs, hused, hfree⟩
    rw [freeRegion_eq s h] at hs
    cases hs
    rw [used_foldl_pmmFree] at hfree
    by_contra hnone
    push Not at hnone
    exact hfree ⟨hused, hnone⟩
  · rintro ⟨x, hx, rfl⟩
    refine ⟨fullPmm, _, freeRegion_eq _ h, used_fullPmm, fun hused => ?_⟩
    exact (used_foldl_pmmFree.mp hused).2 x hx rfl

theorem MultibootMmap.Sound.loopStops (h : r.Sound) : r.LoopStops := by
  intro h1
  unfold DayOS.LoopStops
  have hoffset : r.base % 2 ^ 32 % 0x1000 = r.base % 0x1000 := Nat.mod_mod_of_dvd _ (by decide)
  rw [hoffset]
  rcases h h1 with hempty | ⟨-, hend⟩
  · exact Or.inl hempty
  · exact Or.inr hend

/-- The pages freed below 4 GB lie in a region that starts there. -/
theorem MultibootMmap.Sound.meets (h : r.Sound) (hfrees : r.Frees q) : r.Meets q := by
  obtain ⟨x, hx, rfl⟩ := (r.frees_iff h.loopStops).mp hfrees
  unfold MultibootMmap.cursors at hx
  split at hx
  case isFalse => cases hx
  case isTrue h1 =>
      obtain ⟨hle, hlt, -⟩ := mem_cursors.mp hx
      rcases h h1 with hempty | ⟨hbase, -⟩
      · omega
      · rw [Nat.mod_eq_of_lt hbase] at hle hlt
        have hsum : (r.base + r.length) % 2 ^ 32 ≤ r.base + r.length := Nat.mod_le _ _
        exact ⟨x, rfl, hle, by omega⟩

theorem MultibootMmap.LoopStops.sound (h : r.LoopStops) (hmeets : ∀ q, r.Frees q → r.Meets q) :
    r.Sound := by
  intro h1
  by_cases hempty : (r.base % 2 ^ 32 + r.length) % 2 ^ 32 ≤ r.base % 2 ^ 32
  · exact Or.inl hempty
  · have hmem : r.base % 2 ^ 32 ∈ r.cursors := by
      unfold MultibootMmap.cursors
      rw [if_pos h1]
      exact mem_cursors.mpr ⟨le_rfl, not_le.mp hempty, rfl⟩
    -- the page of the cut base is freed first
    obtain ⟨x, hx, hbase, -⟩ := hmeets _ ((r.frees_iff h).mpr ⟨_, hmem, rfl⟩)
    have hend := (h h1).resolve_left hempty
    exact Or.inr ⟨by omega, by omega⟩

/-- **The loops over the memory map.** `InitPmm` ends, and frees pages of the region at hand
only, if and only if every usable region either is empty when cut to 32 bits, or starts below
4 GB and does not end in the last page behind the offset of its base; and no module ends there. -/
theorem region_loops (hmin : MIN_MEMORY < info.memUpper / 1024 + 1) (hw : info.Words) :
    RegionsRight L info ↔
      (∀ r ∈ info.mmap, r.Sound) ∧
      ∀ mod ∈ info.mods, mod.modEnd ≤ mod.modStart ∨
        mod.modEnd ≤ 0xFFFFF000 + mod.modStart % 0x1000 := by
  constructor
  · rintro ⟨⟨s, hs⟩, hinside⟩
    have hstop : info.LoopsStop := by
      by_contra hstop
      rw [initPmm_endless hmin hw hstop] at hs
      cases hs
    exact ⟨fun r hr => (hstop.regions r hr).sound (hinside r hr), hstop.mods⟩
  · rintro ⟨hsound, hmods⟩
    refine ⟨⟨_, initPmm_folds hmin hw ⟨fun r hr => (hsound r hr).loopStops, hmods⟩⟩, ?_⟩
    intro r hr q hfrees
    exact (hsound r hr).meets hfrees

end

/-- The small machine's map is one of them. -/
theorem region_loops_smallMachine : RegionsRight Layout.least smallMachine := by
  apply (region_loops (by decide) smallMachine_valid.words).mpr
  constructor
  · intro r hr _
    obtain rfl := List.mem_singleton.mp hr
    exact Or.inr (by decide)
  · intro mod hmod
    cases hmod

/-- The small machine with one page of memory at 4 GB, and nothing else. -/
def highMachine : MultibootInfo := { smallMachine with mmap := [⟨0x100000000, 0x1000, 1⟩] }

/-- The small machine with a region that ends in the last page below 4 GB. -/
def lastMachine : MultibootInfo := { smallMachine with mmap := [⟨0xFFFC0000, 0x3F800, 1⟩] }

/-- The page at 4 GB is freed as page 0; the loop over the other region never ends. -/
theorem region_loops_fails :
    (∃ s, initPmm Layout.least highMachine = .ok s) ∧ ¬ RegionsRight Layout.least highMachine ∧
    initPmm Layout.least lastMachine = .error .endless := by
  have hw : highMachine.Words := ⟨by decide, by decide, fun mod hmod => by cases hmod⟩
  have hstop : highMachine.LoopsStop := by
    refine ⟨fun r hr _ => ?_, fun mod hmod => by cases hmod⟩
    obtain rfl := List.mem_singleton.mp hr
    exact Or.inr (by decide)
  refine ⟨⟨_, initPmm_folds (by decide) hw hstop⟩, fun h => ?_, ?_⟩
  · have hmem : (⟨0x100000000, 0x1000, 1⟩ : MultibootMmap) ∈ highMachine.mmap :=
      List.mem_singleton_self _
    have hfrees : (⟨0x100000000, 0x1000, 1⟩ : MultibootMmap).Frees 0 := by
      apply (MultibootMmap.frees_iff (hstop.regions _ hmem)).mpr
      exact ⟨0, by decide, rfl⟩
    obtain ⟨x, hx, hbase, -⟩ := h.inside _ hmem 0 hfrees
    have hhigh : 0x100000000 ≤ x := hbase
    omega
  · refine initPmm_endless (by decide) ⟨by decide, by decide, fun mod hmod => by cases hmod⟩ ?_
    intro hloops
    rcases hloops.regions ⟨0xFFFC0000, 0x3F800, 1⟩ (List.mem_singleton_self _) rfl with hle | hle
    · exact absurd hle (by decide)
    · exact absurd hle (by decide)

end DayOS
