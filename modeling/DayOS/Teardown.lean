import DayOS.Isolation

set_option autoImplicit false

/-! # Giving frames back

`destroy_context` walks the tables of a context by the words of its directory, with the flags
in their low bits, so every table word is read seven bytes behind its place: one byte of a word
and three bytes of the next one. The upper twenty bits of what is read are not the frame of
either. `frees_high` says which frames are freed in this way, and `teardown` when they happen
to be those given to the context. Where the two words that overlap the page behind a table name
no frame, this is so only for contexts that have none.
-/

namespace DayOS

open ByteMemory Paging

/-- The frame that the word of a mapped page is misread as: a page at index 2 or higher of its
table, at a frame `g`, makes the frame `256 * (g % 4096)` be freed. -/
def Shifted (K : Nat) (m : Mem) (c q : Nat) : Prop :=
  ∃ v < 2 ^ 20, entry m (pagedir m K) (v / 1024) = 0 ∧ 2 ≤ v % 1024 ∧
    ∃ g, pte m (pagedir m c) v = 0x1000 * g + 7 ∧ q = 256 * (g % 4096)

/-- The frames named by the two words that overlap the page behind a table. -/
def Behind (L : Layout) (K : Nat) (m : Mem) (c q : Nat) : Prop :=
  ∃ i t, Owns K m c (.table i) t ∧ ∃ k, (k = 1024 ∨ k = 1025) ∧
    L.heapEnd < load32 m (t + 4 * k - 1) ∧ q = load32 m (t + 4 * k - 1) / 0x1000

/-- Destroying the context frees the frames given to it and its pages of the pool, and nothing
else. -/
def TornDown (L : Layout) (K : Nat) (st : VmmState) (given : Nat → Nat → Prop) (c : Nat) : Prop :=
  ∃ s', destroyContext L K st.mem st.pmm c = .ok s' ∧ ∀ q, (s'.Used q ↔
    st.pmm.Used q ∧ ¬ given c q ∧ ∀ k, ¬ Owns K st.mem c k (0x1000 * q))

section
variable {L : Layout} {K c q : Nat} {m₀ m₁ m m' : Mem} {s₀ s₁ s s' : Pmm} {st st' : VmmState}
  {Q : VmmState → VmmOp → Prop} {given : Nat → Nat → Prop} {op : VmmOp} {cs : List Nat}

/-- What is read for the word `j` of the table `t`. -/
theorem entry_misread {t j : Nat} : entry m (t + 7) j =
    load32 m (t + 4 * (j + 1)) / 2 ^ 24 + 2 ^ 8 * (entry m t (j + 2) % 2 ^ 24) := by
  have hat : t + 7 + 4 * j = t + 4 * (j + 1) + 3 := by omega
  have hnext : t + 4 * (j + 2) = t + 4 * (j + 1) + 4 := by omega
  unfold entry
  rw [hat, hnext, load32_unaligned]

/-- Above the heap's end, `destroy_context` finds the misread words and nothing else. -/
theorem frees_high (h : KernelSpace L m₁ s₁ K)
    (hs : Spaces L (entry m₁ (pagedir m₁ K)) m₁ s₁ st.mem st.pmm st.live)
    (hm : Mapped L K m₁ st given) (hc : c ∈ st.live) (hq : L.heapEnd ≤ 0x1000 * q) :
    Frees L st.mem (pagedir st.mem K) (pagedir st.mem c) q ↔
      Shifted K st.mem c q ∨ Behind L K st.mem c q := by
  have hsame := h.same hs
  have hctx := hs.contexts c hc
  have hfits := L.heapEnd_eq
  have hwords : ∀ i < 1024, entry st.mem (pagedir st.mem K) i = entry m₁ (pagedir m₁ K) i :=
    fun i hi => by rw [hsame.dir, hsame.words i hi]
  have hbyte : ∀ a, load32 st.mem a / 2 ^ 24 < 256 := fun a => by
    have := load32_lt st.mem a
    omega
  constructor
  · rintro ⟨i, hi, hne0, hne, hq'⟩
    rw [hwords i hi] at hne
    have hslot : pageAt (entry m₁ (pagedir m₁ K)) st.mem c (.table i) =
        some (frameBase (entry st.mem (pagedir st.mem c) i)) := pageAt_table.mpr ⟨hi, hne, rfl⟩
    obtain ⟨-, h0, ht, he⟩ := hctx.table hslot
    generalize frameBase (entry st.mem (pagedir st.mem c) i) = t at hslot ht he
    have hbelow := ht.below
    rw [he] at hq'
    rcases hq' with rfl | ⟨j, hj, hlow, rfl⟩
    · omega
    by_cases hin : j + 2 < 1024
    · -- the three bytes belong to a word of the table
      left
      have hv : (1024 * i + (j + 2)) / 1024 = i := by omega
      have hv' : (1024 * i + (j + 2)) % 1024 = j + 2 := by omega
      have hpte : pte st.mem (pagedir st.mem c) (1024 * i + (j + 2)) = entry st.mem t (j + 2) := by
        have hal := ht.aligned
        rw [pte_of_entry (e := t + 7) (by rw [hv]; exact he) (by omega), hv',
          frameBase_add hal (by decide)]
      have hown := hm.own c hc (1024 * i + (j + 2)) (by omega) (by rw [hv]; exact h0)
      rw [hpte] at hown
      have hb := hbyte (t + 4 * (j + 1))
      rw [entry_misread] at hlow hq ⊢
      rcases hown with hz | ⟨g, -, hg⟩
      · rw [hz] at hlow
        omega
      · refine ⟨1024 * i + (j + 2), by omega, ?_, by omega, g, hpte.trans hg, ?_⟩
        · rw [hv, hwords i hi, h0]
        · rw [hg]
          omega
    · right
      refine ⟨i, t, (owns_iff h hs).mpr hslot, j + 2, by omega, ?_, ?_⟩
      · have hat : t + 4 * (j + 2) - 1 = t + 7 + 4 * j := by omega
        rw [hat]
        exact hlow
      · have hat : t + 4 * (j + 2) - 1 = t + 7 + 4 * j := by omega
        rw [hat]
        rfl
  · rintro (⟨v, hv, h0, hidx, g, hpte, rfl⟩ | ⟨i, t, howns, k, hk, hlow, rfl⟩)
    · have hi : v / 1024 < 1024 := by omega
      rw [hwords _ hi] at h0
      -- the page is mapped, so its table is the context's own
      rcases hctx.words _ hi with he | ⟨-, t, ht, he⟩
      · rw [pte_of_even (by rw [he, h0])] at hpte
        omega
      have hal := ht.aligned
      have hword : entry st.mem t (v % 1024) = 0x1000 * g + 7 := by
        rw [← hpte, pte_of_entry he (by omega), frameBase_add hal (by decide)]
      have hj : v % 1024 - 2 + 2 = v % 1024 := by omega
      have hb := hbyte (t + 4 * (v % 1024 - 2 + 1))
      refine ⟨v / 1024, hi, by omega, ?_, Or.inr ⟨v % 1024 - 2, by omega, ?_⟩⟩
      · rw [hwords _ hi, h0, he]
        omega
      · rw [he, entry_misread, hj, hword]
        omega
    · have hslot := (owns_iff h hs).mp howns
      obtain ⟨hi, h0, ht, he⟩ := hctx.table hslot
      have hat : t + 4 * k - 1 = t + 7 + 4 * (k - 2) := by omega
      rw [hat] at hlow ⊢
      refine ⟨i, hi, by omega, ?_, Or.inr ⟨k - 2, by omega, ?_⟩⟩
      · rw [hwords i hi, h0, he]
        omega
      · rw [he]
        exact ⟨hlow, rfl⟩

/-- What is used behind `destroy_context`, with the pages of the context set apart. -/
theorem used_teardown (h : KernelSpace L m₁ s₁ K)
    (hs : Spaces L (entry m₁ (pagedir m₁ K)) m₁ s₁ st.mem st.pmm st.live) (hc : c ∈ st.live)
    (hd : destroyContext L K st.mem st.pmm c = .ok s') (q : Nat) :
    s'.Used q ↔ st.pmm.Used q ∧ (∀ k, ¬ Owns K st.mem c k (0x1000 * q)) ∧
      (L.heapEnd ≤ 0x1000 * q → ¬ Frees L st.mem (pagedir st.mem K) (pagedir st.mem c) q) := by
  have hsame := h.same hs
  have hctx := hs.contexts c hc
  have hwords : ∀ i < 1024, entry st.mem (pagedir st.mem K) i = entry m₁ (pagedir m₁ K) i :=
    fun i hi => by rw [hsame.dir, hsame.words i hi]
  have hpage : ∀ p, L.PoolPage p → (q = p / 0x1000 ↔ p = 0x1000 * q) := fun p hp => by
    have := hp.aligned
    omega
  rw [destroyContext_ok hd, Ne, hpage c hctx.context, Ne, hpage _ hctx.dir]
  simp only [owns_iff h hs]
  by_cases hlow : 0x1000 * q < L.heapEnd
  · rw [frees_low hctx hwords hlow]
    constructor
    · rintro ⟨hu, hne, hned, hnot⟩
      refine ⟨hu, fun k hk => ?_, fun hge => by omega⟩
      cases k with
      | context => exact hne (Option.some.inj hk)
      | dir => exact hned (Option.some.inj hk)
      | table i => exact hnot ⟨i, hk⟩
    · rintro ⟨hu, hnone, -⟩
      refine ⟨hu, fun he => hnone .context (congrArg some he),
        fun he => hnone .dir (congrArg some he), ?_⟩
      rintro ⟨i, hi⟩
      exact hnone _ hi
  · have hnone : ∀ k, pageAt (entry m₁ (pagedir m₁ K)) st.mem c k ≠ some (0x1000 * q) := fun k hk =>
      not_poolPage (by omega) (hctx.poolPage hk)
    constructor
    · rintro ⟨hu, -, -, hnot⟩
      exact ⟨hu, hnone, fun _ => hnot⟩
    · rintro ⟨hu, -, hnot⟩
      exact ⟨hu, fun he => hnone .context (congrArg some he),
        fun he => hnone .dir (congrArg some he), hnot (by omega)⟩

/-- Three misreadings in a row lead to page 0. -/
theorem shifted_thrice (g : Nat) :
    256 * (256 * (256 * (g % 4096) % 4096) % 4096) = 0 := by omega

/-- **When `destroy_context` gives back what `vmm_alloc` took.** In every state of a run, for
every context alive: exactly when the frames in use that are misread from its tables are those
given to it. Where the words behind its tables name no frame, and its frames are still in use,
that is when there are none. -/
theorem teardown (L : Layout) (m₀ : Mem) (s₀ : Pmm) {K : Nat} {m₁ : Mem} {s₁ : Pmm}
    (hboot : initVmm L m₀ s₀ = .ok (K, m₁, s₁)) {st : VmmState} {given : Nat → Nat → Prop}
    (hrun : VmmRun L K Unmapped ⟨m₁, s₁, []⟩ st given) {c : Nat} (hc : c ∈ st.live) :
    (TornDown L K st given c ↔ ∀ q, L.heapEnd ≤ 0x1000 * q → st.pmm.Used q →
      (given c q ↔ Shifted K st.mem c q ∨ Behind L K st.mem c q)) ∧
    ((∀ q, given c q → st.pmm.Used q) →
      (∀ q, L.heapEnd ≤ 0x1000 * q → ¬ Behind L K st.mem c q) →
      (TornDown L K st given c ↔ ∀ q, ¬ given c q)) := by
  obtain ⟨h, -⟩ := initVmm_ok hboot
  have hs := hrun.spaces h
  have hm := hrun.mapped h (fun _ _ h => h)
  obtain ⟨s', hd⟩ := destroyContext_returns h hs hc
  have hused := used_teardown h hs hc hd
  have hlow : ∀ q, given c q → L.heapEnd ≤ 0x1000 * q := fun q hq => (hm.given c q hq).2.1
  have hhigh := fun q (hq : L.heapEnd ≤ 0x1000 * q) => frees_high h hs hm hc hq
  have hpages : ∀ q, L.heapEnd ≤ 0x1000 * q → ∀ k, ¬ Owns K st.mem c k (0x1000 * q) :=
    fun q hq k hk => not_poolPage hq ((hs.contexts c hc).poolPage ((owns_iff h hs).mp hk))
  have hiff : TornDown L K st given c ↔ ∀ q, L.heapEnd ≤ 0x1000 * q → st.pmm.Used q →
      (given c q ↔ Shifted K st.mem c q ∨ Behind L K st.mem c q) := by
    constructor
    · rintro ⟨s'', hd', hall⟩ q hq hu
      rw [hd] at hd'
      cases hd'
      have hq' := hall q
      rw [hused q] at hq'
      rw [← hhigh q hq]
      by_contra hne
      have hown := hpages q hq
      tauto
    · intro hall
      refine ⟨s', hd, fun q => ?_⟩
      rw [hused q]
      by_cases hq : L.heapEnd ≤ 0x1000 * q
      · rw [hhigh q hq]
        constructor
        · rintro ⟨hu, hown, hnot⟩
          exact ⟨hu, fun hg => hnot hq ((hall q hq hu).mp hg), hown⟩
        · rintro ⟨hu, hg, hown⟩
          exact ⟨hu, hown, fun _ hf => hg ((hall q hq hu).mpr hf)⟩
      · constructor
        · rintro ⟨hu, hown, -⟩
          exact ⟨hu, fun hg => hq (hlow q hg), hown⟩
        · rintro ⟨hu, -, hown⟩
          exact ⟨hu, hown, fun hge => absurd hge hq⟩
  refine ⟨hiff, fun hin hbehind => ⟨fun htorn q hq => ?_, fun hnone => hiff.mpr ?_⟩⟩
  · -- each frame given is misread from another one given, and so on
    have hall := hiff.mp htorn
    have hback : ∀ r, given c r → ∃ g, given c g ∧ r = 256 * (g % 4096) := fun r hr => by
      have hr' := hlow r hr
      have hsh := ((hall r hr' (hin r hr)).mp hr).resolve_right (hbehind r hr')
      obtain ⟨v, hv, h0, -, g, hg, he⟩ := hsh
      have hsame := h.same hs
      rw [hsame.dir, hsame.words _ (by omega)] at h0
      rcases hm.own c hc v hv h0 with hz | ⟨g', hg', he'⟩
      · omega
      · have hgg : g' = g := by omega
        exact ⟨g, hgg ▸ hg', he⟩
    obtain ⟨g₁, hg₁, rfl⟩ := hback q hq
    obtain ⟨g₂, hg₂, rfl⟩ := hback g₁ hg₁
    obtain ⟨g₃, -, rfl⟩ := hback g₂ hg₂
    have hzero := hlow _ hq
    rw [shifted_thrice] at hzero
    have := L.heapEnd_eq
    omega
  · intro q hq hu
    refine ⟨fun hg => absurd hg (hnone q), ?_⟩
    rintro (⟨v, hv, h0, -, g, hg, -⟩ | hb)
    · have hsame := h.same hs
      rw [hsame.dir, hsame.words _ (by omega)] at h0
      rcases hm.own c hc v hv h0 with hz | ⟨g', hg', -⟩
      · omega
      · exact absurd hg' (hnone g')
    · exact absurd hb (hbehind q hq)

/-- For a context that has been given one page, on the smallest layout. -/
theorem teardown_first : ∃ K m₁ s₁ c, ∃ st : VmmState, ∃ given,
    initVmm Layout.least (fun _ => 0) emptyPmm = .ok (K, m₁, s₁) ∧ st.live = [c] ∧
    (TornDown Layout.least K st given c ↔ ∀ q, Layout.least.heapEnd ≤ 0x1000 * q →
      st.pmm.Used q → (given c q ↔ Shifted K st.mem c q ∨ Behind Layout.least K st.mem c q)) := by
  obtain ⟨K, m₁, s₁, c, st₁, st, f, hboot, hrun, hlive, -⟩ := first_run emptyPmm 1
    (by decide) (by rw [poolCount_emptyPmm]; decide)
    (le_framesLeft (fun j _ => ⟨by
      have : Layout.least.heapEnd = 0x1701000 := rfl
      omega, used_emptyPmm⟩))
  have hmem : c ∈ st.live := by
    rw [hlive]
    exact List.mem_singleton_self c
  exact ⟨K, m₁, s₁, c, st, _, hboot, hlive,
    (teardown Layout.least (fun _ => 0) emptyPmm hboot (hrun _ (fun _ _ hun _ => hun)) hmem).1⟩

/-- A context that has been given three frames keeps at least one of them in use. -/
theorem teardown_fails : ∃ K m₁ s₁ c, ∃ st : VmmState, ∃ given,
    initVmm Layout.least (fun _ => 0) emptyPmm = .ok (K, m₁, s₁) ∧
    VmmRun Layout.least K Unmapped ⟨m₁, s₁, []⟩ st given ∧ c ∈ st.live ∧
    ¬ TornDown Layout.least K st given c := by
  have hend : Layout.least.heapEnd = 0x1701000 := rfl
  obtain ⟨K, m₁, s₁, c, st₁, st, f, hboot, hrun, hlive, ha, hsame, htables, -⟩ :=
    first_run emptyPmm 3 (by decide) (by rw [poolCount_emptyPmm]; decide)
      (le_framesLeft (fun j _ => ⟨by omega, used_emptyPmm⟩))
  have hrun' := hrun Unmapped (fun _ _ hun _ => hun)
  have hmem : c ∈ st.live := by
    rw [hlive]
    exact List.mem_singleton_self c
  refine ⟨K, m₁, s₁, c, st, _, hboot, hrun', hmem, ?_⟩
  rintro ⟨s', hd, hall⟩
  obtain ⟨h, -⟩ := initVmm_ok hboot
  have hs := hrun'.spaces h
  have hm := hrun'.mapped h (fun _ _ h => h)
  have hin : ∀ v, v = 0x40000 ∨ v = 0x40001 ∨ v = 0x40002 ↔
      InRange 0x40000000 (0x40000000 + 0x1000 * 3) v := fun v => by
    unfold InRange
    omega
  -- the frames are the three lowest ones
  have hfirst : ∀ v, InRange 0x40000000 (0x40000000 + 0x1000 * 3) v →
      0x1701 ≤ f v ∧ ∀ r, 0x1701 ≤ r → r < f v →
        r = f 0x40000 ∨ r = f 0x40001 ∨ r = f 0x40002 := fun v hv => by
    refine ⟨by have := (ha.frame v hv).1; omega, fun r hr hlt => ?_⟩
    have hused := ha.least v hv r (by omega) hlt
    rcases (ha.frames r (not_poolPage (by omega))).mp hused with hu | ⟨w, hw, rfl⟩
    · exact absurd ((hsame r (by omega)).mp hu) used_emptyPmm
    · rcases (hin w).mpr hw with rfl | rfl | rfl
      · exact Or.inl rfl
      · exact Or.inr (Or.inl rfl)
      · exact Or.inr (Or.inr rfl)
  -- the words behind the one table name two frames
  have hfreed : ∃ w₁ w₂, ∀ v, InRange 0x40000000 (0x40000000 + 0x1000 * 3) v →
      f v % 256 = 0 ∨ f v = w₁ ∨ f v = w₂ := by
    have hnot : ∀ v, InRange 0x40000000 (0x40000000 + 0x1000 * 3) v →
        Shifted K st.mem c (f v) ∨ Behind Layout.least K st.mem c (f v) := fun v hv => by
      have hlow := (ha.frame v hv).1
      have hu : st.pmm.Used (f v) := (ha.frames _ (not_poolPage hlow)).mpr (Or.inr ⟨v, hv, rfl⟩)
      have hnu : ¬ s'.Used (f v) := fun hu' => ((hall (f v)).mp hu').2.1 ⟨rfl, v, hv, rfl⟩
      rw [← frees_high h hs hm hmem hlow]
      by_contra hnf
      refine hnu ((used_teardown h hs hmem hd (f v)).mpr ⟨hu, fun k hk => ?_, fun _ => hnf⟩)
      exact not_poolPage hlow ((hs.contexts c hmem).poolPage ((owns_iff h hs).mp hk))
    obtain ⟨t, ht⟩ : ∃ t, ∀ i t', Owns K st.mem c (.table i) t' → t' = t := by
      refine ⟨frameBase (entry st.mem (pagedir st.mem c) 0x100), fun i t' ho => ?_⟩
      obtain ⟨hi, hne, rfl⟩ := pageAt_table.mp ((owns_iff h hs).mp ho)
      rw [htables i hi hne]
    refine ⟨load32 st.mem (t + 4 * 1024 - 1) / 0x1000, load32 st.mem (t + 4 * 1025 - 1) / 0x1000,
      fun v hv => ?_⟩
    rcases hnot v hv with ⟨w, -, -, -, g, -, he⟩ | ⟨i, t', ho, k, rfl | rfl, -, he⟩
    · exact Or.inl (by omega)
    · rw [ht i t' ho] at he
      exact Or.inr (Or.inl he)
    · rw [ht i t' ho] at he
      exact Or.inr (Or.inr he)
  obtain ⟨w₁, w₂, hw⟩ := hfreed
  have hpage : ∀ v, v = 0x40000 ∨ v = 0x40001 ∨ v = 0x40002 →
      InRange 0x40000000 (0x40000000 + 0x1000 * 3) v := fun v => (hin v).mp
  have h₀ := hpage 0x40000 (by decide)
  have h₁ := hpage 0x40001 (by decide)
  have h₂ := hpage 0x40002 (by decide)
  have hne₁ : f 0x40000 ≠ f 0x40001 := fun he => absurd (ha.inj _ _ h₀ h₁ he) (by decide)
  have hne₂ : f 0x40000 ≠ f 0x40002 := fun he => absurd (ha.inj _ _ h₀ h₂ he) (by decide)
  have hne₃ : f 0x40001 ≠ f 0x40002 := fun he => absurd (ha.inj _ _ h₁ h₂ he) (by decide)
  have hsmall : ∀ v, InRange 0x40000000 (0x40000000 + 0x1000 * 3) v → f v < 0x1704 := fun v hv => by
    by_contra hge
    have ha := (hfirst v hv).2 0x1701 (by omega) (by omega)
    have hb := (hfirst v hv).2 0x1702 (by omega) (by omega)
    have hc := (hfirst v hv).2 0x1703 (by omega) (by omega)
    rcases (hin v).mpr hv with rfl | rfl | rfl <;> omega
  have hv₀ := hw _ h₀
  have hv₁ := hw _ h₁
  have hv₂ := hw _ h₂
  have := hsmall _ h₀
  have := hsmall _ h₁
  have := hsmall _ h₂
  have := (hfirst _ h₀).1
  have := (hfirst _ h₁).1
  have := (hfirst _ h₂).1
  omega

end

end DayOS
