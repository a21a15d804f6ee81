import DayOS.Spaces

set_option autoImplicit false

/-! # Frames for a context

`vmm_alloc` takes a frame behind the heap for each page of its range and maps it; the tables it
needs come from the pool. `Allocated` says all a call does: which frames it took, that the words
of the pages are these frames, that all other words of the context are as before, and that the
context has grown by the tables (`Grows`), so that the others are untouched.

A range that wraps around has its end below its start, and the call does nothing. A range that
ends in the last page makes the cursor wrap, and the call does not return.
-/

namespace DayOS

open ByteMemory Paging

/-- A call for the pages `R` of the context `c` took the frames `f`. -/
structure Allocated (L : Layout) (base : Nat → Nat) (cs : List Nat) (c : Nat) (R : Nat → Prop)
    (f : Nat → Nat) (m : Mem) (s : Pmm) (m' : Mem) (s' : Pmm) : Prop where
  dir : pagedir m' c = pagedir m c
  grows : Grows L base cs c m s m' s'
  frame : ∀ v, R v → L.heapEnd ≤ 0x1000 * f v ∧ f v < 2 ^ 20 ∧ ¬ s.Used (f v)
  inj : ∀ v w, R v → R w → f v = f w → v = w
  frames : ∀ r, ¬ L.PoolPage (0x1000 * r) → (s'.Used r ↔ s.Used r ∨ ∃ v, R v ∧ f v = r)
  mapped : ∀ v < 2 ^ 20, R v → pte m' (pagedir m c) v = 0x1000 * f v + 7
  kept : ∀ v < 2 ^ 20, ¬ R v → pte m' (pagedir m c) v = pte m (pagedir m c) v
  least : ∀ v, R v → ∀ r, L.heapEnd ≤ 0x1000 * r → r < f v → s'.Used r
  words : ∀ i < 1024, entry m' (pagedir m c) i ≠ entry m (pagedir m c) i → ∃ v, R v ∧ v / 1024 = i

/-- The pages of a range. -/
def InRange (start stop v : Nat) : Prop := start ≤ 0x1000 * v ∧ 0x1000 * v < stop

instance (start stop v : Nat) : Decidable (InRange start stop v) :=
  inferInstanceAs (Decidable (_ ∧ _))

section
variable {L : Layout} {base : Nat → Nat} {m₀ m m₁ m' : Mem} {s₀ s s₁ s' : Pmm}
  {cs : List Nat} {c q vaddr sz endAddr fuel i : Nat}

/-! ## Growing and frames -/

theorem Grows.refl (h : Spaces L base m₀ s₀ m s cs) (hc : c ∈ cs) :
    Grows L base cs c m s m s := by
  refine ⟨h.contexts c hc, fun _ _ => rfl, fun k p hp => Or.inl ⟨hc, hp⟩, fun _ _ _ => id,
    fun p _ => ⟨Or.inl, ?_⟩, fun k k' p hk hk' => (h.apart c hc c hc k k' p hk hk').2⟩
  rintro (hu | ⟨k, hk⟩)
  · exact hu
  · exact h.pageUsed hc hk

theorem Grows.trans (hc : c ∈ cs) (g : Grows L base cs c m s m₁ s₁)
    (g' : Grows L base cs c m₁ s₁ m' s') : Grows L base cs c m s m' s' := by
  have hsub : ∀ x, (∀ k p, pageAt base m' c k = some p → x < p ∨ p + 0x1000 ≤ x) →
      ∀ k p, pageAt base m₁ c k = some p → x < p ∨ p + 0x1000 ≤ x :=
    fun x hx k p hp => hx k p (g'.mono hc k p hp)
  refine ⟨g'.contextAt, fun x hx => ?_, fun k p hp => ?_, fun _ k p hp => ?_, fun p hp => ?_,
    g'.inj⟩
  · rw [g'.keeps x hx, g.keeps x (hsub x hx)]
  · rcases g'.old k p hp with ⟨-, hold⟩ | hfree
    · exact g.old k p hold
    · refine Or.inr (fun hu => hfree ?_)
      exact (g.used p (g'.contextAt.poolPage hp)).mpr (Or.inl hu)
  · exact g'.mono hc k p (g.mono hc k p hp)
  · rw [g'.used p hp, g.used p hp]
    constructor
    · rintro ((hu | ⟨k, hk⟩) | hk)
      · exact Or.inl hu
      · exact Or.inr ⟨k, g'.mono hc k p hk⟩
      · exact Or.inr hk
    · rintro (hu | hk)
      · exact Or.inl (Or.inl hu)
      · exact Or.inr hk

/-- Taking a page outside the pool changes nothing for the contexts. -/
theorem Spaces.congr (h : Spaces L base m₀ s₀ m s cs)
    (hs : ∀ p, L.PoolPage p → (s'.Used (p / 0x1000) ↔ s.Used (p / 0x1000))) :
    Spaces L base m₀ s₀ m s' cs :=
  ⟨h.shared, h.contexts, h.frozen, fun p hp => (hs p hp).trans (h.used p hp), h.fresh, h.apart⟩

theorem Grows.congr (g : Grows L base cs c m s₁ m' s')
    (hs : ∀ p, L.PoolPage p → (s₁.Used (p / 0x1000) ↔ s.Used (p / 0x1000))) :
    Grows L base cs c m s m' s' := by
  refine ⟨g.contextAt, g.keeps, fun k p hp => ?_, g.mono, fun p hp => ?_, g.inj⟩
  · have := hs p (g.contextAt.poolPage hp)
    exact (g.old k p hp).imp_right (fun hfree hu => hfree (this.mpr hu))
  · rw [g.used p hp, hs p hp]

/-! ## One page -/

/-- Frames behind the heap are not pages of the pool. -/
theorem not_poolPage (hq : L.heapEnd ≤ 0x1000 * q) : ¬ L.PoolPage (0x1000 * q) := fun hp => by
  have := hp.below
  have := L.heapEnd_eq
  omega

theorem Allocated.nil {R : Nat → Prop} (h : Spaces L base m₀ s₀ m s cs) (hc : c ∈ cs)
    (hR : ∀ v, ¬ R v) (f : Nat → Nat) : Allocated L base cs c R f m s m s := by
  refine ⟨rfl, Grows.refl h hc, fun v hv => absurd hv (hR v), fun v _ hv => absurd hv (hR v),
    fun r _ => ⟨Or.inl, ?_⟩, fun v _ hv => absurd hv (hR v), fun _ _ _ => rfl,
    fun v hv => absurd hv (hR v), fun _ _ hne => absurd rfl hne⟩
  rintro (hu | ⟨v, hv, -⟩)
  · exact hu
  · exact absurd hv (hR v)

/-- One round of the loop of `vmm_alloc`. -/
theorem allocPage_ok (h : Spaces L base m₀ s₀ m s cs) (hc : c ∈ cs) (hi : i < 2 ^ 32)
    (hbase : base (i / 0x1000 / 1024) = 0) {phys : Nat} (hframe : userFrame L s = .ok (phys, s₁))
    (hmap : mapPage L m s₁ c i phys 1 = .ok (m', s')) :
    ∃ q, Allocated L base cs c (fun v => v = i / 0x1000) (fun _ => q) m s m' s' := by
  obtain ⟨q, hlow, rfl, rfl⟩ := userFrame_ok hframe
  obtain ⟨⟨hhigh, hlt⟩, hfree, hleast⟩ := hlow
  -- the frame is not a page of the pool, so the contexts are as before
  have hpool : ∀ p, L.PoolPage p → ((use s (0x1000 * q)).Used (p / 0x1000) ↔
      s.Used (p / 0x1000)) := fun p hp => by
    rw [use_page]
    have hne : p / 0x1000 ≠ q := by
      rintro rfl
      have hpage := hp.page
      rw [hpage] at hhigh
      have := hp.below
      have := L.heapEnd_eq
      omega
    exact ⟨fun hu => hu.resolve_left hne, Or.inr⟩
  have h₁ : Spaces L base m₀ s₀ m (use s (0x1000 * q)) cs := h.congr hpool
  have hv : i / 0x1000 / 1024 < 1024 := by omega
  obtain ⟨-, -, t, hm⟩ := mapPage_ok (h₁.hasDir hc hv hbase) hi (by omega) hmap
  obtain ⟨hdir, g⟩ := hm.grows h₁ hc hbase hv
  refine ⟨q, hdir, g.congr hpool, fun v hv => ⟨hhigh, hlt, hfree⟩,
    fun v w hv hw _ => hv.trans hw.symm, fun r hr => ?_, fun v hv hR => ?_, fun v hv hR => ?_,
    fun v _ r hr hrq => ?_, fun j hj hne => ?_⟩
  · have hfar : s'.Used r ↔ (use s (0x1000 * q)).Used r := by
      rcases hm.pages with ⟨-, rfl⟩ | ⟨-, -, rfl⟩
      · exact Iff.rfl
      · rw [used_use]
        have hne : r ≠ t / 0x1000 := by
          rintro rfl
          rw [hm.table.page] at hr
          exact hr hm.table
        exact ⟨fun hu => hu.resolve_left hne, Or.inr⟩
    rw [hfar, use_page]
    constructor
    · rintro (rfl | hu)
      · exact Or.inr ⟨_, rfl, rfl⟩
      · exact Or.inl hu
    · rintro (hu | ⟨v, -, rfl⟩)
      · exact Or.inr hu
      · exact Or.inl rfl
  · subst hR
    rw [hm.translates h₁ hc hbase (by omega) hv, Function.update_self]
  · rw [hm.translates h₁ hc hbase (by omega) hv, Function.update_of_ne hR]
  · have hu : (use s (0x1000 * q)).Used r := use_page.mpr (Or.inr (hleast r hrq ⟨hr, by omega⟩))
    rcases hm.pages with ⟨-, rfl⟩ | ⟨-, -, rfl⟩
    · exact hu
    · exact used_use.mpr (Or.inr hu)
  · refine ⟨_, rfl, ?_⟩
    by_contra hji
    rw [hm.entries j hj, if_neg (fun he => hji he.symm)] at hne
    exact hne rfl

/-! ## The loop -/

/-- Two calls one after the other, for different pages of a context. -/
theorem Allocated.trans {R R' : Nat → Prop} [DecidablePred R] {f f' : Nat → Nat} (hc : c ∈ cs)
    (a : Allocated L base cs c R f m s m₁ s₁) (a' : Allocated L base cs c R' f' m₁ s₁ m' s')
    (hR : ∀ v, R v → ¬ R' v) :
    Allocated L base cs c (fun v => R v ∨ R' v) (fun v => if R v then f v else f' v)
      m s m' s' := by
  have hfst : ∀ v, R v → (if R v then f v else f' v) = f v := fun v hv => if_pos hv
  have hsnd : ∀ v, R' v → (if R v then f v else f' v) = f' v :=
    fun v hv => if_neg (fun h => hR v h hv)
  have hused : ∀ v, R v → s₁.Used (f v) := fun v hv =>
    (a.frames (f v) (not_poolPage (a.frame v hv).1)).mpr (Or.inr ⟨v, hv, rfl⟩)
  have hstill : ∀ v, R' v → ¬ s.Used (f' v) := fun v hv hu =>
    (a'.frame v hv).2.2 ((a.frames (f' v) (not_poolPage (a'.frame v hv).1)).mpr (Or.inl hu))
  have hdiff : ∀ v w, R v → R' w → f v ≠ f' w := fun v w hv hw he =>
    (a'.frame w hw).2.2 (he ▸ hused v hv)
  have hmono : ∀ r, L.heapEnd ≤ 0x1000 * r → s₁.Used r → s'.Used r := fun r hr hu =>
    (a'.frames r (not_poolPage hr)).mpr (Or.inl hu)
  refine ⟨a'.dir.trans a.dir, a.grows.trans hc a'.grows, ?_, ?_, fun r hr => ?_, ?_, ?_, ?_, ?_⟩
  · rintro v (hv | hv)
    · rw [hfst v hv]
      exact a.frame v hv
    · rw [hsnd v hv]
      exact ⟨(a'.frame v hv).1, (a'.frame v hv).2.1, hstill v hv⟩
  · rintro v w (hv | hv) (hw | hw) he
    · rw [hfst v hv, hfst w hw] at he
      exact a.inj v w hv hw he
    · rw [hfst v hv, hsnd w hw] at he
      exact absurd he (hdiff v w hv hw)
    · rw [hsnd v hv, hfst w hw] at he
      exact absurd he.symm (hdiff w v hw hv)
    · rw [hsnd v hv, hsnd w hw] at he
      exact a'.inj v w hv hw he
  · rw [a'.frames r hr, a.frames r hr]
    constructor
    · rintro ((hu | ⟨v, hv, rfl⟩) | ⟨v, hv, rfl⟩)
      · exact Or.inl hu
      · exact Or.inr ⟨v, Or.inl hv, hfst v hv⟩
      · exact Or.inr ⟨v, Or.inr hv, hsnd v hv⟩
    · rintro (hu | ⟨v, hv | hv, rfl⟩)
      · exact Or.inl (Or.inl hu)
      · exact Or.inl (Or.inr ⟨v, hv, (hfst v hv).symm⟩)
      · exact Or.inr ⟨v, hv, (hsnd v hv).symm⟩
  · rintro v hlt (hv | hv)
    · rw [← a.dir, a'.kept v hlt (hR v hv), a.dir, a.mapped v hlt hv, hfst v hv]
    · rw [← a.dir, a'.mapped v hlt hv, hsnd v hv]
  · intro v hlt hv
    rw [not_or] at hv
    rw [← a.dir, a'.kept v hlt hv.2, a.dir, a.kept v hlt hv.1]
  · rintro v (hv | hv) r hr hlt
    · rw [hfst v hv] at hlt
      exact hmono r hr (a.least v hv r hr hlt)
    · rw [hsnd v hv] at hlt
      exact a'.least v hv r hr hlt
  · intro j hj hne
    by_cases hsame : entry m₁ (pagedir m c) j = entry m (pagedir m c) j
    · have hne' : entry m' (pagedir m₁ c) j ≠ entry m₁ (pagedir m₁ c) j := by
        rw [a.dir, hsame]
        exact hne
      obtain ⟨v, hv, he⟩ := a'.words j hj hne'
      exact ⟨v, Or.inr hv, he⟩
    · obtain ⟨v, hv, he⟩ := a.words j hj hsame
      exact ⟨v, Or.inl hv, he⟩

/-- The loop of `vmm_alloc`, for an end below the last page. -/
theorem vmmAllocLoop_ok (h : Spaces L base m₀ s₀ m s cs) (hc : c ∈ cs) (hi : i < 2 ^ 32)
    (hend : endAddr ≤ 0xFFFFF000) (hbase : ∀ v, InRange i endAddr v → base (v / 1024) = 0)
    (hok : vmmAllocLoop L c endAddr fuel i m s = .ok (m', s')) :
    ∃ f, Allocated L base cs c (InRange i endAddr) f m s m' s' := by
  induction fuel generalizing i m s with
  | zero => cases hok
  | succ fuel ih =>
      rw [vmmAllocLoop] at hok
      by_cases hlt : i < endAddr
      case neg =>
          rw [if_neg hlt] at hok
          cases hok
          exact ⟨fun _ => 0, Allocated.nil h hc (fun v hv => by unfold InRange at hv; omega) _⟩
      rw [if_pos hlt] at hok
      obtain ⟨⟨phys, s₁⟩, hframe, hok⟩ := bind_eq_ok.mp hok
      obtain ⟨⟨m₁, s₂⟩, hmap, hrest⟩ := bind_eq_ok.mp hok
      have hal : i % 0x1000 = 0 := mapPage_aligned hmap
      have hpage : InRange i endAddr (i / 0x1000) := ⟨by omega, by omega⟩
      obtain ⟨q, a⟩ := allocPage_ok h hc hi (hbase _ hpage) hframe hmap
      have hmod : (i + PAGESIZE) % 2 ^ 32 = i + 0x1000 := Nat.mod_eq_of_lt (by
        simp only [PAGESIZE]
        omega)
      rw [hmod] at hrest
      obtain ⟨f, a'⟩ := ih (h.grow a.grows (fun x => ⟨Or.inr, fun hx => hx.elim (fun he => he ▸ hc) id⟩))
        (by omega) (fun v hv => hbase v ⟨by have := hv.1; omega, hv.2⟩) hrest
      -- the first page, and then the others
      have hsplit : (fun v => v = i / 0x1000 ∨ InRange (i + 0x1000) endAddr v) = InRange i endAddr := by
        funext v
        unfold InRange
        refine propext ⟨fun hv => ?_, fun hv => ?_⟩ <;> omega
      have both := a.trans hc a' (fun v hv hv' => by unfold InRange at hv'; omega)
      rw [hsplit] at both
      exact ⟨_, both⟩

/-- An empty range maps nothing. -/
theorem vmmAllocLoop_stop (hlt : ¬ i < endAddr)
    (hok : vmmAllocLoop L c endAddr fuel i m s = .ok (m', s')) : m' = m ∧ s' = s := by
  cases fuel with
  | zero => cases hok
  | succ fuel =>
      rw [vmmAllocLoop, if_neg hlt] at hok
      cases hok
      exact ⟨rfl, rfl⟩

/-- A range that ends in the last page is never finished. -/
theorem vmmAllocLoop_never (hal : i % 0x1000 = 0) (hi : i < 2 ^ 32) (hend : 0xFFFFF000 < endAddr) :
    vmmAllocLoop L c endAddr fuel i m s ≠ .ok (m', s') := by
  induction fuel generalizing i m s with
  | zero => exact fun h => nomatch h
  | succ fuel ih =>
      intro hok
      rw [vmmAllocLoop, if_pos (by omega)] at hok
      obtain ⟨⟨phys, s₁⟩, -, hok⟩ := bind_eq_ok.mp hok
      obtain ⟨⟨m₁, s₂⟩, -, hrest⟩ := bind_eq_ok.mp hok
      exact ih (by simp only [PAGESIZE]; omega) (Nat.mod_lt _ (by decide)) hrest

/-- A start that is not aligned fails the assertion in `map_page`. -/
theorem vmmAllocLoop_unaligned (hal : i % 0x1000 ≠ 0) (hlt : i < endAddr) :
    vmmAllocLoop L c endAddr fuel i m s ≠ .ok (m', s') := by
  cases fuel with
  | zero => exact fun h => nomatch h
  | succ fuel =>
      intro hok
      rw [vmmAllocLoop, if_pos hlt] at hok
      obtain ⟨⟨phys, s₁⟩, -, hok⟩ := bind_eq_ok.mp hok
      obtain ⟨⟨m₁, s₂⟩, hmap, -⟩ := bind_eq_ok.mp hok
      exact hal (mapPage_aligned hmap)

/-- From an aligned start on, no assertion about alignment fails. -/
theorem vmmAllocLoop_alignment (hal : i % 0x1000 = 0) :
    vmmAllocLoop L c endAddr fuel i m s ≠ .error .alignment := by
  induction fuel generalizing i m s with
  | zero => exact fun h => nomatch h
  | succ fuel ih =>
      intro he
      rw [vmmAllocLoop] at he
      split at he
      case isFalse => cases he
      case isTrue =>
          rcases userFrame_spec L s with ⟨q, -, hframe⟩ | ⟨-, hframe⟩
          case inr =>
              rw [bind_of_error hframe] at he
              cases he
          rw [bind_of_ok hframe] at he
          simp only at he
          cases hmap : mapPage L m (use s (0x1000 * q)) c i (0x1000 * q) 1 with
          | error e =>
              rw [bind_of_error hmap] at he
              cases he
              rcases (mapPage_alignment 1).mp hmap with hne | hne
              · exact hne hal
              · exact hne (Nat.mul_mod_right _ _)
          | ok r =>
              rw [bind_of_ok hmap] at he
              exact ih (by simp only [PAGESIZE]; omega) he

theorem mapPage_ne_endless {virt phys userspace : Nat} :
    mapPage L m s c virt phys userspace ≠ .error .endless := by
  intro he
  simp only [mapPage] at he
  split at he
  · cases he
  · split at he
    · cases he
    · rcases poolPage_spec L s with ⟨p, -, -, hp⟩ | ⟨-, hp⟩
      · rw [bind_of_ok hp] at he
        cases he
      · rw [bind_of_error hp] at he
        cases he

/-- A range that ends below the last page is finished, or an assertion fails on the way. -/
theorem vmmAllocLoop_ends (hi : i < 2 ^ 32) (hend : endAddr ≤ 0xFFFFF000)
    (hfuel : endAddr ≤ i + 0x1000 * fuel) :
    vmmAllocLoop L c endAddr (fuel + 1) i m s ≠ .error .endless := by
  induction fuel generalizing i m s with
  | zero =>
      rw [vmmAllocLoop, if_neg (by omega)]
      exact fun h => nomatch h
  | succ fuel ih =>
      intro he
      rw [vmmAllocLoop] at he
      split at he
      case isFalse => cases he
      case isTrue hlt =>
          rcases userFrame_spec L s with ⟨q, -, hframe⟩ | ⟨-, hframe⟩
          case inr =>
              rw [bind_of_error hframe] at he
              cases he
          rw [bind_of_ok hframe] at he
          simp only at he
          cases hmap : mapPage L m (use s (0x1000 * q)) c i (0x1000 * q) 1 with
          | error e =>
              rw [bind_of_error hmap] at he
              cases he
              exact mapPage_ne_endless hmap
          | ok r =>
              rw [bind_of_ok hmap] at he
              have hmod : (i + PAGESIZE) % 2 ^ 32 = i + 0x1000 := Nat.mod_eq_of_lt (by
                simp only [PAGESIZE]
                omega)
              rw [hmod] at he
              exact ih (by omega) (by omega) he

theorem vmmAlloc_ends {vaddr sz : Nat} (hend : vaddr + sz ≤ 0xFFFFF000) :
    vmmAlloc L m s c vaddr sz ≠ .error .endless := by
  have hlimit : walkLimit = 0xFFFFFFFF + 1 := rfl
  unfold vmmAlloc
  rw [Nat.mod_eq_of_lt (by omega), hlimit]
  exact vmmAllocLoop_ends (by omega) hend (by omega)

/-- **What a call of `vmm_alloc` that returns has done**, for pages whose words in the directory
are not shared. -/
theorem vmmAlloc_ok (h : Spaces L base m₀ s₀ m s cs) (hc : c ∈ cs) (hv : vaddr < 2 ^ 32)
    (hbase : ∀ v, InRange vaddr ((vaddr + sz) % 2 ^ 32) v → base (v / 1024) = 0)
    (hok : vmmAlloc L m s c vaddr sz = .ok (m', s')) :
    ∃ f, Allocated L base cs c (InRange vaddr ((vaddr + sz) % 2 ^ 32)) f m s m' s' := by
  unfold vmmAlloc at hok
  by_cases hend : (vaddr + sz) % 2 ^ 32 ≤ 0xFFFFF000
  · exact vmmAllocLoop_ok h hc hv hend hbase hok
  · by_cases hlt : vaddr < (vaddr + sz) % 2 ^ 32
    · by_cases hal : vaddr % 0x1000 = 0
      · exact absurd hok (vmmAllocLoop_never hal hv (by omega))
      · exact absurd hok (vmmAllocLoop_unaligned hal hlt)
    · obtain ⟨rfl, rfl⟩ := vmmAllocLoop_stop hlt hok
      exact ⟨fun _ => 0, Allocated.nil h hc (fun v hv => by unfold InRange at hv; omega) _⟩

end

end DayOS

