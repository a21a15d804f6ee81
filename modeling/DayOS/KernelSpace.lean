import DayOS.Frames

set_option autoImplicit false

/-! # The kernel's address space

`InitVmm` maps the image, the page pool and the heap to themselves. Each of its three ranges
includes the page behind its end, so the last page mapped is the one at `HEAP_END`, where the
frames for user pages begin. `initVmm_spec` says what the kernel context is afterwards, and
`initVmm_returns` that the boot gets there when the pool has room for the tables.
-/

namespace DayOS

open ByteMemory Paging

/-- The kernel context behind `InitVmm`. -/
structure KernelSpace (L : Layout) (m : Mem) (s : Pmm) (K : Nat) : Prop where
  context : L.PoolPage K
  dir : L.PoolPage (pagedir m K)
  contextUsed : s.Used (K / 0x1000)
  dirUsed : s.Used (pagedir m K / 0x1000)
  words : ∀ i < 1024, entry m (pagedir m K) i = 0 ∨
    ∃ t, L.PoolPage t ∧ entry m (pagedir m K) i = t + 7 ∧ s.Used (t / 0x1000)
  low : ∀ i < 1024, entry m (pagedir m K) i ≠ 0 → 0x400000 * i ≤ L.heapEnd
  mapped : ∀ v, 0x1000 * v ≤ L.heapEnd → pte m (pagedir m K) v = 0x1000 * v + 7
  unmapped : ∀ v < 2 ^ 20, L.heapEnd < 0x1000 * v → pte m (pagedir m K) v = 0

/-- The pages `R` of the context `c` have been mapped to themselves. -/
structure Mirrored (L : Layout) (c : Nat) (R : Nat → Prop) (m : Mem) (s : Pmm) (m' : Mem)
    (s' : Pmm) : Prop where
  dir : pagedir m' c = pagedir m c
  grows : Grows L (fun _ => 0) [c] c m s m' s'
  frames : ∀ r, ¬ L.PoolPage (0x1000 * r) → (s'.Used r ↔ s.Used r)
  mapped : ∀ v < 2 ^ 20, R v → pte m' (pagedir m c) v = 0x1000 * v + 7
  kept : ∀ v < 2 ^ 20, ¬ R v → pte m' (pagedir m c) v = pte m (pagedir m c) v
  words : ∀ i < 1024, entry m' (pagedir m c) i ≠ entry m (pagedir m c) i → ∃ v, R v ∧ v / 1024 = i

/-- Every page of the pool is in use. -/
def PoolFull (L : Layout) (s : Pmm) : Prop := ∀ q, L.PoolPage (0x1000 * q) → s.Used q

section
variable {L : Layout} {m₀ m m₁ m' : Mem} {s₀ s s₁ s' : Pmm} {c fuel i last : Nat}
  {R R' : Nat → Prop}

/-! ## Mapping pages to themselves -/

theorem Mirrored.nil (h : Spaces L (fun _ => 0) m₀ s₀ m s [c]) (hR : ∀ v, ¬ R v) :
    Mirrored L c R m s m s :=
  ⟨rfl, Grows.refl h (List.mem_singleton_self c), fun _ _ => Iff.rfl,
    fun v _ hv => absurd hv (hR v), fun _ _ _ => rfl, fun _ _ hne => absurd rfl hne⟩

theorem Mirrored.trans (a : Mirrored L c R m s m₁ s₁) (a' : Mirrored L c R' m₁ s₁ m' s') :
    Mirrored L c (fun v => R v ∨ R' v) m s m' s' := by
  refine ⟨a'.dir.trans a.dir, a.grows.trans (List.mem_singleton_self c) a'.grows,
    fun r hr => (a'.frames r hr).trans (a.frames r hr), fun v hv hR => ?_, fun v hv hR => ?_,
    fun i hi hne => ?_⟩
  · by_cases hR' : R' v
    · rw [← a.dir, a'.mapped v hv hR']
    · rw [← a.dir, a'.kept v hv hR', a.dir, a.mapped v hv (hR.resolve_right hR')]
  · rw [not_or] at hR
    rw [← a.dir, a'.kept v hv hR.2, a.dir, a.kept v hv hR.1]
  · by_cases hsame : entry m₁ (pagedir m c) i = entry m (pagedir m c) i
    · have hne' : entry m' (pagedir m₁ c) i ≠ entry m₁ (pagedir m₁ c) i := by
        rw [a.dir, hsame]
        exact hne
      obtain ⟨v, hv, he⟩ := a'.words i hi hne'
      exact ⟨v, Or.inr hv, he⟩
    · obtain ⟨v, hv, he⟩ := a.words i hi hsame
      exact ⟨v, Or.inl hv, he⟩

theorem Mirrored.spaces (a : Mirrored L c R m s m' s')
    (h : Spaces L (fun _ => 0) m₀ s₀ m s [c]) : Spaces L (fun _ => 0) m₀ s₀ m' s' [c] :=
  h.grow a.grows (fun x => by simp)

/-- On an aligned page, `map_page` returns unless it needs a table and the pool is full. -/
theorem mapPage_returns {virt phys : Nat} (hvirt : virt % 0x1000 = 0) (hphys : phys % 0x1000 = 0) :
    (∃ m' s', mapPage L m s c virt phys 1 = .ok (m', s')) ∨
      PoolFull L s ∧ mapPage L m s c virt phys 1 = .error .noPage := by
  unfold mapPage
  have hal : ¬ (virt % 0x1000 ≠ 0 ∨ phys % 0x1000 ≠ 0) := by omega
  simp only [if_neg hal]
  split
  case isTrue => exact Or.inl ⟨_, _, rfl⟩
  case isFalse =>
      rcases poolPage_spec L s with ⟨p, -, -, he⟩ | ⟨hfull, he⟩
      · rw [he]
        exact Or.inl ⟨_, _, rfl⟩
      · rw [he]
        exact Or.inr ⟨hfull, rfl⟩

theorem mirrorPage (h : Spaces L (fun _ => 0) m₀ s₀ m s [c]) (hi : i < 2 ^ 32)
    (hmap : mapPage L m s c i i 1 = .ok (m', s')) :
    Mirrored L c (fun v => v = i / 0x1000) m s m' s' := by
  have hc := List.mem_singleton_self c
  have hv : i / 0x1000 / 1024 < 1024 := by omega
  obtain ⟨hal, -, t, hm⟩ := mapPage_ok (h.hasDir hc hv rfl) hi hi hmap
  obtain ⟨hdir, g⟩ := hm.grows h hc rfl hv
  have hpage : 0x1000 * (i / 0x1000) = i := by omega
  refine ⟨hdir, g, fun r hr => ?_, fun v hlt hR => ?_, fun v hlt hR => ?_, fun j hj hne => ?_⟩
  · rcases hm.pages with ⟨-, rfl⟩ | ⟨-, -, rfl⟩
    · exact Iff.rfl
    · rw [used_use]
      have hne : r ≠ t / 0x1000 := by
        rintro rfl
        rw [hm.table.page] at hr
        exact hr hm.table
      exact ⟨fun hu => hu.resolve_left hne, Or.inr⟩
  · subst hR
    rw [hm.translates h hc rfl hv hlt, Function.update_self, hpage]
  · rw [hm.translates h hc rfl hv hlt, Function.update_of_ne hR]
  · refine ⟨_, rfl, ?_⟩
    by_contra hji
    rw [hm.entries j hj, if_neg (fun he => hji he.symm)] at hne
    exact hne rfl

/-- The pages from `start` on, up to and including the one at `last`. -/
def UpTo (start last v : Nat) : Prop := start ≤ 0x1000 * v ∧ 0x1000 * v ≤ last

/-- `map_range` maps its pages and the one behind them, or runs out of pages for the tables. -/
theorem mapRangeLoop_spec (h : Spaces L (fun _ => 0) m₀ s₀ m s [c]) (hal : i % 0x1000 = 0)
    (hi : i < 2 ^ 32) (hlast : last < 0xFFFFF000) (hfuel : last + 0x1000 < i + 0x1000 * fuel)
    (hpos : 0 < fuel) :
    (∃ m' s', mapRangeLoop L c last 1 fuel i i m s = .ok (m', s') ∧
      Mirrored L c (UpTo i last) m s m' s') ∨
    (mapRangeLoop L c last 1 fuel i i m s = .error .noPage ∧ ∃ R m₁ s₁,
      (∀ v, R v → UpTo i last v) ∧ Mirrored L c R m s m₁ s₁ ∧ PoolFull L s₁) := by
  induction fuel generalizing i m s with
  | zero => omega
  | succ fuel ih =>
      rw [mapRangeLoop]
      by_cases hle : i ≤ last
      case neg =>
          rw [if_neg hle]
          exact Or.inl ⟨m, s, rfl, Mirrored.nil h (fun v hv => by unfold UpTo at hv; omega)⟩
      rw [if_pos hle]
      rcases mapPage_returns (L := L) (m := m) (s := s) (c := c) hal hal with
        ⟨m₁, s₁, hmap⟩ | ⟨hfull, herr⟩
      case inr =>
          rw [herr]
          exact Or.inr ⟨rfl, fun _ => False, m, s, fun v hv => absurd hv id,
            Mirrored.nil h (fun _ => id), hfull⟩
      have hmod : (i + PAGESIZE) % 2 ^ 32 = i + 0x1000 := Nat.mod_eq_of_lt (by
        simp only [PAGESIZE]
        omega)
      have hpage := mirrorPage h hi hmap
      have hsplit : ∀ v, UpTo i last v ↔ v = i / 0x1000 ∨ UpTo (i + 0x1000) last v := fun v => by
        unfold UpTo
        constructor <;> intro hv <;> omega
      have hgo : (Except.ok (m₁, s₁) >>= fun r : Mem × Pmm => mapRangeLoop L c last 1 fuel
          (i + 0x1000) (i + 0x1000) r.1 r.2) =
          mapRangeLoop L c last 1 fuel (i + 0x1000) (i + 0x1000) m₁ s₁ := rfl
      rw [hmap, hmod, hgo]
      rcases ih (i := i + 0x1000) (hpage.spaces h) (by omega) (by omega) (by omega) (by omega) with
        ⟨m', s', hok, hrest⟩ | ⟨herr, R, m₂, s₂, hR, hrest, hfull⟩
      · refine Or.inl ⟨m', s', hok, ?_⟩
        have both := hpage.trans hrest
        have hset : (fun v => v = i / 0x1000 ∨ UpTo (i + 0x1000) last v) = UpTo i last :=
          funext (fun v => propext (hsplit v).symm)
        rw [hset] at both
        exact both
      · refine Or.inr ⟨herr, _, m₂, s₂, fun v hv => (hsplit v).mpr ?_, hpage.trans hrest, hfull⟩
        exact hv.imp_right (hR v)

theorem mapRange_spec (h : Spaces L (fun _ => 0) m₀ s₀ m s [c]) {start stop : Nat}
    (hal : start % 0x1000 = 0) (hle : start ≤ stop) (hstop : stop < 0xFFFFF000) :
    (∃ m' s', mapRange L c m s start start (stop - start) 1 = .ok (m', s') ∧
      Mirrored L c (UpTo start stop) m s m' s') ∨
    (mapRange L c m s start start (stop - start) 1 = .error .noPage ∧ ∃ R m₁ s₁,
      (∀ v, R v → UpTo start stop v) ∧ Mirrored L c R m s m₁ s₁ ∧ PoolFull L s₁) := by
  have hlast : (start + (stop - start)) % 2 ^ 32 = stop := by omega
  unfold mapRange
  rw [hlast]
  exact mapRangeLoop_spec h hal (by omega) hstop (by simp only [walkLimit]; omega) (by decide)

/-! ## `InitVmm` -/

/-- Before there is any context, the pool holds what it held. -/
theorem Spaces.init (L : Layout) (m : Mem) (s : Pmm) :
    Spaces L (fun _ => 0) m s m s [] := by
  refine ⟨fun _ _ => Or.inl rfl, fun c hc => absurd hc (by simp), fun p _ _ => AgreeOn.refl m p _,
    fun p _ => ⟨Or.inl, ?_⟩, fun c hc => absurd hc (by simp), fun c hc => absurd hc (by simp)⟩
  rintro (hu | ⟨c, hc, -⟩)
  · exact hu
  · exact absurd hc (by simp)

/-- A state of `InitVmm`: the kernel context has been made, and some pages have been mapped to
themselves, none behind the one at `HEAP_END`. -/
structure Booting (L : Layout) (R : Nat → Prop) (m₀ : Mem) (s₀ : Pmm) (K : Nat) (m : Mem)
    (s : Pmm) : Prop where
  spaces : Spaces L (fun _ => 0) m₀ s₀ m s [K]
  keeps : ∀ x, x < L.pagepoolStart ∨ L.heapStart ≤ x → m x = m₀ x
  frames : ∀ r, ¬ L.PoolPage (0x1000 * r) → (s.Used r ↔ s₀.Used r)
  mapped : ∀ v < 2 ^ 20, R v → pte m (pagedir m K) v = 0x1000 * v + 7
  unmapped : ∀ v < 2 ^ 20, ¬ R v → pte m (pagedir m K) v = 0
  low : ∀ v, R v → 0x1000 * v ≤ L.heapEnd
  words : ∀ i < 1024, entry m (pagedir m K) i ≠ 0 → 0x400000 * i ≤ L.heapEnd

theorem Booting.init {d : Nat} (h : NewContext L (fun _ => 0) m₀ s₀ c d m s) :
    Booting L (fun _ => False) m₀ s₀ c m s := by
  have g : Grows L (fun _ => 0) [] c m₀ s₀ m s := h.grows (by simp)
  have hpages : ∀ x, x < L.pagepoolStart ∨ L.heapStart ≤ x → m x = m₀ x := fun x hx => by
    have hc := h.context.below
    have hc' := h.context.start
    have hd := h.dir.below
    have hd' := h.dir.start
    exact h.keeps x (by omega) (by omega)
  refine ⟨(Spaces.init L m₀ s₀).grow g (by simp), hpages, fun r hr => ?_, fun v _ hv => hv.elim,
    fun v hv _ => ?_, fun v hv => hv.elim, fun i hi hne => ?_⟩
  · have hne : ∀ p, L.PoolPage p → r ≠ p / 0x1000 := fun p hp he => by
      rw [he, hp.page] at hr
      exact hr hp
    rw [h.pages, used_use, used_use]
    constructor
    · rintro (he | he | hu)
      · exact absurd he (hne d h.dir)
      · exact absurd he (hne c h.context)
      · exact hu
    · exact fun hu => Or.inr (Or.inr hu)
  · rw [h.pagedir]
    exact pte_of_even (by rw [h.words _ (by omega)])
  · rw [h.pagedir, h.words i hi] at hne
    exact absurd rfl hne

theorem Booting.mirror (b : Booting L R m₀ s₀ c m s) (a : Mirrored L c R' m s m' s')
    (hlow : ∀ v, R' v → 0x1000 * v ≤ L.heapEnd) :
    Booting L (fun v => R v ∨ R' v) m₀ s₀ c m' s' := by
  have hspaces := a.spaces b.spaces
  refine ⟨hspaces, fun x hx => ?_, fun r hr => (a.frames r hr).trans (b.frames r hr),
    fun v hv hR => ?_, fun v hv hR => ?_, fun v hR => hR.elim (b.low v) (hlow v),
    fun i hi hne => ?_⟩
  · rw [a.grows.keeps x (fun k p hp => ?_), b.keeps x hx]
    have hpool := a.grows.contextAt.poolPage hp
    have := hpool.below
    have := hpool.start
    omega
  · rw [a.dir]
    by_cases hR' : R' v
    · exact a.mapped v hv hR'
    · rw [a.kept v hv hR', b.mapped v hv (hR.resolve_right hR')]
  · rw [not_or] at hR
    rw [a.dir, a.kept v hv hR.2, b.unmapped v hv hR.1]
  · rw [a.dir] at hne
    by_cases hsame : entry m' (pagedir m c) i = entry m (pagedir m c) i
    · rw [hsame] at hne
      exact b.words i hi hne
    · obtain ⟨v, hv, rfl⟩ := a.words i hi hsame
      have := hlow v hv
      omega

theorem Booting.kernelSpace (b : Booting L R m₀ s₀ c m s)
    (hR : ∀ v, R v ↔ 0x1000 * v ≤ L.heapEnd) : KernelSpace L m s c := by
  have hc := List.mem_singleton_self c
  have hctx := b.spaces.contexts c hc
  have hfits := L.heapEnd_le
  refine ⟨hctx.context, hctx.dir, b.spaces.pageUsed hc (k := .context) rfl,
    b.spaces.pageUsed hc (k := .dir) rfl, fun i hi => ?_, b.words,
    fun v hv => b.mapped v (by omega) ((hR v).mpr hv),
    fun v hv hlt => b.unmapped v hv (fun h => by have := (hR v).mp h; omega)⟩
  rcases hctx.words i hi with he | ⟨-, t, ht, he⟩
  · exact Or.inl he
  · exact Or.inr ⟨t, ht, he, b.spaces.pageUsed hc (pageAt_of_word hi rfl ht he)⟩

/-- **What `InitVmm` does.** It builds the kernel's address space, or it stops because the pool
is full. -/
theorem initVmm_spec (L : Layout) (m₀ : Mem) (s₀ : Pmm) :
    (∃ K m s, initVmm L m₀ s₀ = .ok (K, m, s) ∧ KernelSpace L m s K ∧
      ∃ R, Booting L R m₀ s₀ K m s) ∨
    (initVmm L m₀ s₀ = .error .noPage ∧ (PoolFull L s₀ ∨ (∃ p, PoolFull L (use s₀ p)) ∨
      ∃ K m s R, Booting L R m₀ s₀ K m s ∧ PoolFull L s)) := by
  have hfits := L.heapEnd_le
  have hheap := L.heapEnd_eq
  have hpool := L.heapStart_eq
  have hend : L.pagepoolEnd = L.heapStart := rfl
  have hkernel : L.vmKernelEnd = L.pagepoolStart := rfl
  unfold initVmm
  -- the context itself
  obtain ⟨K, m, s, h₀, d, hnew⟩ | ⟨h₀, hfull⟩ := createContext_spec L m₀ s₀
  case inr =>
      refine Or.inr ⟨bind_of_error h₀, ?_⟩
      rcases hfull with hfull | hfull
      · exact Or.inl hfull
      · exact Or.inr (Or.inl hfull)
  have b := Booting.init hnew
  -- the image
  rcases mapRange_spec b.spaces (show Layout.vmKernelStart % 0x1000 = 0 by decide)
    (Nat.zero_le L.vmKernelEnd) (by omega) with ⟨m₁, s₁, h₁, a₁⟩ | ⟨h₁, R, m₁, s₁, hR, a₁, hfull⟩
  case inr =>
      refine Or.inr ⟨(bind_of_ok h₀).trans (bind_of_error h₁), Or.inr (Or.inr
        ⟨K, m₁, s₁, _, b.mirror a₁ (fun v hv => ?_), hfull⟩)⟩
      have := (hR v hv).2
      omega
  have b₁ := b.mirror a₁ (fun v hv => by have := hv.2; omega)
  -- the page pool
  rcases mapRange_spec b₁.spaces L.pagepoolStart_aligned
    (show L.pagepoolStart ≤ L.pagepoolEnd by omega) (by omega) with
    ⟨m₂, s₂, h₂, a₂⟩ | ⟨h₂, R, m₂, s₂, hR, a₂, hfull⟩
  case inr =>
      refine Or.inr ⟨(bind_of_ok h₀).trans ((bind_of_ok h₁).trans (bind_of_error h₂)),
        Or.inr (Or.inr ⟨K, m₂, s₂, _, b₁.mirror a₂ (fun v hv => ?_), hfull⟩)⟩
      have := (hR v hv).2
      omega
  have b₂ := b₁.mirror a₂ (fun v hv => by have := hv.2; omega)
  -- the heap
  rcases mapRange_spec b₂.spaces L.heapStart_aligned
    (show L.heapStart ≤ L.heapEnd by omega) (by omega) with
    ⟨m₃, s₃, h₃, a₃⟩ | ⟨h₃, R, m₃, s₃, hR, a₃, hfull⟩
  case inr =>
      exact Or.inr ⟨(bind_of_ok h₀).trans ((bind_of_ok h₁).trans ((bind_of_ok h₂).trans
        (bind_of_error h₃))), Or.inr (Or.inr
          ⟨K, m₃, s₃, _, b₂.mirror a₃ (fun v hv => (hR v hv).2), hfull⟩)⟩
  have b₃ := b₂.mirror a₃ (fun v hv => hv.2)
  refine Or.inl ⟨K, m₃, s₃, (bind_of_ok h₀).trans ((bind_of_ok h₁).trans ((bind_of_ok h₂).trans
    (bind_of_ok h₃))), b₃.kernelSpace (fun v => ?_), _, b₃⟩
  unfold UpTo
  have hzero : Layout.vmKernelStart = 0 := rfl
  constructor
  · rintro (((hv | hv) | hv) | hv)
    · exact hv.elim
    · omega
    · omega
    · omega
  · intro hv
    by_cases hv₁ : 0x1000 * v ≤ L.vmKernelEnd
    · exact Or.inl (Or.inl (Or.inr ⟨by omega, hv₁⟩))
    · by_cases hv₂ : 0x1000 * v ≤ L.pagepoolEnd
      · exact Or.inl (Or.inr ⟨by omega, hv₂⟩)
      · exact Or.inr ⟨by omega, hv⟩

end

end DayOS
