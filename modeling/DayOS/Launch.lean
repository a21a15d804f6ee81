import DayOS.Allocator
import DayOS.Elf
import DayOS.VmmAlloc

set_option autoImplicit false

/-! # Launches that fail

The syscall `launch_elf_program` makes a context and then looks at the image. When `ParseElf`
turns the image down, the syscall is left with a `break`: nobody destroys the context, whose page
and directory stay in use. Each failed launch takes two pages of the pool for good, and when
fewer are left the next launch fails the assertion in `create_context`.
-/

namespace DayOS

open ByteMemory Paging

/-- A launch that `ParseElf` turns down through an error exit, and that comes back. -/
def FailedLaunch (L : Layout) (H : Heap) (kernelContext : Nat) (K : Kernel Pmm) (ebx : Nat)
    (K' : Kernel Pmm) : Prop :=
  ∃ context m frames,
    createUsermodeContext L kernelContext K.mem K.frames = .ok (context, m, frames) ∧
    Rejects { K with mem := m, frames := frames } ebx context ∧
    launchElfProgram L H kernelContext K ebx = .ok K'

/-- Failed launches one after the other. -/
inductive FailedLaunches (L : Layout) (H : Heap) (kernelContext : Nat) (K₀ : Kernel Pmm) :
    Nat → Kernel Pmm → Prop
  | start : FailedLaunches L H kernelContext K₀ 0 K₀
  | launch {n : Nat} {K K' : Kernel Pmm} {ebx : Nat} :
      FailedLaunches L H kernelContext K₀ n K → FailedLaunch L H kernelContext K ebx K' →
      FailedLaunches L H kernelContext K₀ (n + 1) K'

/-- Behind a call the processes, the heap and the pages of the pool that were in use are as
before, and of all physical pages just `P` have come into use. -/
structure Leaves (L : Layout) (P : Nat → Prop) (K K' : Kernel Pmm) : Prop where
  processes : K' = { K with mem := K'.mem, frames := K'.frames }
  heap : ∀ x, L.heapStart ≤ x → x < L.heapEnd → K'.mem x = K.mem x
  tables : ∀ p, L.PoolPage p → K.frames.Used (p / 0x1000) → AgreeOn K.mem K'.mem p 0x1000
  pages : ∀ r, K'.frames.Used r ↔ K.frames.Used r ∨ P r

section
variable {L : Layout} {H : Heap} {m m' : Mem} {s s' : Pmm} {KC c d n : Nat} {K₀ K K' : Kernel Pmm}
  {base : Nat → Nat}

/-! ## A new context -/

/-- The pages in use do not change when a context is made. -/
theorem NewContext.agree (h : NewContext L base m s c d m' s') {p : Nat} (hp : L.PoolPage p)
    (hu : s.Used (p / 0x1000)) : AgreeOn m m' p 0x1000 := by
  have hpc := hp.apart h.context (fun he => h.contextFree (he ▸ hu))
  have hpd := hp.apart h.dir (fun he => h.dirFree (he ▸ hu))
  intro x hx hx'
  exact h.keeps x (by omega) (by omega)

theorem NewContext.sameWalks (h : NewContext L base m s c d m' s')
    (hw : Walkable L m s KC (DayOS.pagedir m KC)) : SameWalks m m' KC := by
  have hwords : ∀ i < 1024, entry m' (DayOS.pagedir m KC) i = entry m (DayOS.pagedir m KC) i :=
    fun i hi =>
      entry_congr ((h.agree hw.dir hw.dirUsed).mono (by omega) (by omega))
  refine ⟨load32_congr ((h.agree hw.context hw.contextUsed).mono le_rfl (by omega)), hwords,
    fun v hv => pte_eq_of_tables hwords (fun i hi hodd j hj => ?_) hv⟩
  obtain ⟨hp, hu, -⟩ := hw.tables i hi hodd
  exact entry_congr ((h.agree hp hu).mono (by omega) (by omega))

theorem NewContext.poolCount (h : NewContext L base m s c d m' s') :
    DayOS.poolCount L s' = DayOS.poolCount L s + 2 := by
  have hdir : ¬ (use s c).Used (d / 0x1000) := by
    have := h.context.aligned
    have := h.dir.aligned
    have hne := h.ne
    rw [used_use, not_or]
    exact ⟨by omega, h.dirFree⟩
  rw [h.pages, poolCount_use_free h.dir hdir, poolCount_use_free h.context h.contextFree]

theorem createUsermodeContext_new (hw : Walkable L m s KC (pagedir m KC))
    (h : createUsermodeContext L KC m s = .ok (c, m', s')) :
    ∃ d, NewContext L (entry m (pagedir m KC)) m s c d m' s' :=
  createUsermodeContext_ok hw.context hw.contextUsed hw.dir hw.dirUsed h

/-- With fewer than two pages left there is no new context. -/
theorem createUsermodeContext_full (h : 0x200 < poolCount L s + 2) :
    createUsermodeContext L KC m s = .error .noPage := by
  unfold createUsermodeContext
  rcases createContext_spec L m s with ⟨c, m', s', -, d, hnew⟩ | ⟨he, -⟩
  · have hcount := hnew.poolCount
    have hle := poolCount_le L s'
    omega
  · exact bind_of_error he

/-! ## One launch -/

/-- Behind an error exit the context is there and nothing else has been done. -/
theorem launchElfProgram_rejects {ebx : Nat}
    (hcreate : createUsermodeContext L KC K.mem K.frames = .ok (c, m, s))
    (hrej : Rejects { K with mem := m, frames := s } ebx c) :
    launchElfProgram L H KC K ebx = .ok { K with mem := m, frames := s } := by
  unfold launchElfProgram
  refine (bind_of_ok (vmmCall_ok.mpr hcreate)).trans ?_
  exact (bind_of_ok (parseElf_rejects hrej)).trans rfl

/-- A failed launch leaves a context that nobody knows of. -/
theorem FailedLaunch.leaves {ebx : Nat} (hw : Walkable L K.mem K.frames KC (pagedir K.mem KC))
    (h : FailedLaunch L H KC K ebx K') : ∃ c d,
    NewContext L (entry K.mem (pagedir K.mem KC)) K.mem K.frames c d K'.mem K'.frames ∧
    Leaves L (fun r => r = c / 0x1000 ∨ r = d / 0x1000) K K' := by
  obtain ⟨c, m, frames, hcreate, hrej, hlaunch⟩ := h
  obtain ⟨d, hnew⟩ := createUsermodeContext_new hw hcreate
  rw [launchElfProgram_rejects hcreate hrej] at hlaunch
  cases hlaunch
  refine ⟨c, d, hnew, rfl, fun x hx hx' => ?_, fun p hp hu => hnew.agree hp hu, fun r => ?_⟩
  · have hc := hnew.context.below
    have hd := hnew.dir.below
    exact hnew.keeps x (by omega) (by omega)
  · show frames.Used r ↔ _
    rw [hnew.pages, used_use, used_use]
    tauto

theorem FailedLaunch.walkable {ebx : Nat} (hw : Walkable L K.mem K.frames KC (pagedir K.mem KC))
    (h : FailedLaunch L H KC K ebx K') :
    Walkable L K'.mem K'.frames KC (pagedir K'.mem KC) := by
  obtain ⟨c, d, hnew, hleaves⟩ := h.leaves hw
  exact (hnew.sameWalks hw).walkable hw (fun p _ hu => (hleaves.pages _).mpr (Or.inl hu))

/-! ## Any number of launches -/

theorem FailedLaunches.inv (hw : Walkable L K₀.mem K₀.frames KC (pagedir K₀.mem KC))
    (hrun : FailedLaunches L H KC K₀ n K) : Walkable L K.mem K.frames KC (pagedir K.mem KC) ∧
      poolCount L K.frames = poolCount L K₀.frames + 2 * n := by
  induction hrun with
  | start =>
      refine ⟨hw, ?_⟩
      rw [Nat.mul_zero, Nat.add_zero]
  | launch _ hl ih =>
      obtain ⟨hw', hcount⟩ := ih
      obtain ⟨c, d, hnew, -⟩ := hl.leaves hw'
      refine ⟨hl.walkable hw', ?_⟩
      rw [hnew.poolCount, hcount]
      omega

/-- **A failed launch never leaves things as they were.** After any number of failed launches
each of them has taken two pages of the pool. The next one takes two more and changes nothing
else, or, when they are not there, it does not come back. -/
theorem failed_launches (hw : Walkable L K₀.mem K₀.frames KC (pagedir K₀.mem KC))
    (hrun : FailedLaunches L H KC K₀ n K) :
    poolCount L K.frames = poolCount L K₀.frames + 2 * n ∧
    (∀ ebx K', FailedLaunch L H KC K ebx K' → ¬ Leaves L (fun _ => False) K K' ∧
      ∃ c d, L.PoolPage c ∧ L.PoolPage d ∧ c ≠ d ∧ ¬ K.frames.Used (c / 0x1000) ∧
        ¬ K.frames.Used (d / 0x1000) ∧ Leaves L (fun r => r = c / 0x1000 ∨ r = d / 0x1000) K K') ∧
    (0x200 < poolCount L K₀.frames + 2 * (n + 1) → ∀ ebx,
      launchElfProgram L H KC K ebx = .error (.vmm .noPage)) := by
  obtain ⟨hw', hcount⟩ := hrun.inv hw
  refine ⟨hcount, fun ebx K' hl => ?_, fun hfull ebx => ?_⟩
  · obtain ⟨c, d, hnew, hleaves⟩ := hl.leaves hw'
    refine ⟨fun hnone => ?_, c, d, hnew.context, hnew.dir, hnew.ne, hnew.contextFree, hnew.dirFree,
      hleaves⟩
    -- the context's page is in use now
    have hused := (hleaves.pages (c / 0x1000)).mpr (Or.inr (Or.inl rfl))
    rcases (hnone.pages _).mp hused with hu | hf
    · exact hnew.contextFree hu
    · exact hf
  · have hnone : createUsermodeContext L KC K.mem K.frames = .error .noPage :=
      createUsermodeContext_full (by omega)
    unfold launchElfProgram
    rw [hnone]
    rfl

end

/-! ## A null address -/

/-- The kernel behind a boot on the smallest layout. -/
theorem exists_bootedKernel : ∃ KC, ∃ K : Kernel Pmm,
    Walkable Layout.least K.mem K.frames KC (pagedir K.mem KC) ∧
    poolCount Layout.least K.frames ≤ 100 := by
  obtain ⟨KC, m, s, hboot, hcount, -⟩ := initVmm_returns Layout.least (fun _ => 0) emptyPmm
    (by rw [poolCount_emptyPmm]; decide)
  have hend : Layout.least.heapEnd = 0x1701000 := rfl
  rw [poolCount_emptyPmm, hend] at hcount
  exact ⟨KC, ⟨m, s, 0, 0, 0, 0, KC⟩, initVmm_walkable hboot, by
    show poolCount Layout.least s ≤ 100
    omega⟩

theorem failedLaunch_null {L : Layout} {KC : Nat} {K : Kernel Pmm} (H : Heap)
    (hcount : poolCount L K.frames + 2 ≤ 0x200) : ∃ K', FailedLaunch L H KC K 0 K' := by
  obtain ⟨c, m, s, hcreate, -⟩ := createUsermodeContext_returns hcount
  have hrej : Rejects { K with mem := m, frames := s } 0 c := Or.inl (Or.inl rfl)
  exact ⟨_, c, m, s, hcreate, hrej, launchElfProgram_rejects hcreate hrej⟩

/-- A launch from the address zero behind a boot, and one more. -/
theorem failed_launches_null : ∃ KC, ∃ K₀ K₁ K₂ : Kernel Pmm,
    FailedLaunch Layout.least (firstFit Layout.least).toHeap KC K₀ 0 K₁ ∧
    FailedLaunch Layout.least (firstFit Layout.least).toHeap KC K₁ 0 K₂ ∧
    poolCount Layout.least K₁.frames = poolCount Layout.least K₀.frames + 2 ∧
    ¬ Leaves Layout.least (fun _ => False) K₁ K₂ := by
  obtain ⟨KC, K₀, hw, hcount⟩ := exists_bootedKernel
  obtain ⟨K₁, h₁⟩ := failedLaunch_null (firstFit Layout.least).toHeap
    (show poolCount Layout.least K₀.frames + 2 ≤ 0x200 by omega)
  obtain ⟨hcount₁, hnext, -⟩ := failed_launches hw (FailedLaunches.start.launch h₁)
  obtain ⟨K₂, h₂⟩ := failedLaunch_null (firstFit Layout.least).toHeap
    (show poolCount Layout.least K₁.frames + 2 ≤ 0x200 by omega)
  exact ⟨KC, K₀, K₁, K₂, h₁, h₂, hcount₁, (hnext 0 K₂ h₂).1⟩

/-- A launch from the address zero behind a boot does not leave the pages as they were. -/
theorem failed_launches_fails : ∃ KC, ∃ K K' : Kernel Pmm,
    Walkable Layout.least K.mem K.frames KC (pagedir K.mem KC) ∧
    FailedLaunch Layout.least (firstFit Layout.least).toHeap KC K 0 K' ∧
    ¬ ∀ r, K'.frames.Used r ↔ K.frames.Used r := by
  obtain ⟨KC, K, hw, hcount⟩ := exists_bootedKernel
  obtain ⟨K', h⟩ := failedLaunch_null (firstFit Layout.least).toHeap
    (show poolCount Layout.least K.frames + 2 ≤ 0x200 by omega)
  refine ⟨KC, K, K', hw, h, fun hsame => ?_⟩
  obtain ⟨c, d, hnew, hleaves⟩ := h.leaves hw
  have hused := (hleaves.pages (c / 0x1000)).mpr (Or.inr (Or.inl rfl))
  exact hnew.contextFree ((hsame _).mp hused)

end DayOS
