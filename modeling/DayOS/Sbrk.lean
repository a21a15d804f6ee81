import DayOS.Process
import DayOS.VmmRun

set_option autoImplicit false

/-! # Memory for a process (`sbrk` in `syscall.c`)

The break of a process is kept in bytes behind `USERSPACE_PAGEPOOL`, and `vmm_alloc` maps whole
pages from an address that must be aligned. A size that is no multiple of the page size leaves
the break inside a page, and the next call fails the assertion in `map_page`. A region that
would pass the end of the address space is reported as a success and not mapped.

A run interleaves the calls of one process with whatever else the kernel does: operations on
other contexts, and stores outside the page pool that leave the two fields of the record alone
which `sbrk` reads.
-/

namespace DayOS

open ByteMemory Paging

/-! ## The code -/

/-- The case `sbrk` of `Syscall`: what it leaves in `eax`, and the kernel. `ebx` is unsigned. -/
def sbrkCall (L : Layout) (K : Kernel Pmm) (ebx : Nat) : Except VmmFault (Nat × Kernel Pmm) :=
  if ebx ≤ 0 then .ok (2 ^ 32 - 1, K)
  else do
    let (m, s) ← vmmAlloc L K.mem K.frames (procContext K.mem K.currentProcess)
      ((USERSPACE_PAGEPOOL + sbrkState K.mem K.currentProcess) % 2 ^ 32) ebx
    let eax := (USERSPACE_PAGEPOOL + sbrkState m K.currentProcess) % 2 ^ 32
    let m := store32 m (K.currentProcess + 24) (sbrkState m K.currentProcess + ebx)
    return (eax, { K with mem := m, frames := s })

/-! ## Runs -/

/-- Where the last region ended. Regions are pairs of a start and a size, newest first. -/
def regionsEnd : List (Nat × Nat) → Nat
  | [] => USERSPACE_PAGEPOOL
  | (start, size) :: _ => start + size

/-- The break lies on a page boundary, and the region does not pass the end of the address
space. -/
def SbrkFits (K : Kernel Pmm) (ebx : Nat) : Prop :=
  ebx = 0 ∨ sbrkState K.mem K.currentProcess % 0x1000 = 0 ∧
    USERSPACE_PAGEPOOL + sbrkState K.mem K.currentProcess + ebx < 2 ^ 32

/-- The operation is on another context than `c`. -/
def Spares (c : Nat) (op : VmmOp) : Prop := (∀ vaddr sz, op ≠ .alloc c vaddr sz) ∧ op ≠ .destroy c

theorem spares_create (c : Nat) : Spares c .create := by simp [Spares]

theorem spares_alloc {c d vaddr sz : Nat} (h : d ≠ c) : Spares c (.alloc d vaddr sz) := by
  simp [Spares, h]

theorem spares_destroy {c d : Nat} (h : d ≠ c) : Spares c (.destroy d) := by simp [Spares, h]

/-- The states of the kernel, with the contexts alive and the regions handed out, in a run of
the process `p` whose calls all fit. It starts when the record says that there is no region. -/
inductive SbrkRun (L : Layout) (KC : Nat) (m₁ : Mem) (s₁ : Pmm) (p : Nat) :
    Kernel Pmm → List Nat → List (Nat × Nat) → Prop
  | start {K : Kernel Pmm} {m : Mem} {live : List Nat} {given : Nat → Nat → Prop} :
      VmmRun L KC (fun _ _ => True) ⟨m₁, s₁, []⟩ ⟨m, K.frames, live⟩ given →
      (∀ x, L.pagepoolStart ≤ x → x < L.pagepoolEnd → K.mem x = m x) →
      procContext K.mem p ∈ live → sbrkState K.mem p = 0 → SbrkRun L KC m₁ s₁ p K live []
  | call {K K' : Kernel Pmm} {live : List Nat} {rs : List (Nat × Nat)} {ebx eax : Nat} :
      SbrkRun L KC m₁ s₁ p K live rs → K.currentProcess = p → SbrkFits K ebx →
      sbrkCall L K ebx = .ok (eax, K') →
      SbrkRun L KC m₁ s₁ p K' live (if ebx = 0 then rs else (eax, ebx) :: rs)
  | vmm {K : Kernel Pmm} {st' : VmmState} {live : List Nat} {rs : List (Nat × Nat)} {op : VmmOp} :
      SbrkRun L KC m₁ s₁ p K live rs → Permitted KC ⟨K.mem, K.frames, live⟩ op →
      Spares (procContext K.mem p) op →
      VmmState.exec L KC ⟨K.mem, K.frames, live⟩ op = .ok st' →
      SbrkRun L KC m₁ s₁ p { K with mem := st'.mem, frames := st'.pmm } st'.live rs
  | kernel {K K' : Kernel Pmm} {live : List Nat} {rs : List (Nat × Nat)} :
      SbrkRun L KC m₁ s₁ p K live rs → K'.frames = K.frames →
      (∀ x, L.pagepoolStart ≤ x → x < L.pagepoolEnd → K'.mem x = K.mem x) →
      procContext K'.mem p = procContext K.mem p → sbrkState K'.mem p = sbrkState K.mem p →
      SbrkRun L KC m₁ s₁ p K' live rs

/-- The directory of the process `p`. -/
def procDir (K : Kernel Pmm) (p : Nat) : Nat := pagedir K.mem (procContext K.mem p)

/-- The region that a call has handed out: it starts where the last one ended, does not wrap
around, is mapped for the process to write to, and the call has moved no earlier region. -/
structure SbrkRegion (p : Nat) (K K' : Kernel Pmm) (rs : List (Nat × Nat)) (eax ebx : Nat) :
    Prop where
  start : eax = regionsEnd rs
  noWrap : eax + ebx ≤ 2 ^ 32
  mapped : ∀ va, eax ≤ va → va < eax + ebx → UserWritable K'.mem (procDir K' p) va
  kept : ∀ r ∈ rs, ∀ va, r.1 ≤ va → va < r.1 + r.2 →
    translate K'.mem (procDir K' p) va = translate K.mem (procDir K p) va

/-- A call that fails no assertion about alignment and, when it returns and does not report
`-1`, hands out a region. -/
def SbrkGood (L : Layout) (p : Nat) (K : Kernel Pmm) (rs : List (Nat × Nat)) (ebx : Nat) : Prop :=
  sbrkCall L K ebx ≠ .error .alignment ∧ ∀ eax K', sbrkCall L K ebx = .ok (eax, K') →
    eax = 2 ^ 32 - 1 ∨ SbrkRegion p K K' rs eax ebx

/-! ## The break -/

/-- What holds between the calls of the process `p`. -/
structure SbrkInv (L : Layout) (KC : Nat) (m₁ : Mem) (s₁ : Pmm) (p : Nat) (K : Kernel Pmm)
    (live : List Nat) (rs : List (Nat × Nat)) : Prop where
  spaces : Spaces L (entry m₁ (pagedir m₁ KC)) m₁ s₁ K.mem K.frames live
  context : procContext K.mem p ∈ live
  brk : USERSPACE_PAGEPOOL + sbrkState K.mem p = regionsEnd rs
  fits : regionsEnd rs ≤ 0xFFFFF000
  below : ∀ r ∈ rs, r.1 + r.2 ≤ regionsEnd rs

section
variable {L : Layout} {KC p ebx eax : Nat} {m₀ m₁ m m' : Mem} {s₀ s₁ s s' : Pmm}
  {K K' : Kernel Pmm} {live : List Nat} {rs : List (Nat × Nat)}

/-- The fields that `sbrk` reads lie behind the pool. -/
theorem record_outside (hp : L.heapStart ≤ p)
    (hm : ∀ x, x < L.pagepoolStart ∨ L.pagepoolEnd ≤ x → m' x = m x) :
    procContext m' p = procContext m p ∧ sbrkState m' p = sbrkState m p := by
  have hend : L.pagepoolEnd = L.heapStart := rfl
  constructor
  · exact load32_congr (fun x _ _ => hm x (by omega))
  · exact load32_congr (fun x _ _ => hm x (by omega))

/-- Below the kernel's memory no page of the user space has a shared word. -/
theorem KernelSpace.user_word (h : KernelSpace L m₁ s₁ KC) (hlow : L.heapEnd < 0x40000000) {v : Nat}
    (hv : 0x40000000 ≤ 0x1000 * v) (hv' : v < 2 ^ 20) : entry m₁ (pagedir m₁ KC) (v / 1024) = 0 := by
  by_contra hne
  have := h.low _ (by omega) hne
  omega

/-- **What a call that fits does**: it has `vmm_alloc` map a user range, which does not reach the
last page, and moves the break. -/
theorem sbrkCall_exec (h : KernelSpace L m₁ s₁ KC) (hlow : L.heapEnd < 0x40000000)
    (hs : Spaces L (entry m₁ (pagedir m₁ KC)) m₁ s₁ K.mem K.frames live)
    (hctx : procContext K.mem K.currentProcess ∈ live) (hfits : SbrkFits K ebx) (hne : ebx ≠ 0)
    (hok : sbrkCall L K ebx = .ok (eax, K')) :
    USERSPACE_PAGEPOOL + sbrkState K.mem K.currentProcess + ebx ≤ 0xFFFFF000 ∧ ∃ m s,
    Permitted KC ⟨K.mem, K.frames, live⟩ (.alloc (procContext K.mem K.currentProcess)
      (USERSPACE_PAGEPOOL + sbrkState K.mem K.currentProcess) ebx) ∧
    VmmState.exec L KC ⟨K.mem, K.frames, live⟩ (.alloc (procContext K.mem K.currentProcess)
      (USERSPACE_PAGEPOOL + sbrkState K.mem K.currentProcess) ebx) = .ok ⟨m, s, live⟩ ∧
    eax = (USERSPACE_PAGEPOOL + sbrkState m K.currentProcess) % 2 ^ 32 ∧
    K' = { K with
      mem := store32 m (K.currentProcess + 24) (sbrkState m K.currentProcess + ebx), frames := s } := by
  have huser : USERSPACE_PAGEPOOL = 0x40000000 := rfl
  obtain ⟨hal, htop⟩ := hfits.resolve_left hne
  generalize hb : sbrkState K.mem K.currentProcess = b at *
  have hmod : (USERSPACE_PAGEPOOL + b) % 2 ^ 32 = USERSPACE_PAGEPOOL + b :=
    Nat.mod_eq_of_lt (by omega)
  unfold sbrkCall at hok
  rw [if_neg (by omega), hb, hmod] at hok
  obtain ⟨⟨m, s⟩, halloc, hok⟩ := bind_eq_ok.mp hok
  -- the loop finishes only below the last page
  have htop' : USERSPACE_PAGEPOOL + b + ebx ≤ 0xFFFFF000 := by
    by_contra hgt
    unfold vmmAlloc at halloc
    rw [Nat.mod_eq_of_lt htop] at halloc
    exact vmmAllocLoop_never (by omega) (by omega) (by omega) halloc
  obtain ⟨heax, hK'⟩ := Prod.mk.inj (Except.ok.inj hok)
  refine ⟨htop', m, s, ⟨hctx, by omega, by omega, fun v hv => ?_⟩, bind_of_ok halloc, heax.symm,
    hK'.symm⟩
  have hstart := hv.1
  have hstop := hv.2
  have hsame := h.same hs
  show entry K.mem (pagedir K.mem KC) (v / 1024) = 0
  rw [hsame.dir, hsame.words _ (by omega)]
  exact h.user_word hlow (by omega) (by omega)

/-- A page of the range is the process's to write to. -/
theorem Allocated.writable {base : Nat → Nat} {c va : Nat} {R : Nat → Prop} {f : Nat → Nat}
    {m'' : Mem} (ha : Allocated L base live c R f m s m' s') (hsame : SameSpace base m' m'' c)
    (hva : va / 0x1000 < 2 ^ 20) (hR : R (va / 0x1000)) (h0 : base (va / 0x1000 / 1024) = 0) :
    UserWritable m'' (pagedir m'' c) va := by
  have hi : va / 0x1000 / 1024 < 1024 := by omega
  have hword := ha.mapped _ hva hR
  have hwords := hsame.words _ hi
  have hpte := hsame.ptes _ hva
  rw [ha.dir] at hwords hpte
  rw [hsame.dir, ha.dir]
  refine ⟨?_, ?_⟩
  · -- the table is one of the context's own
    rw [hwords]
    rcases ha.grows.contextAt.words _ hi with he | ⟨-, t, ht, he⟩
    · rw [ha.dir, h0] at he
      rw [pte_of_even (by rw [he])] at hword
      omega
    · rw [ha.dir] at he
      have hal := ht.aligned
      omega
  · rw [hpte, hword]
    omega

/-- The other pages stay where they are. -/
theorem Allocated.translates {base : Nat → Nat} {c va : Nat} {R : Nat → Prop} {f : Nat → Nat}
    {m'' : Mem} (ha : Allocated L base live c R f m s m' s') (hsame : SameSpace base m' m'' c)
    (hva : va / 0x1000 < 2 ^ 20) (hR : ¬ R (va / 0x1000)) :
    translate m'' (pagedir m'' c) va = translate m (pagedir m c) va := by
  have hpte := hsame.ptes _ hva
  rw [ha.dir] at hpte
  rw [hsame.dir, ha.dir]
  refine translate_congr ?_
  rw [hpte, ha.kept _ hva hR]

/-- A call that fits and returns. -/
theorem sbrkCall_ok (h : KernelSpace L m₁ s₁ KC) (hlow : L.heapEnd < 0x40000000)
    (hp : L.heapStart ≤ p) (hinv : SbrkInv L KC m₁ s₁ p K live rs) (hcur : K.currentProcess = p)
    (hfits : SbrkFits K ebx) (hne : ebx ≠ 0) (hok : sbrkCall L K ebx = .ok (eax, K')) :
    SbrkRegion p K K' rs eax ebx ∧ SbrkInv L KC m₁ s₁ p K' live ((eax, ebx) :: rs) := by
  have hend : L.pagepoolEnd = L.heapStart := rfl
  have hbrk := hinv.brk
  have huser : USERSPACE_PAGEPOOL = 0x40000000 := rfl
  subst hcur
  obtain ⟨htop, m, s, hperm, hexec, heax, hK'⟩ :=
    sbrkCall_exec h hlow hinv.spaces hinv.context hfits hne hok
  have hstep := VmmState.exec_step h
    (show Spaces L _ m₁ s₁ (⟨K.mem, K.frames, live⟩ : VmmState).mem K.frames live from hinv.spaces)
    hperm hexec
  have hspaces := hstep.spaces h hinv.spaces
  obtain ⟨hctx, hbrk'⟩ := record_outside hp (fun x hx => hstep.outside hx)
  simp only at hspaces hctx hbrk'
  generalize hb : sbrkState K.mem K.currentProcess = b at *
  rw [hbrk', Nat.mod_eq_of_lt (by omega)] at heax
  rw [hbrk'] at hK'
  subst hK' heax
  -- the store into the record is outside the pool
  have hstore : ∀ x, L.pagepoolStart ≤ x → x < L.pagepoolEnd →
      store32 m (K.currentProcess + 24) (b + ebx) x = m x := fun x _ _ =>
    store32_of_outside (by omega)
  have hsame := hspaces.same_outside hstore hinv.context
  have hctx' : procContext (store32 m (K.currentProcess + 24) (b + ebx)) K.currentProcess =
      procContext K.mem K.currentProcess := by
    rw [← hctx]
    exact load32_store32_of_ne (by omega)
  have hbrk'' : sbrkState (store32 m (K.currentProcess + 24) (b + ebx)) K.currentProcess =
      b + ebx := by
    unfold sbrkState
    rw [load32_store32]
    omega
  have hmod : (USERSPACE_PAGEPOOL + b + ebx) % 2 ^ 32 = USERSPACE_PAGEPOOL + b + ebx :=
    Nat.mod_eq_of_lt (by omega)
  cases hstep with
  | alloc _ hrange ha =>
  rw [hmod] at ha hrange
  refine ⟨⟨hbrk, by omega, fun va hge hlt => ?_, fun r hr va hge hlt => ?_⟩,
    ⟨hspaces.outside hstore, by rw [hctx']; exact hinv.context, ?_, htop, fun r hr => ?_⟩⟩
  · have hin : InRange (USERSPACE_PAGEPOOL + b) (USERSPACE_PAGEPOOL + b + ebx) (va / 0x1000) := by
      have hal := hperm.2.aligned
      exact ⟨by omega, by omega⟩
    show UserWritable _ (pagedir _ (procContext _ _)) va
    rw [hctx']
    exact ha.writable hsame (by omega) hin (hrange _ hin).2
  · -- an earlier region lies below the break
    have hbelow := hinv.below r hr
    have hnot : ¬ InRange (USERSPACE_PAGEPOOL + b) (USERSPACE_PAGEPOOL + b + ebx) (va / 0x1000) := by
      rintro ⟨hin, -⟩
      omega
    show translate _ (pagedir _ (procContext _ _)) va = _
    rw [hctx']
    exact ha.translates hsame (by omega) hnot
  · show _ + sbrkState _ _ = _
    rw [hbrk'']
    exact (Nat.add_assoc _ _ _).symm
  · have hlast : regionsEnd ((USERSPACE_PAGEPOOL + b, ebx) :: rs) = USERSPACE_PAGEPOOL + b + ebx :=
      rfl
    rw [hlast]
    rcases List.mem_cons.mp hr with rfl | hr
    · exact le_rfl
    · have hbelow := hinv.below r hr
      omega

/-- A call of size zero reports `-1` and does nothing. -/
theorem sbrkCall_zero : sbrkCall L K 0 = .ok (2 ^ 32 - 1, K) := if_pos le_rfl

/-- An operation on other contexts leaves the process its own. -/
theorem VmmStep.stays {base : Nat → Nat} {D c : Nat} {st st' : VmmState} {op : VmmOp}
    (hstep : VmmStep L base D st op st') (hc : c ∈ st.live) (hop : op ≠ .destroy c) :
    c ∈ st'.live := by
  cases hstep with
  | create => exact List.mem_cons_of_mem _ hc
  | alloc => exact hc
  | @destroy x =>
      refine List.mem_filter.mpr ⟨hc, ?_⟩
      have hne : c ≠ x := fun he => hop (by rw [he])
      simpa using hne

theorem SbrkRun.inv (h : KernelSpace L m₁ s₁ KC) (hlow : L.heapEnd < 0x40000000)
    (hp : L.heapStart ≤ p) (hrun : SbrkRun L KC m₁ s₁ p K live rs) :
    SbrkInv L KC m₁ s₁ p K live rs := by
  induction hrun with
  | start hvmm hmem hctx hzero =>
      refine ⟨(hvmm.spaces h).outside hmem, hctx, ?_, by decide, fun r hr => absurd hr (by simp)⟩
      rw [hzero]
      rfl
  | @call K K' live rs ebx eax _ hcur hfits hok ih =>
      by_cases hz : ebx = 0
      · subst hz
        rw [sbrkCall_zero] at hok
        cases hok
        exact ih
      · rw [if_neg hz]
        exact (sbrkCall_ok h hlow hp ih hcur hfits hz hok).2
  | @vmm K st' live rs op _ hperm hspares hexec ih =>
      have hstep := VmmState.exec_step h
        (show Spaces L _ m₁ s₁ (⟨K.mem, K.frames, live⟩ : VmmState).mem K.frames live from ih.spaces)
        hperm hexec
      obtain ⟨hctx, hbrk⟩ := record_outside hp (fun x hx => hstep.outside hx)
      refine ⟨hstep.spaces h ih.spaces, ?_, ?_, ih.fits, ih.below⟩
      · show procContext st'.mem p ∈ st'.live
        rw [hctx]
        exact hstep.stays ih.context hspares.2
      · show _ + sbrkState st'.mem p = _
        rw [hbrk]
        exact ih.brk
  | kernel _ hframes hmem hctx hbrk ih =>
      refine ⟨?_, by rw [hctx]; exact ih.context, by rw [hbrk]; exact ih.brk, ih.fits, ih.below⟩
      rw [hframes]
      exact ih.spaces.outside hmem

/-- A call that is not of size zero asks `vmm_alloc` for the bytes behind the break. -/
theorem sbrkCall_eq (hcur : K.currentProcess = p) (hne : ebx ≠ 0)
    (hle : USERSPACE_PAGEPOOL + sbrkState K.mem p < 2 ^ 32) :
    sbrkCall L K ebx = (do
      let (m, s) ← vmmAlloc L K.mem K.frames (procContext K.mem p)
        (USERSPACE_PAGEPOOL + sbrkState K.mem p) ebx
      return ((USERSPACE_PAGEPOOL + sbrkState m p) % 2 ^ 32,
        { K with mem := store32 m (p + 24) (sbrkState m p + ebx), frames := s })) := by
  subst hcur
  unfold sbrkCall
  rw [if_neg (by omega), Nat.mod_eq_of_lt hle]

/-- **When `sbrk` hands out memory.** In every run of a process whose earlier calls fit, a call
that fits is good; and where a frame is left, one that does not fit is not, unless its region
ends exactly with the address space. -/
theorem sbrk_regions (L : Layout) (m₀ : Mem) (s₀ : Pmm) {KC p : Nat} {m₁ : Mem} {s₁ : Pmm}
    (hboot : initVmm L m₀ s₀ = .ok (KC, m₁, s₁)) (hlow : L.heapEnd < 0x40000000)
    (hp : L.heapStart ≤ p) {K : Kernel Pmm} {live : List Nat} {rs : List (Nat × Nat)}
    (hrun : SbrkRun L KC m₁ s₁ p K live rs) (hcur : K.currentProcess = p) {ebx : Nat}
    (hebx : ebx < 2 ^ 32) :
    (SbrkFits K ebx → SbrkGood L p K rs ebx) ∧
    (0 < framesLeft L K.frames → USERSPACE_PAGEPOOL + sbrkState K.mem p + ebx ≠ 2 ^ 32 →
      SbrkGood L p K rs ebx → SbrkFits K ebx) := by
  obtain ⟨h, -⟩ := initVmm_ok hboot
  have hinv := hrun.inv h hlow hp
  have hbrk := hinv.brk
  have hle := hinv.fits
  have huser : USERSPACE_PAGEPOOL = 0x40000000 := rfl
  have hlt : USERSPACE_PAGEPOOL + sbrkState K.mem p < 2 ^ 32 := by omega
  constructor
  · intro hfits
    by_cases hz : ebx = 0
    · subst hz
      refine ⟨?_, fun eax K' hok => Or.inl ?_⟩
      · rw [sbrkCall_zero]
        exact fun he => nomatch he
      · rw [sbrkCall_zero] at hok
        cases hok
        rfl
    · refine ⟨fun he => ?_, fun eax K' hok =>
        Or.inr (sbrkCall_ok h hlow hp hinv hcur hfits hz hok).1⟩
      rw [sbrkCall_eq hcur hz hlt] at he
      have hal := (hfits.resolve_left hz).1
      rw [hcur] at hal
      cases halloc : vmmAlloc L K.mem K.frames (procContext K.mem p)
          (USERSPACE_PAGEPOOL + sbrkState K.mem p) ebx with
      | error e =>
          rw [bind_of_error halloc] at he
          cases he
          exact vmmAllocLoop_alignment (by omega) halloc
      | ok r =>
          rw [bind_of_ok halloc] at he
          cases he
  · rintro hframes hexact ⟨hnot, hgood⟩
    by_contra hfits
    unfold SbrkFits at hfits
    rw [hcur] at hfits
    push Not at hfits
    obtain ⟨hz, hbad⟩ := hfits
    rw [sbrkCall_eq hcur hz hlt] at hnot hgood
    by_cases htop : USERSPACE_PAGEPOOL + sbrkState K.mem p + ebx < 2 ^ 32
    · -- the break lies inside a page
      have hmod := Nat.mod_eq_of_lt htop
      refine hnot (bind_of_error (vmmAlloc_unaligned (fun hal => ?_) (by omega) hframes))
      exact absurd (hbad (by omega)) (by omega)
    · -- the region would wrap around
      have hwraps := vmmAlloc_wraps (L := L) (m := K.mem) (s := K.frames)
        (c := procContext K.mem p) (by omega :
          ¬ USERSPACE_PAGEPOOL + sbrkState K.mem p < (USERSPACE_PAGEPOOL + sbrkState K.mem p + ebx)
            % 2 ^ 32)
      have hret := hgood _ _ (bind_of_ok hwraps)
      rw [Nat.mod_eq_of_lt hlt] at hret
      rcases hret with he | hregion
      · omega
      · have := hregion.noWrap
        omega

/-! ## The first calls -/

/-- A process record behind the heap's start, on the smallest layout, for a context that is
alive and no memory yet. -/
theorem first_sbrkRun : ∃ KC m₁ s₁, ∃ K : Kernel Pmm, ∃ live,
    initVmm Layout.least (fun _ => 0) emptyPmm = .ok (KC, m₁, s₁) ∧
    SbrkRun Layout.least KC m₁ s₁ Layout.least.heapStart K live [] ∧
    K.currentProcess = Layout.least.heapStart ∧ sbrkState K.mem Layout.least.heapStart = 0 ∧
    poolCount Layout.least K.frames ≤ 200 ∧ 2 ≤ framesLeft Layout.least K.frames := by
  have hend : Layout.least.heapEnd = 0x1701000 := rfl
  have hleft : 3 ≤ framesLeft Layout.least emptyPmm :=
    le_framesLeft (fun j hj => ⟨by omega, used_emptyPmm⟩)
  obtain ⟨KC, m₁, s₁, c, st₁, st, f, hboot, hrun, hlive, -, -, -, hcount, hframes⟩ :=
    first_run emptyPmm 1 (by decide) (by rw [poolCount_emptyPmm]; decide) (by omega)
  generalize hp : Layout.least.heapStart = p
  have hpool : Layout.least.pagepoolEnd = p := hp
  obtain ⟨h, -⟩ := initVmm_ok hboot
  have hrun' := hrun (fun _ _ => True) (fun _ _ _ _ => trivial)
  have hmem : c ∈ st.live := by
    rw [hlive]
    exact List.mem_singleton_self c
  have hc := ((hrun'.spaces h).contexts c hmem).context.lt
  have hzero : sbrkState (store32 (store32 st.mem (p + 4) c) (p + 24) 0) p = 0 :=
    load32_store32 _ _ _
  refine ⟨KC, m₁, s₁, ⟨store32 (store32 st.mem (p + 4) c) (p + 24) 0, st.pmm, 0, p, 0, 0, 0⟩,
    st.live, hboot, ?_, rfl, hzero, hcount, by show 2 ≤ framesLeft _ st.pmm; omega⟩
  refine SbrkRun.start hrun' (fun x _ hlt => ?_) ?_ hzero
  · show store32 (store32 st.mem (p + 4) c) (p + 24) 0 x = st.mem x
    rw [store32_of_outside (by omega), store32_of_outside (by omega)]
  · have hctx : procContext (store32 (store32 st.mem (p + 4) c) (p + 24) 0) p = c := by
      unfold procContext
      rw [load32_store32_of_ne (by omega), load32_store32, Nat.mod_eq_of_lt (by omega)]
    exact hctx.symm ▸ hmem

/-- The first call of a process, for one page, is good. -/
theorem sbrk_regions_first : ∃ KC m₁ s₁, ∃ K : Kernel Pmm, ∃ live,
    initVmm Layout.least (fun _ => 0) emptyPmm = .ok (KC, m₁, s₁) ∧
    SbrkRun Layout.least KC m₁ s₁ Layout.least.heapStart K live [] ∧
    SbrkGood Layout.least Layout.least.heapStart K [] 0x1000 := by
  obtain ⟨KC, m₁, s₁, K, live, hboot, hrun, hcur, hzero, -, -⟩ := first_sbrkRun
  refine ⟨KC, m₁, s₁, K, live, hboot, hrun, ?_⟩
  have huser : USERSPACE_PAGEPOOL = 0x40000000 := rfl
  have hfits : SbrkFits K 0x1000 := by
    refine Or.inr ?_
    rw [hcur, hzero]
    decide
  exact (sbrk_regions Layout.least (fun _ => 0) emptyPmm hboot (by decide) le_rfl hrun hcur
    (by decide)).1 hfits

/-- After one byte, a second one fails the assertion. -/
theorem sbrk_regions_fails : ∃ KC m₁ s₁, ∃ K : Kernel Pmm, ∃ live rs,
    initVmm Layout.least (fun _ => 0) emptyPmm = .ok (KC, m₁, s₁) ∧
    SbrkRun Layout.least KC m₁ s₁ Layout.least.heapStart K live rs ∧
    sbrkCall Layout.least K 1 = .error .alignment := by
  obtain ⟨KC, m₁, s₁, K, live, hboot, hrun, hcur, hzero, hcount, hleft⟩ := first_sbrkRun
  have huser : USERSPACE_PAGEPOOL = 0x40000000 := rfl
  generalize hp : Layout.least.heapStart = p at *
  obtain ⟨h, -⟩ := initVmm_ok hboot
  have hinv := hrun.inv h (by decide) (by rw [hp])
  -- the first byte
  obtain ⟨m, s, halloc, -, hleft'⟩ := vmmAlloc_returns (L := Layout.least) K.mem K.frames
    (procContext K.mem p) 0x40000000 1 1 (by decide) (by decide) (by decide) (by omega) (by omega)
  have hcall := sbrkCall_eq (L := Layout.least) hcur (show 1 ≠ 0 by decide)
    (by rw [hzero]; decide)
  rw [hzero] at hcall
  obtain ⟨eax, K', hret, hcur', hframes⟩ : ∃ eax K', sbrkCall Layout.least K 1 = .ok (eax, K') ∧
      K'.currentProcess = p ∧ K'.frames = s :=
    ⟨_, _, hcall.trans (bind_of_ok halloc), hcur, rfl⟩
  have hfits : SbrkFits K 1 := by
    refine Or.inr ?_
    rw [hcur, hzero]
    decide
  have hrun' := hrun.call hcur hfits hret
  obtain ⟨hregion, hinv'⟩ := sbrkCall_ok h (by decide) (by rw [hp]) hinv hcur hfits (by decide) hret
  -- the second one
  refine ⟨KC, m₁, s₁, K', live, _, hboot, hrun', ?_⟩
  have hbrk := hinv'.brk
  rw [hregion.start] at hbrk
  have hend : regionsEnd ((regionsEnd [], 1) :: []) = 0x40000001 := rfl
  rw [hend] at hbrk
  rw [sbrkCall_eq hcur' (by decide) (by omega), hbrk, hframes]
  exact bind_of_error (vmmAlloc_unaligned (by decide) (by decide) (by omega))

end

end DayOS
