import DayOS.Room

set_option autoImplicit false

/-! # Runs of the virtual memory manager

Behind `InitVmm`, user contexts are made and destroyed and get memory, in any order. A run
carries a ghost: which frames behind the heap became used in a `vmm_alloc` for which of the
contexts that are alive.

What one operation does is said once (`VmmStep`). From it follow the accounting of the page
pool, in every run, and the isolation of the frames, in runs that take frames but return none.
-/

namespace DayOS

open ByteMemory Paging

/-- The memory, the page bitmap, and the user contexts alive. -/
structure VmmState where
  mem : Mem
  pmm : Pmm
  live : List Nat

inductive VmmOp where
  | create
  | alloc (context vaddr sz : Nat)
  | destroy (context : Nat)

namespace VmmState

/-- One operation, in the kernel whose context is `K`. -/
def exec (L : Layout) (K : Nat) (st : VmmState) : VmmOp → Except VmmFault VmmState
  | .create => do
      let (c, m, s) ← createUsermodeContext L K st.mem st.pmm
      return ⟨m, s, c :: st.live⟩
  | .alloc c vaddr sz => do
      let (m, s) ← vmmAlloc L st.mem st.pmm c vaddr sz
      return ⟨m, s, st.live⟩
  | .destroy c => do
      let s ← destroyContext L K st.mem st.pmm c
      return ⟨st.mem, s, st.live.filter (fun x => x ≠ c)⟩

end VmmState

/-- A range that starts on a page boundary, does not wrap around, and lies under words of the
directory that the kernel does not use. -/
structure UserRange (m : Mem) (K vaddr sz : Nat) : Prop where
  aligned : vaddr % 0x1000 = 0
  noWrap : vaddr + sz ≤ 2 ^ 32
  unshared : ∀ v, InRange vaddr (vaddr + sz) v → entry m (pagedir m K) (v / 1024) = 0

/-- Operations are on contexts alive, and memory is asked for in user ranges. -/
def Permitted (K : Nat) (st : VmmState) : VmmOp → Prop
  | .create => True
  | .alloc c vaddr sz => c ∈ st.live ∧ UserRange st.mem K vaddr sz
  | .destroy c => c ∈ st.live

/-- No page of the range is mapped yet. -/
def Unmapped (st : VmmState) : VmmOp → Prop
  | .alloc c vaddr sz => ∀ v, InRange vaddr (vaddr + sz) v →
      translate st.mem (pagedir st.mem c) (0x1000 * v) = none
  | _ => True

/-- The frames given to contexts, after an operation that led from `st` to `st'`. -/
def givenAfter (L : Layout) (st st' : VmmState) (given : Nat → Nat → Prop) :
    VmmOp → Nat → Nat → Prop
  | .create, c, q => c ∈ st.live ∧ given c q
  | .alloc x _ _, c, q =>
      given c q ∨ c = x ∧ L.heapEnd ≤ 0x1000 * q ∧ ¬ st.pmm.Used q ∧ st'.pmm.Used q
  | .destroy x, c, q => c ≠ x ∧ given c q

/-- The states that permitted operations, all of them in `Q`, lead to, and the frames given. -/
inductive VmmRun (L : Layout) (K : Nat) (Q : VmmState → VmmOp → Prop) (st₀ : VmmState) :
    VmmState → (Nat → Nat → Prop) → Prop
  | start : VmmRun L K Q st₀ st₀ (fun _ _ => False)
  | step {st st' : VmmState} {given : Nat → Nat → Prop} {op : VmmOp} :
      VmmRun L K Q st₀ st given → Permitted K st op → Q st op → st.exec L K op = .ok st' →
      VmmRun L K Q st₀ st' (givenAfter L st st' given op)

/-! ## What an operation does -/

/-- One operation, as the words `base` of the kernel's directory and the contexts see it. -/
inductive VmmStep (L : Layout) (base : Nat → Nat) (D : Nat) (st : VmmState) :
    VmmOp → VmmState → Prop
  | create {c d : Nat} {m' : Mem} {s' : Pmm} : c ∉ st.live →
      NewContext L base st.mem st.pmm c d m' s' →
      VmmStep L base D st .create ⟨m', s', c :: st.live⟩
  | alloc {c vaddr sz : Nat} {f : Nat → Nat} {m' : Mem} {s' : Pmm} : c ∈ st.live →
      (∀ v, InRange vaddr ((vaddr + sz) % 2 ^ 32) v →
        InRange vaddr (vaddr + sz) v ∧ base (v / 1024) = 0) →
      Allocated L base st.live c (InRange vaddr ((vaddr + sz) % 2 ^ 32)) f st.mem st.pmm m' s' →
      VmmStep L base D st (.alloc c vaddr sz) ⟨m', s', st.live⟩
  | destroy {c : Nat} {s' : Pmm} : c ∈ st.live →
      (∀ q, s'.Used q ↔ st.pmm.Used q ∧ q ≠ c / 0x1000 ∧ q ≠ pagedir st.mem c / 0x1000 ∧
        ¬ Frees L st.mem D (pagedir st.mem c) q) →
      VmmStep L base D st (.destroy c) ⟨st.mem, s', st.live.filter (fun x => x ≠ c)⟩

section
variable {L : Layout} {K c q : Nat} {m₀ m₁ m m' : Mem} {s₀ s₁ s s' : Pmm} {st st' st₀ : VmmState}
  {Q : VmmState → VmmOp → Prop} {given : Nat → Nat → Prop} {op : VmmOp} {cs : List Nat}

/-- What the boot leaves behind. -/
theorem initVmm_ok (h : initVmm L m₀ s₀ = .ok (K, m, s)) :
    KernelSpace L m s K ∧ ∃ R, Booting L R m₀ s₀ K m s := by
  rcases initVmm_spec L m₀ s₀ with ⟨K', m', s', he, hk, hb⟩ | ⟨he, -⟩
  · rw [he] at h
    cases h
    exact ⟨hk, hb⟩
  · rw [he] at h
    cases h

/-- Behind the boot no user context is alive, and the words of the kernel's directory are the
shared ones. -/
theorem KernelSpace.spaces (h : KernelSpace L m s K) :
    Spaces L (entry m (pagedir m K)) m s m s [] := by
  refine ⟨h.words, fun c hc => absurd hc (by simp), fun p _ _ => AgreeOn.refl m p _,
    fun p _ => ⟨Or.inl, ?_⟩, fun c hc => absurd hc (by simp), fun c hc => absurd hc (by simp)⟩
  rintro (hu | ⟨c, hc, -⟩)
  · exact hu
  · exact absurd hc (by simp)

/-- The kernel's own space stays as the boot left it. -/
theorem KernelSpace.same (h : KernelSpace L m₁ s₁ K)
    (hs : Spaces L (entry m₁ (pagedir m₁ K)) m₁ s₁ m s cs) :
    SameSpace (entry m₁ (pagedir m₁ K)) m₁ m K := by
  refine SameSpace.of_agree (L := L) (fun k p hp => ?_) (fun i hi => ?_)
  · cases k with
    | context =>
        cases hp
        exact hs.frozen _ h.context h.contextUsed
    | dir =>
        cases hp
        exact hs.frozen _ h.dir h.dirUsed
    | table i => exact absurd rfl (pageAt_table.mp hp).2.1
  · rcases h.words i hi with h0 | ⟨t, ht, he, hu⟩
    · exact Or.inl h0
    · exact Or.inr ⟨t, ht, he, hs.frozen t ht hu⟩

theorem KernelSpace.not_mem (h : KernelSpace L m₁ s₁ K)
    (hs : Spaces L (entry m₁ (pagedir m₁ K)) m₁ s₁ m s cs) : K ∉ cs :=
  fun hK => hs.fresh K hK .context K rfl h.contextUsed

/-- **What one operation does.** -/
theorem VmmState.exec_step (h : KernelSpace L m₁ s₁ K)
    (hs : Spaces L (entry m₁ (pagedir m₁ K)) m₁ s₁ st.mem st.pmm st.live)
    (hp : Permitted K st op) (he : st.exec L K op = .ok st') :
    VmmStep L (entry m₁ (pagedir m₁ K)) (pagedir m₁ K) st op st' := by
  have hsame := h.same hs
  cases op with
  | create =>
      obtain ⟨⟨c, m', s'⟩, hc, he⟩ := bind_eq_ok.mp he
      cases he
      have hdirK : L.PoolPage (pagedir st.mem K) := by
        rw [hsame.dir]
        exact h.dir
      have hdirUsed : st.pmm.Used (pagedir st.mem K / 0x1000) := by
        rw [hsame.dir]
        exact (hs.used _ h.dir).mpr (Or.inl h.dirUsed)
      obtain ⟨d, hnew⟩ := createUsermodeContext_ok h.context
        ((hs.used _ h.context).mpr (Or.inl h.contextUsed)) hdirK hdirUsed hc
      have hwords : ∀ i < 1024, entry m' d i = entry m₁ (pagedir m₁ K) i := fun i hi => by
        rw [hnew.words i hi, hsame.dir, hsame.words i hi]
      refine VmmStep.create (d := d) (fun hmem => ?_)
        { hnew with words := hwords }
      exact hnew.contextFree (hs.pageUsed hmem (k := .context) rfl)
  | alloc c vaddr sz =>
      obtain ⟨⟨m', s'⟩, hc, he⟩ := bind_eq_ok.mp he
      cases he
      obtain ⟨hmem, hr⟩ := hp
      have hfits := hr.noWrap
      have hrange : ∀ v, InRange vaddr ((vaddr + sz) % 2 ^ 32) v →
          InRange vaddr (vaddr + sz) v ∧ entry m₁ (pagedir m₁ K) (v / 1024) = 0 := fun v hv => by
        have hin : InRange vaddr (vaddr + sz) v := ⟨hv.1, by have := hv.2; omega⟩
        have hlt : v / 1024 < 1024 := by
          have := hin.2
          omega
        have h0 := hr.unshared v hin
        rw [hsame.dir, hsame.words _ hlt] at h0
        exact ⟨hin, h0⟩
      by_cases hv : vaddr < 2 ^ 32
      · obtain ⟨f, ha⟩ := vmmAlloc_ok hs hmem hv (fun v hv => (hrange v hv).2) hc
        exact VmmStep.alloc hmem hrange ha
      · -- an empty range at the very end
        have hsz : (vaddr + sz) % 2 ^ 32 = 0 := by omega
        unfold vmmAlloc at hc
        rw [hsz] at hc
        obtain ⟨rfl, rfl⟩ := vmmAllocLoop_stop (by omega) hc
        exact VmmStep.alloc (f := fun _ => 0) hmem hrange (Allocated.nil hs hmem (fun v hv => by
          rw [hsz] at hv
          have := hv.2
          omega) _)
  | destroy c =>
      obtain ⟨s', hc, he⟩ := bind_eq_ok.mp he
      cases he
      refine VmmStep.destroy hp (fun q => ?_)
      rw [destroyContext_ok hc, hsame.dir]

/-- One operation keeps the contexts apart. -/
theorem VmmStep.spaces (h : KernelSpace L m₁ s₁ K)
    (hs : Spaces L (entry m₁ (pagedir m₁ K)) m₁ s₁ st.mem st.pmm st.live)
    (hstep : VmmStep L (entry m₁ (pagedir m₁ K)) (pagedir m₁ K) st op st') :
    Spaces L (entry m₁ (pagedir m₁ K)) m₁ s₁ st'.mem st'.pmm st'.live := by
  cases hstep with
  | create hc hnew => exact hs.grow (hnew.grows hc) (fun x => List.mem_cons)
  | alloc hc hrange ha =>
      refine hs.grow ha.grows (fun x => ⟨Or.inr, ?_⟩)
      rintro (rfl | hx)
      · exact hc
      · exact hx
  | destroy hc hused =>
      have hsame := h.same hs
      exact hs.destroy hc hsame.words (fun x => by simp [List.mem_filter]) hused

/-- No operation writes to memory outside the pool. -/
theorem VmmStep.outside {base : Nat → Nat} {D x : Nat} (hstep : VmmStep L base D st op st')
    (hx : x < L.pagepoolStart ∨ L.pagepoolEnd ≤ x) : st'.mem x = st.mem x := by
  have hout : ∀ p, L.PoolPage p → x < p ∨ p + 0x1000 ≤ x := fun p hp => by
    have := hp.start
    have := hp.below
    have hend : L.pagepoolEnd = L.heapStart := rfl
    omega
  cases hstep with
  | create hc hnew => exact hnew.keeps x (hout _ hnew.context) (hout _ hnew.dir)
  | alloc hc hrange ha =>
      exact ha.grows.keeps x (fun k p hp => hout p (ha.grows.contextAt.poolPage hp))
  | destroy hc hused => rfl

theorem VmmRun.spaces (h : KernelSpace L m₁ s₁ K) (hrun : VmmRun L K Q ⟨m₁, s₁, []⟩ st given) :
    Spaces L (entry m₁ (pagedir m₁ K)) m₁ s₁ st.mem st.pmm st.live := by
  induction hrun with
  | start => exact h.spaces
  | step _ hp _ he ih => exact (VmmState.exec_step h ih hp he).spaces h ih

/-! ## A first run

On the smallest layout, with room in the pool, a context is made and gets up to three pages at
the start of the user space. -/

/-- The bitmap in which nothing is in use. -/
def emptyPmm : Pmm := ⟨fun _ => 0, 0, 0⟩

theorem used_emptyPmm : ¬ emptyPmm.Used q := by
  unfold Pmm.Used emptyPmm
  simp

theorem poolCount_emptyPmm : poolCount L emptyPmm = 0 := by
  refine Finset.card_eq_zero.mpr (Finset.eq_empty_of_forall_notMem (fun j hj => ?_))
  exact used_emptyPmm (mem_usedPages.mp hj).2

theorem first_run (s₀ : Pmm) (n : Nat) (hn : n ≤ 3) (hpool : poolCount Layout.least s₀ ≤ 100)
    (hframes : n ≤ framesLeft Layout.least s₀) :
    ∃ K m₁ s₁ c, ∃ st₁ st : VmmState, ∃ f, initVmm Layout.least (fun _ => 0) s₀ = .ok (K, m₁, s₁) ∧
      (∀ Q : VmmState → VmmOp → Prop, (∀ st op, Unmapped st op → (∀ c, op ≠ .destroy c) → Q st op) →
        VmmRun Layout.least K Q ⟨m₁, s₁, []⟩ st
          (fun c' q => c' = c ∧ ∃ v, InRange 0x40000000 (0x40000000 + 0x1000 * n) v ∧ f v = q)) ∧
      st.live = [c] ∧
      Allocated Layout.least (entry m₁ (pagedir m₁ K)) [c] c
        (InRange 0x40000000 (0x40000000 + 0x1000 * n)) f st₁.mem st₁.pmm st.mem st.pmm ∧
      (∀ q, Layout.least.heapEnd ≤ 0x1000 * q → (st₁.pmm.Used q ↔ s₀.Used q)) ∧
      (∀ i < 1024, entry st.mem (pagedir st.mem c) i ≠ entry m₁ (pagedir m₁ K) i → i = 0x100) ∧
      poolCount Layout.least st.pmm ≤ 200 ∧
      framesLeft Layout.least s₀ ≤ framesLeft Layout.least st.pmm + n := by
  have hend : Layout.least.heapEnd = 0x1701000 := rfl
  obtain ⟨K, m₁, s₁, hboot, hcount, hsame⟩ := initVmm_returns Layout.least (fun _ => 0) s₀
    (by omega)
  have hleft : framesLeft Layout.least s₁ = framesLeft Layout.least s₀ := framesLeft_congr hsame
  obtain ⟨h, -⟩ := initVmm_ok hboot
  -- the context
  obtain ⟨c, m₂, s₂, hcreate, hcount₂, hleft₂⟩ :=
    createUsermodeContext_returns (L := Layout.least) (K := K) (m := m₁) (s := s₁) (by omega)
  have hexec : VmmState.exec Layout.least K ⟨m₁, s₁, []⟩ .create = .ok ⟨m₂, s₂, [c]⟩ :=
    bind_of_ok hcreate
  have hstep : VmmStep Layout.least (entry m₁ (pagedir m₁ K)) (pagedir m₁ K) ⟨m₁, s₁, []⟩ .create
      ⟨m₂, s₂, [c]⟩ := VmmState.exec_step h h.spaces trivial hexec
  have hs₂ : Spaces Layout.least (entry m₁ (pagedir m₁ K)) m₁ s₁ m₂ s₂ [c] :=
    hstep.spaces h h.spaces
  obtain ⟨d, hnew⟩ : ∃ d, NewContext Layout.least (entry m₁ (pagedir m₁ K)) m₁ s₁ c d m₂ s₂ := by
    cases hstep with
    | create _ hnew => exact ⟨_, hnew⟩
  -- its pages
  obtain ⟨m₃, s₃, halloc, hcount₃, hleft₃⟩ := vmmAlloc_returns (L := Layout.least) m₂ s₂ c
    0x40000000 (0x1000 * n) n (by decide) (by omega) le_rfl (by omega) (by omega)
  have hbase : ∀ v, InRange 0x40000000 (0x40000000 + 0x1000 * n) v →
      entry m₁ (pagedir m₁ K) (v / 1024) = 0 := fun v hv => by
    by_contra hne
    have := hv.1
    have := hv.2
    have := h.low _ (by omega) hne
    omega
  have hK := h.same hs₂
  have hrange : UserRange m₂ K 0x40000000 (0x1000 * n) := by
    refine ⟨by decide, by omega, fun v hv => ?_⟩
    have := hv.2
    rw [hK.dir, hK.words _ (by omega)]
    exact hbase v hv
  have hmod : (0x40000000 + 0x1000 * n) % 2 ^ 32 = 0x40000000 + 0x1000 * n :=
    Nat.mod_eq_of_lt (by omega)
  obtain ⟨f, ha⟩ := vmmAlloc_ok hs₂ (List.mem_singleton_self c) (by decide)
    (by rw [hmod]; exact hbase) halloc
  rw [hmod] at ha
  have hexec' : VmmState.exec Layout.least K ⟨m₂, s₂, [c]⟩ (.alloc c 0x40000000 (0x1000 * n)) =
      .ok ⟨m₃, s₃, [c]⟩ := bind_of_ok halloc
  have hun : Unmapped ⟨m₂, s₂, [c]⟩ (.alloc c 0x40000000 (0x1000 * n)) := fun v hv => by
    have := hv.2
    have hv' : 0x1000 * v / 0x1000 = v := Nat.mul_div_cancel_left v (by decide)
    refine translate_of_zero ?_
    show pte m₂ (pagedir m₂ c) (0x1000 * v / 0x1000) = 0
    rw [hv', hnew.pagedir]
    exact pte_of_even (by rw [hnew.words _ (by omega), hbase v hv])
  have hlater : ∀ q, Layout.least.heapEnd ≤ 0x1000 * q → (s₂.Used q ↔ s₀.Used q) := fun q hq => by
    have hne : ∀ p, Layout.least.PoolPage p → q ≠ p / 0x1000 := fun p hp he => by
      rw [he, hp.page] at hq
      have := hp.below
      have := Layout.least.heapEnd_eq
      omega
    rw [hnew.pages, used_use, used_use, ← hsame q hq]
    exact ⟨fun hu => (hu.resolve_left (hne d hnew.dir)).resolve_left (hne c hnew.context),
      fun hu => Or.inr (Or.inr hu)⟩
  have htables : ∀ i < 1024, entry m₃ (pagedir m₃ c) i ≠ entry m₁ (pagedir m₁ K) i →
      i = 0x100 := fun i hi hne => by
    rw [ha.dir, ← hnew.words i hi, ← hnew.pagedir] at hne
    obtain ⟨v, hv, rfl⟩ := ha.words i hi hne
    have := hv.1
    have := hv.2
    omega
  refine ⟨K, m₁, s₁, c, ⟨m₂, s₂, [c]⟩, ⟨m₃, s₃, [c]⟩, f, hboot, fun Q hQ => ?_, rfl, ha, hlater,
    htables, show poolCount _ s₃ ≤ 200 by omega, show _ ≤ framesLeft _ s₃ + n by omega⟩
  have hcreated : Q ⟨m₁, s₁, []⟩ .create := hQ _ _ (show Unmapped _ .create from trivial)
    (fun _ => by simp)
  have hperm : Permitted K ⟨m₂, s₂, [c]⟩ (.alloc c 0x40000000 (0x1000 * n)) :=
    ⟨List.mem_singleton_self c, hrange⟩
  have hrun := (VmmRun.start.step (show Permitted K _ .create from trivial) hcreated hexec).step
    hperm (hQ _ _ hun (fun _ => by simp)) hexec'
  have hgiven : givenAfter Layout.least ⟨m₂, s₂, [c]⟩ ⟨m₃, s₃, [c]⟩
      (givenAfter Layout.least ⟨m₁, s₁, []⟩ ⟨m₂, s₂, [c]⟩ (fun _ _ => False) .create)
      (.alloc c 0x40000000 (0x1000 * n)) =
      fun c' q => c' = c ∧ ∃ v, InRange 0x40000000 (0x40000000 + 0x1000 * n) v ∧ f v = q := by
    funext c' q
    refine propext ⟨?_, ?_⟩
    · rintro (⟨hc', -⟩ | ⟨rfl, hlow, hfree, hused⟩)
      · exact absurd hc' (by simp)
      · exact ⟨rfl, ((ha.frames q (not_poolPage hlow)).mp hused).resolve_left hfree⟩
    · rintro ⟨rfl, v, hv, rfl⟩
      obtain ⟨hlow, -, hfree⟩ := ha.frame v hv
      exact Or.inr ⟨rfl, hlow, hfree, (ha.frames _ (not_poolPage hlow)).mpr (Or.inr ⟨v, hv, rfl⟩)⟩
  rw [hgiven] at hrun
  exact hrun

/-! ## The page pool -/

/-- The page `p` is the context's own: its page, its directory, or a table under a word of the
directory that is not the kernel's. -/
def Owns (K : Nat) (m : Mem) (c : Nat) (k : Slot) (p : Nat) : Prop :=
  pageAt (entry m (pagedir m K)) m c k = some p

theorem owns_iff (h : KernelSpace L m₁ s₁ K)
    (hs : Spaces L (entry m₁ (pagedir m₁ K)) m₁ s₁ m s cs) {k : Slot} {p : Nat} :
    Owns K m c k p ↔ pageAt (entry m₁ (pagedir m₁ K)) m c k = some p := by
  have hsame := h.same hs
  have hbase : ∀ i < 1024, entry m (pagedir m K) i = entry m₁ (pagedir m₁ K) i := fun i hi => by
    rw [hsame.dir, hsame.words i hi]
  unfold Owns
  rw [pageAt_congr hbase]

/-- `destroy_context` returns for every user context alive. -/
theorem destroyContext_returns (h : KernelSpace L m₁ s₁ K)
    (hs : Spaces L (entry m₁ (pagedir m₁ K)) m₁ s₁ m s cs) (hc : c ∈ cs) :
    ∃ s', destroyContext L K m s c = .ok s' := by
  have hne : ¬ (c = NULL ∨ c = K) := by
    rintro (h0 | rfl)
    · have := (hs.contexts c hc).context.start
      have := L.pagepoolStart_ge
      have hnull : c = 0 := h0
      omega
    · exact h.not_mem hs hc
  unfold destroyContext
  rw [if_neg hne]
  exact ⟨_, rfl⟩

/-- **Page-pool accounting.** In every state a run behind `InitVmm` reaches, the pages of the
pool in use are those in use at the end of `InitVmm` and the pages of the contexts alive. These
are pages of the pool that were free then, no page serves twice, every word of a directory is
the kernel's or names a table of its context alone, and `destroy_context` returns and gives
back the pages of its context and no others. -/
theorem pool_accounting (L : Layout) (m₀ : Mem) (s₀ : Pmm) {K : Nat} {m₁ : Mem} {s₁ : Pmm}
    (hboot : initVmm L m₀ s₀ = .ok (K, m₁, s₁)) {st : VmmState} {given : Nat → Nat → Prop}
    (hrun : VmmRun L K (fun _ _ => True) ⟨m₁, s₁, []⟩ st given) :
    (∀ q, L.PoolPage (0x1000 * q) → (st.pmm.Used q ↔
      s₁.Used q ∨ ∃ c ∈ st.live, ∃ k, Owns K st.mem c k (0x1000 * q))) ∧
    (∀ c ∈ st.live, ∀ k p, Owns K st.mem c k p → L.PoolPage p ∧ ¬ s₁.Used (p / 0x1000)) ∧
    (∀ c ∈ st.live, ∀ c' ∈ st.live, ∀ k k' p, Owns K st.mem c k p → Owns K st.mem c' k' p →
      c = c' ∧ k = k') ∧
    (∀ c ∈ st.live, ∀ i < 1024,
      entry st.mem (pagedir st.mem c) i = entry st.mem (pagedir st.mem K) i ∨
      ∃ t, L.PoolPage t ∧ entry st.mem (pagedir st.mem c) i = t + 7 ∧
        Owns K st.mem c (.table i) t) ∧
    (∀ c ∈ st.live, ∃ s', destroyContext L K st.mem st.pmm c = .ok s' ∧
      ∀ q, L.PoolPage (0x1000 * q) →
        (s'.Used q ↔ st.pmm.Used q ∧ ∀ k, ¬ Owns K st.mem c k (0x1000 * q))) := by
  obtain ⟨h, -⟩ := initVmm_ok hboot
  have hs := hrun.spaces h
  have hsame := h.same hs
  have hdiv : ∀ q, 0x1000 * q / 0x1000 = q := fun q => Nat.mul_div_cancel_left q (by decide)
  have hbase : ∀ i < 1024, entry st.mem (pagedir m₁ K) i = entry m₁ (pagedir m₁ K) i := hsame.words
  simp only [owns_iff h hs]
  refine ⟨fun q hq => ?_, fun c hc k p hp => ⟨(hs.contexts c hc).poolPage hp, hs.fresh c hc k p hp⟩,
    hs.apart, fun c hc i hi => ?_, fun c hc => ?_⟩
  · have hused := hs.used _ hq
    rw [hdiv] at hused
    exact hused
  · rw [hsame.dir, hbase i hi]
    rcases (hs.contexts c hc).words i hi with he | ⟨h0, t, ht, he⟩
    · exact Or.inl he
    · exact Or.inr ⟨t, ht, he, pageAt_of_word hi h0 ht he⟩
  · obtain ⟨s', hd⟩ := destroyContext_returns h hs hc
    refine ⟨s', hd, fun q hq => ?_⟩
    have hfreed := fun q => destroyContext_ok (q := q) hd
    rw [hsame.dir] at hfreed
    have hused := used_destroyed (hs.contexts c hc) hbase hfreed hq
    rw [hdiv] at hused
    exact hused

/-- On the smallest layout with an empty bitmap, after one context has got a page. -/
theorem pool_accounting_first : ∃ K m₁ s₁ c, ∃ st : VmmState,
    initVmm Layout.least (fun _ => 0) emptyPmm = .ok (K, m₁, s₁) ∧ st.live = [c] ∧
    (∃ q, st.pmm.Used q ∧ ¬ s₁.Used q) ∧
    ∃ s', destroyContext Layout.least K st.mem st.pmm c = .ok s' ∧
      ∀ q, Layout.least.PoolPage (0x1000 * q) →
        (s'.Used q ↔ st.pmm.Used q ∧ ∀ k, ¬ Owns K st.mem c k (0x1000 * q)) := by
  have hend : Layout.least.heapEnd = 0x1701000 := rfl
  obtain ⟨K, m₁, s₁, c, st₁, st, f, hboot, hrun, hlive, -⟩ := first_run emptyPmm 1
    (by decide) (by rw [poolCount_emptyPmm]; decide)
    (le_framesLeft (fun j _ => ⟨by omega, used_emptyPmm⟩))
  obtain ⟨hused, hown, -, -, hdestroy⟩ :=
    pool_accounting Layout.least (fun _ => 0) emptyPmm hboot (hrun _ (fun _ _ _ _ => trivial))
  have hmem : c ∈ st.live := by
    rw [hlive]
    exact List.mem_singleton_self c
  obtain ⟨hp, hfree⟩ := hown c hmem .context c rfl
  refine ⟨K, m₁, s₁, c, st, hboot, hlive, ⟨c / 0x1000, ?_, hfree⟩, hdestroy c hmem⟩
  refine (hused (c / 0x1000) (by rw [hp.page]; exact hp)).mpr (Or.inr ⟨c, hmem, .context, ?_⟩)
  rw [hp.page]
  rfl

end

end DayOS
