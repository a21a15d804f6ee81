import DayOS.KernelHost

set_option autoImplicit false

/-! # A context for each process

Behind `InitVmm` every process alive has a context of its own, and these contexts lie side by
side in the page pool (`OwnSpaces`). Between two states of the kernel there are calls into
`vmm.c`, and stores outside the pool (`PoolRun`). As long as the calls are on other contexts, a
process has the addresses it had.
-/

namespace DayOS

open ByteMemory Paging

/-- The memory manager with the contexts `live`, in a kernel. -/
def Kernel.vmm (K : Kernel Pmm) (live : List Nat) : VmmState := ⟨K.mem, K.frames, live⟩

/-- Calls into `vmm.c`, all of them in `Q`, and stores outside the page pool. -/
inductive PoolRun (L : Layout) (KC : Nat) (Q : VmmOp → Prop) (st : VmmState) : VmmState → Prop
  | start : PoolRun L KC Q st st
  | outside {st₁ : VmmState} {m : Mem} : PoolRun L KC Q st st₁ →
      (∀ x, L.InPool x → m x = st₁.mem x) → PoolRun L KC Q st ⟨m, st₁.pmm, st₁.live⟩
  | call {st₁ st₂ : VmmState} {op : VmmOp} : PoolRun L KC Q st st₁ → Permitted KC st₁ op → Q op →
      st₁.exec L KC op = .ok st₂ → PoolRun L KC Q st st₂

/-- The contexts `live` are there, behind an `InitVmm` that has left `m₁` and `s₁`, and every
process alive has one of its own. -/
structure OwnSpaces (L : Layout) (KC : Nat) (m₁ : Mem) (s₁ : Pmm) (K : Kernel Pmm)
    (alive live : List Nat) : Prop where
  spaces : Spaces L (entry m₁ (pagedir m₁ KC)) m₁ s₁ K.mem K.frames live
  mem : ∀ p ∈ alive, procContext K.mem p ∈ live
  inj : ∀ p ∈ alive, ∀ q ∈ alive, procContext K.mem p = procContext K.mem q → p = q

section
variable {L : Layout} {KC p start c : Nat} {m m' m₁ : Mem} {s₁ : Pmm} {K K' K'' : Kernel Pmm}
  {alive alive' live live' : List Nat} {A : Allocator} {blocks : List Block}
  {st st₁ st' : VmmState} {op : VmmOp} {Q Q' : VmmOp → Prop} {base : Nat → Nat} {D : Nat}

/-! ## Calls and stores -/

theorem SameSpace.refl (base : Nat → Nat) (m : Mem) (c : Nat) : SameSpace base m m c :=
  ⟨rfl, fun _ _ => rfl, rfl, fun _ _ => rfl⟩

theorem SameSpace.trans {m₂ : Mem} (h : SameSpace base m m' c) (h' : SameSpace base m' m₂ c) :
    SameSpace base m m₂ c := by
  have hdir := h.dir
  refine ⟨h'.dir.trans hdir, fun i hi => ?_, h'.pages.trans h.pages, fun v hv => ?_⟩
  · rw [← hdir, h'.words i hi, hdir]
    exact h.words i hi
  · rw [← hdir, h'.ptes v hv, hdir]
    exact h.ptes v hv

theorem SameSpace.translates (h : SameSpace base m m' c) {va : Nat} (hva : va < 2 ^ 32) :
    translate m' (pagedir m' c) va = translate m (pagedir m c) va := by
  rw [h.dir]
  exact translate_congr (h.ptes _ (by omega))

/-- A call on other contexts leaves `c` its space. -/
theorem VmmStep.same (hs : Spaces L base m₁ s₁ st.mem st.pmm st.live)
    (hstep : VmmStep L base D st op st') (hc : c ∈ st.live) (hop : Spares c op) :
    SameSpace base st.mem st'.mem c := by
  cases hstep with
  | create hfresh hnew =>
      refine hs.same_of_grows (hnew.grows hfresh) hc ?_
      rintro rfl
      exact hfresh hc
  | alloc hx hrange ha =>
      refine hs.same_of_grows ha.grows hc ?_
      rintro rfl
      exact hop.1 _ _ rfl
  | destroy => exact SameSpace.refl base _ c

theorem PoolRun.mono (h : PoolRun L KC Q st st') (hQ : ∀ op, Q op → Q' op) :
    PoolRun L KC Q' st st' := by
  induction h with
  | start => exact .start
  | outside _ hm ih => exact .outside ih hm
  | call _ hp hq he ih => exact .call ih hp (hQ _ hq) he

theorem PoolRun.trans (h : PoolRun L KC Q st st₁) (h' : PoolRun L KC Q st₁ st') :
    PoolRun L KC Q st st' := by
  induction h' with
  | start => exact h
  | outside _ hm ih => exact .outside ih hm
  | call _ hp hq he ih => exact .call ih hp hq he

/-- **What the calls keep**: the contexts stay apart; one that is not destroyed stays, and one
that no call is on keeps its space. -/
theorem PoolRun.keeps (hrun : PoolRun L KC Q st st') (hK : KernelSpace L m₁ s₁ KC)
    (hs : Spaces L (entry m₁ (pagedir m₁ KC)) m₁ s₁ st.mem st.pmm st.live) :
    Spaces L (entry m₁ (pagedir m₁ KC)) m₁ s₁ st'.mem st'.pmm st'.live ∧
    ∀ c ∈ st.live, (∀ op, Q op → op ≠ .destroy c) → c ∈ st'.live ∧
      ((∀ op, Q op → Spares c op) →
        SameSpace (entry m₁ (pagedir m₁ KC)) st.mem st'.mem c) := by
  induction hrun with
  | start => exact ⟨hs, fun c hc _ => ⟨hc, fun _ => SameSpace.refl _ _ c⟩⟩
  | outside _ hm ih =>
      obtain ⟨hs₁, hlive⟩ := ih
      have hm' := fun x hx hx' => hm x ⟨hx, hx'⟩
      refine ⟨hs₁.outside hm', fun c hc hne => ?_⟩
      obtain ⟨hc₁, hsame⟩ := hlive c hc hne
      exact ⟨hc₁, fun hspares => (hsame hspares).trans (hs₁.same_outside hm' hc₁)⟩
  | call _ hp hq he ih =>
      obtain ⟨hs₁, hlive⟩ := ih
      have hstep := VmmState.exec_step hK hs₁ hp he
      refine ⟨hstep.spaces hK hs₁, fun c hc hne => ?_⟩
      obtain ⟨hc₁, hsame⟩ := hlive c hc hne
      exact ⟨hstep.stays hc₁ (hne _ hq), fun hspares =>
        (hsame hspares).trans (hstep.same hs₁ hc₁ (hspares _ hq))⟩

/-! ## Processes and their contexts -/

/-- Outside `vmm.c` nothing is written to the pool. -/
theorem AreaKept.run (h : AreaKept (vmmContexts L KC) K K') :
    PoolRun L KC Q (K.vmm live) (K'.vmm live) := by
  have hrun : PoolRun L KC Q (K.vmm live) ⟨K'.mem, K.frames, live⟩ := .outside .start h.area
  rw [← h.frames] at hrun
  exact hrun

/-- Behind `InitVmm` there is no process yet. -/
theorem KernelSpace.ownSpaces (h : KernelSpace L m₁ K.frames KC)
    (hpool : ∀ x, L.InPool x → K.mem x = m₁ x) : OwnSpaces L KC m₁ K.frames K [] [] :=
  ⟨h.spaces.outside (fun x hx hx' => hpool x ⟨hx, hx'⟩), by simp, by simp⟩

/-- **Calls that destroy no context of a process** leave each its own, and those that no call is
on keep their spaces. -/
theorem OwnSpaces.run (h : OwnSpaces L KC m₁ s₁ K alive live) (hK : KernelSpace L m₁ s₁ KC)
    (hrun : PoolRun L KC Q (K.vmm live) (K'.vmm live')) (hsub : ∀ p ∈ alive', p ∈ alive)
    (hctx : ∀ p ∈ alive', procContext K'.mem p = procContext K.mem p)
    (hQ : ∀ p ∈ alive', ∀ op, Q op → op ≠ .destroy (procContext K.mem p)) :
    OwnSpaces L KC m₁ s₁ K' alive' live' ∧
    ∀ p ∈ alive', (∀ op, Q op → Spares (procContext K.mem p) op) →
      SameSpace (entry m₁ (pagedir m₁ KC)) K.mem K'.mem (procContext K.mem p) := by
  obtain ⟨hs, hlive⟩ := hrun.keeps hK h.spaces
  refine ⟨⟨hs, fun p hp => ?_, fun p hp q hq he => ?_⟩, fun p hp hspares => ?_⟩
  · rw [hctx p hp]
    exact (hlive _ (h.mem p (hsub p hp)) (hQ p hp)).1
  · rw [hctx p hp, hctx q hq] at he
    exact h.inj p (hsub p hp) q (hsub q hq) he
  · exact (hlive _ (h.mem p (hsub p hp)) (hQ p hp)).2 hspares

/-- Outside `vmm.c` no context changes. -/
theorem OwnSpaces.kept (h : OwnSpaces L KC m₁ s₁ K alive live) (hK : KernelSpace L m₁ s₁ KC)
    (hk : AreaKept (vmmContexts L KC) K K') (hctx : ∀ p ∈ alive, procContext K'.mem p = procContext K.mem p) :
    OwnSpaces L KC m₁ s₁ K' alive live :=
  (h.run hK (hk.run (Q := fun _ => False)) (fun _ => id) hctx (fun _ _ _ hf => hf.elim)).1

/-- **A new process** with a context that no other has. -/
theorem OwnSpaces.birth (h : OwnSpaces L KC m₁ s₁ K alive live) (hp : procContext K.mem p ∈ live)
    (hne : ∀ q ∈ alive, procContext K.mem q ≠ procContext K.mem p) :
    OwnSpaces L KC m₁ s₁ K (p :: alive) live := by
  refine ⟨h.spaces, List.forall_mem_cons.mpr ⟨hp, h.mem⟩, fun q hq r hr he => ?_⟩
  rcases List.mem_cons.mp hq with hqp | hq
  · rcases List.mem_cons.mp hr with hrp | hr
    · exact hqp.trans hrp.symm
    · exact absurd (he.symm.trans (hqp ▸ rfl)) (hne r hr)
  · rcases List.mem_cons.mp hr with hrp | hr
    · exact absurd (he.trans (hrp ▸ rfl)) (hne q hq)
    · exact h.inj q hq r hr he

/-! ## A new kernel process -/

/-- `CreateKernelProcess` asks `vmm.c` for a context, and writes nothing else to the pool. -/
theorem createKernelProcess_pool (h : A.Holds K.mem blocks) (hA : ∀ x, A.arena x → ¬ L.InPool x)
    (hk : createKernelProcess A.toHeap (vmmContexts L KC) K start = some (p, K')) :
    ∃ m₂ c m₃, (∀ x, L.InPool x → m₂ x = K.mem x) ∧
      createUsermodeContext L KC m₂ K.frames = .ok (c, m₃, K'.frames) ∧
      (∀ x, L.InPool x → K'.mem x = m₃ x) ∧ procContext K'.mem p = c % 2 ^ 32 := by
  simp only [createKernelProcess, Option.bind_eq_bind, Option.bind_eq_some_iff, Option.pure_def,
    Option.some.injEq, Prod.mk.injEq, Prod.exists] at hk
  obtain ⟨stack, w₁, hstack, process, w₂, hrec, c, m₃, frames, hctx, rfl, rfl⟩ := hk
  have h₁ := A.kmalloc_holds h (by decide) hstack
  have h₂ := A.kmalloc_holds h₁ (by decide) hrec
  have hoff : ∀ b ∈ (⟨process, sizeofProcess⟩ :: ⟨stack, STACK_SIZE⟩ :: blocks : List Block),
      ∀ x, L.InPool x → ¬ b.Has x := fun b hb x hx hbx => hA x ((A.inArena h₂ b hb).2 x hbx) hx
  have hpool : ∀ x, L.InPool x → w₂ x = K.mem x := fun x hx => by
    rw [A.kmalloc_keeps h₁ (by decide) hrec x (Or.inl (fun ha => hA x ha hx)),
      A.kmalloc_keeps h (by decide) hstack x (Or.inl (fun ha => hA x ha hx))]
  have hsize : sizeofProcess = 52 := rfl
  have hpage : STACK_SIZE = 4096 := rfl
  have hap : ∀ x, L.InPool x → (x < process ∨ process + 52 ≤ x) ∧ (x < stack ∨ stack + 4096 ≤ x) :=
    fun x hx => by
      have hp := hoff ⟨process, sizeofProcess⟩ (by simp) x hx
      have hs := hoff ⟨stack, STACK_SIZE⟩ (by simp) x hx
      simp only [Block.Has] at hp hs
      omega
  have hframe := frameOf_eq stack
  refine ⟨_, c, m₃, fun x hx => ?_, toOption_eq_some.mp hctx, fun x hx => ?_, ?_⟩
  · obtain ⟨hxp, hxs⟩ := hap x hx
    rw [enlist_of_outside (by omega) (by omega) (by omega) (by omega) (by omega),
      store32_of_outside (by omega)]
    exact hpool x hx
  · obtain ⟨hxp, -⟩ := hap x hx
    simp only
    rw [store32_of_outside (by omega), store32_of_outside (by omega), store32_of_outside (by omega),
      store32_of_outside (by omega)]
  · simp only [procContext]
    rw [load32_store32_of_ne (by omega), load32_store32_of_ne (by omega),
      load32_store32_of_ne (by omega), load32_store32]

/-- A new context is none of those that there are. -/
theorem createUsermodeContext_fresh {s s' : Pmm} (hK : KernelSpace L m₁ s₁ KC)
    (h : Spaces L (entry m₁ (pagedir m₁ KC)) m₁ s₁ m s live)
    (hcreate : createUsermodeContext L KC m s = .ok (c, m', s')) :
    c ∉ live ∧ L.PoolPage c ∧ VmmState.exec L KC ⟨m, s, live⟩ .create = .ok ⟨m', s', c :: live⟩ := by
  have hexec : VmmState.exec L KC ⟨m, s, live⟩ .create = .ok ⟨m', s', c :: live⟩ :=
    bind_of_ok hcreate
  have hstep := VmmState.exec_step hK
    (show Spaces L _ m₁ s₁ (⟨m, s, live⟩ : VmmState).mem s live from h)
    (show Permitted KC _ .create from trivial) hexec
  generalize hst : (⟨m', s', c :: live⟩ : VmmState) = st' at hstep
  cases hstep with
  | @create c' d m₂ s₂ hfresh hnew =>
      obtain ⟨rfl, rfl, hlive⟩ := VmmState.mk.inj hst
      obtain ⟨rfl, -⟩ := List.cons.inj hlive
      exact ⟨hfresh, hnew.context, hexec⟩

/-- **A new kernel process has a context of its own.** -/
theorem OwnSpaces.createKernel (h : OwnSpaces L KC m₁ s₁ K alive live)
    (hK : KernelSpace L m₁ s₁ KC) (hblocks : A.Holds K.mem blocks)
    (hA : ∀ x, A.arena x → ¬ L.InPool x)
    (hctx : ∀ q ∈ alive, procContext K'.mem q = procContext K.mem q)
    (hk : createKernelProcess A.toHeap (vmmContexts L KC) K start = some (p, K')) :
    OwnSpaces L KC m₁ s₁ K' (p :: alive) (procContext K'.mem p :: live) := by
  obtain ⟨m₂, c, m₃, hpool, hcreate, hpool', hcontext⟩ :=
    createKernelProcess_pool hblocks hA hk
  have hspaces : Spaces L (entry m₁ (pagedir m₁ KC)) m₁ s₁ m₂ K.frames live :=
    h.spaces.outside (fun x hx hx' => hpool x ⟨hx, hx'⟩)
  obtain ⟨hfresh, hpage, hexec⟩ := createUsermodeContext_fresh hK hspaces hcreate
  have hlt := hpage.lt
  rw [Nat.mod_eq_of_lt (by omega)] at hcontext
  have hstart : PoolRun L KC (· = .create) (K.vmm live) ⟨m₂, K.frames, live⟩ := .outside .start hpool
  have hrun : PoolRun L KC (· = .create) (K.vmm live) (K'.vmm (c :: live)) :=
    .outside (.call hstart (show Permitted KC _ .create from trivial) rfl hexec) hpool'
  obtain ⟨hown, -⟩ := h.run hK hrun (fun _ => id) hctx (fun q _ op hop he => by
    rw [hop] at he
    cases he)
  rw [hcontext]
  refine hown.birth (hcontext ▸ List.mem_cons_self) (fun q hq he => ?_)
  rw [hctx q hq, hcontext] at he
  exact hfresh (he ▸ h.mem q hq)

end

end DayOS
