import DayOS.Launching
import DayOS.Sbrk

set_option autoImplicit false

/-! # The kernel at run time

The machine with the kernel as it is: its heap, its memory manager, and the two system calls that
are about pages. Each process has its registers in a frame of its own and a context of its own
(`KernelState`), and a step of the machine is one of processes with a processor and an address
space each (`MachineStep.kernel`).

Nothing keeps a process from destroying the kernel: the kernel's memory is mapped for user code to
write to, pointers in system calls are not checked, and a line may be registered behind the table.
`OwnStores` says that a process does not store there, and `Tame` that it asks for nothing of the
kind.
-/

namespace DayOS

open ByteMemory Linked Ia32 Paging

/-! ## What the kernel can bear -/

/-- At `va` there is a message in memory that the process may have written to. -/
def MessageFits {σ : Type} (X : Host σ) (K : Kernel σ) (c : Census) (st va : Nat) : Prop :=
  ∃ d : Nat → Nat, ∀ i < sizeofMessage,
    resolve K.mem K.activeDir (va + i) = some (d i) ∧ Own X K c st (d i)

/-- The system call in the frame at `st` is one the kernel can bear. -/
def CallFits (L : Layout) (KC : Nat) (D : KernelData) (K : Kernel Pmm) (c : Census) (st : Nat) :
    Prop :=
  let ebx := load32 K.mem (st + 20)
  match load32 K.mem (st + 16) with
  | 3 => ebx = NULL ∨ MessageFits (kernelHost L KC D) K c st ebx
  | 4 => ebx = NULL ∨ MessageFits (kernelHost L KC D) K c st ebx
  | 5 => SbrkFits K ebx
  | 6 => ebx < NUM_HANDLERS
  | 7 => ebx < NUM_HANDLERS
  | 9 => LaunchFits L KC K c ebx
  | _ => True

/-- What brings the machine into the kernel is nothing that has it destroy its own data:
`idle_process` does not end, a process that ends has a user stack or none, and a system call is one
the kernel can bear. -/
structure Tame (L : Layout) (KC : Nat) (D : KernelData) (K : Kernel Pmm) (c : Census) (st : Nat) :
    Prop where
  idle : Kills K.mem st → K.currentProcess ≠ K.idleProcess
  clean : Kills K.mem st →
    c.user K.currentProcess = true ∨ userStack K.mem K.currentProcess = NULL
  call : load32 K.mem (st + 44) = 0x30 → CallFits L KC D K c st

/-- The processes are in the kernel's memory, with the registers `regs`, and each has a context of
its own. `m₁` and `s₁` are what `InitVmm` has left. -/
structure KernelState (L : Layout) (KC : Nat) (D : KernelData) (m₁ : Mem) (s₁ : Pmm)
    (M : Machine Pmm) (c : Census) (regs : Nat → Registers) : Prop where
  processes : Represents (kernelHost L KC D) M.system.kernel c regs
  running : regs M.current = M.regs
  spaces : ∃ live, OwnSpaces L KC m₁ s₁ M.system.kernel c.alive live

/-- The address space of the process `p` is what it was. -/
def SameAddresses (K K' : Kernel Pmm) (p : Nat) : Prop :=
  ∀ va < 2 ^ 32, translate K'.mem (procDir K' p) va = translate K.mem (procDir K p) va

section
variable {L : Layout} {KC st ebx eax p : Nat} {D : KernelData} {m₁ : Mem} {s₁ : Pmm}
  {K K' : Kernel Pmm} {c c' : Census} {live : List Nat} {regs : Nat → Registers}
  {M M' : Machine Pmm}

theorem SameAddresses.refl (K : Kernel Pmm) (p : Nat) : SameAddresses K K p := fun _ _ => rfl

theorem SameAddresses.trans {K'' : Kernel Pmm} (h : SameAddresses K K' p)
    (h' : SameAddresses K' K'' p) : SameAddresses K K'' p := fun va hva =>
  (h' va hva).trans (h va hva)

theorem mapError_eq_ok {ε ε' α : Type} {f : ε → ε'} {x : Except ε α} {a : α} :
    x.mapError f = .ok a ↔ x = .ok a := by
  cases x <;> simp [Except.mapError]

/-- A record lies in the heap. -/
theorem Sound.record_heap (h : Sound (kernelHost L KC D) K c) (hp : p ∈ c.alive) :
    L.heapStart ≤ p :=
  (h.record_off hp hp le_rfl (Nat.lt_add_of_pos_right (by decide))).1.1

/-! ## The calls about pages -/

/-- What `sbrk` calls `vmm.c` for. -/
def OwnPages (context : Nat) (op : VmmOp) : Prop := ∃ vaddr sz, op = .alloc context vaddr sz

/-- **A call of `sbrk` that fits** is one that the kernel can bear. -/
theorem OwnSpaces.sbrk {alive : List Nat} (hown : OwnSpaces L KC m₁ s₁ K alive live)
    (hK : KernelSpace L m₁ s₁ KC) (hD : D.Fits L) (hcur : K.currentProcess ∈ alive)
    (hheap : L.heapStart ≤ K.currentProcess) (hfits : SbrkFits K ebx)
    (hok : sbrkCall L K ebx = .ok (eax, K')) : PagesOnly (kernelHost L KC D) K K' ∧
    PoolRun L KC (OwnPages (procContext K.mem K.currentProcess)) (K.vmm live) (K'.vmm live) := by
  by_cases hz : ebx = 0
  · rw [hz, sbrkCall_zero] at hok
    cases hok
    exact ⟨⟨rfl, fun _ _ _ => rfl⟩, .start⟩
  · obtain ⟨-, m, s, hperm, hexec, -, rfl⟩ :=
      sbrkCall_exec hK hD.user hown.spaces (hown.mem _ hcur) hfits hz hok
    have hstep := VmmState.exec_step hK
      (show Spaces L _ m₁ s₁ (K.vmm live).mem K.frames live from hown.spaces) hperm hexec
    have hcall : PoolRun L KC (OwnPages (procContext K.mem K.currentProcess)) (K.vmm live)
        ⟨m, s, live⟩ := .call .start hperm ⟨_, _, rfl⟩ hexec
    refine ⟨⟨rfl, fun x hx hoff => ?_⟩, .outside hcall (fun x hx => store32_of_outside ?_)⟩
    · have hpool : ¬ L.InPool x := by
        intro hpool
        rcases hx with hx | hx
        · exact hD.separate.area x hx hpool
        · exact absurd hpool.1 (Nat.not_le.mpr (hD.table_below hx).2)
      refine (store32_of_outside (by omega)).trans (hstep.outside ?_)
      unfold Layout.InPool at hpool
      omega
    · have hlt : x < L.heapStart := hx.2
      omega

/-! ## The spaces over a call of `int_handler` -/

/-- A context alive, seen through stores outside the pool. -/
theorem OwnSpaces.resolve_eq {alive : List Nat} {m : Mem} {context : Nat} (va : Nat)
    (hown : OwnSpaces L KC m₁ s₁ K alive live) (hcontext : context ∈ live)
    (hm : ∀ x, L.InPool x → m x = K.mem x) :
    pagedir m context = pagedir K.mem context ∧
      resolve m (pagedir K.mem context) va = resolve K.mem (pagedir K.mem context) va := by
  have hsame := hown.spaces.same_outside (fun x hx hx' => hm x ⟨hx, hx'⟩) hcontext
  have htranslate := hsame.translates (Nat.mod_lt va (by decide))
  rw [hsame.dir] at htranslate
  exact ⟨hsame.dir, htranslate⟩

/-- What the process may have written to is not in the pool. -/
theorem Own.off_pool {x : Nat} (h : Own (kernelHost L KC D) K c st x)
    (hs : Sound (kernelHost L KC D) K c) (hcur : K.currentProcess ∈ c.alive)
    (hX : (kernelHost L KC D).Separate) : ¬ L.InPool x := by
  intro hpool
  obtain ⟨⟨b, hb, hbx⟩, -⟩ := h (Or.inr (Or.inr hpool))
  obtain ⟨nodes, queue, blocks, hl⟩ := hs
  have hin := ((firstFit L).inArena hl.boxes.holds b (hl.stackLive _ hcur b hb)).2 _ hbx
  exact hX.area x hin hpool

/-- Page tables lie in the pool, so nothing that happens in between moves a message. -/
theorem MessageFits.own {va : Nat} (h : MessageFits (kernelHost L KC D) K c st va)
    (hown : OwnSpaces L KC m₁ s₁ K c.alive live) (hs : Sound (kernelHost L KC D) K c)
    (hcur : K.currentProcess ∈ c.alive)
    (hcontext : K.currentContext = procContext K.mem K.currentProcess)
    (hX : (kernelHost L KC D).Separate) : OwnMessage (kernelHost L KC D) K c st va := by
  obtain ⟨d, hd⟩ := h
  refine ⟨d, fun i hi => (hd i hi).2, fun m m' hheap honly => ?_⟩
  have hlive : K.currentContext ∈ live := hcontext ▸ hown.mem _ hcur
  have hpool : ∀ x, L.InPool x → m x = K.mem x := fun x hx => hheap.area hX hx
  have hpool' : ∀ x, L.InPool x → m' x = K.mem x := fun x hx => by
    refine (honly x (fun i hi he => ?_)).trans (hpool x hx)
    exact (hd i hi).2.off_pool hs hcur hX (he ▸ hx)
  refine ⟨(hown.resolve_eq va hlive hpool).1, fun i hi => ?_⟩
  calc resolve m' (pagedir K.mem K.currentContext) (va + i)
      = resolve K.mem (pagedir K.mem K.currentContext) (va + i) :=
        (hown.resolve_eq _ hlive hpool').2
    _ = some (d i) := (hd i hi).1

/-- **What is tame is orderly**, when each process has a context of its own. -/
theorem Tame.orderly (h : Tame L KC D K c st) (hown : OwnSpaces L KC m₁ s₁ K c.alive live)
    (hK : KernelSpace L m₁ s₁ KC) (hw : Walkable L m₁ s₁ KC (pagedir m₁ KC)) (hD : D.Fits L)
    (hs : Sound (kernelHost L KC D) K c) (hcur : K.currentProcess ∈ c.alive)
    (hcontext : K.currentContext = procContext K.mem K.currentProcess) :
    Orderly (kernelHost L KC D) K c st := by
  have hX : (kernelHost L KC D).Separate := hD.separate
  refine ⟨h.idle, h.clean, fun hintr => ?_⟩
  have hcall := h.call hintr
  unfold CallFits at hcall
  unfold OrderlyCall
  dsimp only at hcall ⊢
  split
  case h_1 heax | h_2 heax =>
      simp only [heax] at hcall
      exact hcall.imp id (fun hm => hm.own hown hs hcur hcontext hX)
  case h_3 heax =>
      simp only [heax] at hcall
      intro eax K' hok
      have hok : sbrkCall L K (load32 K.mem (st + 20)) = .ok (eax, K') := mapError_eq_ok.mp hok
      exact (hown.sbrk hK hD hcur (hs.record_heap hcur) hcall hok).1
  case h_4 heax | h_5 heax =>
      simp only [heax] at hcall
      exact hcall
  case h_6 heax =>
      simp only [heax] at hcall
      intro K' hok
      have hlive : K.currentContext ∈ KC :: live :=
        List.mem_cons_of_mem _ (hcontext ▸ hown.mem _ hcur)
      exact (hown.launches hK hw hlive hD hcall (mapError_eq_ok.mp hok)).1
  case h_7 => trivial

/-- The spaces of those that are left, when a process ends. -/
theorem OwnSpaces.ends {m : Mem} {frames : Pmm} (hown : OwnSpaces L KC m₁ s₁ K c.alive live)
    (hK : KernelSpace L m₁ s₁ KC) (hnodup : c.alive.Nodup) (hcur : K.currentProcess ∈ c.alive)
    (hdestroy : (vmmContexts L KC).destroyContext K.mem K.frames
      (procContext K.mem K.currentProcess) = some (m, frames))
    (hkept : AreaKept (vmmContexts L KC) { K with mem := m, frames := frames } K')
    (hctx : ∀ p ∈ (c.death K.currentProcess).alive, procContext K'.mem p = procContext K.mem p) :
    (∃ live', OwnSpaces L KC m₁ s₁ K' (c.death K.currentProcess).alive live') ∧
    ∀ p ∈ (c.death K.currentProcess).alive,
      SameSpace (entry m₁ (pagedir m₁ KC)) K.mem K'.mem (procContext K.mem p) := by
  obtain ⟨s', hcall, hpair⟩ := Option.map_eq_some_iff.mp hdestroy
  obtain ⟨rfl, rfl⟩ := Prod.mk.inj hpair
  have hperm : Permitted KC (K.vmm live) (.destroy (procContext K.mem K.currentProcess)) :=
    hown.mem _ hcur
  have hexec : VmmState.exec L KC (K.vmm live) (.destroy (procContext K.mem K.currentProcess))
      = .ok ⟨K.mem, s', live.filter (fun x => x ≠ procContext K.mem K.currentProcess)⟩ :=
    bind_of_ok (toOption_eq_some.mp hcall)
  have hrun : PoolRun L KC (· = .destroy (procContext K.mem K.currentProcess)) (K.vmm live)
      (K'.vmm (live.filter (fun x => x ≠ procContext K.mem K.currentProcess))) :=
    .trans (.call .start hperm rfl hexec) hkept.run
  have hothers : ∀ p ∈ (c.death K.currentProcess).alive, ∀ op : VmmOp,
      op = .destroy (procContext K.mem K.currentProcess) → Spares (procContext K.mem p) op := by
    rintro p hp op rfl
    -- two processes have two contexts
    refine spares_destroy (fun he => ?_)
    obtain rfl : K.currentProcess = p := hown.inj _ hcur _ (List.mem_of_mem_erase hp) he
    exact hnodup.not_mem_erase hp
  obtain ⟨hspaces, hsame⟩ := hown.run hK hrun (fun p hp => List.mem_of_mem_erase hp) hctx
    (fun p hp op hop => (hothers p hp op hop).2)
  exact ⟨⟨_, hspaces⟩, fun p hp => hsame p hp (hothers p hp)⟩

/-- The spaces behind a launch. -/
theorem OwnSpaces.launched {context : Nat} {K₁ : Kernel Pmm}
    (hown : OwnSpaces L KC m₁ s₁ K c.alive live) (hK : KernelSpace L m₁ s₁ KC)
    (hlaunch : Launched L KC K c live context K₁) (hkept : AreaKept (vmmContexts L KC) K₁ K')
    (hctx : ∀ p ∈ c.alive, procContext K'.mem p = procContext K.mem p)
    (hfirst : K'.firstProcess = K₁.firstProcess)
    (hcontext : procContext K'.mem K₁.firstProcess = procContext K₁.mem K₁.firstProcess) :
    (∃ live', OwnSpaces L KC m₁ s₁ K' (if K'.firstProcess = K.firstProcess then c
      else c.birth K'.firstProcess true).alive live') ∧
    ∀ p ∈ c.alive, SameSpace (entry m₁ (pagedir m₁ KC)) K.mem K'.mem (procContext K.mem p) := by
  have hothers : ∀ p ∈ c.alive, ∀ op, LaunchCall context op → Spares (procContext K.mem p) op := by
    rintro p hp op (rfl | ⟨vaddr, sz, rfl⟩)
    · exact spares_create _
    · exact spares_alloc (fun he => hlaunch.fresh (he ▸ hown.mem p hp))
  obtain ⟨hspaces, hsame⟩ := hown.run hK (hlaunch.pool.trans hkept.run) (fun _ => id) hctx
    (fun p hp op hop => (hothers p hp op hop).2)
  refine ⟨⟨context :: live, ?_⟩, fun p hp => hsame p hp (hothers p hp)⟩
  by_cases hnew : K'.firstProcess = K.firstProcess
  · rwa [if_pos hnew]
  · rw [if_neg hnew]
    have hfresh : procContext K'.mem K'.firstProcess = context := by
      rw [hfirst, hcontext]
      exact hlaunch.process.resolve_left (fun he => hnew (hfirst.trans he))
    refine hspaces.birth (hfresh ▸ List.mem_cons_self) (fun q hq he => ?_)
    rw [hctx q hq, hfresh] at he
    exact hlaunch.fresh (he ▸ hown.mem q hq)

/-- **What a call of `int_handler` keeps**: each process has a context of its own, and one that
waits, or gives its turn away, has the addresses it had. -/
theorem PagesStep.spaces (hstep : PagesStep (kernelHost L KC D) K st K')
    (hown : OwnSpaces L KC m₁ s₁ K c.alive live) (hK : KernelSpace L m₁ s₁ KC)
    (hw : Walkable L m₁ s₁ KC (pagedir m₁ KC)) (hD : D.Fits L) (htame : Tame L KC D K c st)
    (hs : Sound (kernelHost L KC D) K c) (hcur : K.currentProcess ∈ c.alive)
    (hcontext : K.currentContext = procContext K.mem K.currentProcess)
    (hctx : ∀ p ∈ c.alive, p ∈ (c.after K K' st).alive → procContext K'.mem p = procContext K.mem p) :
    (∃ live', OwnSpaces L KC m₁ s₁ K' (c.after K K' st).alive live') ∧
    ∀ p ∈ c.alive, p ∈ (c.after K K' st).alive →
      (p ≠ K.currentProcess ∨ K'.currentProcess ≠ K.currentProcess) →
      SameSpace (entry m₁ (pagedir m₁ KC)) K.mem K'.mem (procContext K.mem p) := by
  have hcall := htame.call
  unfold CallFits at hcall
  cases hstep with
  | kept hkills hfirst hkept =>
      have hkept : AreaKept (vmmContexts L KC) K K' := hkept
      rw [Census.after_same hkills hfirst] at hctx ⊢
      obtain ⟨hspaces, hsame⟩ := hown.run hK (hkept.run (Q := fun _ => False)) (fun _ => id)
        (fun p hp => hctx p hp hp) (fun _ _ _ hf => hf.elim)
      exact ⟨⟨_, hspaces⟩, fun p hp _ _ => hsame p hp (fun _ hf => hf.elim)⟩
  | ends hends hdestroy hkept =>
      rw [Census.after, if_pos hends] at hctx ⊢
      obtain ⟨nodes, queue, blocks, hl⟩ := hs
      obtain ⟨hspaces, hsame⟩ := hown.ends hK hl.list.chain.nodup hcur hdestroy hkept
        (fun p hp => hctx p (List.mem_of_mem_erase hp) hp)
      exact ⟨hspaces, fun p _ hp _ => hsame p hp⟩
  | @sbrk eax K₁ hkills hintr heax hok hfirst hsame hkept =>
      have hkept : AreaKept (vmmContexts L KC) K₁ K' := hkept
      have hfits := hcall hintr
      simp only [heax] at hfits
      have hok : sbrkCall L K (load32 K.mem (st + 20)) = .ok (eax, K₁) := mapError_eq_ok.mp hok
      obtain ⟨-, hrun⟩ := hown.sbrk hK hD hcur (hs.record_heap hcur) hfits hok
      rw [Census.after_same hkills hfirst] at hctx ⊢
      obtain ⟨hspaces, hkeep⟩ := hown.run hK (hrun.trans hkept.run) (fun _ => id)
        (fun p hp => hctx p hp hp) (by
          rintro p hp op ⟨vaddr, sz, rfl⟩ he
          cases he)
      refine ⟨⟨_, hspaces⟩, fun p hp _ haway => hkeep p hp ?_⟩
      rintro op ⟨vaddr, sz, rfl⟩
      refine spares_alloc (fun he => ?_)
      exact haway.elim (fun hne => hne (hown.inj _ hp _ hcur he.symm)) (fun hne => hne hsame)
  | @launch K₁ hkills hintr heax hok hfirst hsame hnew hkept =>
      have hkept : AreaKept (vmmContexts L KC) K₁ K' := hkept
      have hfits := hcall hintr
      simp only [heax] at hfits
      have hlive : K.currentContext ∈ KC :: live :=
        List.mem_cons_of_mem _ (hcontext ▸ hown.mem _ hcur)
      obtain ⟨-, context, hlaunched⟩ :=
        hown.launches hK hw hlive hD hfits (mapError_eq_ok.mp hok)
      rw [Census.after, if_neg hkills] at hctx ⊢
      have hstays : ∀ p ∈ c.alive, p ∈ (if K'.firstProcess = K.firstProcess then c
          else c.birth K'.firstProcess true).alive := fun p hp => by
        split
        · exact hp
        · exact List.mem_cons_of_mem _ hp
      obtain ⟨hspaces, hkeep⟩ := hown.launched hK hlaunched hkept
        (fun p hp => hctx p hp (hstays p hp)) hfirst hnew
      exact ⟨hspaces, fun p hp _ _ => hkeep p hp⟩

/-! ## One step -/

/-- Stores outside the pool leave all spaces alone. -/
theorem OwnSpaces.stores (hown : OwnSpaces L KC m₁ s₁ K c.alive live)
    (hK : KernelSpace L m₁ s₁ KC) (hkept : AreaKept (vmmContexts L KC) K K')
    (hrec : ∀ p ∈ c.alive, AgreeOn K.mem K'.mem p 52) :
    OwnSpaces L KC m₁ s₁ K' c.alive live ∧
    ∀ p ∈ c.alive, procContext K'.mem p = procContext K.mem p ∧ SameAddresses K K' p := by
  have hctx : ∀ p ∈ c.alive, procContext K'.mem p = procContext K.mem p := fun p hp =>
    load32_congr ((hrec p hp).mono (by omega) (by omega))
  obtain ⟨hspaces, hsame⟩ := hown.run hK (hkept.run (Q := fun _ => False)) (fun _ => id) hctx
    (fun _ _ _ hf => hf.elim)
  refine ⟨hspaces, fun p hp => ⟨hctx p hp, fun va hva => ?_⟩⟩
  show translate K'.mem (pagedir K'.mem (procContext K'.mem p)) va = _
  rw [hctx p hp]
  exact (hsame p hp (fun _ hf => hf.elim)).translates hva

/-- **One step of the machine** is one of processes with a processor and an address space each:
those that wait, and the one that gives its turn away, keep their registers, their contexts and
their addresses. -/
theorem MachineStep.kernel (hstep : MachineStep (kernelHost L KC D) (Tame L KC D) M c M' c')
    (h : KernelState L KC D m₁ s₁ M c regs) (hK : KernelSpace L m₁ s₁ KC)
    (hw : Walkable L m₁ s₁ KC (pagedir m₁ KC)) (hD : D.Fits L) : ∃ regs',
    KernelState L KC D m₁ s₁ M' c' regs' ∧
    VirtualCpus.Step ⟨c.alive, regs, M.current⟩ ⟨c'.alive, regs', M'.current⟩ ∧
    ∀ p ∈ c.alive, p ∈ c'.alive →
      procContext M'.system.kernel.mem p = procContext M.system.kernel.mem p ∧
      (p ≠ M.current ∨ M'.current ≠ M.current →
        SameAddresses M.system.kernel M'.system.kernel p) := by
  have hX : (kernelHost L KC D).Separate := hD.separate
  have hsound := h.processes.sound
  have hcur := h.processes.current
  have hrunning := h.running
  obtain ⟨live, hown⟩ := h.spaces
  cases hstep with
  | process hstep =>
      obtain ⟨regs', hrep, hregs, hone, hrec, hkept⟩ := hstep.simulates hX h.processes hrunning
      obtain ⟨hspaces, hsame⟩ := hown.stores hK hkept hrec
      exact ⟨regs', ⟨hrep, hregs, live, hspaces⟩, hone, fun p hp _ =>
        ⟨(hsame p hp).1, fun _ => (hsame p hp).2⟩⟩
  | trap hstep =>
      have hentered : ∀ m', OwnStores (kernelHost L KC D) M.system.kernel c m' →
          (∀ p ∈ c.alive, AgreeOn M.system.kernel.mem m' p 52) →
          OwnSpaces L KC m₁ s₁ (M.system.load m').kernel c.alive live ∧ ∀ p ∈ c.alive,
            procContext m' p = procContext M.system.kernel.mem p ∧
            SameAddresses M.system.kernel (M.system.load m').kernel p := fun m' hm hrec =>
        hown.stores hK ⟨rfl, fun x hx => hm.area hX hsound hcur hx⟩ hrec
      have horderly : ∀ m' st, OwnStores (kernelHost L KC D) M.system.kernel c m' →
          Represents (kernelHost L KC D) (M.system.load m').kernel c regs →
          Tame L KC D (M.system.load m').kernel c st →
          Orderly (kernelHost L KC D) (M.system.load m').kernel c st := by
        intro m' st hm hrep htame
        obtain ⟨-, hrec⟩ := h.processes.own hX hm (r := regs M.current) rfl
          (h.processes.ss _ hcur)
        exact htame.orderly (hentered m' hm hrec).1 hK hw hD hrep.sound hrep.current hrep.context
      obtain ⟨m', st, regs', hm, hrep, hrec, htame, rfl, hpages, hrep', hregs', hone, hcontexts⟩ :=
        hstep.turns hX h.processes hrunning horderly
      obtain ⟨hspaces, hsame⟩ := hentered m' hm hrec
      obtain ⟨hspaces', hsame'⟩ := hpages.spaces hspaces hK hw hD htame hrep.sound hrep.current
        hrep.context hcontexts
      refine ⟨regs', ⟨hrep', hregs', hspaces'⟩, hone, fun p hp hp' => ?_⟩
      have hcontext := hcontexts p hp hp'
      refine ⟨hcontext.trans (hsame p hp).1, fun haway => (hsame p hp).2.trans (fun va hva => ?_)⟩
      show translate M'.system.kernel.mem (pagedir _ (procContext _ p)) va = _
      rw [hcontext]
      exact (hsame' p hp hp' haway).translates hva

/-! ## Runs -/

/-- **Any run of the machine is a run of the processes.** -/
theorem MachineRun.kernel (hrun : MachineRun (kernelHost L KC D) (Tame L KC D) M c M' c')
    (h : KernelState L KC D m₁ s₁ M c regs) (hK : KernelSpace L m₁ s₁ KC)
    (hw : Walkable L m₁ s₁ KC (pagedir m₁ KC)) (hD : D.Fits L) : ∃ regs',
    KernelState L KC D m₁ s₁ M' c' regs' ∧
    VirtualCpus.Steps ⟨c.alive, regs, M.current⟩ ⟨c'.alive, regs', M'.current⟩ := by
  induction hrun with
  | start => exact ⟨regs, h, .refl⟩
  | step _ hstep ih =>
      obtain ⟨regs₁, h₁, hsteps⟩ := ih
      obtain ⟨regs₂, h₂, hone, -⟩ := hstep.kernel h₁ hK hw hD
      exact ⟨regs₂, h₂, hsteps.tail hone⟩

/-- While others run, a process is there, and its registers, its context and its addresses stay. -/
theorem MachineWaits.kernel (hwaits : MachineWaits (kernelHost L KC D) (Tame L KC D) p M c M' c')
    (h : KernelState L KC D m₁ s₁ M c regs) (hK : KernelSpace L m₁ s₁ KC)
    (hw : Walkable L m₁ s₁ KC (pagedir m₁ KC)) (hD : D.Fits L) (hp : p ∈ c.alive) : ∃ regs',
    KernelState L KC D m₁ s₁ M' c' regs' ∧ p ∈ c'.alive ∧
    VirtualCpus.Waits p ⟨c.alive, regs, M.current⟩ ⟨c'.alive, regs', M'.current⟩ ∧
    procContext M'.system.kernel.mem p = procContext M.system.kernel.mem p ∧
    SameAddresses M.system.kernel M'.system.kernel p := by
  induction hwaits with
  | start => exact ⟨regs, h, hp, .refl, rfl, SameAddresses.refl _ _⟩
  | step _ haway hstep ih =>
      obtain ⟨regs₁, h₁, hp₁, hsteps, hcontext, hsame⟩ := ih
      obtain ⟨regs₂, h₂, hone, hkept⟩ := hstep.kernel h₁ hK hw hD
      have hp₂ := hone.alive hp₁ haway
      obtain ⟨hcontext', hsame'⟩ := hkept p hp₁ hp₂
      exact ⟨regs₂, h₂, hp₂, hsteps.tail ⟨hone, hp₁, haway⟩, hcontext'.trans hcontext,
        hsame.trans (hsame' (Or.inl haway.symm))⟩

end

end DayOS
