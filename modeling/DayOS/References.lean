import DayOS.Interrupts
import DayOS.KernelProcess
import DayOS.Lifetimes

set_option autoImplicit false

/-! # References to processes

The table of interrupt handlers and the list of services name processes by their pids. Nothing
takes a process out of either when it ends: `removeHandlerProcess` has no caller, and removing a
service is not implemented. So the two name living processes only as long as no process ends
while it is named, and no service is registered for a process that has ended already
(`no_dangling_reference`).
-/

namespace DayOS

open ByteMemory Linked CString

/-! ## Runs -/

/-- The table of handlers, as a block. -/
def irqTable (irqHandlers : Nat) : Block := ⟨irqHandlers, 192⟩

/-- The kernel and its service list, with the processes alive and the services registered. -/
structure RefState (σ : Type) where
  kernel : Kernel σ
  serviceStart : Nat
  alive : List Nat
  services : List Nat

namespace RefState

variable {σ : Type}

/-- The blocks that hold the references and what they refer to. -/
def used (irqHandlers : Nat) (S : RefState σ) : List Block :=
  irqTable irqHandlers :: (S.services.map serviceBlock ++ S.alive.map procBlock)

/-- There is a live process with that pid. -/
def Listed (S : RefState σ) (pid : Nat) : Prop := ∃ p ∈ S.alive, procPid S.kernel.mem p = pid

/-- An interrupt line or a service has that pid. -/
def Named (irqHandlers : Nat) (S : RefState σ) (pid : Nat) : Prop :=
  (pid ≠ 0 ∧ ∃ i < NUM_HANDLERS, irqHandler irqHandlers S.kernel.mem i = pid) ∨
    ∃ s ∈ S.services, svcPid S.kernel.mem s = pid

/-- Without the process that runs. -/
def dead (S : RefState σ) : RefState σ := { S with alive := S.alive.erase S.kernel.currentProcess }

end RefState

inductive RefEvent where
  | create
  | die
  | registerIrq (irqno : Nat)
  | resetIrq (irqno : Nat)
  | message (msg : Message)
  | other

/-- One step, over any heap whose blocks are disjoint. In between, the rest of the kernel may
change whatever it likes but the two tables and the links and pids of live processes. -/
inductive RefStep {σ : Type} (H : Heap) (V : Contexts σ) (irqHandlers : Nat) :
    RefState σ → RefEvent → RefState σ → Prop
  | createKernel {S : RefState σ} {K' : Kernel σ} {entry stack process p : Nat} {m₁ m₂ : Mem} :
      Allots H V.area (S.used irqHandlers) S.kernel.mem STACK_SIZE stack m₁ →
      Allots H V.area (⟨stack, STACK_SIZE⟩ :: S.used irqHandlers) m₁ sizeofProcess process m₂ →
      createKernelProcess H V S.kernel entry = some (p, K') →
      RefStep H V irqHandlers S .create { S with kernel := K', alive := p :: S.alive }
  | createUser {S : RefState σ} {K' : Kernel σ} {entry context stack userStack process p : Nat}
      {m₁ m₂ m₃ : Mem} :
      Allots H V.area (S.used irqHandlers) S.kernel.mem STACK_SIZE stack m₁ →
      Allots H V.area (⟨stack, STACK_SIZE⟩ :: S.used irqHandlers) m₁ STACK_SIZE userStack m₂ →
      Allots H V.area (⟨userStack, STACK_SIZE⟩ :: ⟨stack, STACK_SIZE⟩ :: S.used irqHandlers) m₂
        sizeofProcess process m₃ →
      createUserProcess H S.kernel entry context = some (p, K') →
      RefStep H V irqHandlers S .create { S with kernel := K', alive := p :: S.alive }
  | exit {S : RefState σ} {K' : Kernel σ} {ticks st : Nat} :
      S.kernel.currentProcess ∈ S.alive →
      killCurrentProcess (H.sparing (S.dead.used irqHandlers)) V S.kernel ticks = .ok (st, K') →
      RefStep H V irqHandlers S .die { S.dead with kernel := K' }
  | exception {S : RefState σ} {K' : Kernel σ} {kernelMode : Bool} {ticks st : Nat} :
      S.kernel.currentProcess ∈ S.alive →
      exceptionBranch (H.sparing (S.dead.used irqHandlers)) V S.kernel kernelMode ticks
        = .ok (st, K') →
      RefStep H V irqHandlers S .die { S.dead with kernel := K' }
  | registerIrq {S : RefState σ} {irqno : Nat} : S.kernel.currentProcess ∈ S.alive →
      RefStep H V irqHandlers S (.registerIrq irqno)
        { S with kernel := registerIrqCall irqHandlers S.kernel irqno }
  | resetIrq {S : RefState σ} {irqno : Nat} : S.kernel.currentProcess ∈ S.alive →
      RefStep H V irqHandlers S (.resetIrq irqno)
        { S with kernel := resetIrqCall irqHandlers S.kernel irqno }
  | register {S : RefState σ} {R' : Registry} {msg : Message} {reply : Option (Nat × Message)}
      {m₁ : Mem} : msg.registers →
      Allots H V.area (S.used irqHandlers) S.kernel.mem sizeofService R'.serviceStart m₁ →
      kernelProcess H ⟨S.kernel.mem, S.serviceStart⟩ msg = some (reply, R') →
      RefStep H V irqHandlers S (.message msg)
        { S with
          kernel := { S.kernel with mem := R'.mem }
          serviceStart := R'.serviceStart
          services := R'.serviceStart :: S.services }
  | message {S : RefState σ} {R' : Registry} {msg : Message} {reply : Option (Nat × Message)} :
      ¬ msg.registers → kernelProcess H ⟨S.kernel.mem, S.serviceStart⟩ msg = some (reply, R') →
      RefStep H V irqHandlers S (.message msg)
        { S with kernel := { S.kernel with mem := R'.mem }, serviceStart := R'.serviceStart }
  | other {S : RefState σ} {K' : Kernel σ} : K'.firstProcess = S.kernel.firstProcess →
      K'.numProc = S.kernel.numProc →
      (∀ b ∈ irqTable irqHandlers :: S.services.map serviceBlock,
        AgreeOn S.kernel.mem K'.mem b.addr b.size) →
      (∀ p ∈ S.alive, AgreeOn S.kernel.mem K'.mem (p + 8) 4 ∧
        AgreeOn S.kernel.mem K'.mem (p + 48) 4) →
      RefStep H V irqHandlers S .other { S with kernel := K' }

/-- The states reached from the start of the kernel on, by steps that all meet the condition
`P`. -/
inductive RefRun {σ : Type} (H : Heap) (V : Contexts σ) (irqHandlers : Nat)
    (P : RefState σ → RefEvent → Prop) : RefState σ → Prop
  | boot {K : Kernel σ} : K.firstProcess = NULL → K.numProc = 0 → irqHandlers + 192 ≤ 2 ^ 32 →
      (∀ x, (irqTable irqHandlers).Has x → ¬ V.area x) →
      (∀ i < NUM_HANDLERS, irqHandler irqHandlers K.mem i = 0) →
      RefRun H V irqHandlers P ⟨K, NULL, [], []⟩
  | step {S S' : RefState σ} {e : RefEvent} : RefRun H V irqHandlers P S →
      RefStep H V irqHandlers S e S' → P S e → RefRun H V irqHandlers P S'

/-- The condition on one step: no live process has the pid a new one gets; a process that ends
is named in neither table; interrupt lines are within the table; and a service is registered
under a name that fits, for a process alive. -/
def Tidy {σ : Type} (irqHandlers : Nat) (S : RefState σ) : RefEvent → Prop
  | .create => ∀ r ∈ S.alive, procPid S.kernel.mem r ≠ S.kernel.numProc
  | .die => ¬ S.Named irqHandlers (procPid S.kernel.mem S.kernel.currentProcess)
  | .registerIrq irqno => irqno < NUM_HANDLERS
  | .resetIrq irqno => irqno < NUM_HANDLERS
  | .message msg => msg.registers → msg.WellNamed ∧ S.Listed msg.sender.toNat
  | .other => True

/-- **The invariant.** The two tables hold pids of live processes. -/
structure Referenced {σ : Type} (V : Contexts σ) (irqHandlers : Nat) (S : RefState σ) : Prop where
  list : ProcList V.area S.kernel.mem S.kernel.firstProcess S.alive
  num : S.kernel.numProc < 2 ^ 32
  services : Chain (svcNext S.kernel.mem) S.serviceStart S.services
  range : ∀ b ∈ irqTable irqHandlers :: S.services.map serviceBlock, b.addr + b.size ≤ 2 ^ 32
  off : ∀ b ∈ S.used irqHandlers, ∀ x, b.Has x → ¬ V.area x
  apart : (S.used irqHandlers).Pairwise Block.Apart
  named : ∀ pid, S.Named irqHandlers pid → S.Listed pid

section
variable {σ : Type} {H : Heap} {V : Contexts σ} {irqHandlers : Nat} {S S' : RefState σ}
  {K' : Kernel σ} {m m' : Mem}

theorem irqSlot_eq {i : Nat} (hi : i < NUM_HANDLERS) (hT : irqHandlers + 192 ≤ 2 ^ 32) :
    irqSlot irqHandlers i = irqHandlers + 4 * i := by
  simp only [NUM_HANDLERS] at hi
  exact Nat.mod_eq_of_lt (by omega)

theorem irqHandler_congr {i : Nat} (h : AgreeOn m m' irqHandlers 192) (hi : i < NUM_HANDLERS)
    (hT : irqHandlers + 192 ≤ 2 ^ 32) : irqHandler irqHandlers m' i = irqHandler irqHandlers m i := by
  rw [irqHandler, irqHandler, irqSlot_eq hi hT]
  simp only [NUM_HANDLERS] at hi
  exact load32_congr (h.mono (by omega) (by omega))

theorem Referenced.table_le (h : Referenced V irqHandlers S) : irqHandlers + 192 ≤ 2 ^ 32 :=
  h.range _ List.mem_cons_self

theorem Referenced.service_agree {s : Nat} (hs : s ∈ S.services)
    (hkeep : ∀ b ∈ irqTable irqHandlers :: S.services.map serviceBlock, AgreeOn m m' b.addr b.size) :
    svcPid m' s = svcPid m s ∧ svcNext m' s = svcNext m s := by
  have := hkeep (serviceBlock s) (List.mem_cons_of_mem _ (List.mem_map_of_mem hs))
  simp only [serviceBlock, sizeofService] at this
  exact ⟨load32_congr (this.mono (by omega) (by omega)), load32_congr (this.mono (by omega) (by omega))⟩

/-- Which pids are named depends on the bytes of the tables. -/
theorem Referenced.named_congr (h : Referenced V irqHandlers S) (hservices : S'.services = S.services)
    (hkeep : ∀ b ∈ irqTable irqHandlers :: S.services.map serviceBlock,
      AgreeOn S.kernel.mem S'.kernel.mem b.addr b.size) {pid : Nat}
    (hn : S'.Named irqHandlers pid) : S.Named irqHandlers pid := by
  rcases hn with ⟨h0, i, hi, he⟩ | ⟨s, hs, he⟩
  · have htable : AgreeOn S.kernel.mem S'.kernel.mem irqHandlers 192 := hkeep _ List.mem_cons_self
    exact Or.inl ⟨h0, i, hi, (irqHandler_congr htable hi h.table_le).symm.trans he⟩
  · rw [hservices] at hs
    exact Or.inr ⟨s, hs, (Referenced.service_agree hs hkeep).1.symm.trans he⟩

/-- **The tables survive** a step that leaves their bytes alone, as long as the processes they
name stay listed. -/
theorem Referenced.keep (h : Referenced V irqHandlers S)
    (hlist : ProcList V.area S'.kernel.mem S'.kernel.firstProcess S'.alive)
    (hnum : S'.kernel.numProc < 2 ^ 32) (hstart : S'.serviceStart = S.serviceStart)
    (hservices : S'.services = S.services) (hapart : (S'.used irqHandlers).Pairwise Block.Apart)
    (hkeep : ∀ b ∈ irqTable irqHandlers :: S.services.map serviceBlock,
      AgreeOn S.kernel.mem S'.kernel.mem b.addr b.size)
    (hlisted : ∀ pid, S.Named irqHandlers pid → S.Listed pid → S'.Listed pid) :
    Referenced V irqHandlers S' := by
  refine ⟨hlist, hnum, ?_, hservices ▸ h.range, fun b hb => ?_, hapart, fun pid hn => ?_⟩
  · rw [hstart, hservices]
    exact h.services.congr (fun s hs => (Referenced.service_agree hs hkeep).2)
  · simp only [RefState.used, hservices, List.mem_cons, List.mem_append] at hb
    rcases hb with hb | hb | hb
    · exact h.off b (by simp [RefState.used, hb])
    · exact h.off b (by simp [RefState.used, hb])
    · obtain ⟨p, hp, rfl⟩ := List.mem_map.mp hb
      exact hlist.off p hp
  · have hn' := h.named_congr hservices hkeep hn
    exact hlisted pid hn' (h.named pid hn')

/-- The tables after a creation: every block in use is as before. -/
theorem Referenced.created (h : Referenced V irqHandlers S) {area : Nat → Prop}
    {p stack context : Nat} {state : Cpu} (hfresh : ∀ r ∈ S.alive, procPid S.kernel.mem r ≠
      S.kernel.numProc)
    (hnew : Enlists V.area area (S.used irqHandlers) S.kernel K' p stack context state m)
    (harea : ∀ x, area x → V.area x) :
    Referenced V irqHandlers { S with kernel := K', alive := p :: S.alive } := by
  have hproc : ∀ r ∈ S.alive, procBlock r ∈ S.used irqHandlers := fun r hr => by
    simp only [RefState.used, List.mem_cons, List.mem_append]
    exact Or.inr (Or.inr (List.mem_map_of_mem hr))
  obtain ⟨hlist, hkeep, hpid⟩ := h.list.create h.num hfresh
    (List.forall_mem_map.mpr (fun r hr => hnew.keeps _ (hproc r hr))) hnew.record hnew.range hnew.off
    (fun r hr => hnew.apart _ (hproc r hr)) (fun r hr => hnew.stackApart _ (hproc r hr))
    (fun r hr x hx hxa => h.off _ (hproc r hr) x hx (harea x hxa))
  have hnum : K'.numProc < 2 ^ 32 := by
    rw [hnew.num]
    exact Nat.mod_lt _ (by decide)
  refine h.keep (hnew.first ▸ hlist) hnum rfl rfl ?_ (fun b hb x hx hx' => ?_) (fun pid _ hl => ?_)
  · have hperm : (procBlock p :: S.used irqHandlers).Perm
        (RefState.used irqHandlers { S with kernel := K', alive := p :: S.alive }) := by
      simp only [RefState.used, List.map_cons]
      exact (List.Perm.swap _ _ _).trans (List.perm_middle.symm.cons _)
    refine (hperm.pairwise_iff (fun h => h.symm)).mp (List.pairwise_cons.mpr ⟨fun b hb => ?_, h.apart⟩)
    exact (hnew.apart b hb).symm
  · have hb' : b ∈ S.used irqHandlers := by
      simp only [RefState.used, List.mem_cons, List.mem_append] at hb ⊢
      tauto
    have h₁ := hnew.apart b hb'
    have h₂ := hnew.stackApart b hb'
    simp only [Block.Apart, procBlock, sizeofProcess, STACK_SIZE] at h₁ h₂
    rw [hnew.record.outside x (fun hxa => h.off b hb' x ⟨hx, hx'⟩ (harea x hxa)) (by omega) (by omega)]
    exact hnew.keeps b hb' x hx hx'
  · obtain ⟨r, hr, he⟩ := hl
    refine ⟨r, List.mem_cons_of_mem _ hr, ?_⟩
    rw [← he]
    exact load32_congr ((hkeep r hr).mono (by omega) (by omega))

/-- The bytes the scheduler changes do not matter here. -/
theorem Referenced.of_eq (h : Referenced V irqHandlers S) (hmem : K'.mem = S.kernel.mem)
    (hfirst : K'.firstProcess = S.kernel.firstProcess) (hnum : K'.numProc = S.kernel.numProc) :
    Referenced V irqHandlers { S with kernel := K' } := by
  refine h.keep ?_ (hnum ▸ h.num) rfl rfl h.apart (fun b _ a _ _ => congrFun hmem a)
    (fun pid _ hl => ?_)
  · simp only [hmem, hfirst]
    exact h.list
  · obtain ⟨r, hr, he⟩ := hl
    exact ⟨r, hr, by rw [← he, ← hmem]⟩

/-- A kill leaves the tables and the pids of the others alone. -/
theorem Referenced.killed_keeps (h : Referenced V irqHandlers S) {K₁ : Kernel σ}
    (hcur : S.kernel.currentProcess ∈ S.alive)
    (hk : killProcess (H.sparing (S.dead.used irqHandlers)) V S.kernel S.kernel.currentProcess
      = .ok K₁) :
    ProcList V.area K₁.mem K₁.firstProcess S.dead.alive ∧ K₁.numProc = S.kernel.numProc ∧
    (∀ b ∈ irqTable irqHandlers :: S.services.map serviceBlock,
      AgreeOn S.kernel.mem K₁.mem b.addr b.size) ∧
    ∀ r ∈ S.dead.alive, procPid K₁.mem r = procPid S.kernel.mem r := by
  generalize hc : S.kernel.currentProcess = cur at hcur hk
  obtain ⟨pre, post, hsplit⟩ := List.append_of_mem hcur
  have hlist := h.list
  rw [hsplit] at hlist
  have hdead : S.dead.alive = pre ++ post := by
    simp only [RefState.dead, hc, hsplit]
    exact erase_middle hlist.chain.nodup
  have hmem : ∀ r ∈ pre ++ post, r ∈ S.alive := by
    intro r hr
    rw [hsplit]
    exact (List.Sublist.append_left (List.sublist_cons_self _ _) _).subset hr
  rw [killProcess_eq _ V hlist.chain hlist.pids hlist.records.length_lt] at hk
  obtain ⟨m₁, frames, m₃, hd, hr, rfl⟩ := killAt_ok hk
  have hdestroy : ∀ b ∈ S.used irqHandlers, AgreeOn S.kernel.mem m₁ b.addr b.size :=
    fun b hb x hx hx' => V.destroy_keeps hd x (h.off b hb x ⟨hx, hx'⟩)
  have hrelease := releaseProcess_keeps hr
  have hproc : ∀ r ∈ S.alive, procBlock r ∈ S.used irqHandlers := fun r hr => by
    simp only [RefState.used, List.mem_cons, List.mem_append]
    exact Or.inr (Or.inr (List.mem_map_of_mem hr))
  obtain ⟨hlist', hkeep⟩ := hlist.kill (fun r hr' => hdestroy _ (hproc r (hsplit ▸ hr')))
    (fun r hr' => hrelease (procBlock r) (by
      simp only [RefState.used, hdead, List.mem_cons, List.mem_append]
      exact Or.inr (Or.inr (List.mem_map_of_mem hr'))))
  refine ⟨hdead ▸ hlist', rfl, fun b hb => ?_, fun r hr' => ?_⟩
  · -- relinking writes into a record that stays
    have hb' : b ∈ S.used irqHandlers := by
      simp only [RefState.used, List.mem_cons, List.mem_append] at hb ⊢
      tauto
    have hstay : b ∈ S.dead.used irqHandlers := by
      simp only [RefState.used, RefState.dead, List.mem_cons, List.mem_append] at hb ⊢
      tauto
    refine (hdestroy b hb').trans (AgreeOn.trans (fun x hx hx' => ?_) (hrelease b hstay))
    refine relink_of_outside (fun z hz => ?_)
    have hz' : procBlock z ∈ S.alive.map procBlock :=
      List.mem_map_of_mem (hmem z (List.mem_append_left _ (List.mem_of_getLast? hz)))
    have hap : b.Apart (procBlock z) := by
      have hpw : ((irqTable irqHandlers :: S.services.map serviceBlock) ++
        S.alive.map procBlock).Pairwise Block.Apart := h.apart
      exact (List.pairwise_append.mp hpw).2.2 b hb _ hz'
    simp only [Block.Apart, procBlock, sizeofProcess] at hap
    omega
  · rw [hdead] at hr'
    exact load32_congr ((hkeep r hr').mono (by omega) (by omega))

/-- **A process that nothing names** can be killed. -/
theorem Referenced.killed (h : Referenced V irqHandlers S) {K₁ : Kernel σ}
    (hcur : S.kernel.currentProcess ∈ S.alive)
    (hname : ¬ S.Named irqHandlers (procPid S.kernel.mem S.kernel.currentProcess))
    (hk : killProcess (H.sparing (S.dead.used irqHandlers)) V S.kernel S.kernel.currentProcess
      = .ok K₁) : Referenced V irqHandlers { S.dead with kernel := K₁ } := by
  obtain ⟨hlist, hnum, htables, hpids⟩ := h.killed_keeps hcur hk
  refine h.keep hlist (hnum ▸ h.num) rfl rfl ?_ htables (fun pid hn hl => ?_)
  · refine h.apart.sublist ?_
    simp only [RefState.used, RefState.dead]
    exact (List.Sublist.append_left (List.erase_sublist.map _) _).cons_cons _
  · obtain ⟨r, hr, he⟩ := hl
    have hrc : r ≠ S.kernel.currentProcess := by
      rintro rfl
      exact hname (he ▸ hn)
    have hrest : r ∈ S.dead.alive := (List.mem_erase_of_ne hrc).mpr hr
    exact ⟨r, hrest, (hpids r hrest).trans he⟩

theorem killCurrentProcess_ok {K : Kernel σ} {ticks st : Nat}
    (h : killCurrentProcess H V K ticks = .ok (st, K')) :
    ∃ K₁, killProcess H V K K.currentProcess = .ok K₁ ∧ K'.mem = K₁.mem ∧
      K'.firstProcess = K₁.firstProcess ∧ K'.numProc = K₁.numProc := by
  unfold killCurrentProcess at h
  cases hk : killProcess H V K K.currentProcess with
  | error f =>
      rw [hk] at h
      cases h
  | ok K₁ =>
      rw [hk] at h
      have hs : switchTo { K₁ with currentProcess := NULL } K₁.mem K₁.firstProcess = .ok (st, K') := h
      unfold switchTo at hs
      split at hs
      · cases hs
      · obtain ⟨-, rfl⟩ := Prod.mk.inj (Except.ok.inj hs)
        exact ⟨K₁, rfl, rfl, rfl, rfl⟩

/-- The process that runs ends, by `exit` or by an exception. -/
theorem Referenced.died (h : Referenced V irqHandlers S) {ticks st : Nat}
    (hcur : S.kernel.currentProcess ∈ S.alive)
    (hname : ¬ S.Named irqHandlers (procPid S.kernel.mem S.kernel.currentProcess))
    (hk : killCurrentProcess (H.sparing (S.dead.used irqHandlers)) V S.kernel ticks = .ok (st, K')) :
    Referenced V irqHandlers { S.dead with kernel := K' } := by
  obtain ⟨K₁, hkill, hmem, hfirst, hnum⟩ := killCurrentProcess_ok hk
  exact (h.killed hcur hname hkill).of_eq hmem hfirst hnum

/-- A write into the table of handlers leaves everything else alone. -/
theorem Referenced.setHandler (h : Referenced V irqHandlers S) {i pid : Nat} (hi : i < NUM_HANDLERS)
    (hpid : pid = 0 ∨ S.Listed pid) : Referenced V irqHandlers { S with
      kernel := { S.kernel with mem := store32 S.kernel.mem (irqSlot irqHandlers i) pid } } := by
  have hT := h.table_le
  have hslot := irqSlot_eq hi hT
  simp only [NUM_HANDLERS] at hi
  have hout : ∀ b ∈ S.services.map serviceBlock ++ S.alive.map procBlock,
      AgreeOn S.kernel.mem (store32 S.kernel.mem (irqSlot irqHandlers i) pid) b.addr b.size := by
    intro b hb x hx hx'
    have hap : (irqTable irqHandlers).Apart b := (List.pairwise_cons.mp h.apart).1 b hb
    simp only [Block.Apart, irqTable] at hap
    exact store32_of_outside (by omega)
  have hproc : ∀ p ∈ S.alive, AgreeOn S.kernel.mem
      (store32 S.kernel.mem (irqSlot irqHandlers i) pid) p 52 := fun p hp =>
    hout (procBlock p) (List.mem_append_right _ (List.mem_map_of_mem hp))
  have hlisted : ∀ q, S.Listed q → RefState.Listed { S with
      kernel := { S.kernel with mem := store32 S.kernel.mem (irqSlot irqHandlers i) pid } } q := by
    rintro q ⟨r, hr, he⟩
    refine ⟨r, hr, ?_⟩
    rw [← he]
    exact load32_congr ((hproc r hr).mono (by omega) (by omega))
  refine ⟨h.list.congr (fun p hp => agreeOn_procBlock (hproc p hp)), h.num, ?_, h.range, h.off,
    h.apart, fun q hn => hlisted q ?_⟩
  · refine h.services.congr (fun s hs => ?_)
    have := hout (serviceBlock s) (List.mem_append_left _ (List.mem_map_of_mem hs))
    simp only [serviceBlock, sizeofService] at this
    exact load32_congr (this.mono (by omega) (by omega))
  · rcases hn with ⟨h0, j, hj, he⟩ | ⟨s, hs, he⟩
    · have hslot' := irqSlot_eq hj hT
      simp only [irqHandler] at he
      by_cases hij : j = i
      · -- the entry just written
        rw [hij, load32_store32] at he
        rcases hpid with rfl | hl
        · exact absurd he.symm h0
        · obtain ⟨r, hr, hr'⟩ := hl
          have hlt : pid < 2 ^ 32 := hr' ▸ load32_lt _ _
          rw [Nat.mod_eq_of_lt hlt] at he
          exact ⟨r, hr, hr'.trans he⟩
      · rw [load32_store32_of_ne (by omega)] at he
        exact h.named q (Or.inl ⟨h0, j, hj, he⟩)
    · refine h.named q (Or.inr ⟨s, hs, ?_⟩)
      have := hout (serviceBlock s) (List.mem_append_left _ (List.mem_map_of_mem hs))
      simp only [serviceBlock, sizeofService] at this
      exact (load32_congr (this.mono (by omega) (by omega))).symm.trans he

theorem Referenced.registerIrq (h : Referenced V irqHandlers S) {i : Nat} (hi : i < NUM_HANDLERS)
    (hcur : S.kernel.currentProcess ∈ S.alive) :
    Referenced V irqHandlers { S with kernel := registerIrqCall irqHandlers S.kernel i } := by
  unfold registerIrqCall registerHandlerProcess
  split
  · exact h
  · split
    · exact h
    · exact h.setHandler hi (Or.inr ⟨_, hcur, rfl⟩)

theorem Referenced.resetIrq (h : Referenced V irqHandlers S) {i : Nat} (hi : i < NUM_HANDLERS) :
    Referenced V irqHandlers { S with kernel := resetIrqCall irqHandlers S.kernel i } := by
  unfold resetIrqCall resetHandlerProcess
  split
  · exact h
  · split
    · exact h.setHandler hi (Or.inl rfl)
    · exact h

/-- A service registered for a live process. -/
theorem Referenced.register (h : Referenced V irqHandlers S) {R' : Registry} {msg : Message}
    {reply : Option (Nat × Message)} {m₁ : Mem} (hname : msg.WellNamed) (hreg : msg.registers)
    (hsender : S.Listed msg.sender.toNat)
    (hallots : Allots H V.area (S.used irqHandlers) S.kernel.mem sizeofService R'.serviceStart m₁)
    (hk : kernelProcess H ⟨S.kernel.mem, S.serviceStart⟩ msg = some (reply, R')) :
    Referenced V irqHandlers { S with
      kernel := { S.kernel with mem := R'.mem }
      serviceStart := R'.serviceStart
      services := R'.serviceStart :: S.services } := by
  have hshort : msg.name.length ≤ 254 :=
    hname (Or.inl (by simpa [Message.registers] using hreg : msg.sender ≠ 0 ∧ msg.signal = 1).2)
  obtain ⟨-, m₂, hmalloc, hregistered, hnext, hout⟩ := kernelProcess_register hreg hshort hk
  obtain rfl : m₁ = m₂ := by simpa [hallots.call] using hmalloc
  have hkeep : ∀ b ∈ S.used irqHandlers, AgreeOn S.kernel.mem R'.mem b.addr b.size := by
    intro b hb x hx hx'
    have hap := hallots.apart b hb
    simp only [Block.Apart, sizeofService] at hap
    rw [hout x (by omega)]
    exact hallots.keeps b hb x hx hx'
  have htables : ∀ b ∈ irqTable irqHandlers :: S.services.map serviceBlock,
      b ∈ S.used irqHandlers := by
    intro b hb
    simp only [RefState.used, List.mem_cons, List.mem_append] at hb ⊢
    tauto
  have hproc : ∀ p ∈ S.alive, AgreeOn S.kernel.mem R'.mem p 52 := fun p hp =>
    hkeep (procBlock p) (by
      simp only [RefState.used, List.mem_cons, List.mem_append]
      exact Or.inr (Or.inr (List.mem_map_of_mem hp)))
  -- the services registered before
  have hold : Referenced V irqHandlers { S with kernel := { S.kernel with mem := R'.mem } } := by
    refine h.keep (h.list.congr (fun p hp => agreeOn_procBlock (hproc p hp))) h.num rfl rfl h.apart
      (fun b hb => hkeep b (htables b hb)) ?_
    intro pid _ hlisted
    obtain ⟨r, hr, he⟩ := hlisted
    exact ⟨r, hr, he ▸ load32_congr ((hproc r hr).mono (by omega) (by omega))⟩
  have hstart : S.serviceStart < 2 ^ 32 := by
    rw [h.services.head]
    cases hs : S.services with
    | nil => simp
    | cons s l =>
        have := h.range (serviceBlock s) (by simp [hs])
        simp only [serviceBlock, sizeofService] at this
        simp only [List.headD_cons]
        omega
  have hperm : (serviceBlock R'.serviceStart :: S.used irqHandlers).Perm (RefState.used irqHandlers
      { S with
        kernel := { S.kernel with mem := R'.mem }
        serviceStart := R'.serviceStart
        services := R'.serviceStart :: S.services }) := List.Perm.swap _ _ _
  refine ⟨hold.list, h.num, ⟨rfl, ?_, ?_⟩, ?_, fun b hb => ?_, ?_, fun pid hn => ?_⟩
  · have := hallots.range.1
    omega
  · rw [hnext, Nat.mod_eq_of_lt hstart]
    exact hold.services
  · have hnew : (serviceBlock R'.serviceStart).addr + (serviceBlock R'.serviceStart).size ≤ 2 ^ 32 :=
      hallots.range.2
    intro b hb
    simp only [List.map_cons, List.mem_cons] at hb
    rcases hb with rfl | rfl | hb
    · exact h.range _ List.mem_cons_self
    · exact hnew
    · exact h.range b (List.mem_cons_of_mem _ hb)
  · rcases List.mem_cons.mp (hperm.symm.subset hb) with rfl | hb
    · exact hallots.off
    · exact h.off b hb
  · refine (hperm.pairwise_iff (fun h => h.symm)).mp (List.pairwise_cons.mpr ⟨fun b hb => ?_, h.apart⟩)
    exact (hallots.apart b hb).symm
  · rcases hn with hn | ⟨s, hs, he⟩
    · exact hold.named pid (Or.inl hn)
    · rcases List.mem_cons.mp hs with rfl | hs
      · obtain ⟨r, hr, hr'⟩ := hsender
        refine ⟨r, hr, ?_⟩
        rw [← he, hregistered.pid, ← hr']
        exact load32_congr ((hproc r hr).mono (by omega) (by omega))
      · exact hold.named pid (Or.inr ⟨s, hs, he⟩)

/-- **One step keeps the tables**, if it meets the condition. -/
theorem Referenced.step {e : RefEvent} (h : Referenced V irqHandlers S)
    (hs : RefStep H V irqHandlers S e S') (htidy : Tidy irqHandlers S e) :
    Referenced V irqHandlers S' := by
  cases hs with
  | createKernel hstack hrec hcreate =>
      obtain ⟨context, hnew⟩ := createKernelProcess_enlists hstack hrec hcreate
      exact h.created htidy hnew (fun _ => id)
  | createUser hstack huser hrec hcreate =>
      exact h.created htidy (createUserProcess_enlists hstack huser hrec hcreate) (fun _ hx => hx.elim)
  | exit hcur hk => exact h.died hcur htidy hk
  | exception hcur hk =>
      unfold exceptionBranch at hk
      split at hk
      · cases hk
      · exact h.died hcur htidy hk
  | registerIrq hcur => exact h.registerIrq htidy hcur
  | resetIrq hcur => exact h.resetIrq htidy
  | register hreg hallots hk => exact h.register (htidy hreg).1 hreg (htidy hreg).2 hallots hk
  | message hreg hk =>
      rw [kernelProcess_other hreg hk]
      exact h
  | other hfirst hnum htables hprocs =>
      refine h.keep ?_ (hnum ▸ h.num) rfl rfl h.apart htables (fun pid _ hlisted => ?_)
      · simp only [hfirst]
        exact h.list.congr hprocs
      · obtain ⟨r, hr, he⟩ := hlisted
        exact ⟨r, hr, he ▸ load32_congr (hprocs r hr).1⟩

/-- The invariant holds along every run whose steps meet the condition. -/
theorem RefRun.referenced (h : RefRun H V irqHandlers (Tidy irqHandlers) S) :
    Referenced V irqHandlers S := by
  induction h with
  | boot hfirst hnum hT hoff hempty =>
      refine ⟨⟨hfirst, by simp, by simp, by simp, by simp⟩, by simp [hnum], rfl, ?_, ?_, ?_, ?_⟩
      · simpa [irqTable] using hT
      · simpa [RefState.used] using hoff
      · exact List.pairwise_singleton _ _
      · rintro pid (⟨h0, i, hi, he⟩ | ⟨s, hs, -⟩)
        · exact absurd (he.symm.trans (hempty i hi)) h0
        · simp at hs
  | step _ hs htidy ih => exact ih.step hs htidy

theorem RefRun.mono {P Q : RefState σ → RefEvent → Prop} (h : RefRun H V irqHandlers P S)
    (hPQ : ∀ S e, P S e → Q S e) : RefRun H V irqHandlers Q S := by
  induction h with
  | boot hfirst hnum hT hoff hempty => exact .boot hfirst hnum hT hoff hempty
  | step _ hs hp ih => exact ih.step hs (hPQ _ _ hp)

/-- A lookup answers with `0` or the pid of some service in the list. -/
theorem kernelProcess_lookup {services : List Nat} {R R' : Registry} {msg : Message}
    {reply : Option (Nat × Message)} (hchain : Chain (svcNext R.mem) R.serviceStart services)
    (hlen : services.length < walkLimit) (hsender : msg.sender ≠ 0) (hsignal : msg.signal = 2)
    (hk : kernelProcess H R msg = some (reply, R')) :
    ∃ signal, reply = some (msg.sender.toNat, { msg with signal := signal }) ∧
      (signal = 0 ∨ ∃ s ∈ services, svcPid R.mem s = signal.toNat) := by
  have hscan := scan_chain hchain hlen
    (fun s => strcmp (svcName R.mem s) msg.text walkLimit == 0)
  unfold kernelProcess at hk
  rw [if_neg hsender, if_neg (by rw [hsignal]; decide), if_pos hsignal, hscan, Option.bind_eq_bind,
    Option.bind_some] at hk
  cases hf : services.find? (fun s => strcmp (svcName R.mem s) msg.text walkLimit == 0) with
  | none =>
      rw [hf] at hk
      exact ⟨0, (Prod.mk.inj (Option.some.inj hk)).1.symm, Or.inl rfl⟩
  | some s =>
      have hs := List.mem_of_find?_eq_some hf
      have hs0 : s ≠ NULL := hchain.ne_zero_of_mem hs
      rw [hf, Option.getD_some, if_pos hs0] at hk
      refine ⟨_, (Prod.mk.inj (Option.some.inj hk)).1.symm, Or.inr ⟨s, hs, ?_⟩⟩
      exact (UInt32.toNat_ofNat_of_lt' (load32_lt _ _)).symm

theorem Referenced.services_lt (h : Referenced V irqHandlers S) :
    S.services.length < walkLimit := by
  have hpw : (S.services.map serviceBlock).Pairwise Block.Apart :=
    (List.pairwise_append.mp (List.pairwise_cons.mp h.apart).2).1
  have := Block.length_mul_le S.services (List.pairwise_map.mp hpw) (fun s hs =>
    h.range (serviceBlock s) (List.mem_cons_of_mem _ (List.mem_map_of_mem hs)))
  simp only [sizeofService] at this
  simp only [walkLimit]
  omega

/-- **No dangling process references.** In every state of a run in which no process ends while a
line or a service has its pid, services are registered for living processes under names that
fit, interrupt lines are within the table and pids are not reused among the living: every line
in use and every service has the pid of a process in the list. So a line without a living owner
can be registered, and a lookup answers with `0` or the pid of a living process. -/
theorem no_dangling_reference (h : RefRun H V irqHandlers (Tidy irqHandlers) S) :
    Chain (procNext S.kernel.mem) S.kernel.firstProcess S.alive ∧
    Chain (svcNext S.kernel.mem) S.serviceStart S.services ∧
    (∀ i < NUM_HANDLERS, irqHandler irqHandlers S.kernel.mem i ≠ 0 →
      S.Listed (irqHandler irqHandlers S.kernel.mem i)) ∧
    (∀ s ∈ S.services, S.Listed (svcPid S.kernel.mem s)) ∧
    (∀ i < NUM_HANDLERS, ¬ S.Listed (irqHandler irqHandlers S.kernel.mem i) →
      ∀ pid, (registerHandlerProcess irqHandlers S.kernel.mem i pid).1 = 1) ∧
    ∀ msg reply R', msg.sender ≠ 0 → msg.signal = 2 →
      kernelProcess H ⟨S.kernel.mem, S.serviceStart⟩ msg = some (reply, R') →
      ∃ signal, reply = some (msg.sender.toNat, { msg with signal := signal }) ∧
        (signal = 0 ∨ S.Listed signal.toNat) := by
  have hr := h.referenced
  have hhandlers : ∀ i < NUM_HANDLERS, irqHandler irqHandlers S.kernel.mem i ≠ 0 →
      S.Listed (irqHandler irqHandlers S.kernel.mem i) := fun i hi h0 =>
    hr.named _ (Or.inl ⟨h0, i, hi, rfl⟩)
  have howners : ∀ s ∈ S.services, S.Listed (svcPid S.kernel.mem s) := fun s hs =>
    hr.named _ (Or.inr ⟨s, hs, rfl⟩)
  refine ⟨hr.list.chain, hr.services, hhandlers, howners, fun i hi hno pid => ?_,
    fun msg reply R' hsender hsignal hk => ?_⟩
  · have h0 : irqHandler irqHandlers S.kernel.mem i = 0 := by
      by_contra hne
      exact hno (hhandlers i hi hne)
    rw [registerHandlerProcess, if_neg (not_not.mpr h0)]
  · obtain ⟨signal, hreply, hcase⟩ := kernelProcess_lookup hr.services hr.services_lt hsender hsignal hk
    refine ⟨signal, hreply, hcase.imp id ?_⟩
    rintro ⟨s, hs, he⟩
    exact he ▸ howners s hs

end

/-! ## A process that dies with a line -/

/-- One more process on the kernel heap. -/
theorem firstFit_create {S : RefState Unit} {ns ns₁ ns₂ ns₃ : List FirstFit.Node}
    {live : List Block} {q₁ q₂ q₃ : Nat} (irqHandlers : Nat)
    (h : HeapState Layout.least (heapLimit Layout.least) S.kernel.mem ns live)
    (h₁ : FirstFit.malloc headerSize Layout.least.heapStart Layout.least.heapEnd STACK_SIZE ns
      = some (q₁, ns₁))
    (h₂ : FirstFit.malloc headerSize Layout.least.heapStart Layout.least.heapEnd STACK_SIZE ns₁
      = some (q₂, ns₂))
    (h₃ : FirstFit.malloc headerSize Layout.least.heapStart Layout.least.heapEnd sizeofProcess ns₂
      = some (q₃, ns₃))
    (hused : ∀ b ∈ S.used irqHandlers, b ∈ live ∨ b.addr + b.size ≤ Layout.least.heapStart) :
    ∃ K' m, MadeUser Layout.least S.kernel ns₃ live 0x40000000 0x102000 (q₁ + headerSize)
        (q₂ + headerSize) (q₃ + headerSize) K' m ∧
      RefStep (firstFit Layout.least).toHeap plainContexts irqHandlers S .create
        { S with kernel := K', alive := (q₃ + headerSize) :: S.alive } := by
  obtain ⟨K', m, hmade⟩ := firstFit_createUser h h₁ h₂ h₃ 0x40000000 0x102000
  obtain ⟨m₁, m₂, m₃, hstack, hustack, hrecord⟩ := firstFit_allotsUser _ h h₁ h₂ h₃ hused
  exact ⟨K', m, hmade, .createUser hstack hustack hrecord hmade.create⟩

/-- Two processes; the second one, with pid 1, runs and has registered the line 5. -/
structure LineOwner (S : RefState Unit) : Prop where
  alive : S.alive = [0x3050A4, 0x303040]
  services : S.services = []
  current : S.kernel.currentProcess = 0x3050A4
  first : S.kernel.firstProcess = 0x3050A4
  line : irqHandler 0x5000 S.kernel.mem 5 = 1
  pids : procPid S.kernel.mem 0x3050A4 = 1 ∧ procPid S.kernel.mem 0x303040 = 0
  ownStacks : procStack S.kernel.mem 0x3050A4 = 0x303084 ∧ userStack S.kernel.mem 0x3050A4 = 0x304094
  heap : HeapState Layout.least (heapLimit Layout.least) S.kernel.mem twoProcesses
    [procBlock 0x3050A4, ⟨0x304094, STACK_SIZE⟩, ⟨0x303084, STACK_SIZE⟩, procBlock 0x303040,
      ⟨0x302030, STACK_SIZE⟩, ⟨0x301020, STACK_SIZE⟩]

theorem lineOwner_run : ∃ S, LineOwner S ∧
    RefRun (firstFit Layout.least).toHeap plainContexts 0x5000 (Tidy 0x5000) S := by
  have hstart : Layout.least.heapStart = 0x301000 := by decide
  have hlow₀ : ∀ a < 0x301000, bootKernel.mem a = 0 := by
    intro a ha
    have hmem : bootKernel.mem = kinitHeap Layout.least (fun _ => 0) := by simp only [bootKernel]
    rw [hmem]
    simp only [kinitHeap, hstart]
    rw [store32_of_outside (by omega), store32_of_outside (by omega),
      store32_of_outside (by omega), store32_of_outside (by omega)]
  have hboot : RefRun (firstFit Layout.least).toHeap plainContexts 0x5000 (Tidy 0x5000)
      ⟨bootKernel, NULL, [], []⟩ := by
    refine .boot rfl rfl (by decide) (fun _ _ => id) (fun i hi => ?_)
    rw [irqHandler, irqSlot_eq hi (by decide)]
    simp only [NUM_HANDLERS] at hi
    exact load32_eq_zero (fun a _ _ => hlow₀ a (by omega))
  -- the first process
  obtain ⟨h₁, h₂, h₃⟩ := bootKernel_mallocs
  have htable : (irqTable 0x5000).addr + (irqTable 0x5000).size ≤ Layout.least.heapStart := by decide
  obtain ⟨K₁, w₁, hK₁, hstep₁⟩ := firstFit_create (S := ⟨bootKernel, NULL, [], []⟩) 0x5000
    bootKernel_heap h₁ h₂ h₃ (List.forall_mem_singleton.mpr (Or.inr htable))
  have hrun₁ := hboot.step hstep₁ (fun r hr => absurd hr List.not_mem_nil)
  have hnum₁ : K₁.numProc = 1 := congrArg Kernel.numProc hK₁.kernel
  have hpid₁ : procPid K₁.mem 0x303040 = 0 := hK₁.fields.pid_eq
  -- the second one
  obtain ⟨h₁', h₂', h₃'⟩ := second_mallocs
  obtain ⟨K₂, w₂, hK₂, hstep₂⟩ := firstFit_create (S := ⟨K₁, NULL, [0x303040], []⟩) 0x5000
    hK₁.heap h₁' h₂' h₃' (List.forall_mem_cons.mpr ⟨Or.inr htable,
      List.forall_mem_singleton.mpr (Or.inl (by simp [procBlock, headerSize]))⟩)
  have hrun₂ : RefRun (firstFit Layout.least).toHeap plainContexts 0x5000 (Tidy 0x5000)
      ⟨K₂, NULL, [0x3050A4, 0x303040], []⟩ := by
    refine hrun₁.step hstep₂ (List.forall_mem_singleton.mpr ?_)
    show procPid K₁.mem 0x303040 ≠ K₁.numProc
    rw [hpid₁, hnum₁]
    decide
  -- what the creations leave alone
  have hkeep₁ : ∀ a < 0x301000, K₁.mem a = bootKernel.mem a := by
    intro a ha
    rw [hK₁.fields.outside a id (by simp only [headerSize]; omega) (by simp only [headerSize]; omega)]
    refine hK₁.keeps a ?_
    simp only [List.forall_mem_cons, Block.Has, FirstFit.Node.header, headerSize]
    simp
    omega
  have hkeep₂ : ∀ a, (a < 0x301000 ∨ 0x303040 ≤ a ∧ a < 0x303074) → K₂.mem a = K₁.mem a := by
    intro a ha
    rw [hK₂.fields.outside a id (by simp only [headerSize]; omega) (by simp only [headerSize]; omega)]
    refine hK₂.keeps a ?_
    simp only [twoProcesses, List.forall_mem_cons, Block.Has, FirstFit.Node.header, headerSize]
    simp
    omega
  have hpid₂ : procPid K₂.mem 0x3050A4 = 1 := by
    have hpid := hK₂.fields.pid_eq
    rw [hnum₁] at hpid
    exact hpid
  have hpid₂' : procPid K₂.mem 0x303040 = 0 := by
    rw [← hpid₁]
    exact load32_congr (fun a _ _ => hkeep₂ a (by omega))
  have huid₂ : procUid K₂.mem 0x3050A4 = ROOT_UID :=
    createUserProcess_uid hK₂.create (congrArg Kernel.currentProcess hK₁.kernel)
  have hline₂ : irqHandler 0x5000 K₂.mem 5 = 0 := by
    refine load32_eq_zero (fun a ha ha' => ?_)
    simp only [irqSlot] at ha ha'
    rw [hkeep₂ a (by omega), hkeep₁ a (by omega)]
    exact hlow₀ a (by omega)
  -- it runs and registers its line
  have hstep₃ : RefStep (firstFit Layout.least).toHeap plainContexts 0x5000
      ⟨K₂, NULL, [0x3050A4, 0x303040], []⟩ .other
      ⟨{ K₂ with currentProcess := 0x3050A4 }, NULL, [0x3050A4, 0x303040], []⟩ :=
    .other rfl rfl (fun b _ => AgreeOn.refl _ _ _) (fun p _ => ⟨AgreeOn.refl _ _ _, AgreeOn.refl _ _ _⟩)
  have hcall : registerIrqCall 0x5000 { K₂ with currentProcess := 0x3050A4 } 5
      = { K₂ with mem := store32 K₂.mem (irqSlot 0x5000 5) 1, currentProcess := 0x3050A4 } := by
    simp only [registerIrqCall, registerHandlerProcess, huid₂, hline₂, hpid₂, ne_eq,
      not_true_eq_false, if_false]
  have hstep₄ : RefStep (firstFit Layout.least).toHeap plainContexts 0x5000
      ⟨{ K₂ with currentProcess := 0x3050A4 }, NULL, [0x3050A4, 0x303040], []⟩ (.registerIrq 5)
      ⟨{ K₂ with mem := store32 K₂.mem (irqSlot 0x5000 5) 1, currentProcess := 0x3050A4 }, NULL,
        [0x3050A4, 0x303040], []⟩ := by
    rw [← hcall]
    exact .registerIrq List.mem_cons_self
  have hrun₄ := (hrun₂.step hstep₃ trivial).step hstep₄ (show 5 < 48 by decide)
  have hslot : irqSlot 0x5000 5 = 0x5014 := by decide
  have hkeep₄ : ∀ a, 0x301000 ≤ a → store32 K₂.mem (irqSlot 0x5000 5) 1 a = K₂.mem a := fun a ha =>
    store32_of_outside (by omega)
  refine ⟨_, ⟨rfl, rfl, rfl, ?_, ?_, ⟨?_, ?_⟩, ⟨?_, ?_⟩, ?_⟩, hrun₄⟩
  · exact congrArg Kernel.firstProcess hK₂.kernel
  · simp only [irqHandler, load32_store32]
    rfl
  · exact (load32_congr (fun a _ _ => hkeep₄ a (by omega))).trans hpid₂
  · exact (load32_congr (fun a _ _ => hkeep₄ a (by omega))).trans hpid₂'
  · exact (load32_congr (fun a _ _ => hkeep₄ a (by omega))).trans hK₂.fields.stack_eq
  · exact (load32_congr (fun a _ _ => hkeep₄ a (by omega))).trans hK₂.userStack_eq
  · exact hK₂.heap.write (fun a ha _ => hkeep₄ a (by omega))

/-- While the owner of a line lives, its pid is found there. -/
theorem no_dangling_reference_owner : ∃ S : RefState Unit, S.alive = [0x3050A4, 0x303040] ∧
    irqHandler 0x5000 S.kernel.mem 5 = 1 ∧ S.Listed (irqHandler 0x5000 S.kernel.mem 5) := by
  obtain ⟨S, hS, hrun⟩ := lineOwner_run
  refine ⟨S, hS.alive, hS.line, (no_dangling_reference hrun).2.2.1 5 (by decide) ?_⟩
  rw [hS.line]
  decide

/-- After its owner has exited, the line still has its pid, which no live process has. -/
theorem no_dangling_reference_fails : ∃ S : RefState Unit,
    RefRun (firstFit Layout.least).toHeap plainContexts 0x5000 (fun _ _ => True) S ∧
    irqHandler 0x5000 S.kernel.mem 5 = 1 ∧ ¬ S.Listed 1 := by
  obtain ⟨S, hS, hrun⟩ := lineOwner_run
  have hr := hrun.referenced
  have hcur : S.kernel.currentProcess ∈ S.alive := by simp [hS.current, hS.alive]
  have hdead : S.dead.alive = [0x303040] := by
    simp only [RefState.dead, hS.current, hS.alive]
    decide
  obtain ⟨K₁, -, hkill, -⟩ := kill_second (S.dead.used 0x5000) hS.heap hS.first
    hS.ownStacks.1 hS.ownStacks.2 (by decide) (by
      have hservices : S.dead.services = [] := hS.services
      simp only [RefState.used, hdead, hservices, List.map_cons, List.map_nil, List.nil_append,
        List.forall_mem_cons]
      exact ⟨Or.inr (by decide), Or.inl (by decide), by simp⟩)
  rw [← hS.current] at hkill
  obtain ⟨hlist, -, htables, hpids⟩ := hr.killed_keeps hcur hkill
  rw [hdead] at hlist hpids
  have hfirst : K₁.firstProcess = 0x303040 := hlist.chain.head
  obtain ⟨K', hswitch, hmem, -⟩ := switchTo_ok (K := { K₁ with currentProcess := NULL }) (m := K₁.mem)
    (p := K₁.firstProcess) (by rw [hfirst]; decide)
  have hdie : killCurrentProcess ((firstFit Layout.least).toHeap.sparing (S.dead.used 0x5000))
      plainContexts S.kernel 0 = .ok (procState K₁.mem K₁.firstProcess, K') := by
    unfold killCurrentProcess
    rw [hkill]
    exact hswitch
  refine ⟨_, (hrun.mono (fun _ _ _ => trivial)).step (.exit hcur hdie) trivial, ?_, ?_⟩
  · have htable : AgreeOn S.kernel.mem K'.mem 0x5000 192 := hmem ▸ htables _ List.mem_cons_self
    rw [← hS.line]
    exact irqHandler_congr htable (by decide) (by decide)
  · rintro ⟨r, hr', he⟩
    obtain rfl : r = 0x303040 := by
      rw [hdead] at hr'
      exact List.mem_singleton.mp hr'
    have hpid : procPid K'.mem 0x303040 = 0 := by
      rw [hmem, hpids _ (by simp), hS.pids.2]
    exact absurd (hpid.symm.trans he) (by decide)

end DayOS
