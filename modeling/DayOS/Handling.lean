import DayOS.IrqLines
import DayOS.Lib.VirtualCpus
import DayOS.SavedFrames

set_option autoImplicit false

/-! # One call of `int_handler`, as the processes see it

Between the entry of `int_handler` and its return every process is a frame, the interrupted one
as well (`Frozen`). Messages, answers, the tables of the kernel and the stores of a process
leave the others' frames as they are, and `Schedule` goes on with one of them (`Ready`).
-/

namespace DayOS

open ByteMemory Linked Ia32

/-! ## The kernel and its tables -/

/-- A kernel: its heap, what it knows of `vmm.c`, and where its tables lie. The one with the code
of `heap.c`, `vmm.c` and `syscall.c` in it is `kernelHost`. -/
structure Host (σ : Type) where
  alloc : Allocator
  contexts : Contexts σ
  irqHandlers : Nat
  tss : Nat
  idt : Nat
  stub : Nat → UInt32
  sbrk : Kernel σ → Nat → Except Fault (Nat × Kernel σ)
  launchElfProgram : Kernel σ → Nat → Except Fault (Kernel σ)

/-- What `int_handler` calls. -/
def Host.platform {σ : Type} (X : Host σ) : Platform σ where
  heap := X.alloc.toHeap
  contexts := X.contexts
  irqHandlers := X.irqHandlers
  tss := X.tss
  sbrk := X.sbrk
  launchElfProgram := X.launchElfProgram

/-- The tables of the kernel: the stack pointer in the task state segment, the gates, and the
handlers of the interrupt lines. -/
def Host.Table {σ : Type} (X : Host σ) (x : Nat) : Prop :=
  X.tss + 4 ≤ x ∧ x < X.tss + 8 ∨ X.idt ≤ x ∧ x < X.idt + 2048 ∨
    X.irqHandlers ≤ x ∧ x < X.irqHandlers + 192

/-- The tables, the heap and the pages of the contexts do not overlap. -/
structure Host.Separate {σ : Type} (X : Host σ) : Prop where
  area : ∀ x, X.alloc.arena x → ¬ X.contexts.area x
  page : ∀ x, X.contexts.area x → 0x1000 ≤ x
  table : ∀ x, X.Table x → 0x1000 ≤ x ∧ ¬ X.alloc.arena x ∧ ¬ X.contexts.area x
  idtTss : X.idt + 2048 ≤ X.tss + 4 ∨ X.tss + 8 ≤ X.idt
  irqIdt : X.idt + 2048 ≤ X.irqHandlers ∨ X.irqHandlers + 192 ≤ X.idt
  irqTss : X.tss + 8 ≤ X.irqHandlers ∨ X.irqHandlers + 192 ≤ X.tss + 4
  irqFits : X.irqHandlers + 192 ≤ 2 ^ 32

/-- The processes alive, newest first, and which of them `CreateUserProcess` has made. -/
structure Census where
  alive : List Nat
  user : Nat → Bool

/-- The lists and the heap are in order. -/
def Sound {σ : Type} (X : Host σ) (K : Kernel σ) (c : Census) : Prop :=
  ∃ nodes queue live, Lived X.alloc X.contexts K ⟨c.alive, c.user, queue, fun _ => []⟩
    nodes queue live

/-- **Every process is a frame.** The one that was interrupted has it where `frame` says; all
others have it where their records say. -/
structure Frozen {σ : Type} (X : Host σ) (K : Kernel σ) (c : Census) (frame : Nat → Nat)
    (regs : Nat → Registers) : Prop where
  sound : Sound X K c
  pids : ∀ p ∈ c.alive, procPid K.mem p ≠ 2 ^ 32 - 1
  gates : HasGates K.mem X.idt X.stub
  ring : ∀ p ∈ c.alive, (regs p).cpl = if c.user p then 3 else 0
  ss : ∀ p ∈ c.alive, (regs p).cpl = 0 → (regs p).ss = 0x10
  saved : ∀ p ∈ c.alive, SavedFrame K.mem (procStack K.mem p) (frame p) (regs p)
  state : ∀ p ∈ c.alive, p ≠ K.currentProcess → procState K.mem p = frame p

/-- An operation that leaves the frames and the tables alone. -/
structure Quiet {σ : Type} (X : Host σ) (c : Census) (frame : Nat → Nat) (regs : Nat → Registers)
    (K K' : Kernel σ) : Prop where
  sound : Sound X K' c
  record : ∀ p ∈ c.alive, AgreeOn K.mem K'.mem p 12
  words : ∀ p ∈ c.alive, AgreeOn K.mem K'.mem (p + 28) 8
  saved : ∀ p ∈ c.alive, AgreeOn K.mem K'.mem (frame p) (4 * frameLength (regs p).cpl)
  gates : AgreeOn K.mem K'.mem X.idt 2048
  tss : AgreeOn K.mem K'.mem (X.tss + 4) 4
  current : K'.currentProcess = K.currentProcess
  idle : K'.idleProcess = K.idleProcess
  context : K'.currentContext = K.currentContext
  first : K'.firstProcess = K.firstProcess

/-- The pages of the contexts are as before, and so is what `vmm.c` knows. -/
structure AreaKept {σ : Type} (V : Contexts σ) (K K' : Kernel σ) : Prop where
  frames : K'.frames = K.frames
  area : ∀ x, V.area x → K'.mem x = K.mem x

section
variable {σ : Type} {X : Host σ} {K K' : Kernel σ} {c : Census} {frame : Nat → Nat}
  {regs : Nat → Registers} {p q : Nat} {m' : Mem}

theorem AreaKept.refl (V : Contexts σ) (K : Kernel σ) : AreaKept V K K := ⟨rfl, fun _ _ => rfl⟩

theorem AreaKept.trans {V : Contexts σ} {K₁ : Kernel σ} (h : AreaKept V K K₁)
    (h' : AreaKept V K₁ K') : AreaKept V K K' :=
  ⟨h'.frames.trans h.frames, fun x hx => (h'.area x hx).trans (h.area x hx)⟩

/-- The history of the mailboxes does not matter here. -/
theorem Sound.of_lived {g : Lives} {nodes : Nat → List Nat} {queue : Nat → List Message}
    {live : List Block} (h : Lived X.alloc X.contexts K g nodes queue live) :
    Sound X K ⟨g.alive, g.user⟩ :=
  ⟨nodes, queue, live, h.list, h.num, h.boxes, h.stackLive, h.stackNodup, h.stackOwn,
    fun p _ => by simp⟩

theorem HasGates.congr {m : Mem} {idt : Nat} {stub : Nat → UInt32} (h : HasGates m idt stub)
    (hm : AgreeOn m m' idt 2048) : HasGates m' idt stub :=
  fun v hv => (readGate_congr (hm.mono (by omega) (by omega))).trans (h v hv)

theorem Host.gates_agree {m : Mem} (hm : ∀ x, X.Table x → m' x = m x) : AgreeOn m m' X.idt 2048 :=
  fun x hx hx' => hm x (Or.inr (Or.inl ⟨hx, hx'⟩))

theorem Host.tss_agree {m : Mem} (hm : ∀ x, X.Table x → m' x = m x) : AgreeOn m m' (X.tss + 4) 4 :=
  fun x hx hx' => hm x (Or.inl ⟨hx, by omega⟩)

theorem Frozen.quiet (h : Frozen X K c frame regs) (hq : Quiet X c frame regs K K') :
    Frozen X K' c frame regs := by
  have hstack : ∀ p ∈ c.alive, procStack K'.mem p = procStack K.mem p := fun p hp =>
    load32_congr ((hq.words p hp).mono (by omega) (by omega))
  refine ⟨hq.sound, fun p hp => ?_, h.gates.congr hq.gates, h.ring, h.ss,
    fun p hp => ?_, fun p hp hne => ?_⟩
  · rw [procPid, load32_congr ((hq.record p hp).mono (by omega) (by omega))]
    exact h.pids p hp
  · rw [hstack p hp]
    exact (h.saved p hp).congr (hq.saved p hp)
  · rw [procState, load32_congr ((hq.record p hp).mono (by omega) (by omega))]
    exact h.state p hp (by rwa [hq.current] at hne)

/-- The frame lies in the kernel stack. -/
theorem Frozen.frame_agree (h : Frozen X K c frame regs) (hp : p ∈ c.alive)
    (hm : AgreeOn K.mem m' (procStack K.mem p) STACK_SIZE) :
    AgreeOn K.mem m' (frame p) (4 * frameLength (regs p).cpl) :=
  hm.mono (h.saved p hp).low (h.saved p hp).high

/-- What leaves all processes and the tables alone. -/
theorem Frozen.quiet_of_untouched (h : Frozen X K c frame regs)
    (hsound : Sound X { K with mem := m' } c) (hm : ∀ p ∈ c.alive, Untouched K.mem m' p)
    (htable : ∀ x, X.Table x → m' x = K.mem x) :
    Quiet X c frame regs K { K with mem := m' } where
  sound := hsound
  record p hp := (hm p hp).record
  words p hp := (hm p hp).words
  saved p hp := h.frame_agree hp (hm p hp).stack
  gates := Host.gates_agree htable
  tss := Host.tss_agree htable
  current := rfl
  idle := rfl
  context := rfl
  first := rfl

theorem Quiet.refl (hsound : Sound X K c) : Quiet X c frame regs K K :=
  ⟨hsound, fun _ _ => AgreeOn.refl _ _ _, fun _ _ => AgreeOn.refl _ _ _,
    fun _ _ => AgreeOn.refl _ _ _, AgreeOn.refl _ _ _, AgreeOn.refl _ _ _, rfl, rfl, rfl, rfl⟩

theorem Quiet.trans {K₁ : Kernel σ} (h : Quiet X c frame regs K K₁)
    (h' : Quiet X c frame regs K₁ K') : Quiet X c frame regs K K' :=
  ⟨h'.sound, fun p hp => (h.record p hp).trans (h'.record p hp),
    fun p hp => (h.words p hp).trans (h'.words p hp),
    fun p hp => (h.saved p hp).trans (h'.saved p hp), h.gates.trans h'.gates,
    h.tss.trans h'.tss, h'.current.trans h.current, h'.idle.trans h.idle,
    h'.context.trans h.context, h'.first.trans h.first⟩

/-! ## Messages -/

/-- Only the heap and page 0 may have changed. -/
def HeapOnly (A : Allocator) (m m' : Mem) : Prop :=
  ∀ x, 0x1000 ≤ x → ¬ A.arena x → m' x = m x

/-- A step on a mailbox stays in the heap. -/
theorem Lived.heapOnly {A : Allocator} {V : Contexts σ} {g : Lives} {nodes : Nat → List Nat}
    {queue : Nat → List Message} {live live' : List Block} (h : Lived A V K g nodes queue live)
    (hp : p ∈ g.alive) (ht : Touches A live' p (nodes p) K.mem m') : HeapOnly A K.mem m' := by
  intro x hge harena
  have hnode := fun n hn => (A.inArena h.boxes.holds _ (h.boxes.nodeLive p hp n hn)).2 x
  have hproc := (A.inArena h.boxes.holds _ (h.boxes.procLive p hp)).2 x
  refine ht x hge (Or.inl harena) (fun n hn hnx => harena (hnode n hn hnx)) (fun hrx => ?_)
  refine harena (hproc ?_)
  simp only [Block.Has, procBlock, sizeofProcess]
  omega

theorem HeapOnly.table {m : Mem} (h : HeapOnly X.alloc m m') (hX : X.Separate) :
    ∀ x, X.Table x → m' x = m x := fun x hx =>
  h x (hX.table x hx).1 (hX.table x hx).2.1

/-- The heap and page 0 are off the pages of the contexts. -/
theorem HeapOnly.area {m m₁ : Mem} (h : HeapOnly X.alloc m m₁) (hX : X.Separate) {x : Nat}
    (hx : X.contexts.area x) : m₁ x = m x :=
  h x (hX.page x hx) (fun ha => hX.area x ha hx)

/-- **Sending** to a process that is there, or to none. -/
theorem Frozen.send (h : Frozen X K c frame regs) (hX : X.Separate) {s r ret : Nat} {msg : Message}
    {out : Option Message} (hs : s ∈ c.alive) (hr : r ∈ c.alive ∨ r = NULL)
    (hk : ksendMessage X.alloc.toHeap K.mem s r (some msg) = some (ret, out, m')) :
    Quiet X c frame regs K { K with mem := m' } ∧ HeapOnly X.alloc K.mem m' := by
  obtain ⟨nodes, queue, live, hl⟩ := h.sound
  rcases hr with hr | rfl
  · have hs0 : s ≠ 0 := by
      have := (hl.boxes.boxApart hs).process
      omega
    obtain ⟨-, hout, new, hm, ht⟩ := hl.boxes.send hs0 hr hk
    rw [hout] at hk
    obtain ⟨nodes', queue', live', hl'⟩ := hl.send hs hr hk
    have hheap := hl.heapOnly hr ht
    exact ⟨h.quiet_of_untouched (Sound.of_lived hl') (fun p hp => hl.send_untouched hs hr hk hp)
      (hheap.table hX), hheap⟩
  · -- nobody is there
    have hm : m' = K.mem := by
      simp only [ksendMessage, or_true, if_true, Option.some.injEq, Prod.mk.injEq] at hk
      exact hk.2.2.symm
    rw [hm]
    exact ⟨Quiet.refl h.sound, fun _ _ _ => rfl⟩

/-- **Receiving.** -/
theorem Frozen.receive (h : Frozen X K c frame regs) (hX : X.Separate) {r ret : Nat} {buf : Message}
    {out : Option Message} {who : UInt32} (hr : r ∈ c.alive)
    (hk : kreceiveMessage X.alloc.toHeap K.mem r (some buf) who = some (ret, out, m')) :
    Quiet X c frame regs K { K with mem := m' } ∧ HeapOnly X.alloc K.mem m' := by
  obtain ⟨nodes, queue, live, hl⟩ := h.sound
  rcases hl.boxes.receive hr hk with ⟨-, -, -, hm⟩ | ⟨msg, q', a, ns', -, hret, hout, -, hm, ht⟩
  · rw [hm]
    exact ⟨Quiet.refl h.sound, fun _ _ _ => rfl⟩
  · have hunt := fun p hp => hl.receive_untouched hr hk (p := p) hp
    rw [hret, hout] at hk
    obtain ⟨nodes', queue', live', hl'⟩ := hl.receive hr hk
    have hheap := hl.heapOnly hr ht
    exact ⟨h.quiet_of_untouched (Sound.of_lived hl') hunt (hheap.table hX), hheap⟩

/-- The message behind an interrupt. -/
theorem Frozen.irqMessage (h : Frozen X K c frame regs) (hX : X.Separate) {intr : Nat}
    {stale : Message} (hcur : K.currentProcess ∈ c.alive)
    (hk : irqMessage X.irqHandlers X.alloc.toHeap K intr stale = .ok K') :
    Quiet X c frame regs K K' ∧ AreaKept X.contexts K K' := by
  unfold DayOS.irqMessage at hk
  split at hk
  case isFalse =>
      cases hk
      exact ⟨Quiet.refl h.sound, .refl _ _⟩
  case isTrue =>
      obtain ⟨nodes, queue, live, hl⟩ := h.sound
      obtain ⟨q, hq, hmem⟩ := hl.list.getProcessByPid (irqHandler X.irqHandlers K.mem intr)
      simp only [hq] at hk
      cases hsend : ksendMessage X.alloc.toHeap K.mem K.currentProcess q
          (some { stale with signal := UInt32.ofNat intr }) with
      | none =>
          rw [hsend] at hk
          cases hk
      | some out =>
          rw [hsend] at hk
          cases hk
          obtain ⟨hquiet, hheap⟩ := h.send hX hcur (hmem.imp And.left And.left) hsend
          exact ⟨hquiet, rfl, fun x hx => hheap.area hX hx⟩

/-! ## Stores -/

/-- A store that spares the heap, but for the stacks of `p`, and the tables. -/
def Harmless (X : Host σ) (c : Census) (K : Kernel σ) (p st n : Nat) (m' : Mem) : Prop :=
  ∀ x, X.alloc.arena x ∨ X.Table x →
    (∀ b ∈ stacksOf (c.user p) K.mem p, ¬ b.Has x) ∨ st ≤ x ∧ x < st + n → m' x = K.mem x

theorem Sound.stack_arena (h : Sound X K c) (hp : p ∈ c.alive) {x : Nat}
    (hx : procStack K.mem p ≤ x) (hx' : x < procStack K.mem p + STACK_SIZE) :
    X.alloc.arena x := by
  obtain ⟨nodes, queue, live, hl⟩ := h
  exact (X.alloc.inArena hl.boxes.holds _ (hl.stack_live hp)).2 x ⟨hx, hx'⟩

/-- The kernel stack of one process is off the stacks of another. -/
theorem Sound.stack_off (h : Sound X K c) (hp : p ∈ c.alive) (hq : q ∈ c.alive)
    (hne : q ≠ p) {x : Nat} (hx : procStack K.mem q ≤ x)
    (hx' : x < procStack K.mem q + STACK_SIZE) : ∀ b ∈ stacksOf (c.user p) K.mem p, ¬ b.Has x := by
  obtain ⟨nodes, queue, live, hl⟩ := h
  intro b hb hbx
  have hmem := stack_mem_stacksOf (c.user q) K.mem q
  have hdisj := hl.stackOwn q hq p hp hne
  have hbne : b ≠ ⟨procStack K.mem q, STACK_SIZE⟩ := by
    rintro rfl
    exact hdisj hmem hb
  exact (X.alloc.apart_of_ne hl.boxes.holds (hl.stackLive p hp b hb) (hl.stack_live hq)
    hbne).not_has hbx ⟨hx, hx'⟩

/-- A record is off all stacks. -/
theorem Sound.record_off (h : Sound X K c) (hp : p ∈ c.alive) (hq : q ∈ c.alive)
    {x : Nat} (hx : q ≤ x) (hx' : x < q + 52) :
    X.alloc.arena x ∧ ∀ b ∈ stacksOf (c.user p) K.mem p, ¬ b.Has x := by
  obtain ⟨nodes, queue, live, hl⟩ := h
  have hhas : (procBlock q).Has x := ⟨hx, hx'⟩
  refine ⟨(X.alloc.inArena hl.boxes.holds _ (hl.boxes.procLive q hq)).2 x hhas, fun b hb hbx => ?_⟩
  exact (X.alloc.apart_of_ne hl.boxes.holds (hl.stackLive p hp b hb) (hl.boxes.procLive q hq)
    (ne_of_mem_stacksOf hb q).1).not_has hbx hhas

/-- The tables are off all stacks. -/
theorem Sound.table_off (h : Sound X K c) (hX : X.Separate) (hp : p ∈ c.alive) {x : Nat}
    (hx : X.Table x) : ∀ b ∈ stacksOf (c.user p) K.mem p, ¬ b.Has x := by
  obtain ⟨nodes, queue, live, hl⟩ := h
  intro b hb hbx
  exact (hX.table x hx).2.1 ((X.alloc.inArena hl.boxes.holds b (hl.stackLive p hp b hb)).2 x hbx)

/-- **Harmless stores** of a process keep every frame. -/
theorem Frozen.harmless (h : Frozen X K c frame regs) (hX : X.Separate) (hp : p ∈ c.alive)
    (hm : Harmless X c K p (frame p) (4 * frameLength (regs p).cpl) m') :
    Quiet X c frame regs K { K with mem := m' } := by
  have hrec : ∀ q ∈ c.alive, AgreeOn K.mem m' q 52 := fun q hq x hx hx' =>
    have hoff := h.sound.record_off hp hq hx hx'
    hm x (Or.inl hoff.1) (Or.inl hoff.2)
  obtain ⟨nodes, queue, live, hl⟩ := h.sound
  have hsound : Sound X { K with mem := m' } c := by
    refine ⟨nodes, queue, live, hl.fields (fun x hx _ hstack => ?_) rfl rfl⟩
    exact hm x (Or.inl hx) (Or.inl (hstack p hp))
  have htable : ∀ x, X.Table x → m' x = K.mem x := fun x hx =>
    hm x (Or.inr hx) (Or.inl (h.sound.table_off hX hp hx))
  refine ⟨hsound, fun q hq => (hrec q hq).mono (by omega) (by omega),
    fun q hq => (hrec q hq).mono (by omega) (by omega), fun q hq x hx hx' => ?_,
    Host.gates_agree htable, Host.tss_agree htable, rfl, rfl, rfl, rfl⟩
  have hlow := (h.saved q hq).low
  have hhigh := (h.saved q hq).high
  have harena := h.sound.stack_arena hq (x := x) (by omega) (by omega)
  by_cases hqp : q = p
  · subst hqp
    exact hm x (Or.inl harena) (Or.inr ⟨hx, hx'⟩)
  · exact hm x (Or.inl harena) (Or.inl (h.sound.stack_off hp hq hqp (by omega) (by omega)))

/-- Stores outside the heap, or into fields of the records that others use, and off the tables
that matter here. -/
theorem Frozen.quiet_of_fields (h : Frozen X K c frame regs)
    (hm : ∀ x, X.alloc.arena x → (∀ p ∈ c.alive, ¬ (p + 24 ≤ x ∧ x < p + 28 ∨
      p + 36 ≤ x ∧ x < p + 48)) → K'.mem x = K.mem x)
    (hgates : AgreeOn K.mem K'.mem X.idt 2048) (htss : AgreeOn K.mem K'.mem (X.tss + 4) 4)
    (hK : K' = { K with mem := K'.mem, frames := K'.frames }) :
    Quiet X c frame regs K K' := by
  obtain ⟨nodes, queue, live, hl⟩ := h.sound
  have hrec : ∀ q ∈ c.alive, ∀ n k, (n + k ≤ 24 ∨ 28 ≤ n ∧ n + k ≤ 36) →
      AgreeOn K.mem K'.mem (q + n) k := by
    intro q hq n k hnk x hx hx'
    refine hm x (h.sound.record_off hq hq (by omega) (by omega)).1 (fun p hp => ?_)
    by_cases hpq : p = q
    · omega
    · have hap := hl.list.records.record_apart hp hq hpq
      omega
  have hframe : ∀ q ∈ c.alive, AgreeOn K.mem K'.mem (frame q) (4 * frameLength (regs q).cpl) := by
    intro q hq x hx hx'
    have hlow := (h.saved q hq).low
    have hhigh := (h.saved q hq).high
    have hhas : (⟨procStack K.mem q, STACK_SIZE⟩ : Block).Has x :=
      ⟨hlow.trans hx, hx'.trans_le hhigh⟩
    refine hm x (h.sound.stack_arena hq hhas.1 hhas.2) (fun p hp hpx => ?_)
    have hrange : p ≤ x ∧ x < p + 52 := by omega
    exact (h.sound.record_off hq hp hrange.1 hrange.2).2 _ (stack_mem_stacksOf _ _ _) hhas
  have hsound : Sound X K' c := by
    refine ⟨nodes, queue, live, hl.fields (fun x hx hf _ => hm x hx (fun p hp hpx => hf p hp ?_))
      (by rw [hK]) (by rw [hK])⟩
    unfold OwnField
    omega
  exact ⟨hsound, fun q hq => hrec q hq 0 12 (by omega), fun q hq => hrec q hq 28 8 (by omega),
    hframe, hgates, htss, by rw [hK], by rw [hK], by rw [hK], by rw [hK]⟩

/-- **The table of handlers.** -/
theorem Frozen.registerIrq (h : Frozen X K c frame regs) (hX : X.Separate) {i : Nat}
    (hi : i < NUM_HANDLERS) :
    (Quiet X c frame regs K (registerIrqCall X.irqHandlers K i) ∧
      AreaKept X.contexts K (registerIrqCall X.irqHandlers K i)) ∧
    Quiet X c frame regs K (resetIrqCall X.irqHandlers K i) ∧
      AreaKept X.contexts K (resetIrqCall X.irqHandlers K i) := by
  have hquiet : ∀ m', (∀ x, ¬ (irqTable X.irqHandlers).Has x → m' x = K.mem x) →
      Quiet X c frame regs K { K with mem := m' } ∧ AreaKept X.contexts K { K with mem := m' } := by
    intro m' hm
    have hidt := hX.irqIdt
    have htss := hX.irqTss
    refine ⟨h.quiet_of_fields (fun x hx _ => hm x (fun hhas => ?_)) (fun x hx hx' => hm x ?_)
      (fun x hx hx' => hm x ?_) rfl, rfl, fun x hx => hm x (fun hhas => ?_)⟩
    · simp only [Block.Has, irqTable] at hhas
      exact (hX.table x (Or.inr (Or.inr hhas))).2.1 hx
    · simp only [Block.Has, irqTable]
      omega
    · simp only [Block.Has, irqTable]
      omega
    · simp only [Block.Has, irqTable] at hhas
      exact (hX.table x (Or.inr (Or.inr hhas))).2.2 hx
  constructor
  · unfold registerIrqCall
    split
    · exact ⟨Quiet.refl h.sound, .refl _ _⟩
    · exact hquiet _ (fun x hx => registerHandlerProcess_of_outside hi hX.irqFits hx)
  · unfold resetIrqCall
    split
    · exact ⟨Quiet.refl h.sound, .refl _ _⟩
    · exact hquiet _ (fun x hx => resetHandlerProcess_of_outside hi hX.irqFits hx)

/-- **The kernel's stack pointer** in the task state segment. -/
theorem Frozen.setKernelStack (h : Frozen X K c frame regs) (hX : X.Separate) (st : Nat) :
    Frozen X (setKernelStack X.platform K st) c frame regs ∧
    (∀ p ∈ c.alive, AgreeOn K.mem (DayOS.setKernelStack X.platform K st).mem p 52) ∧
    load32 (DayOS.setKernelStack X.platform K st).mem (X.tss + 4) = (st + sizeofCpu) % 2 ^ 32 := by
  have hout : ∀ x, x < X.tss + 4 ∨ X.tss + 8 ≤ x →
      (DayOS.setKernelStack X.platform K st).mem x = K.mem x := fun x hx =>
    store32_of_outside (show x < X.tss + 4 ∨ X.tss + 4 + 4 ≤ x by omega)
  have harena : ∀ x, X.alloc.arena x → (DayOS.setKernelStack X.platform K st).mem x = K.mem x := by
    intro x hx
    refine hout x ?_
    by_contra hcon
    exact (hX.table x (Or.inl (by omega))).2.1 hx
  obtain ⟨nodes, queue, live, hl⟩ := h.sound
  have hagree : ∀ p ∈ c.alive, ∀ n k, n + k ≤ 52 →
      AgreeOn K.mem (DayOS.setKernelStack X.platform K st).mem (p + n) k := fun p hp n k hk x _ _ =>
    harena x (h.sound.record_off hp hp (by omega) (by omega)).1
  have hidt := hX.idtTss
  refine ⟨⟨⟨nodes, queue, live, hl.fields (fun x hx _ _ => harena x hx) rfl rfl⟩,
    fun p hp => ?_, h.gates.congr (fun x hx hx' => hout x (by omega)), h.ring, h.ss, fun p hp => ?_,
    fun p hp hne => ?_⟩, fun p hp => hagree p hp 0 52 le_rfl, load32_store32 _ _ _⟩
  · rw [procPid, load32_congr (hagree p hp 8 4 (by omega))]
    exact h.pids p hp
  · rw [procStack, load32_congr (hagree p hp 28 4 (by omega))]
    have hsaved := h.saved p hp
    refine hsaved.congr (fun x hx hx' => harena x ?_)
    exact h.sound.stack_arena hp (hsaved.low.trans hx) (hx'.trans_le hsaved.high)
  · have hstate : procState (DayOS.setKernelStack X.platform K st).mem p = procState K.mem p :=
      load32_congr (hagree p hp 0 4 (by omega))
    rw [hstate]
    exact h.state p hp hne

theorem setKernelStack_area (hX : X.Separate) (K : Kernel σ) (st : Nat) :
    AreaKept X.contexts K (DayOS.setKernelStack X.platform K st) := by
  refine ⟨rfl, fun x hx => store32_of_outside ?_⟩
  by_contra hcon
  have hin : X.tss + 4 ≤ x ∧ x < X.tss + 8 := not_or.mp hcon |>.imp Nat.le_of_not_lt Nat.lt_of_not_le
  exact (hX.table x (Or.inl hin)).2.2 hx

/-- An answer is off all records. -/
theorem Frozen.answer_record (h : Frozen X K c frame regs) (hp : p ∈ c.alive) (hq : q ∈ c.alive)
    (v : Nat) : AgreeOn K.mem (answer K (frame p) v).mem q 52 := by
  have hlow := (h.saved p hp).low
  have hhigh := (h.saved p hp).high
  have hlen := sixteen_le_frameLength (regs p).cpl
  intro x hx hx'
  refine store32_of_outside ?_
  by_contra hcon
  refine (h.sound.record_off hp hq hx hx').2 _ (stack_mem_stacksOf _ _ _) ?_
  simp only [Block.Has]
  omega

/-- An answer is off the pages of the contexts. -/
theorem Frozen.answer_area (h : Frozen X K c frame regs) (hX : X.Separate) (hp : p ∈ c.alive)
    (v : Nat) : AreaKept X.contexts K (answer K (frame p) v) := by
  have hlow := (h.saved p hp).low
  have hhigh := (h.saved p hp).high
  have hlen := sixteen_le_frameLength (regs p).cpl
  refine ⟨rfl, fun x hx => store32_of_outside ?_⟩
  by_contra hcon
  exact hX.area x (h.sound.stack_arena hp (by omega) (by omega)) hx

/-- **An answer** to the process whose frame it is put in. -/
theorem Frozen.answer (h : Frozen X K c frame regs) (hX : X.Separate) (hp : p ∈ c.alive) (v : Nat) :
    Frozen X (answer K (frame p) v) c frame
      (Function.update regs p { regs p with eax := UInt32.ofNat v }) := by
  have hsaved := h.saved p hp
  have hlow := hsaved.low
  have hhigh := hsaved.high
  have hlen := sixteen_le_frameLength (regs p).cpl
  have hout : ∀ x, ¬ (procStack K.mem p ≤ x ∧ x < procStack K.mem p + STACK_SIZE) →
      (DayOS.answer K (frame p) v).mem x = K.mem x := fun x hx => store32_of_outside (by omega)
  have hrec : ∀ q ∈ c.alive, ∀ n k, n + k ≤ 52 →
      AgreeOn K.mem (DayOS.answer K (frame p) v).mem (q + n) k := fun q hq n k hk =>
    (h.answer_record hp hq v).mono (by omega) (by omega)
  have htable : ∀ x, X.Table x → (DayOS.answer K (frame p) v).mem x = K.mem x := fun x hx =>
    hout x (fun hin => h.sound.table_off hX hp hx _ (stack_mem_stacksOf _ _ _) hin)
  have hcpl : ∀ q, (Function.update regs p { regs p with eax := UInt32.ofNat v } q).cpl
      = (regs q).cpl := by
    intro q
    by_cases hqp : q = p
    · rw [hqp, Function.update_self]
      rfl
    · rw [Function.update_of_ne hqp]
  obtain ⟨nodes, queue, live, hl⟩ := h.sound
  refine ⟨⟨nodes, queue, live, hl.fields (fun x hx _ hstack => ?_) rfl rfl⟩, fun q hq => ?_,
    h.gates.congr (Host.gates_agree htable), fun q hq => ?_, fun q hq hring => ?_, fun q hq => ?_,
    fun q hq hne => ?_⟩
  · exact hout x (fun hin => hstack p hp _ (stack_mem_stacksOf _ _ _) hin)
  · rw [procPid, load32_congr (hrec q hq 8 4 (by omega))]
    exact h.pids q hq
  · rw [hcpl]
    exact h.ring q hq
  · rw [hcpl] at hring
    by_cases hqp : q = p
    · rw [hqp, Function.update_self]
      exact h.ss p hp (hqp ▸ hring)
    · rw [Function.update_of_ne hqp]
      exact h.ss q hq hring
  · rw [procStack, load32_congr (hrec q hq 28 4 (by omega))]
    by_cases hqp : q = p
    · subst hqp
      rw [Function.update_self]
      exact hsaved.answer v
    · rw [Function.update_of_ne hqp]
      have hq' := h.saved q hq
      refine hq'.congr (fun x hx hx' => hout x (fun hin => ?_))
      exact h.sound.stack_off hp hq hqp (hq'.low.trans hx) (hx'.trans_le hq'.high) _
        (stack_mem_stacksOf _ _ _) hin
  · have hstate : procState (DayOS.answer K (frame p) v).mem q = procState K.mem q :=
      load32_congr (hrec q hq 0 4 (by omega))
    rw [hstate]
    exact h.state q hq hne

/-! ## The turn -/

/-- The kernel is about to leave through the frame at `cpuNew`. -/
structure Ready (X : Host σ) (K : Kernel σ) (c : Census) (frame : Nat → Nat)
    (regs : Nat → Registers) (cpuNew : Nat) : Prop where
  frozen : Frozen X K c frame regs
  current : K.currentProcess ∈ c.alive
  idle : K.idleProcess ∈ c.alive
  cpu : cpuNew = frame K.currentProcess
  context : K.currentContext = procContext K.mem K.currentProcess

/-- The stack pointer for the next trap out of an outer ring is the end of the kernel stack. -/
def TrapStack (X : Host σ) (K : Kernel σ) (regs : Nat → Registers) : Prop :=
  (regs K.currentProcess).cpl ≠ 0 →
    load32 K.mem (X.tss + 4) = (procStack K.mem K.currentProcess + STACK_SIZE) % 2 ^ 32

theorem Ready.quiet {st : Nat} (h : Ready X K c frame regs st) (hq : Quiet X c frame regs K K') :
    Ready X K' c frame regs st ∧ (TrapStack X K regs → TrapStack X K' regs) := by
  refine ⟨⟨h.frozen.quiet hq, hq.current ▸ h.current, hq.idle ▸ h.idle,
    by rw [hq.current]; exact h.cpu, ?_⟩,
    fun htrap hring => ?_⟩
  · rw [hq.context, hq.current, h.context, procContext, procContext,
      load32_congr ((hq.record _ h.current).mono (by omega) (by omega))]
  · rw [hq.current] at hring ⊢
    rw [load32_congr hq.tss, htrap hring, procStack, procStack,
      load32_congr ((hq.words _ h.current).mono (by omega) (by omega))]

/-- Before it leaves, the kernel sets the stack pointer for the next trap. -/
theorem Ready.setKernelStack {st : Nat} (h : Ready X K c frame regs st) (hX : X.Separate) :
    Ready X (setKernelStack X.platform K st) c frame regs st ∧
      TrapStack X (DayOS.setKernelStack X.platform K st) regs := by
  obtain ⟨hf, hrec, htss⟩ := h.frozen.setKernelStack hX st
  have hcur := hrec _ h.current
  refine ⟨⟨hf, h.current, h.idle, h.cpu, ?_⟩, fun hring => ?_⟩
  · show K.currentContext = _
    rw [h.context, procContext, procContext]
    exact (load32_congr (hcur.mono (by omega) (by omega))).symm
  · have hstack : procStack (DayOS.setKernelStack X.platform K st).mem K.currentProcess
        = procStack K.mem K.currentProcess := load32_congr (hcur.mono (by omega) (by omega))
    have hcpu := h.cpu
    have hout := (h.frozen.saved _ h.current).outer hring
    show load32 _ _ = (procStack _ K.currentProcess + _) % _
    rw [htss, hstack, hcpu, hout, frameOf_eq]
    rfl

theorem switchTo_frames {m : Mem} {q st : Nat} (h : switchTo K m q = .ok (st, K')) :
    st = procState m q ∧ K'.mem = m ∧ K'.currentProcess = q ∧
      (procPid m q ≠ 2 ^ 32 - 1 → K'.currentContext = procContext m q) := by
  unfold switchTo at h
  split at h
  · cases h
  · obtain ⟨rfl, rfl⟩ := Prod.mk.inj (Except.ok.inj h)
    exact ⟨rfl, rfl, rfl, fun hpid => if_pos hpid⟩

/-- The processes `procs` have the contexts they had. -/
def SameContexts (procs : List Nat) (K K' : Kernel σ) : Prop :=
  ∀ p ∈ procs, procContext K'.mem p = procContext K.mem p

theorem SameContexts.trans {K₁ : Kernel σ} {procs procs' : List Nat} (h : SameContexts procs K K₁)
    (h' : SameContexts procs' K₁ K') (hsub : ∀ p ∈ procs', p ∈ procs) :
    SameContexts procs' K K' := fun p hp =>
  (h' p hp).trans (h p (hsub p hp))

theorem Quiet.sameContexts (h : Quiet X c frame regs K K') : SameContexts c.alive K K' :=
  fun p hp => load32_congr ((h.record p hp).mono (by omega) (by omega))

/-- What `Schedule` does to the state pointers, and where it goes on. -/
theorem schedule_frames {area : Nat → Prop} {procs : List Nat} {ticks cpuOld st : Nat}
    (h : ProcRecords area K.mem K.firstProcess procs)
    (hcur : K.currentProcess = NULL ∨ K.currentProcess ∈ procs) (hidle : K.idleProcess ∈ procs)
    (hs : schedule K ticks cpuOld = .ok (st, K')) :
    st = procState K'.mem K'.currentProcess ∧
    (∀ p ∈ procs, p ≠ K.currentProcess → procState K'.mem p = procState K.mem p) ∧
    (K.currentProcess ∈ procs → procState K'.mem K.currentProcess = cpuOld % 2 ^ 32) ∧
    (procPid K'.mem K'.currentProcess ≠ 2 ^ 32 - 1 →
      K'.currentContext = procContext K'.mem K'.currentProcess) := by
  rcases hcur with hcur | hcur
  · have hout : K.currentProcess ∉ procs := by
      rw [hcur]
      exact fun hmem => h.chain.ne_zero_of_mem hmem rfl
    rw [schedule, if_pos hcur] at hs
    obtain ⟨hst, hmem, hcur', hctx⟩ := switchTo_frames hs
    rw [hcur', hmem]
    exact ⟨hst, fun _ _ _ => rfl, fun hin => absurd hin hout, hctx⟩
  · -- the state pointer of the current process is stored, and at most one process is woken
    have hstates : ∀ m, (∀ p ∈ procs, AgreeOn (store32 K.mem K.currentProcess cpuOld) m p 4) →
        (∀ p ∈ procs, p ≠ K.currentProcess → procState m p = procState K.mem p) ∧
        (K.currentProcess ∈ procs → procState m K.currentProcess = cpuOld % 2 ^ 32) := by
      intro m hm
      refine ⟨fun p hp hne => ?_, fun hin => ?_⟩
      · have hap := h.record_apart hp hcur hne
        rw [procState, load32_congr (hm p hp), load32_store32_of_ne (by omega)]
        rfl
      · rw [procState, load32_congr (hm _ hin), load32_store32]
    have hwake : ∀ q ∈ procs, ∀ p ∈ procs, AgreeOn (store32 K.mem K.currentProcess cpuOld)
        (wake (store32 K.mem K.currentProcess cpuOld) q) p 4 := by
      intro q hq p hp x hx hx'
      refine wake_of_outside ?_
      by_cases hpq : p = q
      · omega
      · have hap := h.record_apart hp hq hpq
        omega
    obtain ⟨pre, post, rfl⟩ := List.append_of_mem hcur
    rw [schedule_eq h] at hs
    cases hf : (scanned pre K.currentProcess post).find? (eligible K.mem ticks) with
    | none =>
        rw [hf] at hs
        obtain ⟨hst, hmem, hcur', hctx⟩ := switchTo_frames hs
        obtain ⟨hothers, hself⟩ := hstates _ (fun p _ => AgreeOn.refl _ _ _)
        rw [hcur', hmem]
        exact ⟨hst, hothers, hself, hctx⟩
    | some q =>
        rw [hf] at hs
        obtain ⟨hst, hmem, hcur', hctx⟩ := switchTo_frames hs
        obtain ⟨hothers, hself⟩ := hstates _ (hwake q (mem_scanned (List.mem_of_find?_eq_some hf)))
        rw [hcur', hmem]
        exact ⟨hst, hothers, hself, hctx⟩

/-- A frame is no larger than its stack, which ends in memory. -/
theorem Frozen.frame_lt (h : Frozen X K c frame regs) (hp : p ∈ c.alive) : frame p < 2 ^ 32 := by
  obtain ⟨nodes, queue, live, hl⟩ := h.sound
  have hfin := X.alloc.fin_le hl.boxes.holds (hl.stack_live hp)
  have hhigh := (h.saved p hp).high
  have hlen := sixteen_le_frameLength (regs p).cpl
  simp only at hfin
  omega

/-- **The turn passes on.** -/
theorem Frozen.schedule (h : Frozen X K c frame regs) (hX : X.Separate) {ticks cpuOld st : Nat}
    (hcur : K.currentProcess = NULL ∨ K.currentProcess ∈ c.alive)
    (hold : K.currentProcess ∈ c.alive → cpuOld = frame K.currentProcess)
    (hidle : K.idleProcess ∈ c.alive)
    (hs : schedule K ticks cpuOld = .ok (st, K')) :
    Ready X K' c frame regs st ∧ K'.firstProcess = K.firstProcess ∧
      SameContexts c.alive K K' ∧ AreaKept X.contexts K K' := by
  obtain ⟨nodes, queue, live, hl⟩ := h.sound
  have hrecs := hl.list.records
  have hsw := schedule_switched hrecs hcur hidle hs
  obtain ⟨hst, hothers, hself, hctx⟩ := schedule_frames hrecs hcur hidle hs
  have hword : ∀ p ∈ c.alive, ∀ n k, 4 ≤ n ∧ n + k ≤ 36 → AgreeOn K.mem K'.mem (p + n) k := by
    intro p hp n k hnk x hx hx'
    refine hsw.mem x (fun q hq => ?_)
    by_cases hqp : q = p
    · omega
    · have hap := hrecs.record_apart hq hp hqp
      omega
  have hoff : ∀ x, (∀ q ∈ c.alive, ¬ (q ≤ x ∧ x < q + 52)) → K'.mem x = K.mem x := by
    intro x hx
    refine hsw.mem x (fun q hq => ?_)
    have hq' := hx q hq
    omega
  have htable : ∀ x, X.Table x → K'.mem x = K.mem x := fun x hx => hoff x (fun q hq hqx =>
    (hX.table x hx).2.1 (h.sound.record_off hq hq hqx.1 hqx.2).1)
  have hpid : ∀ p ∈ c.alive, procPid K'.mem p = procPid K.mem p := fun p hp =>
    load32_congr (hword p hp 8 4 (by omega))
  have hstack : ∀ p ∈ c.alive, procStack K'.mem p = procStack K.mem p := fun p hp =>
    load32_congr (hword p hp 28 4 (by omega))
  have hstate : ∀ p ∈ c.alive, procState K'.mem p = frame p := by
    intro p hp
    by_cases hpc : p = K.currentProcess
    · subst hpc
      rw [hself hp, hold hp, Nat.mod_eq_of_lt (h.frame_lt hp)]
    · rw [hothers p hp hpc]
      exact h.state p hp hpc
  refine ⟨⟨⟨⟨nodes, queue, live, hl.fields (fun x _ hf _ => ?_) hsw.first hsw.num⟩,
    fun p hp => hpid p hp ▸ h.pids p hp, h.gates.congr (Host.gates_agree htable), h.ring, h.ss,
    fun p hp => ?_, fun p hp _ => hstate p hp⟩, hsw.current, hsw.idle ▸ hidle, ?_, hctx ?_⟩, hsw.first,
    fun p hp => load32_congr (hword p hp 4 4 (by omega)), hsw.frames, fun x hx => hoff x
      (fun q hq hqx => hX.area x (h.sound.record_off hq hq hqx.1 hqx.2).1 hx)⟩
  · refine hsw.mem x (fun q hq => ?_)
    have hq' := hf q hq
    unfold OwnField at hq'
    omega
  · rw [hstack p hp]
    have hsaved := h.saved p hp
    refine hsaved.congr (fun x hx hx' => hoff x (fun q hq hqx => ?_))
    exact (h.sound.record_off hp hq hqx.1 hqx.2).2 _ (stack_mem_stacksOf _ _ _)
      ⟨hsaved.low.trans hx, hx'.trans_le hsaved.high⟩
  · rw [hst, hstate _ hsw.current]
  · rw [hpid _ hsw.current]
    exact h.pids _ hsw.current

end

end DayOS
