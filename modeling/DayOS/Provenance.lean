import DayOS.Interrupts

set_option autoImplicit false

/-! # Who sent a message

Each queued message is paired with its origin: the process whose `send_message` put it there, or
`none` for a hardware interrupt. `ksend_message` stamps the pid of the process it is given as the
sender, and the IRQ branch of `int_handler` gives it whichever process happens to run. A pid on a
message is its origin's as long as a process with pid `0` runs at every interrupt that some
process handles (`sender_authenticity`).
-/

namespace DayOS

open ByteMemory Linked

/-! ## Runs -/

/-- The mailboxes, each message with its origin. -/
abbrev Origins := Nat → List (Option Nat × Message)

/-- The messages alone. -/
def Origins.queue (o : Origins) (p : Nat) : List Message := (o p).map Prod.snd

/-- The record the IRQ branch sends to, `NULL` if there is none. -/
def irqReceiver {σ : Type} (irqHandlers : Nat) (K : Kernel σ) (intr : Nat) : Nat :=
  if irqHandler irqHandlers K.mem intr > 0 then
    (getProcessByPid K (irqHandler irqHandlers K.mem intr)).getD NULL
  else NULL

inductive MailEvent where
  | send (msg : Option Message)
  | receive (buf : Message) (who : UInt32)
  | switch (ticks cpuOld : Nat)
  | interrupt (ticks cpuOld intr : Nat) (stale : Message)
  | other

/-- One step among the processes `procs`. In between, anything may be written that is neither
heap memory in use, but for the blocks `rest`, nor one of the pids, mailboxes and links. -/
inductive MailStep {σ : Type} (A : Allocator) (irqHandlers : Nat) (procs : List Nat)
    (rest : List Block) : Kernel σ → Origins → MailEvent → Kernel σ → Origins → Prop
  | send {K K' : Kernel σ} {o : Origins} {msg msg' : Message} {r : Nat} :
      K.currentProcess ≠ NULL → getProcessByPid K msg.receiver.toNat = some r →
      sendMessageCall A.toHeap K (some msg) = some (MESSAGE_SENT, some msg', K') →
      MailStep A irqHandlers procs rest K o (.send (some msg)) K'
        (Function.update o r (o r ++ [(some K.currentProcess, msg')]))
  | sendError {K K' : Kernel σ} {o : Origins} {msg out : Option Message} :
      sendMessageCall A.toHeap K msg = some (MESSAGE_ERR_SEND, out, K') →
      MailStep A irqHandlers procs rest K o (.send msg) K' o
  | receive {K K' : Kernel σ} {o : Origins} {buf msg : Message} {who : UInt32} :
      K.currentProcess ≠ NULL →
      receiveMessageCall A.toHeap K (some buf) who = some (MESSAGE_RECEIVED, some msg, K') →
      MailStep A irqHandlers procs rest K o (.receive buf who) K'
        (Function.update o K.currentProcess
          ((o K.currentProcess).eraseP (fun e => accepts who e.2)))
  | receiveError {K K' : Kernel σ} {o : Origins} {buf : Message} {out : Option Message}
      {who : UInt32} : K.currentProcess ≠ NULL →
      receiveMessageCall A.toHeap K (some buf) who = some (MESSAGE_ERR_RECEIVE, out, K') →
      MailStep A irqHandlers procs rest K o (.receive buf who) K' o
  | switch {K K' : Kernel σ} {o : Origins} {ticks cpuOld st : Nat} :
      schedule K ticks cpuOld = .ok (st, K') →
      MailStep A irqHandlers procs rest K o (.switch ticks cpuOld) K' o
  | interrupt {K K₁ K' : Kernel σ} {o : Origins} {ticks cpuOld intr st : Nat} {stale : Message} :
      irqSwitch K ticks cpuOld intr = .ok (st, K₁) → K₁.currentProcess ≠ NULL →
      irqReceiver irqHandlers K₁ intr ≠ NULL →
      irqBranch irqHandlers A.toHeap K ticks cpuOld intr stale = .ok (st, K') →
      MailStep A irqHandlers procs rest K o (.interrupt ticks cpuOld intr stale) K'
        (Function.update o (irqReceiver irqHandlers K₁ intr)
          (o (irqReceiver irqHandlers K₁ intr) ++ [(none, stamp K₁.mem K₁.currentProcess
            (irqReceiver irqHandlers K₁ intr) { stale with signal := UInt32.ofNat intr })]))
  | interruptQuiet {K K₁ K' : Kernel σ} {o : Origins} {ticks cpuOld intr st : Nat}
      {stale : Message} : irqSwitch K ticks cpuOld intr = .ok (st, K₁) →
      K₁.currentProcess = NULL ∨ irqReceiver irqHandlers K₁ intr = NULL →
      irqBranch irqHandlers A.toHeap K ticks cpuOld intr stale = .ok (st, K') →
      MailStep A irqHandlers procs rest K o (.interrupt ticks cpuOld intr stale) K' o
  | other {K : Kernel σ} {o : Origins} {m' : Mem} :
      (∀ a, A.arena a → (∀ b ∈ rest, ¬ b.Has a) → (∀ p ∈ procs, ¬ (p ≤ a ∧ a < p + 8) ∧
        ¬ (p + 24 ≤ a ∧ a < p + 48)) → m' a = K.mem a) →
      MailStep A irqHandlers procs rest K o .other { K with mem := m' } o

/-- The states reached from empty mailboxes on, by steps that all meet the condition `P`. -/
inductive MailRun {σ : Type} (A : Allocator) (irqHandlers : Nat) (procs : List Nat)
    (rest : List Block) (P : Kernel σ → MailEvent → Prop) : Kernel σ → Origins → Prop
  | boot {K : Kernel σ} : ProcList (fun _ => False) K.mem K.firstProcess procs →
      K.idleProcess ∈ procs → (K.currentProcess = NULL ∨ K.currentProcess ∈ procs) →
      A.Holds K.mem (procs.map procBlock ++ rest) →
      (∀ p ∈ procs, msgFirst K.mem p = NULL ∧ numMessages K.mem p = 0) →
      MailRun A irqHandlers procs rest P K (fun _ => [])
  | step {K K' : Kernel σ} {o o' : Origins} {e : MailEvent} :
      MailRun A irqHandlers procs rest P K o → MailStep A irqHandlers procs rest K o e K' o' →
      P K e → MailRun A irqHandlers procs rest P K' o'

/-- The condition on one step: if an interrupt has a receiver, the process that runs once the
timer has switched has pid `0`. -/
def Anonymous {σ : Type} (irqHandlers : Nat) (K : Kernel σ) : MailEvent → Prop
  | .interrupt ticks cpuOld intr _ => ∀ st K₁, irqSwitch K ticks cpuOld intr = .ok (st, K₁) →
      irqReceiver irqHandlers K₁ intr ≠ NULL → procPid K₁.mem K₁.currentProcess = 0
  | _ => True

/-- Every message that carries the pid of a process, other than `0`, was sent by it. -/
def Honest (m : Mem) (procs : List Nat) (o : Origins) : Prop :=
  ∀ r ∈ procs, ∀ e ∈ o r, ∀ p ∈ procs, procPid m p ≠ 0 → e.2.sender = pidOf m p → e.1 = some p

/-! ## The mailboxes of a run -/

/-- The invariant of all runs: the mailboxes hold the messages of `o`. -/
structure Traced {σ : Type} (A : Allocator) (procs : List Nat) (rest : List Block) (K : Kernel σ)
    (o : Origins) (nodes : Nat → List Nat) (live : List Block) : Prop where
  list : ProcList (fun _ => False) K.mem K.firstProcess procs
  idle : K.idleProcess ∈ procs
  current : K.currentProcess = NULL ∨ K.currentProcess ∈ procs
  boxes : Mailboxes A K.mem procs nodes o.queue live
  restLive : ∀ b ∈ rest, b ∈ live
  restRecord : ∀ b ∈ rest, ∀ p ∈ procs, b ≠ procBlock p
  restNode : ∀ b ∈ rest, ∀ p ∈ procs, ∀ n ∈ nodes p, b ≠ nodeBlock n

section
variable {σ : Type} {A : Allocator} {irqHandlers : Nat} {procs : List Nat} {rest : List Block}
  {K K' : Kernel σ} {o o' : Origins} {nodes : Nat → List Nat} {live : List Block} {e : MailEvent}
  {m' : Mem}

theorem Origins.queue_update (o : Origins) (r : Nat) (l : List (Option Nat × Message)) :
    Origins.queue (Function.update o r l) = Function.update o.queue r (l.map Prod.snd) := by
  funext p
  by_cases hp : p = r
  · subst hp
    simp [Origins.queue]
  · simp [Origins.queue, Function.update_of_ne hp]

/-- The mailboxes, pids and links stay what they are, and so does the invariant. -/
theorem Traced.keep (h : Traced A procs rest K o nodes live)
    (hfirst : K'.firstProcess = K.firstProcess) (hidle : K'.idleProcess = K.idleProcess)
    (hcur : K'.currentProcess = NULL ∨ K'.currentProcess ∈ procs) (hholds : A.Holds K'.mem live)
    (hrec : ∀ p ∈ procs, AgreeOn K.mem K'.mem (p + 8) 16 ∧ AgreeOn K.mem K'.mem (p + 48) 4)
    (hnode : ∀ p ∈ procs, ∀ n ∈ nodes p, AgreeOn K.mem K'.mem n sizeofMessageNode) :
    Traced A procs rest K' o nodes live := by
  refine ⟨?_, hidle ▸ h.idle, hcur, ?_, h.restLive, h.restRecord, h.restNode⟩
  · rw [hfirst]
    exact h.list.congr (fun p hp => ⟨(hrec p hp).1.mono (by omega) (by omega), (hrec p hp).2⟩)
  · exact h.boxes.keep (fun _ => id) hholds
      (fun p hp => ⟨h.boxes.procLive p hp, (hrec p hp).1.mono (by omega) (by omega)⟩)
      (fun p hp n hn => ⟨h.boxes.nodeLive p hp n hn, hnode p hp n hn⟩)

/-- A node lies outside the records. -/
theorem Traced.node_apart (h : Traced A procs rest K o nodes live) {p r n : Nat} (hp : p ∈ procs)
    (hn : n ∈ nodes p) (hr : r ∈ procs) : n + 540 ≤ r ∨ r + 52 ≤ n := by
  have := A.apart_of_ne h.boxes.holds (h.boxes.nodeLive p hp n hn) (h.boxes.procLive r hr)
    (nodeBlock_ne_procBlock n r)
  simpa [Block.Apart, nodeBlock, procBlock, sizeofMessageNode, sizeofProcess] using this

/-- **A process switch** disturbs no mailbox. -/
theorem Traced.switched (h : Traced A procs rest K o nodes live) (hs : Switched procs K K') :
    Traced A procs rest K' o nodes live := by
  refine h.keep hs.first hs.idle (Or.inr hs.current) ?_ (fun p hp => ⟨?_, ?_⟩) (fun p hp n hn => ?_)
  · refine A.write h.boxes.holds (fun a _ hb => hs.mem a (fun p hp => ?_))
    have := hb _ (h.boxes.procLive p hp)
    simp only [Block.Has, procBlock, sizeofProcess] at this
    omega
  · intro a ha ha'
    refine hs.mem a (fun r hr => ?_)
    by_cases hpr : p = r
    · omega
    · have := h.list.records.record_apart hp hr hpr
      omega
  · intro a ha ha'
    refine hs.mem a (fun r hr => ?_)
    by_cases hpr : p = r
    · omega
    · have := h.list.records.record_apart hp hr hpr
      omega
  · intro a ha ha'
    refine hs.mem a (fun r hr => ?_)
    have := h.node_apart hp hn hr
    simp only [sizeofMessageNode] at ha'
    omega

theorem Traced.switched_pid (h : Traced A procs rest K o nodes live) (hs : Switched procs K K')
    {p : Nat} (hp : p ∈ procs) : procPid K'.mem p = procPid K.mem p := by
  refine load32_congr (fun a ha ha' => hs.mem a (fun r hr => ?_))
  by_cases hpr : p = r
  · omega
  · have := h.list.records.record_apart hp hr hpr
    omega

/-- The first half of the IRQ branch keeps the mailboxes and pids. -/
theorem Traced.irqSwitch (h : Traced A procs rest K o nodes live) {ticks cpuOld intr st : Nat}
    (hs : irqSwitch K ticks cpuOld intr = .ok (st, K')) :
    Traced A procs rest K' o nodes live ∧ ∀ p ∈ procs, procPid K'.mem p = procPid K.mem p := by
  rcases irqSwitch_switched h.list.records h.current h.idle hs with rfl | hsw
  · exact ⟨h, fun _ _ => rfl⟩
  · exact ⟨h.switched hsw, fun p hp => h.switched_pid hsw hp⟩

/-- A byte of a block in use, other than those of `rest` and the free fields of the records. -/
theorem Traced.other_keep (h : Traced A procs rest K o nodes live)
    (hm : ∀ a, A.arena a → (∀ b ∈ rest, ¬ b.Has a) → (∀ p ∈ procs, ¬ (p ≤ a ∧ a < p + 8) ∧
      ¬ (p + 24 ≤ a ∧ a < p + 48)) → m' a = K.mem a)
    {b : Block} (hb : b ∈ live) (hbr : b ∉ rest) {a : Nat} (ha : b.Has a)
    (hfree : ∀ p ∈ procs, ¬ (p ≤ a ∧ a < p + 8) ∧ ¬ (p + 24 ≤ a ∧ a < p + 48)) :
    m' a = K.mem a := by
  refine hm a ((A.inArena h.boxes.holds b hb).2 a ha) (fun c hc hca => ?_) hfree
  have hne : b ≠ c := fun he => hbr (he ▸ hc)
  exact (A.apart_of_ne h.boxes.holds hb (h.restLive c hc) hne).not_has ha hca

theorem Traced.other_record (h : Traced A procs rest K o nodes live)
    (hm : ∀ a, A.arena a → (∀ b ∈ rest, ¬ b.Has a) → (∀ p ∈ procs, ¬ (p ≤ a ∧ a < p + 8) ∧
      ¬ (p + 24 ≤ a ∧ a < p + 48)) → m' a = K.mem a)
    {p a : Nat} (hp : p ∈ procs) (ha : p ≤ a) (ha' : a < p + 52)
    (hfield : p + 8 ≤ a ∧ a < p + 24 ∨ p + 48 ≤ a) : m' a = K.mem a := by
  refine h.other_keep hm (h.boxes.procLive p hp) (fun hmem => h.restRecord _ hmem p hp rfl)
    ⟨ha, ha'⟩ (fun r hr => ?_)
  by_cases hpr : p = r
  · omega
  · have := h.list.records.record_apart hp hr hpr
    omega

/-- Memory outside the heap, the blocks `rest` and the other fields of the records do not
matter. -/
theorem Traced.other (h : Traced A procs rest K o nodes live)
    (hm : ∀ a, A.arena a → (∀ b ∈ rest, ¬ b.Has a) → (∀ p ∈ procs, ¬ (p ≤ a ∧ a < p + 8) ∧
      ¬ (p + 24 ≤ a ∧ a < p + 48)) → m' a = K.mem a) :
    Traced A procs rest { K with mem := m' } o nodes live := by
  refine h.keep rfl rfl h.current ?_ (fun p hp => ⟨fun a _ _ => ?_, fun a _ _ => ?_⟩)
    (fun p hp n hn a ha ha' => ?_)
  · refine A.write h.boxes.holds (fun a ha hb => hm a ha (fun b hb' => hb b (h.restLive b hb'))
      (fun p hp => ?_))
    have := hb _ (h.boxes.procLive p hp)
    simp only [Block.Has, procBlock, sizeofProcess] at this
    omega
  · exact h.other_record hm hp (by omega) (by omega) (by omega)
  · exact h.other_record hm hp (by omega) (by omega) (by omega)
  · refine h.other_keep hm (h.boxes.nodeLive p hp n hn) (fun hmem => h.restNode _ hmem p hp n hn rfl)
      ⟨ha, ha'⟩ (fun r hr => ?_)
    have := h.node_apart hp hn hr
    simp only [sizeofMessageNode] at ha'
    omega

/-- **A delivery**, by a system call or an interrupt: the receiver's queue grows by the stamped
message. -/
theorem Traced.deliver (h : Traced A procs rest K o nodes live) {r ret : Nat} {msg : Message}
    {out : Option Message} (hcur : K.currentProcess ∈ procs) (hr : r ∈ procs)
    (hk : ksendMessage A.toHeap K.mem K.currentProcess r (some msg) = some (ret, out, m'))
    (origin : Option Nat) :
    out = some (stamp K.mem K.currentProcess r msg) ∧ (∃ nodes' live',
      Traced A procs rest { K with mem := m' }
        (Function.update o r (o r ++ [(origin, stamp K.mem K.currentProcess r msg)])) nodes' live') ∧
      ∀ p ∈ procs, procPid m' p = procPid K.mem p := by
  have hcur0 : K.currentProcess ≠ 0 := h.list.chain.ne_zero_of_mem hcur
  obtain ⟨-, hout, new, hm, ht⟩ := h.boxes.send hcur0 hr hk
  have hkeep : ∀ p ∈ procs, ∀ a, p ≤ a → a < p + 52 → ¬ (p + 12 ≤ a ∧ a < p + 24) →
      m' a = K.mem a := fun p hp a ha ha' hbox =>
    h.boxes.record_eq hr h.boxes.procLive ht hp ⟨ha, ha'⟩ (fun _ => hbox)
  have hnewFresh : nodeBlock new ∉ live := (List.nodup_cons.mp (Allocator.nodup hm.holds)).1
  refine ⟨hout, ⟨Function.update nodes r (nodes r ++ [new]), nodeBlock new :: live, ?_⟩,
    fun p hp => load32_congr (fun a _ _ => hkeep p hp a (by omega) (by omega) (by omega))⟩
  refine ⟨?_, h.idle, h.current, ?_, fun b hb => List.mem_cons_of_mem _ (h.restLive b hb),
    h.restRecord, fun b hb p hp n hn => ?_⟩
  · exact h.list.congr (fun p hp => ⟨fun a _ _ => hkeep p hp a (by omega) (by omega) (by omega),
      fun a _ _ => hkeep p hp a (by omega) (by omega) (by omega)⟩)
  · rw [Origins.queue_update, List.map_append]
    exact hm
  · by_cases hpr : p = r
    · subst hpr
      rw [Function.update_self] at hn
      rcases List.mem_append.mp hn with hn | hn
      · exact h.restNode b hb p hp n hn
      · rw [List.mem_singleton.mp hn]
        rintro rfl
        exact hnewFresh (h.restLive _ hb)
    · rw [Function.update_of_ne hpr] at hn
      exact h.restNode b hb p hp n hn

/-- What a call of `kreceive_message` hands out comes from the queue, with its origin. -/
theorem Traced.received (h : Traced A procs rest K o nodes live) {p : Nat} {buf msg : Message}
    {who : UInt32} (hp : p ∈ procs) (hk : kreceiveMessage A.toHeap K.mem p (some buf) who
      = some (MESSAGE_RECEIVED, some msg, m')) :
    ∃ origin, (origin, msg) ∈ o p ∧ accepts who msg = true := by
  rcases h.boxes.receive hp hk with ⟨-, hret, -⟩ | ⟨msg', q', a, ns', hsome, -, hout, -⟩
  · cases hret
  · obtain rfl : msg = msg' := by simpa using hout
    obtain ⟨pre, post, hq, -, hacc, -⟩ := takeOldest_eq_some hsome
    have hmem : msg ∈ o.queue p := by simp [hq]
    obtain ⟨e, he, rfl⟩ := List.mem_map.mp hmem
    exact ⟨e.1, he, hacc⟩

/-- **A receive** shortens the queue of the process that runs. -/
theorem Traced.receive (h : Traced A procs rest K o nodes live) {buf msg : Message} {who : UInt32}
    (hcur : K.currentProcess ∈ procs)
    (hk : kreceiveMessage A.toHeap K.mem K.currentProcess (some buf) who
      = some (MESSAGE_RECEIVED, some msg, m')) :
    (∃ nodes' live', Traced A procs rest { K with mem := m' }
      (Function.update o K.currentProcess
        ((o K.currentProcess).eraseP (fun e => accepts who e.2))) nodes' live') ∧
      ∀ p ∈ procs, procPid m' p = procPid K.mem p := by
  rcases h.boxes.receive hcur hk with ⟨-, hret, -⟩ | ⟨msg', q', a, ns', hsome, -, -, ⟨ha, hsub⟩, hm, ht⟩
  · cases hret
  · have hkeep : ∀ p ∈ procs, ∀ a, p ≤ a → a < p + 52 → ¬ (p + 12 ≤ a ∧ a < p + 24) →
        m' a = K.mem a := fun p hp a ha ha' hbox =>
      h.boxes.record_eq hcur hm.procLive ht hp ⟨ha, ha'⟩ (fun _ => hbox)
    have hq : q' = ((o K.currentProcess).eraseP (fun e => accepts who e.2)).map Prod.snd := by
      obtain ⟨x, -, hx⟩ := Option.map_eq_some_iff.mp hsome
      rw [← (Prod.mk.inj hx).2, Origins.queue, List.eraseP_map]
      rfl
    have hnode : ∀ p ∈ procs, ∀ n ∈ Function.update nodes K.currentProcess ns' p, n ∈ nodes p := by
      intro p _ n hn
      by_cases hpc : p = K.currentProcess
      · subst hpc
        rw [Function.update_self] at hn
        exact hsub n hn
      · rwa [Function.update_of_ne hpc] at hn
    refine ⟨⟨Function.update nodes K.currentProcess ns', live.erase (nodeBlock a), ?_⟩,
      fun p hp => load32_congr (fun a _ _ => hkeep p hp a (by omega) (by omega) (by omega))⟩
    refine ⟨?_, h.idle, h.current, ?_, fun b hb => ?_, h.restRecord,
      fun b hb p hp n hn => h.restNode b hb p hp n (hnode p hp n hn)⟩
    · exact h.list.congr (fun p hp => ⟨fun a _ _ => hkeep p hp a (by omega) (by omega) (by omega),
        fun a _ _ => hkeep p hp a (by omega) (by omega) (by omega)⟩)
    · rw [Origins.queue_update, ← hq]
      exact hm
    · exact (List.mem_erase_of_ne (h.restNode b hb _ hcur a ha)).mpr (h.restLive b hb)

/-- What the second half of the IRQ branch does: nothing, or one call of `ksend_message`. -/
theorem irqMessage_ok {intr : Nat} {H : Heap} {stale : Message}
    (h : irqMessage irqHandlers H K intr stale = .ok K') :
    (irqReceiver irqHandlers K intr = NULL ∧ K' = K) ∨
    ∃ ret out m', ksendMessage H K.mem K.currentProcess (irqReceiver irqHandlers K intr)
      (some { stale with signal := UInt32.ofNat intr }) = some (ret, out, m') ∧
      K' = { K with mem := m' } := by
  simp only [irqMessage] at h
  split at h
  case isFalse hhandler =>
      refine Or.inl ⟨if_neg hhandler, ?_⟩
      cases h
      rfl
  case isTrue hhandler =>
      refine Or.inr ?_
      rw [irqReceiver, if_pos hhandler]
      cases hp : getProcessByPid K (irqHandler irqHandlers K.mem intr) with
      | none =>
          rw [hp] at h
          cases h
      | some proc =>
          simp only [hp] at h
          cases hk : ksendMessage H K.mem K.currentProcess proc
              (some { stale with signal := UInt32.ofNat intr }) with
          | none =>
              rw [hk] at h
              cases h
          | some x =>
              obtain ⟨ret, out, m'⟩ := x
              simp only [hk, Except.ok.injEq] at h
              exact ⟨ret, out, m', hk, h.symm⟩

theorem irqBranch_message {K₁ : Kernel σ} {H : Heap} {ticks cpuOld intr st st' : Nat}
    {stale : Message} (hs : irqSwitch K ticks cpuOld intr = .ok (st, K₁))
    (h : irqBranch irqHandlers H K ticks cpuOld intr stale = .ok (st', K')) :
    irqMessage irqHandlers H K₁ intr stale = .ok K' := by
  simp only [irqBranch, hs, bind, Except.bind] at h
  cases hm : irqMessage irqHandlers H K₁ intr stale with
  | error f =>
      rw [hm] at h
      cases h
  | ok K₂ =>
      rw [hm] at h
      exact congrArg Except.ok (Prod.mk.inj (Except.ok.inj h)).2

/-- A receiver is a process of the list. -/
theorem Traced.irqReceiver_mem (h : Traced A procs rest K o nodes live) {intr : Nat}
    (hne : irqReceiver irqHandlers K intr ≠ NULL) : irqReceiver irqHandlers K intr ∈ procs := by
  unfold irqReceiver at hne ⊢
  split
  case isTrue hhandler =>
      obtain ⟨q, hq, hcase⟩ := h.list.getProcessByPid (irqHandler irqHandlers K.mem intr)
      rw [if_pos hhandler, hq, Option.getD_some] at hne
      rw [hq, Option.getD_some]
      exact hcase.elim (fun hmem => hmem.1) (fun hnull => absurd hnull.1 hne)
  case isFalse hhandler =>
      rw [if_neg hhandler] at hne
      exact absurd rfl hne

/-- **One step keeps the mailboxes**, and no pid changes. -/
theorem Traced.step (h : Traced A procs rest K o nodes live)
    (hs : MailStep A irqHandlers procs rest K o e K' o') :
    (∃ nodes' live', Traced A procs rest K' o' nodes' live') ∧
      ∀ p ∈ procs, procPid K'.mem p = procPid K.mem p := by
  cases hs with
  | @send _ _ msg msg' r hcur hr hk =>
      have hcur := h.current.resolve_left hcur
      simp only [sendMessageCall, hr, Option.bind_eq_bind, Option.bind_some, Option.bind_eq_some_iff,
        Option.pure_def, Option.some.injEq, Prod.mk.injEq, Prod.exists] at hk
      obtain ⟨ret, out, m', hk, rfl, rfl, rfl⟩ := hk
      have hrmem : r ∈ procs := by
        obtain ⟨q, hq, hcase⟩ := h.list.getProcessByPid msg.receiver.toNat
        obtain rfl : q = r := by simpa [hq] using hr
        refine hcase.elim (fun hmem => hmem.1) (fun hnull => ?_)
        -- without a receiver the call reports an error
        rw [ksendMessage, if_pos (Or.inr hnull.1)] at hk
        simp [MESSAGE_SENT, MESSAGE_ERR_SEND] at hk
      obtain ⟨hout, htraced, hpids⟩ := h.deliver hcur hrmem hk (some K.currentProcess)
      obtain rfl := Option.some.inj hout
      exact ⟨htraced, hpids⟩
  | @sendError _ _ msg out hk =>
      have hsame : K' = K := by
        cases msg with
        | none =>
            simp only [sendMessageCall, Option.pure_def, Option.some.injEq, Prod.mk.injEq] at hk
            exact hk.2.2.symm
        | some msg =>
            simp only [sendMessageCall, Option.bind_eq_bind, Option.bind_eq_some_iff,
              Option.pure_def, Option.some.injEq, Prod.mk.injEq, Prod.exists] at hk
            obtain ⟨r, -, ret, out', m', hk, rfl, rfl, rfl⟩ := hk
            rw [ksendMessage] at hk
            split at hk
            · simp only [Option.some.injEq, Prod.mk.injEq] at hk
              rw [← hk.2.2]
            · simp only [Option.bind_eq_bind, Option.bind_eq_some_iff, Option.pure_def,
                Option.some.injEq, Prod.mk.injEq, Prod.exists] at hk
              obtain ⟨-, -, -, -, -, -, hret, -⟩ := hk
              cases hret
      rw [hsame]
      exact ⟨⟨nodes, live, h⟩, fun _ _ => rfl⟩
  | receive hcur hk =>
      simp only [receiveMessageCall, Option.bind_eq_bind, Option.bind_eq_some_iff, Option.pure_def,
        Option.some.injEq, Prod.mk.injEq, Prod.exists] at hk
      obtain ⟨ret, out, m', hk, rfl, rfl, rfl⟩ := hk
      exact h.receive (h.current.resolve_left hcur) hk
  | receiveError hcur hk =>
      simp only [receiveMessageCall, Option.bind_eq_bind, Option.bind_eq_some_iff, Option.pure_def,
        Option.some.injEq, Prod.mk.injEq, Prod.exists] at hk
      obtain ⟨ret, out, m', hk, rfl, rfl, rfl⟩ := hk
      rcases h.boxes.receive (h.current.resolve_left hcur) hk with
        ⟨-, -, -, hm⟩ | ⟨-, -, -, -, -, hret, -⟩
      · rw [hm]
        exact ⟨⟨nodes, live, h⟩, fun _ _ => rfl⟩
      · cases hret
  | switch hs =>
      have hsw := schedule_switched h.list.records h.current h.idle hs
      exact ⟨⟨nodes, live, h.switched hsw⟩, fun p hp => h.switched_pid hsw hp⟩
  | @interrupt K₁ _ _ ticks cpuOld intr st stale hsw hcur hr hk =>
      obtain ⟨h₁, hpids₁⟩ := h.irqSwitch hsw
      rcases irqMessage_ok (irqBranch_message hsw hk) with ⟨hnull, -⟩ | ⟨ret, out, m', hsend, rfl⟩
      · exact absurd hnull hr
      · obtain ⟨-, htraced, hpids⟩ := h₁.deliver (h₁.current.resolve_left hcur)
          (h₁.irqReceiver_mem hr) hsend none
        exact ⟨htraced, fun p hp => (hpids p hp).trans (hpids₁ p hp)⟩
  | @interruptQuiet K₁ _ _ ticks cpuOld intr st stale hsw hquiet hk =>
      obtain ⟨h₁, hpids₁⟩ := h.irqSwitch hsw
      have hsame : K' = K₁ := by
        rcases irqMessage_ok (irqBranch_message hsw hk) with ⟨-, hsame⟩ | ⟨ret, out, m', hsend, rfl⟩
        · exact hsame
        · simp only [ksendMessage, if_pos hquiet, Option.some.injEq, Prod.mk.injEq] at hsend
          rw [← hsend.2.2]
      rw [hsame]
      exact ⟨⟨nodes, live, h₁⟩, hpids₁⟩
  | other hm =>
      refine ⟨⟨nodes, live, h.other hm⟩, fun p hp => load32_congr (fun a ha ha' => ?_)⟩
      exact h.other_record hm hp (by omega) (by omega) (by omega)

/-- The invariant holds along every run. -/
theorem MailRun.traced {P : Kernel σ → MailEvent → Prop}
    (h : MailRun A irqHandlers procs rest P K o) :
    ∃ nodes live, Traced A procs rest K o nodes live := by
  induction h with
  | boot hlist hidle hcur hholds hempty =>
      have hnodup := Allocator.nodup hholds
      refine ⟨fun _ => [], _, hlist, hidle, hcur, Mailboxes.empty hholds (fun p hp => ?_) hempty,
        fun b hb => List.mem_append_right _ hb, fun b hb p hp he => ?_, by simp⟩
      · exact List.mem_append_left _ (List.mem_map_of_mem hp)
      · exact (List.nodup_append.mp hnodup).2.2 _ (List.mem_map_of_mem hp) b hb he.symm
  | step _ hs _ ih =>
      obtain ⟨nodes, live, ht⟩ := ih
      exact (ht.step hs).1

/-! ## Who sent what -/

theorem pidOf_inj {m : Mem} {p r : Nat} (h : pidOf m p = pidOf m r) : procPid m p = procPid m r := by
  have := congrArg UInt32.toNat h
  simp only [pidOf, UInt32.toNat_ofNat'] at this
  have hlt : ∀ q, procPid m q < 2 ^ 32 := fun q => load32_lt m (q + 8)
  rwa [Nat.mod_eq_of_lt (hlt p), Nat.mod_eq_of_lt (hlt r)] at this

theorem Honest.congr {m : Mem} (h : Honest m procs o)
    (hpids : ∀ p ∈ procs, procPid m' p = procPid m p) : Honest m' procs o := by
  intro r hr e he p hp hne hsender
  rw [hpids p hp] at hne
  rw [pidOf, hpids p hp] at hsender
  exact h r hr e he p hp hne hsender

/-- A message with the right origin, or with one nobody's pid. -/
theorem Honest.push {m : Mem} (h : Honest m procs o) (r : Nat) {origin : Option Nat} {msg : Message}
    (hmsg : ∀ p ∈ procs, procPid m p ≠ 0 → msg.sender = pidOf m p → origin = some p) :
    Honest m procs (Function.update o r (o r ++ [(origin, msg)])) := by
  intro k hk e he p hp hne hsender
  by_cases hkr : k = r
  · subst hkr
    rw [Function.update_self] at he
    rcases List.mem_append.mp he with he | he
    · exact h k hk e he p hp hne hsender
    · obtain rfl := List.mem_singleton.mp he
      exact hmsg p hp hne hsender
  · rw [Function.update_of_ne hkr] at he
    exact h k hk e he p hp hne hsender

/-- **One step keeps messages honest**, if it meets the condition. -/
theorem Honest.step (h : Honest K.mem procs o) (ht : Traced A procs rest K o nodes live)
    (hs : MailStep A irqHandlers procs rest K o e K' o') (hanon : Anonymous irqHandlers K e) :
    Honest K'.mem procs o' := by
  have hpids := (ht.step hs).2
  cases hs with
  | @send _ _ msg msg' r hcur hr hk =>
      refine (h.push r (fun p hp _ hsender => ?_)).congr hpids
      have hcur := ht.current.resolve_left hcur
      have hmsg' : msg'.sender = pidOf K.mem K.currentProcess := by
        simp only [sendMessageCall, hr, Option.bind_eq_bind, Option.bind_some,
          Option.bind_eq_some_iff, Option.pure_def, Option.some.injEq, Prod.mk.injEq,
          Prod.exists] at hk
        obtain ⟨ret, out, m', hk, rfl, rfl, -⟩ := hk
        rw [ksendMessage] at hk
        split at hk
        · simp [MESSAGE_SENT, MESSAGE_ERR_SEND] at hk
        · simp only [Option.bind_eq_bind, Option.bind_eq_some_iff, Option.pure_def,
            Option.some.injEq, Prod.mk.injEq, Prod.exists] at hk
          obtain ⟨-, -, -, -, -, -, -, rfl, -⟩ := hk
          rfl
      -- pids are distinct, so the stamp names the sender
      have hpid := pidOf_inj (hmsg'.symm.trans hsender)
      exact congrArg some (List.inj_on_of_nodup_map ht.list.pids hcur hp hpid)
  | sendError hk => exact h.congr hpids
  | receive hcur hk =>
      refine Honest.congr (fun r hr e he p hp hne hsender => ?_) hpids
      by_cases hrc : r = K.currentProcess
      · subst hrc
        rw [Function.update_self] at he
        exact h _ hr e (List.mem_of_mem_eraseP he) p hp hne hsender
      · rw [Function.update_of_ne hrc] at he
        exact h r hr e he p hp hne hsender
  | receiveError hcur hk => exact h.congr hpids
  | switch hs => exact h.congr hpids
  | @interrupt K₁ _ _ ticks cpuOld intr st stale hsw hcur hr hk =>
      obtain ⟨ht₁, hpids₁⟩ := ht.irqSwitch hsw
      refine (h.push _ (fun p hp hne hsender => ?_)).congr hpids
      have h0 : procPid K₁.mem K₁.currentProcess = 0 := hanon st K₁ hsw hr
      have hstamp : pidOf K₁.mem K₁.currentProcess = pidOf K.mem p := hsender
      rw [pidOf, hpids₁ _ (ht₁.current.resolve_left hcur)] at hstamp
      rw [hpids₁ _ (ht₁.current.resolve_left hcur)] at h0
      exact absurd ((pidOf_inj hstamp).symm.trans h0) hne
  | interruptQuiet hsw hquiet hk => exact h.congr hpids
  | other hm => exact h.congr hpids

/-- **Sender authenticity.** In every state of a run whose handled interrupts all find a process
with pid `0` running, each queued message that carries the pid of another process was put there
by a `send_message` of that process, and so was whatever a receive from that pid hands out. -/
theorem sender_authenticity (h : MailRun A irqHandlers procs rest (Anonymous irqHandlers) K o) :
    (∃ nodes live, Mailboxes A K.mem procs nodes o.queue live) ∧
    (∀ r ∈ procs, ∀ e ∈ o r, ∀ p ∈ procs, procPid K.mem p ≠ 0 → e.2.sender = pidOf K.mem p →
      e.1 = some p) ∧
    ∀ r ∈ procs, ∀ p ∈ procs, procPid K.mem p ≠ 0 → pidOf K.mem p ≠ MESSAGE_ANY →
      ∀ buf msg m', kreceiveMessage A.toHeap K.mem r (some buf) (pidOf K.mem p)
        = some (MESSAGE_RECEIVED, some msg, m') → (some p, msg) ∈ o r := by
  have hhonest : Honest K.mem procs o := by
    induction h with
    | boot _ _ _ _ _ =>
        intro r _ e he
        simp at he
    | step hrun hs hanon ih =>
        obtain ⟨nodes, live, ht⟩ := hrun.traced
        exact ih.step ht hs hanon
  obtain ⟨nodes, live, ht⟩ := h.traced
  refine ⟨⟨nodes, live, ht.boxes⟩, hhonest, fun r hr p hp hne hany buf msg m' hk => ?_⟩
  obtain ⟨origin, hmem, hacc⟩ := ht.received hr hk
  have hsender : msg.sender = pidOf K.mem p := by
    simpa [accepts, hany] using hacc
  obtain rfl := hhonest r hr _ hmem p hp hne hsender
  exact hmem

end

/-! ## One process and its line -/

/-- Where the table of handlers lies in the examples. -/
def handlersAt : Nat := 0x5000

/-- The record of the only process, on a fresh heap. -/
def loneProcess : Nat := 0x301020

/-- A kernel with one process, of pid 1, which runs and handles the interrupt line 0x21. -/
structure LoneKernel (K : Kernel Unit) : Prop where
  first : K.firstProcess = loneProcess
  current : K.currentProcess = loneProcess
  idle : K.idleProcess = loneProcess
  pid : procPid K.mem loneProcess = 1
  next : procNext K.mem loneProcess = 0
  box : msgFirst K.mem loneProcess = NULL ∧ numMessages K.mem loneProcess = 0
  handler : irqHandler handlersAt K.mem 0x21 = 1
  heap : HeapState Layout.least (heapLimit Layout.least) K.mem
    [⟨0x301000, 0, true⟩, ⟨0x301010, 52, false⟩] [procBlock loneProcess]

theorem loneKernel : ∃ K, LoneKernel K := by
  obtain ⟨m, -, hs, -⟩ := firstFit_kmalloc bootKernel_heap (by decide) (by decide)
    (show FirstFit.malloc headerSize Layout.least.heapStart Layout.least.heapEnd 52 _
      = some (0x301010, [⟨0x301000, 0, true⟩, ⟨0x301010, 52, false⟩]) by decide)
  refine ⟨⟨store32 (store32 (store32 (store32 (store32 m (loneProcess + 8) 1) (loneProcess + 12) 0)
    (loneProcess + 20) 0) (loneProcess + 48) 0) (irqSlot handlersAt 0x21) 1, (), loneProcess,
    loneProcess, loneProcess, 2, NULL⟩, rfl, rfl, rfl, ?_, ?_, ⟨?_, ?_⟩, ?_,
    hs.write (fun a ha hb => ?_)⟩
  all_goals simp only [loneProcess, irqSlot, handlersAt] at *
  · rw [procPid, load32_store32_of_ne (by omega), load32_store32_of_ne (by omega),
      load32_store32_of_ne (by omega), load32_store32_of_ne (by omega), load32_store32]
    rfl
  · rw [procNext, load32_store32_of_ne (by omega), load32_store32]
    rfl
  · rw [msgFirst, load32_store32_of_ne (by omega), load32_store32_of_ne (by omega),
      load32_store32_of_ne (by omega), load32_store32]
    rfl
  · rw [numMessages, load32_store32_of_ne (by omega), load32_store32_of_ne (by omega),
      load32_store32]
    rfl
  · rw [irqHandler, irqSlot, load32_store32]
    rfl
  · have hblock := hb _ List.mem_cons_self
    have hstart := Layout.least.heapStart_ge
    have h16 : headerSize = 16 := rfl
    simp only [Block.Has] at hblock
    rw [store32_of_outside (by omega), store32_of_outside (by omega), store32_of_outside (by omega),
      store32_of_outside (by omega), store32_of_outside (by omega)]

section
variable {K : Kernel Unit}

theorem LoneKernel.list (h : LoneKernel K) :
    ProcList (fun _ => False) K.mem K.firstProcess [loneProcess] := by
  refine ⟨⟨h.first, by decide, h.next⟩, ?_, by simp, List.pairwise_singleton _ _, by simp⟩
  rw [List.forall_mem_singleton]
  decide

theorem LoneKernel.boot (h : LoneKernel K) (P : Kernel Unit → MailEvent → Prop) :
    MailRun (firstFit Layout.least) handlersAt [loneProcess] [] P K (fun _ => []) := by
  refine .boot h.list (by simp [h.idle]) (by simp [h.current]) ⟨_, h.heap⟩ ?_
  rw [List.forall_mem_singleton]
  exact h.box

theorem LoneKernel.lookup (h : LoneKernel K) : getProcessByPid K 1 = some loneProcess := by
  obtain ⟨q, hq, hcase⟩ := h.list.getProcessByPid 1
  rcases hcase with ⟨hmem, -⟩ | ⟨-, hne⟩
  · rw [hq, List.mem_singleton.mp hmem]
  · exact absurd h.pid (hne _ (by simp))

/-- Sending from the process to itself comes back. -/
theorem LoneKernel.send (h : LoneKernel K) (msg : Message) :
    ∃ m', ksendMessage (firstFit Layout.least).toHeap K.mem loneProcess loneProcess (some msg)
      = some (MESSAGE_SENT, some (stamp K.mem loneProcess loneProcess msg), m') := by
  obtain ⟨m₁, hk, -⟩ := firstFit_kmalloc h.heap (by decide) (by decide)
    (show FirstFit.malloc headerSize Layout.least.heapStart Layout.least.heapEnd sizeofMessageNode _
      = some (0x301054, [⟨0x301000, 0, true⟩, ⟨0x301010, 52, false⟩, ⟨0x301054, 540, false⟩])
      by decide)
  have hboxes : Mailboxes (firstFit Layout.least) K.mem [loneProcess] (fun _ => []) (fun _ => [])
      [procBlock loneProcess] :=
    Mailboxes.empty ⟨_, h.heap⟩ (by simp) (List.forall_mem_singleton.mpr h.box)
  exact hboxes.send_returns (by decide) (by simp) hk msg

end

/-- Two processes: the one with pid 1 runs and handles the line 0x21, the other one has pid 0. -/
structure PairKernel (K : Kernel Unit) : Prop where
  list : ProcList (fun _ => False) K.mem K.firstProcess [0x301064, 0x301020]
  current : K.currentProcess = 0x301064
  idle : K.idleProcess = 0x301020
  pids : procPid K.mem 0x301064 = 1 ∧ procPid K.mem 0x301020 = 0
  box : ∀ p ∈ [0x301064, 0x301020], msgFirst K.mem p = NULL ∧ numMessages K.mem p = 0
  handler : irqHandler handlersAt K.mem 0x21 = 1
  heap : HeapState Layout.least (heapLimit Layout.least) K.mem
    [⟨0x301000, 0, true⟩, ⟨0x301010, 52, false⟩, ⟨0x301054, 52, false⟩]
    [procBlock 0x301064, procBlock 0x301020]

theorem pairKernel : ∃ K, PairKernel K := by
  obtain ⟨m, hheap, hzero⟩ := two_records
  have hslot : irqSlot handlersAt 0x21 = 0x5084 := by decide
  have hstart : Layout.least.heapStart = 0x301000 := by decide
  have hword : ∀ p ∈ [0x301064, 0x301020], ∀ k, k + 4 ≤ 52 → p + k ≠ 0x30106C → p + k ≠ 0x301094 →
      k % 4 = 0 → load32 (store32 (store32 (store32 m 0x30106C 1) 0x301094 0x301020) 0x5084 1)
        (p + k) = 0 := by
    intro p hp k hk hpid hnext h4
    have hcases : p = 0x301064 ∨ p = 0x301020 := by simpa using hp
    refine load32_eq_zero (fun x hx hx' => ?_)
    rw [store32_of_outside (by omega), store32_of_outside (by omega), store32_of_outside (by omega)]
    exact hzero p (by simpa [or_comm] using hp) x (by omega) (by omega)
  have hpid : procPid (store32 (store32 (store32 m 0x30106C 1) 0x301094 0x301020) 0x5084 1) 0x301064
      = 1 := by
    rw [procPid, load32_store32_of_ne (by omega), load32_store32_of_ne (by omega), load32_store32]
    rfl
  have hpid' : procPid (store32 (store32 (store32 m 0x30106C 1) 0x301094 0x301020) 0x5084 1) 0x301020
      = 0 := hword 0x301020 (by simp) 8 (by omega) (by omega) (by omega) rfl
  have hnext : procNext (store32 (store32 (store32 m 0x30106C 1) 0x301094 0x301020) 0x5084 1)
      0x301064 = 0x301020 := by
    rw [procNext, load32_store32_of_ne (by omega), load32_store32]
    rfl
  have hnext' : procNext (store32 (store32 (store32 m 0x30106C 1) 0x301094 0x301020) 0x5084 1)
      0x301020 = 0 := hword 0x301020 (by simp) 48 (by omega) (by omega) (by omega) rfl
  refine ⟨⟨store32 (store32 (store32 m 0x30106C 1) 0x301094 0x301020) 0x5084 1, (), 0x301064,
    0x301064, 0x301020, 2, NULL⟩, ⟨?_, by decide, by simp, by simp [procBlock, Block.Apart,
      sizeofProcess], ?_⟩, rfl, rfl, ⟨hpid, hpid'⟩, fun p hp => ⟨?_, ?_⟩, ?_,
    hheap.writeOutside (fun a ha hb => ?_)⟩
  · exact ⟨rfl, by decide, hnext, by decide, hnext'⟩
  · simp [hpid, hpid']
  · exact hword p hp 12 (by omega) (by simp at hp; omega) (by simp at hp; omega) rfl
  · exact hword p hp 20 (by omega) (by simp at hp; omega) (by simp at hp; omega) rfl
  · rw [irqHandler, hslot, load32_store32]
    rfl
  · simp only [List.forall_mem_cons, Block.Has, procBlock, sizeofProcess] at hb
    exact (store32_of_outside (by omega)).trans ((store32_of_outside (by omega)).trans
      (store32_of_outside (by omega)))

section
variable {K : Kernel Unit} {P : Kernel Unit → MailEvent → Prop}

theorem PairKernel.boot (h : PairKernel K) :
    MailRun (firstFit Layout.least) handlersAt [0x301064, 0x301020] [] P K (fun _ => []) :=
  .boot h.list (by simp [h.idle]) (by simp [h.current]) ⟨_, h.heap⟩ h.box

/-- The pid 1 is found. -/
theorem pair_lookup (hlist : ProcList (fun _ => False) K.mem K.firstProcess [0x301064, 0x301020])
    (hpids : procPid K.mem 0x301064 = 1 ∧ procPid K.mem 0x301020 = 0) :
    getProcessByPid K 1 = some 0x301064 := by
  obtain ⟨q, hq, ⟨hmem, hpid⟩ | ⟨-, hne⟩⟩ := hlist.getProcessByPid 1
  · rw [hq]
    simp only [List.mem_cons, List.not_mem_nil, or_false] at hmem
    rcases hmem with rfl | rfl
    · rfl
    · rw [hpids.2] at hpid
      cases hpid
  · exact absurd hpids.1 (hne _ (by simp))

/-- The process with pid 1 sends itself a message. -/
theorem PairKernel.send (h : PairKernel K) (msg : Message) (hmsg : msg.receiver.toNat = 1) :
    ∃ m', sendMessageCall (firstFit Layout.least).toHeap K (some msg) = some (MESSAGE_SENT,
        some (stamp K.mem 0x301064 0x301064 msg), { K with mem := m' }) ∧
      getProcessByPid K msg.receiver.toNat = some 0x301064 ∧
      HeapState Layout.least (heapLimit Layout.least) m'
        [⟨0x301000, 0, true⟩, ⟨0x301010, 52, false⟩, ⟨0x301054, 52, false⟩, ⟨0x301098, 540, false⟩]
        [nodeBlock 0x3010A8, procBlock 0x301064, procBlock 0x301020] ∧
      (∀ p ∈ [0x301064, 0x301020], procPid m' p = procPid K.mem p) ∧
      irqHandler handlersAt m' 0x21 = 1 := by
  have hslot : irqSlot handlersAt 0x21 = 0x5084 := by decide
  have hstart : Layout.least.heapStart = 0x301000 := by decide
  have hlookup : getProcessByPid K msg.receiver.toNat = some 0x301064 :=
    hmsg ▸ pair_lookup h.list h.pids
  have hboxes : Mailboxes (firstFit Layout.least) K.mem [0x301064, 0x301020] (fun _ => [])
      (fun _ => []) [procBlock 0x301064, procBlock 0x301020] :=
    Mailboxes.empty ⟨_, h.heap⟩ (by simp) h.box
  obtain ⟨m', hk, hheap, -, hrec, hlow⟩ := hboxes.send_follows (s := 0x301064) (r := 0x301064)
    (a := 0x301098) [⟨0x301000, 0, true⟩, ⟨0x301010, 52, false⟩, ⟨0x301054, 52, false⟩,
      ⟨0x301098, 540, false⟩] h.heap (by decide) (by simp) (by decide) msg
  refine ⟨m', ?_, hlookup, hheap, fun p hp => load32_congr (fun x hx hx' => ?_), ?_⟩
  · simp only [sendMessageCall, hlookup, h.current, hk, Option.bind_eq_bind, Option.bind_some,
      Option.pure_def]
  · exact hrec p hp x (by omega) (fun _ => by omega)
  · rw [← h.handler, irqHandler, irqHandler, hslot]
    refine load32_congr (fun x hx hx' => hlow x (by omega) (fun harena => ?_))
    have hge : Layout.least.heapStart ≤ x := harena.1
    omega

/-- The turn goes to the process with pid 0. -/
theorem PairKernel.switch {m : Mem} (h : PairKernel K) {o : Origins} {nodes : Nat → List Nat}
    {live : List Block} (ht : Traced (firstFit Layout.least) [0x301064, 0x301020] []
      { K with mem := m } o nodes live) :
    ∃ st K', schedule { K with mem := m } 0 0 = .ok (st, K') ∧ K'.currentProcess = 0x301020 ∧
      Switched [0x301064, 0x301020] { K with mem := m } K' := by
  have hrecs : ProcRecords (fun _ => False) m K.firstProcess
      ([] ++ K.currentProcess :: [0x301020]) := by
    rw [h.current]
    exact ht.list.records
  obtain ⟨st, K', hs, hcur⟩ := schedule_current (K := { K with mem := m }) hrecs
    (by simp [h.idle]) 0 0
  refine ⟨st, K', hs, ?_, schedule_switched ht.list.records ht.current ht.idle hs⟩
  -- if the other process is not ready, it is the idle process
  rw [hcur, show ({ K with mem := m } : Kernel Unit).idleProcess = 0x301020 from h.idle]
  rw [scanned, if_neg (by simp), List.find?_cons, List.find?_nil]
  cases eligible m 0 0x301020 <;> rfl

end

/-- The process with pid 1 sends itself a message and gives its turn to the one with pid 0, which
the line 0x21 interrupts. -/
theorem sender_authenticity_self : ∃ (K : Kernel Unit) (o : Origins) (msg irq : Message),
    (∀ r ∈ [0x301064, 0x301020], ∀ e ∈ o r, ∀ p ∈ [0x301064, 0x301020], procPid K.mem p ≠ 0 →
      e.2.sender = pidOf K.mem p → e.1 = some p) ∧
    o 0x301064 = [(some 0x301064, msg), (none, irq)] ∧ msg.sender = 1 ∧ irq.sender = 0 ∧
    irq.signal = 0x21 := by
  obtain ⟨K, h⟩ := pairKernel
  obtain ⟨m₁, hsend, hlookup, hheap₁, hpids₁, hline₁⟩ :=
    h.send { Message.blank with receiver := 1 } rfl
  have hrun₁ := (h.boot (P := Anonymous handlersAt)).step
    (.send (by rw [h.current]; decide) hlookup hsend) trivial
  obtain ⟨nodes₁, live₁, ht₁⟩ := hrun₁.traced
  obtain ⟨st, K₂, hs, hcur₂, hsw⟩ := h.switch ht₁
  have hrun₂ := hrun₁.step (.switch hs) trivial
  obtain ⟨nodes₂, live₂, ht₂⟩ := hrun₂.traced
  -- what the switch has left alone
  have hoff : ∀ x, (∀ p ∈ [0x301064, 0x301020], x < p ∨ p + 52 ≤ x) → K₂.mem x = m₁ x :=
    fun x hx => hsw.mem x (fun p hp => by have := hx p hp; omega)
  have hheap₂ := hheap₁.writeOutside (fun x _ hx => show K₂.mem x = m₁ x from hoff x (by
    simp only [List.forall_mem_cons, Block.Has, procBlock, sizeofProcess] at hx ⊢
    refine ⟨by omega, by omega, by simp⟩))
  have hpids₂ : procPid K₂.mem 0x301064 = 1 ∧ procPid K₂.mem 0x301020 = 0 :=
    ⟨(ht₁.switched_pid hsw (by simp)).trans ((hpids₁ _ (by simp)).trans h.pids.1),
      (ht₁.switched_pid hsw (by simp)).trans ((hpids₁ _ (by simp)).trans h.pids.2)⟩
  have hhandler : irqHandler handlersAt K₂.mem 0x21 = 1 := by
    have hslot : irqSlot handlersAt 0x21 = 0x5084 := by decide
    rw [← hline₁, irqHandler, irqHandler, hslot]
    exact load32_congr (fun x _ _ => hoff x (by simp; omega))
  -- the interrupt
  obtain ⟨w, hk, -⟩ := firstFit_kmalloc hheap₂ (by decide) (by decide)
    (show FirstFit.malloc headerSize Layout.least.heapStart Layout.least.heapEnd sizeofMessageNode _
      = some (0x3012C4, [⟨0x301000, 0, true⟩, ⟨0x301010, 52, false⟩, ⟨0x301054, 52, false⟩,
        ⟨0x301098, 540, false⟩, ⟨0x3012C4, 540, false⟩]) by decide)
  obtain ⟨m₃, hmessage⟩ := ht₂.boxes.send_returns (s := 0x301020) (r := 0x301064) (by decide)
    (by simp) hk { Message.blank with signal := 0x21 }
  have hswitch : irqSwitch K₂ 0 0 0x21 = .ok (0, K₂) := if_neg (by decide)
  have hfound := pair_lookup ht₂.list hpids₂
  have hreceiver : irqReceiver handlersAt K₂ 0x21 = 0x301064 := by
    rw [irqReceiver, hhandler, if_pos (by decide), hfound]
    rfl
  have hbranch : irqBranch handlersAt (firstFit Layout.least).toHeap K₂ 0 0 0x21 Message.blank
      = .ok (0, { K₂ with mem := m₃ }) := by
    simp only [irqBranch, hswitch, irqMessage, hhandler, if_pos (show 1 > 0 by decide), hfound,
      hcur₂, bind, Except.bind]
    rw [show UInt32.ofNat 0x21 = 0x21 from rfl, hmessage]
    rfl
  have hrun₃ := hrun₂.step (.interrupt hswitch (by rw [hcur₂]; decide) (by rw [hreceiver]; decide)
    hbranch) (fun st K₁ hs _ => by
      rw [hswitch] at hs
      obtain ⟨-, rfl⟩ := Prod.mk.inj (Except.ok.inj hs)
      rw [hcur₂]
      exact hpids₂.2)
  refine ⟨_, _, stamp K.mem 0x301064 0x301064 { Message.blank with receiver := 1 },
    stamp K₂.mem 0x301020 0x301064 { Message.blank with signal := 0x21 },
    (sender_authenticity hrun₃).2.1, ?_, congrArg UInt32.ofNat h.pids.1,
    congrArg UInt32.ofNat hpids₂.2, rfl⟩
  rw [hreceiver, Function.update_self, Function.update_self, h.current, hcur₂]
  rfl

/-- The interrupt 0x21 leaves a message in the mailbox of the process it interrupts, with the
pid of that process, which has sent nothing. -/
theorem sender_authenticity_fails : ∃ (K : Kernel Unit) (o : Origins),
    MailRun (firstFit Layout.least) handlersAt [loneProcess] [] (fun _ _ => True) K o ∧
    (∃ nodes live, Mailboxes (firstFit Layout.least) K.mem [loneProcess] nodes o.queue live) ∧
    procPid K.mem loneProcess = 1 ∧
    ∃ e ∈ o loneProcess, e.2.sender = pidOf K.mem loneProcess ∧ e.1 = none := by
  obtain ⟨K, h⟩ := loneKernel
  obtain ⟨m', hk⟩ := h.send { Message.blank with signal := 0x21 }
  have hswitch : irqSwitch K 0 0 0x21 = .ok (0, K) := if_neg (by decide)
  have hreceiver : irqReceiver handlersAt K 0x21 = loneProcess := by
    rw [irqReceiver, h.handler, if_pos (by decide), h.lookup]
    rfl
  have hmessage : irqMessage handlersAt (firstFit Layout.least).toHeap K 0x21 Message.blank
      = .ok { K with mem := m' } := by
    simp only [irqMessage, h.handler, if_pos (show 1 > 0 by decide), h.lookup, h.current]
    rw [show UInt32.ofNat 0x21 = 0x21 from rfl, hk]
  have hbranch : irqBranch handlersAt (firstFit Layout.least).toHeap K 0 0 0x21 Message.blank
      = .ok (0, { K with mem := m' }) := by
    simp only [irqBranch, hswitch, hmessage, bind, Except.bind]
    rfl
  have hstep : MailStep (firstFit Layout.least) handlersAt [loneProcess] [] K (fun _ => [])
      (.interrupt 0 0 0x21 Message.blank) { K with mem := m' } _ :=
    .interrupt hswitch (by rw [h.current]; decide) (by rw [hreceiver]; decide) hbranch
  have hrun := (h.boot (fun _ _ => True)).step hstep trivial
  obtain ⟨nodes, live, ht⟩ := (h.boot (fun _ _ => True)).traced
  have hpid := (ht.step hstep).2 loneProcess (by simp)
  obtain ⟨nodes', live', ht'⟩ := hrun.traced
  refine ⟨_, _, hrun, ⟨nodes', live', ht'.boxes⟩, hpid.trans h.pid, ?_⟩
  rw [hreceiver, Function.update_self]
  refine ⟨_, List.mem_append_right _ List.mem_cons_self, ?_, rfl⟩
  simp only [h.current, stamp, pidOf, hpid]

end DayOS
