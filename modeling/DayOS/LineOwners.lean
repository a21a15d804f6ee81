import DayOS.IrqLines

set_option autoImplicit false

/-! # Interrupts and the owners of their lines (`idt.c`)

A run of the three functions that write to `irqHandlers`, with interrupts and anything else that
leaves the table alone in between. As long as nobody of pid 0 takes part, the table is one of
leases, and each interrupt sends one message to the process that holds the line
(`line_ownership`).
-/

namespace DayOS

open ByteMemory Linked

/-- The table lies outside the heap, and not in page 0. -/
structure TableAt (A : Allocator) (irqHandlers : Nat) : Prop where
  low : 0x1000 ≤ irqHandlers
  high : irqHandlers + 192 ≤ 2 ^ 32
  off : ∀ x, (irqTable irqHandlers).Has x → ¬ A.arena x

/-- A call of one of the three functions, for a pid. -/
abbrev LineCall := Lease.Call Nat Nat

/-- The kernels reached from an empty table on, with the live processes and the calls so far, each
with its result. Calls come from a process that runs. -/
inductive LineRun {σ : Type} (A : Allocator) (irqHandlers : Nat) :
    Kernel σ → List Nat → List (LineCall × Bool) → Prop
  | boot {K : Kernel σ} {procs : List Nat} {o : Origins} {nodes : Nat → List Nat}
      {live : List Block} : Traced A procs [] K o nodes live →
      (∀ i < NUM_HANDLERS, irqHandler irqHandlers K.mem i = 0) → LineRun A irqHandlers K procs []
  | register {K : Kernel σ} {procs : List Nat} {h : List (LineCall × Bool)} {i pid : Nat} :
      LineRun A irqHandlers K procs h → K.currentProcess ≠ NULL → i < NUM_HANDLERS →
      pid < 2 ^ 32 →
      LineRun A irqHandlers { K with mem := (registerHandlerProcess irqHandlers K.mem i pid).2 } procs
        (h ++ [(.take i pid, decide ((registerHandlerProcess irqHandlers K.mem i pid).1 = 1))])
  | reset {K : Kernel σ} {procs : List Nat} {h : List (LineCall × Bool)} {i pid : Nat} :
      LineRun A irqHandlers K procs h → K.currentProcess ≠ NULL → i < NUM_HANDLERS →
      pid < 2 ^ 32 →
      LineRun A irqHandlers { K with mem := (resetHandlerProcess irqHandlers K.mem i pid).2 } procs
        (h ++ [(.giveBack i pid, decide ((resetHandlerProcess irqHandlers K.mem i pid).1 = 1))])
  | remove {K : Kernel σ} {procs : List Nat} {h : List (LineCall × Bool)} {pid : Nat} :
      LineRun A irqHandlers K procs h → K.currentProcess ≠ NULL → pid < 2 ^ 32 →
      LineRun A irqHandlers { K with mem := removeHandlerProcess irqHandlers K.mem pid } procs
        (h ++ [(.drop pid, true)])
  | interrupt {K K' : Kernel σ} {procs : List Nat} {h : List (LineCall × Bool)}
      {ticks cpuOld intr st : Nat} {stale : Message} : LineRun A irqHandlers K procs h →
      0x20 ≤ intr → intr ≤ 0x2F →
      irqBranch irqHandlers A.toHeap K ticks cpuOld intr stale = .ok (st, K') →
      LineRun A irqHandlers K' procs h
  | other {K K' : Kernel σ} {procs procs' : List Nat} {h : List (LineCall × Bool)} {o : Origins}
      {nodes : Nat → List Nat} {live : List Block} : LineRun A irqHandlers K procs h →
      Traced A procs' [] K' o nodes live → (K.currentProcess ≠ NULL → K'.currentProcess ≠ NULL) →
      AgreeOn K.mem K'.mem irqHandlers 192 → LineRun A irqHandlers K' procs' h

section
variable {σ : Type} {A : Allocator} {irqHandlers : Nat} {procs : List Nat} {rest : List Block}
  {K K₁ K' : Kernel σ} {o : Origins} {nodes : Nat → List Nat} {live : List Block} {m' : Mem}
  {ticks cpuOld intr st p : Nat} {stale : Message} {h : List (LineCall × Bool)}

/-- `p` is a live process that owns the line `i`. -/
def OwnsLine (irqHandlers : Nat) (K : Kernel σ) (procs : List Nat) (i p : Nat) : Prop :=
  p ∈ procs ∧ lines irqHandlers K.mem i = some (procPid K.mem p)

/-- What becomes of the queues `o` by an interrupt on the line `i`: the live owner gets one
message, with the interrupt as its signal, and without a live owner there is none. -/
structure Delivered (A : Allocator) (irqHandlers : Nat) (procs : List Nat) (K : Kernel σ)
    (o : Origins) (i : Nat) (K' : Kernel σ) : Prop where
  owned : ∀ p, OwnsLine irqHandlers K procs i p → ∃ msg o' nodes' live',
    msg.signal = UInt32.ofNat i ∧
    Origins.queue o' = Function.update o.queue p (o.queue p ++ [msg]) ∧
    Traced A procs [] K' o' nodes' live'
  unowned : (∀ p, ¬ OwnsLine irqHandlers K procs i p) → ∃ nodes' live', Traced A procs [] K' o nodes' live'

/-! ## The table and the heap -/

/-- Records lie in the heap, the table does not. -/
theorem Traced.record_off (ht : Traced A procs rest K o nodes live) (hT : TableAt A irqHandlers)
    (hp : p ∈ procs) {x : Nat} (hx : (irqTable irqHandlers).Has x) : x < p ∨ p + 52 ≤ x := by
  by_contra hin
  have hblock : (procBlock p).Has x := by
    simp only [Block.Has, procBlock, sizeofProcess]
    omega
  exact hT.off x hx ((A.inArena ht.boxes.holds _ (ht.boxes.procLive p hp)).2 x hblock)

theorem Traced.switch_table (ht : Traced A procs rest K o nodes live) (hT : TableAt A irqHandlers)
    (hs : DayOS.irqSwitch K ticks cpuOld intr = .ok (st, K₁)) :
    AgreeOn K.mem K₁.mem irqHandlers 192 := by
  rcases irqSwitch_switched ht.list.records ht.current ht.idle hs with rfl | hsw
  · exact AgreeOn.refl _ _ _
  · intro x hx hx'
    refine hsw.mem x (fun p hp => ?_)
    have := ht.record_off hT hp ⟨hx, hx'⟩
    omega

theorem Traced.send_table (ht : Traced A procs rest K o nodes live) (hT : TableAt A irqHandlers)
    (hcur : K.currentProcess ≠ NULL) (hp : p ∈ procs) {msg : Message} {ret : Nat}
    {out : Option Message}
    (hk : ksendMessage A.toHeap K.mem K.currentProcess p (some msg) = some (ret, out, m')) :
    AgreeOn K.mem m' irqHandlers 192 := by
  obtain ⟨-, -, new, -, htouch⟩ := ht.boxes.send hcur hp hk
  intro x hx hx'
  have hin : (irqTable irqHandlers).Has x := ⟨hx, hx'⟩
  refine htouch x (hT.low.trans hx) (Or.inl (hT.off x hin)) (fun n hn hnx => ?_) (fun hpx => ?_)
  · exact hT.off x hin ((A.inArena ht.boxes.holds _ (ht.boxes.nodeLive p hp n hn)).2 x hnx)
  · have := ht.record_off hT hp hin
    omega

/-- Writing into the table leaves the mailboxes as they are. -/
theorem Traced.table (ht : Traced A procs [] K o nodes live) (hT : TableAt A irqHandlers)
    (hm : ∀ x, ¬ (irqTable irqHandlers).Has x → m' x = K.mem x) :
    Traced A procs [] { K with mem := m' } o nodes live := by
  refine ht.other (fun a ha _ _ => hm a (fun hin => ?_))
  exact hT.off a hin ha

/-! ## Interrupts -/

theorem irqBranch_ok {H : Heap}
    (hk : irqBranch irqHandlers H K ticks cpuOld intr stale = .ok (st, K')) :
    ∃ K₁, irqSwitch K ticks cpuOld intr = .ok (st, K₁) ∧
      irqMessage irqHandlers H K₁ intr stale = .ok K' := by
  cases hs : irqSwitch K ticks cpuOld intr with
  | error f =>
      simp only [irqBranch, hs, bind, Except.bind] at hk
      cases hk
  | ok r =>
      obtain ⟨st', K₁⟩ := r
      have hm := irqBranch_message hs hk
      simp only [irqBranch, hs, hm, bind, Except.bind] at hk
      cases hk
      exact ⟨K₁, rfl, hm⟩

/-- The IRQ branch sends to the live owner of the line. -/
theorem Traced.irqReceiver_eq (ht : Traced A procs rest K o nodes live) (hi : intr < NUM_HANDLERS)
    (hp : OwnsLine irqHandlers K procs intr p) : irqReceiver irqHandlers K intr = p := by
  obtain ⟨hmem, howner⟩ := hp
  have hpid0 : procPid K.mem p ≠ 0 := by
    intro h0
    rw [h0] at howner
    unfold lines at howner
    split at howner
    case isTrue hand => exact hand.2 (Option.some.inj howner)
    case isFalse => cases howner
  have hhandler := (lines_eq_some hi hpid0).mp howner
  obtain ⟨q, hq, hcase⟩ := ht.list.getProcessByPid (irqHandler irqHandlers K.mem intr)
  rw [irqReceiver, if_pos (by omega), hq, Option.getD_some]
  rcases hcase with ⟨hqmem, hqpid⟩ | ⟨-, hnone⟩
  · -- pids are distinct
    exact List.inj_on_of_nodup_map ht.list.pids hqmem hmem (hqpid.trans hhandler)
  · exact absurd hhandler.symm (hnone p hmem)

theorem Traced.irqReceiver_owns (ht : Traced A procs rest K o nodes live)
    (hi : intr < NUM_HANDLERS) (hne : irqReceiver irqHandlers K intr ≠ NULL) :
    OwnsLine irqHandlers K procs intr (irqReceiver irqHandlers K intr) := by
  unfold irqReceiver at hne ⊢
  split at hne
  case isFalse => exact absurd rfl hne
  case isTrue hhandler =>
      obtain ⟨q, hq, hcase⟩ := ht.list.getProcessByPid (irqHandler irqHandlers K.mem intr)
      rw [if_pos hhandler]
      rw [hq, Option.getD_some] at hne ⊢
      rcases hcase with ⟨hmem, hpid⟩ | ⟨hnull, -⟩
      · refine ⟨hmem, ?_⟩
        rw [hpid]
        exact (lines_eq_some hi (Nat.pos_iff_ne_zero.mp hhandler)).mpr rfl
      · exact absurd hnull hne

/-- The timer's switch moves no line. -/
theorem Traced.ownsLine_switch (ht : Traced A procs [] K o nodes live) (hT : TableAt A irqHandlers)
    (hs : DayOS.irqSwitch K ticks cpuOld intr = .ok (st, K₁)) {i : Nat} :
    OwnsLine irqHandlers K₁ procs i p ↔ OwnsLine irqHandlers K procs i p := by
  have hlines := lines_congr (ht.switch_table hT hs) hT.high
  have hpids := (ht.irqSwitch hs).2
  unfold OwnsLine
  rw [hlines]
  constructor
  · rintro ⟨hp, howner⟩
    exact ⟨hp, by rw [← hpids p hp]; exact howner⟩
  · rintro ⟨hp, howner⟩
    exact ⟨hp, by rw [hpids p hp]; exact howner⟩

/-- Behind the switch some process runs, unless none did and this was not the timer. -/
theorem Traced.switch_current (ht : Traced A procs rest K o nodes live)
    (hs : DayOS.irqSwitch K ticks cpuOld intr = .ok (st, K₁)) :
    K₁.currentProcess = NULL ↔ K.currentProcess = NULL ∧ intr ≠ 0x20 := by
  unfold DayOS.irqSwitch at hs
  split at hs
  case isTrue htimer =>
      have hsw := schedule_switched ht.list.records ht.current ht.idle hs
      constructor
      · intro hnull
        exact absurd hnull (ht.list.chain.ne_zero_of_mem hsw.current)
      · rintro ⟨-, hne⟩
        exact absurd htimer hne
  case isFalse hother =>
      obtain ⟨-, rfl⟩ := Prod.mk.inj (Except.ok.inj hs)
      exact ⟨fun hnull => ⟨hnull, hother⟩, fun hand => hand.1⟩

/-- Without a sender or a receiver there is no message. -/
theorem irqMessage_quiet {H : Heap}
    (hquiet : K.currentProcess = NULL ∨ irqReceiver irqHandlers K intr = NULL)
    (hm : irqMessage irqHandlers H K intr stale = .ok K') : K' = K := by
  rcases irqMessage_ok hm with ⟨-, hsame⟩ | ⟨ret, out, m', hsend, rfl⟩
  · exact hsame
  · simp only [ksendMessage, if_pos hquiet, Option.some.injEq, Prod.mk.injEq] at hsend
    rw [← hsend.2.2]

/-- **One interrupt.** It leaves the table alone, and the live owner of the line gets one message;
without a current process there must be no owner. -/
theorem Traced.interrupt (ht : Traced A procs [] K o nodes live) (hT : TableAt A irqHandlers)
    (hi : intr < NUM_HANDLERS)
    (hcur : K.currentProcess = NULL → ∀ i, lines irqHandlers K.mem i = none)
    (hk : irqBranch irqHandlers A.toHeap K ticks cpuOld intr stale = .ok (st, K')) :
    AgreeOn K.mem K'.mem irqHandlers 192 ∧
    (K.currentProcess ≠ NULL → K'.currentProcess ≠ NULL) ∧
    Delivered A irqHandlers procs K o intr K' := by
  obtain ⟨K₁, hs, hm⟩ := irqBranch_ok hk
  obtain ⟨ht₁, -⟩ := ht.irqSwitch hs
  have htable₁ := ht.switch_table hT hs
  by_cases hr : irqReceiver irqHandlers K₁ intr = NULL
  · -- nobody to send to
    rw [irqMessage_quiet (Or.inr hr) hm]
    refine ⟨htable₁, fun hne hnull => hne ((ht.switch_current hs).mp hnull).1, fun p hp => ?_,
      fun _ => ⟨nodes, live, ht₁⟩⟩
    have hp₁ := (ht.ownsLine_switch hT hs).mpr hp
    have hreceiver := ht₁.irqReceiver_eq hi hp₁
    rw [hr] at hreceiver
    exact absurd hreceiver.symm (ht₁.list.chain.ne_zero_of_mem hp₁.1)
  · have howner₁ := ht₁.irqReceiver_owns hi hr
    have howner := (ht.ownsLine_switch hT hs).mp howner₁
    have hne₁ : K₁.currentProcess ≠ NULL := by
      intro hnull
      have hnone := hcur ((ht.switch_current hs).mp hnull).1 intr
      rw [howner.2] at hnone
      cases hnone
    rcases irqMessage_ok hm with ⟨hnull, -⟩ | ⟨ret, out, m', hsend, rfl⟩
    · exact absurd hnull hr
    · obtain ⟨-, ⟨nodes', live', ht'⟩, -⟩ :=
        ht₁.deliver (ht₁.current.resolve_left hne₁) howner₁.1 hsend none
      refine ⟨htable₁.trans (ht₁.send_table hT hne₁ howner₁.1 hsend), fun _ => hne₁,
        fun p hp => ?_, fun hno => absurd howner (hno _)⟩
      have hreceiver := ht₁.irqReceiver_eq hi ((ht.ownsLine_switch hT hs).mpr hp)
      refine ⟨stamp K₁.mem K₁.currentProcess p { stale with signal := UInt32.ofNat intr }, _, nodes',
        live', rfl, ?_, ht'⟩
      rw [hreceiver, Origins.queue_update, List.map_append]
      rfl

/-- An interrupt comes back, unless the heap does not serve the node of its message. -/
theorem Traced.interrupt_returns (ht : Traced A procs rest K o nodes live)
    (hcur : K.currentProcess = NULL ∨ K.currentProcess ∈ procs) :
    ∃ st K₁, DayOS.irqSwitch K ticks cpuOld intr = .ok (st, K₁) ∧
      (A.kmalloc K₁.mem sizeofMessageNode ≠ none →
        ∃ K', irqBranch irqHandlers A.toHeap K ticks cpuOld intr stale = .ok (st, K')) := by
  have hswitch : ∃ st K₁, DayOS.irqSwitch K ticks cpuOld intr = .ok (st, K₁) := by
    unfold DayOS.irqSwitch
    split
    case isFalse => exact ⟨_, _, rfl⟩
    case isTrue =>
        rcases hcur with hnull | hmem
        · rw [schedule, if_pos hnull]
          have hfirst : K.firstProcess ∈ procs := by
            cases hprocs : procs with
            | nil =>
                have hidle := ht.idle
                rw [hprocs] at hidle
                cases hidle
            | cons q l =>
                have hchain := ht.list.chain
                rw [hprocs] at hchain
                rw [hchain.head]
                exact List.mem_cons_self
          exact ⟨_, _, if_neg (ht.list.chain.ne_zero_of_mem hfirst)⟩
        · obtain ⟨pre, post, hsplit⟩ := List.append_of_mem hmem
          have hrecords := ht.list.records
          have hidle := ht.idle
          rw [hsplit] at hrecords hidle
          obtain ⟨st, K₁, hs, -⟩ := schedule_current hrecords hidle ((ticks + 1) % 2 ^ 32) cpuOld
          exact ⟨st, K₁, hs⟩
  obtain ⟨st, K₁, hs⟩ := hswitch
  refine ⟨st, K₁, hs, fun hserved => ?_⟩
  obtain ⟨ht₁, -⟩ := ht.irqSwitch hs
  have hmessage : ∃ K', irqMessage irqHandlers A.toHeap K₁ intr stale = .ok K' := by
    unfold irqMessage
    split
    case isFalse => exact ⟨_, rfl⟩
    case isTrue hhandler =>
        obtain ⟨q, hq, hcase⟩ := ht₁.list.getProcessByPid (irqHandler irqHandlers K₁.mem intr)
        rw [hq]
        by_cases hquiet : K₁.currentProcess = NULL ∨ q = NULL
        · refine ⟨K₁, ?_⟩
          simp only [ksendMessage, if_pos hquiet]
        · obtain ⟨hcur₁, hq0⟩ := not_or.mp hquiet
          have hqmem : q ∈ procs := by
            rcases hcase with hmem | hnull
            · exact hmem.1
            · exact absurd hnull.1 hq0
          obtain ⟨⟨new, m₁⟩, hnew⟩ := Option.ne_none_iff_exists'.mp hserved
          obtain ⟨m', hsend⟩ := ht₁.boxes.send_returns hcur₁ hqmem hnew
            { stale with signal := UInt32.ofNat intr }
          exact ⟨{ K₁ with mem := m' }, by simp only [hsend]⟩
  obtain ⟨K', hm⟩ := hmessage
  refine ⟨K', ?_⟩
  simp only [irqBranch, hs, hm, bind, Except.bind]
  rfl

end

/-! ## Runs -/

/-- What a run keeps, as long as no call is for pid 0: the table is the one of leases its calls
lead to, and lines are owned only once a process has run. -/
structure LineInv {σ : Type} (A : Allocator) (irqHandlers : Nat) (procs : List Nat) (K : Kernel σ)
    (h : List (LineCall × Bool)) : Prop where
  leases : Lease.Run h (lines irqHandlers K.mem)
  traced : ∃ o nodes live, Traced A procs [] K o nodes live
  quiet : K.currentProcess = NULL → ∀ i, lines irqHandlers K.mem i = none

/-- What the table and the interrupts promise, in a state reached by the calls `h`. -/
structure LineLaw {σ : Type} (A : Allocator) (irqHandlers : Nat) (procs : List Nat) (K : Kernel σ)
    (h : List (LineCall × Bool)) : Prop where
  /-- The owners are those the calls have led to. -/
  owners : Lease.Run h (lines irqHandlers K.mem)
  /-- Between two successful registrations of a line its owner has given it back or was removed. -/
  handover : ∀ h₁ h₂ h₃ i p q, h = h₁ ++ (.take i p, true) :: h₂ ++ (.take i q, true) :: h₃ →
    ∃ e ∈ h₂, Lease.Releases i p e
  reset : ∀ i < NUM_HANDLERS, ∀ pid, pid ≠ 0 →
    ((resetHandlerProcess irqHandlers K.mem i pid).1 = 1 ↔ lines irqHandlers K.mem i = some pid) ∧
    ((resetHandlerProcess irqHandlers K.mem i pid).1 = 1 →
      lines irqHandlers (resetHandlerProcess irqHandlers K.mem i pid).2
        = Function.update (lines irqHandlers K.mem) i none)
  remove : ∀ pid ≠ 0, ∀ i, lines irqHandlers (removeHandlerProcess irqHandlers K.mem pid) i
    = if lines irqHandlers K.mem i = some pid then none else lines irqHandlers K.mem i
  interrupt : ∀ (o : Origins) nodes live, Traced A procs [] K o nodes live →
    ∀ ticks cpuOld intr stale st K', 0x20 ≤ intr → intr ≤ 0x2F →
      irqBranch irqHandlers A.toHeap K ticks cpuOld intr stale = .ok (st, K') →
      Delivered A irqHandlers procs K o intr K'
  /-- An interrupt comes back if the heap has room for a message. -/
  returns : ∀ ticks cpuOld intr stale, ∃ st K₁, irqSwitch K ticks cpuOld intr = .ok (st, K₁) ∧
    (A.kmalloc K₁.mem sizeofMessageNode ≠ none →
      ∃ K', irqBranch irqHandlers A.toHeap K ticks cpuOld intr stale = .ok (st, K'))

section
variable {σ : Type} {A : Allocator} {irqHandlers i pid : Nat} {procs procs' : List Nat}
  {K K' : Kernel σ} {o : Origins} {nodes : Nat → List Nat} {live : List Block}
  {ticks cpuOld intr st : Nat} {stale : Message} {h : List (LineCall × Bool)}

/-- A call of one of the three functions: it does to the leases what it does to the table. -/
theorem LineInv.call (hinv : LineInv A irqHandlers procs K h) (hT : TableAt A irqHandlers)
    (hcur : K.currentProcess ≠ NULL) {c : LineCall} {b : Bool} {m' : Mem}
    (hstep : Lease.step (lines irqHandlers K.mem) c = (b, lines irqHandlers m'))
    (hm : ∀ x, ¬ (irqTable irqHandlers).Has x → m' x = K.mem x) :
    LineInv A irqHandlers procs { K with mem := m' } (h ++ [(c, b)]) := by
  obtain ⟨o, nodes, live, ht⟩ := hinv.traced
  have hcall := hinv.leases.call c
  rw [hstep] at hcall
  exact ⟨hcall, ⟨o, nodes, live, ht.table hT hm⟩, fun hnull => absurd hnull hcur⟩

theorem LineInv.interrupt (hinv : LineInv A irqHandlers procs K h) (hT : TableAt A irqHandlers)
    (hi : intr < NUM_HANDLERS)
    (hk : irqBranch irqHandlers A.toHeap K ticks cpuOld intr stale = .ok (st, K')) :
    LineInv A irqHandlers procs K' h := by
  obtain ⟨o, nodes, live, ht⟩ := hinv.traced
  obtain ⟨htable, hcur, hdelivered⟩ := ht.interrupt hT hi hinv.quiet hk
  have hlines := lines_congr htable hT.high
  refine ⟨hlines ▸ hinv.leases, ?_, fun hnull i => ?_⟩
  · by_cases hown : ∃ p, OwnsLine irqHandlers K procs intr p
    · obtain ⟨p, hp⟩ := hown
      obtain ⟨-, o', nodes', live', -, -, ht'⟩ := hdelivered.owned p hp
      exact ⟨o', nodes', live', ht'⟩
    · obtain ⟨nodes', live', ht'⟩ := hdelivered.unowned (not_exists.mp hown)
      exact ⟨o, nodes', live', ht'⟩
  · rw [hlines]
    exact hinv.quiet (by_contra fun hne => hcur hne hnull) i

theorem LineInv.other (hinv : LineInv A irqHandlers procs K h) (hT : TableAt A irqHandlers)
    (ht' : Traced A procs' [] K' o nodes live)
    (hcur : K.currentProcess ≠ NULL → K'.currentProcess ≠ NULL)
    (hm : AgreeOn K.mem K'.mem irqHandlers 192) : LineInv A irqHandlers procs' K' h := by
  have hlines := lines_congr hm hT.high
  refine ⟨hlines ▸ hinv.leases, ⟨o, nodes, live, ht'⟩, fun hnull i => ?_⟩
  rw [hlines]
  exact hinv.quiet (by_contra fun hne => hcur hne hnull) i

/-- The invariant holds in every state of a run without calls for pid 0. -/
theorem LineRun.inv (hT : TableAt A irqHandlers) (hrun : LineRun A irqHandlers K procs h)
    (hpids : ∀ e ∈ h, e.1.owner ≠ 0) : LineInv A irqHandlers procs K h := by
  induction hrun with
  | @boot K procs o nodes live ht hzero =>
      have hlines : lines irqHandlers K.mem = fun _ => none := by
        funext i
        exact if_neg (fun hand => hand.2 (hzero i hand.1))
      exact ⟨hlines ▸ .start, ⟨o, nodes, live, ht⟩, fun _ i => congrFun hlines i⟩
  | register hrun hcur hi hlt ih =>
      have hpid := hpids _ (List.mem_append_right _ (List.mem_singleton_self _))
      exact (ih (fun e he => hpids e (List.mem_append_left _ he))).call hT hcur
        (registerHandlerProcess_refines hT.high hi hpid hlt)
        (fun x => registerHandlerProcess_of_outside hi hT.high)
  | reset hrun hcur hi hlt ih =>
      have hpid := hpids _ (List.mem_append_right _ (List.mem_singleton_self _))
      exact (ih (fun e he => hpids e (List.mem_append_left _ he))).call hT hcur
        (resetHandlerProcess_refines hT.high hi hpid)
        (fun x => resetHandlerProcess_of_outside hi hT.high)
  | remove hrun hcur hlt ih =>
      have hpid := hpids _ (List.mem_append_right _ (List.mem_singleton_self _))
      exact (ih (fun e he => hpids e (List.mem_append_left _ he))).call hT hcur
        (removeHandlerProcess_refines hT.high hpid)
        (removeHandlerLoop_spec hT.high (Nat.zero_add _).le).2
  | interrupt hrun hge hle hk ih =>
      exact (ih hpids).interrupt hT (by simp only [NUM_HANDLERS]; omega) hk
  | other hrun ht' hcur hm ih =>
      exact (ih hpids).other hT ht' hcur hm

/-- **Lines have one owner at a time.** In every run without a call for pid 0, between two
successful registrations of a line there is a release by its owner or a removal of it, a reset
succeeds for the owner of the line alone and frees it, a removal frees the lines of that owner, and
an interrupt sends one message, to the live owner of its line. -/
theorem line_ownership (hT : TableAt A irqHandlers) (hrun : LineRun A irqHandlers K procs h)
    (hpids : ∀ e ∈ h, e.1.owner ≠ 0) : LineLaw A irqHandlers procs K h := by
  have hinv := hrun.inv hT hpids
  constructor
  case owners => exact hinv.leases
  case handover =>
      intro h₁ h₂ h₃ i p q hh
      have hleases := hinv.leases
      rw [hh] at hleases
      exact hleases.released_between
  case reset =>
      intro i hi pid hpid
      have hstep := resetHandlerProcess_refines (m := K.mem) hT.high hi hpid
      have hresult := congrArg Prod.fst hstep
      have hiff : (resetHandlerProcess irqHandlers K.mem i pid).1 = 1 ↔
          lines irqHandlers K.mem i = some pid := by
        rw [← Lease.step_giveBack_true, hresult, decide_eq_true_iff]
      refine ⟨hiff, fun hone => ?_⟩
      rw [Lease.step_giveBack, if_pos (hiff.mp hone)] at hstep
      exact (congrArg Prod.snd hstep).symm
  case remove =>
      intro pid hpid i
      have hstep := removeHandlerProcess_refines (m := K.mem) hT.high hpid
      rw [Lease.step_drop] at hstep
      exact (congrFun (congrArg Prod.snd hstep) i).symm
  case interrupt =>
      intro o nodes live ht ticks cpuOld intr stale st K' hge hle hk
      exact (ht.interrupt hT (by simp only [NUM_HANDLERS]; omega) hinv.quiet hk).2.2
  case returns =>
      intro ticks cpuOld intr stale
      obtain ⟨o, nodes, live, ht⟩ := hinv.traced
      exact ht.interrupt_returns ht.current

end

/-! ## The line of the keyboard -/

section
variable {K : Kernel Unit}

theorem handlersAt_table : TableAt (firstFit Layout.least) handlersAt := by
  refine ⟨by decide, by decide, fun x hx harena => ?_⟩
  have hlow := Layout.least.heapStart_ge.trans harena.1
  simp only [Block.Has, irqTable, handlersAt] at hx
  omega

/-- The kernel with the one process, before its line is registered. -/
theorem LoneKernel.cleared (hlone : LoneKernel K) : ∃ m,
    LineRun (firstFit Layout.least) handlersAt { K with mem := m } [loneProcess] [] ∧
    (∀ i < NUM_HANDLERS, irqHandler handlersAt m i = 0) ∧
    ∀ x, ¬ (irqTable handlersAt).Has x → m x = K.mem x := by
  obtain ⟨nodes, live, ht⟩ := (hlone.boot (fun _ _ => True)).traced
  have hzero : ∀ i < NUM_HANDLERS, irqHandler handlersAt
      (fun x => if handlersAt ≤ x ∧ x < handlersAt + 192 then 0 else K.mem x) i = 0 := by
    intro i hi
    rw [irqHandler, irqSlot_eq hi (by decide)]
    simp only [NUM_HANDLERS] at hi
    exact load32_eq_zero (fun x hx hx' => if_pos (by omega))
  exact ⟨_, .boot (ht.table handlersAt_table (fun x hx => if_neg hx)) hzero, hzero,
    fun x hx => if_neg hx⟩

/-- Nothing else about it is in the table. -/
theorem LoneKernel.table (hlone : LoneKernel K) {m : Mem}
    (hm : ∀ x, ¬ (irqTable handlersAt).Has x → m x = K.mem x)
    (hline : irqHandler handlersAt m 0x21 = 1) : LoneKernel { K with mem := m } := by
  have hoff : ∀ x, 0x301000 ≤ x → m x = K.mem x := fun x hx => hm x (by
    simp only [Block.Has, irqTable, handlersAt]
    omega)
  have hstart : Layout.least.heapStart = 0x301000 := by decide
  have hword : ∀ k, load32 m (loneProcess + k) = load32 K.mem (loneProcess + k) := fun k =>
    load32_congr (fun x hx _ => hoff x (by simp only [loneProcess] at hx; omega))
  exact ⟨hlone.first, hlone.current, hlone.idle, (hword 8).trans hlone.pid,
    (hword 48).trans hlone.next, ⟨(hword 12).trans hlone.box.1, (hword 20).trans hlone.box.2⟩, hline,
    hlone.heap.writeOutside (fun x hx _ => hoff x (by omega))⟩

/-- The interrupt 0x21 in a kernel with one process, which handles it. -/
theorem LoneKernel.interrupt (hlone : LoneKernel K) (stale : Message) : ∃ K',
    irqMessage handlersAt (firstFit Layout.least).toHeap K 0x21 stale = .ok K' ∧
    irqBranch handlersAt (firstFit Layout.least).toHeap K 0 0 0x21 stale = .ok (0, K') := by
  obtain ⟨m', hk⟩ := hlone.send { stale with signal := 0x21 }
  have hswitch : irqSwitch K 0 0 0x21 = .ok (0, K) := if_neg (by decide)
  have hmessage : irqMessage handlersAt (firstFit Layout.least).toHeap K 0x21 stale
      = .ok { K with mem := m' } := by
    simp only [irqMessage, hlone.handler, if_pos (show 1 > 0 by decide), hlone.lookup, hlone.current]
    rw [show UInt32.ofNat 0x21 = 0x21 from rfl, hk]
  refine ⟨_, hmessage, ?_⟩
  simp only [irqBranch, hswitch, hmessage, bind, Except.bind]
  rfl

/-- Registering a free line succeeds. -/
theorem LineRun.register_free {procs : List Nat} {h : List (LineCall × Bool)} {i pid : Nat}
    (hrun : LineRun (firstFit Layout.least) handlersAt K procs h) (hcur : K.currentProcess ≠ NULL)
    (hi : i < NUM_HANDLERS) (hpid : pid < 2 ^ 32) (hfree : irqHandler handlersAt K.mem i = 0) :
    LineRun (firstFit Layout.least) handlersAt
      { K with mem := store32 K.mem (irqSlot handlersAt i) pid } procs
      (h ++ [(.take i pid, true)]) := by
  have hregister : registerHandlerProcess handlersAt K.mem i pid
      = (1, store32 K.mem (irqSlot handlersAt i) pid) := if_neg (not_not.mpr hfree)
  have hnext := hrun.register hcur hi hpid
  rw [hregister] at hnext
  exact hnext

/-- So does giving back one's own line. -/
theorem LineRun.reset_owner {procs : List Nat} {h : List (LineCall × Bool)} {i pid : Nat}
    (hrun : LineRun (firstFit Layout.least) handlersAt K procs h) (hcur : K.currentProcess ≠ NULL)
    (hi : i < NUM_HANDLERS) (hpid : pid < 2 ^ 32) (howner : irqHandler handlersAt K.mem i = pid) :
    LineRun (firstFit Layout.least) handlersAt
      { K with mem := store32 K.mem (irqSlot handlersAt i) 0 } procs
      (h ++ [(.giveBack i pid, true)]) := by
  have hreset : resetHandlerProcess handlersAt K.mem i pid
      = (1, store32 K.mem (irqSlot handlersAt i) 0) := if_pos howner
  have hnext := hrun.reset hcur hi hpid
  rw [hreset] at hnext
  exact hnext

/-- The process 5 registers for the keyboard and gives the line back, then the process 1 registers,
and a key is pressed. -/
theorem line_ownership_keyboard : ∃ K K' : Kernel Unit,
    irqBranch handlersAt (firstFit Layout.least).toHeap K 0 0 0x21 Message.blank = .ok (0, K') ∧
    LineLaw (firstFit Layout.least) handlersAt [loneProcess] K'
      [(.take 0x21 5, true), (.giveBack 0x21 5, true), (.take 0x21 1, true)] := by
  obtain ⟨K, hlone⟩ := loneKernel
  have hcur : K.currentProcess ≠ NULL := by
    rw [hlone.current]
    decide
  obtain ⟨m, hrun, hzero, hkeep⟩ := hlone.cleared
  have hstore : ∀ (m : Mem) (v : Nat), v < 2 ^ 32 →
      irqHandler handlersAt (store32 m (irqSlot handlersAt 0x21) v) 0x21 = v := fun m v hv => by
    rw [irqHandler_store (by decide) (by decide) (by decide), if_pos rfl, Nat.mod_eq_of_lt hv]
  have hslot : irqSlot handlersAt 0x21 = handlersAt + 132 := by decide
  have hrun := hrun.register_free hcur (by decide) (show 5 < 2 ^ 32 by decide)
    (hzero 0x21 (by decide))
  have hrun := hrun.reset_owner hcur (by decide) (show 5 < 2 ^ 32 by decide)
    (hstore m 5 (by decide))
  have hrun := hrun.register_free hcur (by decide) (show 1 < 2 ^ 32 by decide)
    (hstore _ 0 (by decide))
  -- the key
  have hkept : ∀ x, ¬ (irqTable handlersAt).Has x →
      store32 (store32 (store32 m (irqSlot handlersAt 0x21) 5) (irqSlot handlersAt 0x21) 0)
        (irqSlot handlersAt 0x21) 1 x = K.mem x := by
    intro x hx
    simp only [Block.Has, irqTable] at hx
    rw [store32_of_outside (by omega), store32_of_outside (by omega),
      store32_of_outside (by omega)]
    exact hkeep x hx
  have hlast := hlone.table hkept (hstore _ 1 (by decide))
  obtain ⟨K', -, hkey⟩ := hlast.interrupt Message.blank
  have hrun := hrun.interrupt (by decide) (by decide) hkey
  exact ⟨_, K', hkey, line_ownership handlersAt_table hrun (by decide)⟩

/-- The process 0 registers for the keyboard, and with nobody giving the line back so does the
process 5. -/
theorem line_ownership_fails : ∃ K : Kernel Unit,
    LineRun (firstFit Layout.least) handlersAt K [loneProcess]
      [(.take 0x21 0, true), (.take 0x21 5, true)] ∧
    ¬ LineLaw (firstFit Layout.least) handlersAt [loneProcess] K
      [(.take 0x21 0, true), (.take 0x21 5, true)] := by
  obtain ⟨K, hlone⟩ := loneKernel
  have hcur : K.currentProcess ≠ NULL := by
    rw [hlone.current]
    decide
  obtain ⟨m, hrun, hzero, -⟩ := hlone.cleared
  have hfirst := hrun.register_free hcur (by decide) (show 0 < 2 ^ 32 by decide)
    (hzero 0x21 (by decide))
  have hfree : irqHandler handlersAt (store32 m (irqSlot handlersAt 0x21) 0) 0x21 = 0 :=
    irqHandler_store (by decide) (by decide) (by decide)
  have hsecond := hfirst.register_free hcur (by decide) (show 5 < 2 ^ 32 by decide) hfree
  refine ⟨_, hsecond, fun hlaw => ?_⟩
  obtain ⟨e, he, -⟩ := hlaw.handover [] [] [] 0x21 0 5 rfl
  exact List.not_mem_nil he

end

end DayOS
