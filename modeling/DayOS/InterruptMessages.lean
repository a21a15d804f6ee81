import DayOS.LineOwners

set_option autoImplicit false

/-! # What an interrupt message is made of (`idt.c`, `message.c`)

`int_handler` keeps the message of an interrupt on its stack and sets the signal only.
`ksend_message` sets the sender and the receiver, and `copy_message` then copies all of it into the
node: the size and the 512 bytes of the body are what the kernel stack held before, and
`kreceive_message` hands them on. Two interrupts that find different stacks leave the same mailboxes
only where no message is sent or where the leftovers agree there (`interrupt_messages`).
-/

namespace DayOS

open ByteMemory Linked

/-! ## What a process can see -/

/-- The calls of `kreceive_message` for `process`, one after the other: what each returns, and
what it leaves in the caller's buffer. -/
def receiveAll (H : Heap) (process : Nat) : List (Message × UInt32) → Mem →
    Option (List (Nat × Option Message) × Mem)
  | [], m => some ([], m)
  | (buf, who) :: calls, m => do
      let (ret, out, m) ← kreceiveMessage H m process (some buf) who
      let (results, m) ← receiveAll H process calls m
      return ((ret, out) :: results, m)

/-- The processes find the same messages in their mailboxes, and receive the same. -/
structure SameMail {σ : Type} (H : Heap) (procs : List Nat) (K₁ K₂ : Kernel σ) : Prop where
  boxes : ∀ p ∈ procs, ∀ q,
    (∃ ns, Mailbox K₁.mem p ns q) ↔ ∃ ns, Mailbox K₂.mem p ns q
  receives : ∀ p ∈ procs, ∀ calls,
    (receiveAll H p calls K₁.mem).map Prod.fst = (receiveAll H p calls K₂.mem).map Prod.fst

/-- An interrupt without a message: no live process owns the line, or no process runs yet. -/
def Silent {σ : Type} (irqHandlers : Nat) (K : Kernel σ) (procs : List Nat) (intr : Nat) : Prop :=
  (∀ p, ¬ OwnsLine irqHandlers K procs intr p) ∨ K.currentProcess = NULL ∧ intr ≠ 0x20

section
variable {σ : Type} {A : Allocator} {irqHandlers : Nat} {procs : List Nat} {K K₁ K₂ : Kernel σ}
  {o : Origins} {nodes : Nat → List Nat} {live : List Block} {H : Heap}
  {ticks cpuOld intr st st₁ st₂ p : Nat} {stale₁ stale₂ : Message}

theorem SameMail.refl (K : Kernel σ) : SameMail H procs K K :=
  ⟨fun _ _ _ => Iff.rfl, fun _ _ _ => rfl⟩

/-! ## The message -/

/-- Of what the stack held before, the size and the body get into the message. -/
theorem irqMessage_congr (hsize : stale₁.size = stale₂.size)
    (hmessage : stale₁.message = stale₂.message) :
    irqMessage irqHandlers H K intr stale₁ = irqMessage irqHandlers H K intr stale₂ := by
  unfold irqMessage
  split
  case isFalse => rfl
  case isTrue =>
      cases getProcessByPid K (irqHandler irqHandlers K.mem intr) with
      | none => rfl
      | some proc =>
          unfold ksendMessage
          by_cases hquiet : K.currentProcess = NULL ∨ proc = NULL
          · simp only [if_pos hquiet]
          · simp only [if_neg hquiet, hsize, hmessage]

/-- A live owner finds its message behind the others. -/
theorem Traced.interrupt_box (ht : Traced A procs [] K o nodes live) (hT : TableAt A irqHandlers)
    (hi : intr < NUM_HANDLERS) (hp : OwnsLine irqHandlers K procs intr p)
    (hcur : ¬ (K.currentProcess = NULL ∧ intr ≠ 0x20))
    (hs : DayOS.irqSwitch K ticks cpuOld intr = .ok (st, K₁))
    (hm : irqMessage irqHandlers A.toHeap K₁ intr stale₁ = .ok K₂) :
    ∃ ns, Mailbox K₂.mem p ns (o.queue p ++
      [stamp K₁.mem K₁.currentProcess p { stale₁ with signal := UInt32.ofNat intr }]) := by
  obtain ⟨ht₁, -⟩ := ht.irqSwitch hs
  have hp₁ := (ht.ownsLine_switch hT hs).mpr hp
  have hreceiver := ht₁.irqReceiver_eq hi hp₁
  have hne₁ : K₁.currentProcess ≠ NULL := fun hnull => hcur ((ht.switch_current hs).mp hnull)
  rcases irqMessage_ok hm with ⟨hnull, -⟩ | ⟨ret, out, m', hsend, rfl⟩
  · rw [hreceiver] at hnull
    exact absurd hnull (ht₁.list.chain.ne_zero_of_mem hp₁.1)
  · rw [hreceiver] at hsend
    obtain ⟨-, ⟨nodes', live', ht'⟩, -⟩ :=
      ht₁.deliver (ht₁.current.resolve_left hne₁) hp₁.1 hsend none
    have hbox := ht'.boxes.box p hp₁.1
    rw [Origins.queue_update, Function.update_self, List.map_append] at hbox
    exact ⟨_, hbox⟩

/-- Who sees the same messages has been sent the same. -/
theorem SameMail.leftovers {o₁ : List Message} {msg₁ msg₂ : Message}
    (h : SameMail H procs K₁ K₂) (hp : p ∈ procs) (h₁ : ∃ ns, Mailbox K₁.mem p ns (o₁ ++ [msg₁]))
    (h₂ : ∃ ns, Mailbox K₂.mem p ns (o₁ ++ [msg₂])) : msg₁ = msg₂ := by
  obtain ⟨ns, hbox⟩ := (h.boxes p hp _).mp h₁
  obtain ⟨ns', hbox'⟩ := h₂
  have hsame := hbox.unique hbox'
  exact (List.cons.inj (List.append_cancel_left hsame)).1

/-- **What the stack leaves in an interrupt message.** Two interrupts that differ in the contents of
the kernel stack leave the same mailboxes, and the same messages to receive, if and only if there
is no message or the leftovers agree on the size and the body. -/
theorem interrupt_messages (ht : Traced A procs [] K o nodes live) (hT : TableAt A irqHandlers)
    (hge : 0x20 ≤ intr) (hle : intr ≤ 0x2F)
    (h₁ : irqBranch irqHandlers A.toHeap K ticks cpuOld intr stale₁ = .ok (st₁, K₁))
    (h₂ : irqBranch irqHandlers A.toHeap K ticks cpuOld intr stale₂ = .ok (st₂, K₂)) :
    SameMail A.toHeap procs K₁ K₂ ↔ Silent irqHandlers K procs intr ∨
      stale₁.size = stale₂.size ∧ stale₁.message = stale₂.message := by
  have hi : intr < NUM_HANDLERS := by
    simp only [NUM_HANDLERS]
    omega
  obtain ⟨K₀, hs, hm₁⟩ := irqBranch_ok h₁
  obtain ⟨K₀', hs', hm₂⟩ := irqBranch_ok h₂
  obtain rfl : K₀ = K₀' := by
    rw [hs] at hs'
    exact (Prod.mk.inj (Except.ok.inj hs')).2
  constructor
  · intro hsame
    by_cases hsilent : Silent irqHandlers K procs intr
    · exact Or.inl hsilent
    · right
      obtain ⟨hown, hcur⟩ := not_or.mp hsilent
      obtain ⟨p, hp⟩ := not_forall_not.mp hown
      have hmsg := hsame.leftovers hp.1 (ht.interrupt_box hT hi hp hcur hs hm₁)
        (ht.interrupt_box hT hi hp hcur hs hm₂)
      have hsize := congrArg Message.size hmsg
      have hmessage := congrArg Message.message hmsg
      exact ⟨hsize, hmessage⟩
  · rintro (hsilent | ⟨hsize, hmessage⟩)
    · have hquiet : K₀.currentProcess = NULL ∨ irqReceiver irqHandlers K₀ intr = NULL := by
        rcases hsilent with hown | hcur
        · right
          by_contra hr
          have howner := (ht.irqSwitch hs).1.irqReceiver_owns hi hr
          exact hown _ ((ht.ownsLine_switch hT hs).mp howner)
        · exact Or.inl ((ht.switch_current hs).mpr hcur)
      rw [irqMessage_quiet hquiet hm₁, irqMessage_quiet hquiet hm₂]
      exact SameMail.refl K₀
    · rw [irqMessage_congr hsize hmessage, hm₂] at hm₁
      obtain rfl := Except.ok.inj hm₁
      exact SameMail.refl K₂

end

/-! ## Two leftovers -/

section
variable {K : Kernel Unit}

theorem LoneKernel.owns (hlone : LoneKernel K) :
    OwnsLine handlersAt K [loneProcess] 0x21 loneProcess := by
  refine ⟨List.mem_singleton_self _, ?_⟩
  rw [hlone.pid]
  exact (lines_eq_some (by decide) (by decide)).mpr hlone.handler

/-- A leftover sender does not get into the message. -/
theorem interrupt_messages_sender : ∃ K K₁ K₂ : Kernel Unit,
    irqBranch handlersAt (firstFit Layout.least).toHeap K 0 0 0x21 Message.blank = .ok (0, K₁) ∧
    irqBranch handlersAt (firstFit Layout.least).toHeap K 0 0 0x21
      { Message.blank with sender := 9 } = .ok (0, K₂) ∧
    SameMail (firstFit Layout.least).toHeap [loneProcess] K₁ K₂ := by
  obtain ⟨K, hlone⟩ := loneKernel
  obtain ⟨nodes, live, ht⟩ := (hlone.boot (fun _ _ => True)).traced
  obtain ⟨K₁, -, h₁⟩ := hlone.interrupt Message.blank
  obtain ⟨K₂, -, h₂⟩ := hlone.interrupt { Message.blank with sender := 9 }
  exact ⟨K, K₁, K₂, h₁, h₂, (interrupt_messages ht handlersAt_table (by decide) (by decide) h₁ h₂).mpr
    (Or.inr ⟨rfl, rfl⟩)⟩

/-- A leftover size does, and a body as well: the process finds them in its mailbox. -/
theorem interrupt_messages_fails : ∃ K K₁ K₂ : Kernel Unit,
    irqBranch handlersAt (firstFit Layout.least).toHeap K 0 0 0x21 Message.blank = .ok (0, K₁) ∧
    irqBranch handlersAt (firstFit Layout.least).toHeap K 0 0 0x21
      ⟨0, 0, 7, 0, Vector.replicate 512 0x5A⟩ = .ok (0, K₂) ∧
    ¬ SameMail (firstFit Layout.least).toHeap [loneProcess] K₁ K₂ := by
  obtain ⟨K, hlone⟩ := loneKernel
  obtain ⟨nodes, live, ht⟩ := (hlone.boot (fun _ _ => True)).traced
  obtain ⟨K₁, hm₁, h₁⟩ := hlone.interrupt Message.blank
  obtain ⟨K₂, hm₂, h₂⟩ := hlone.interrupt ⟨0, 0, 7, 0, Vector.replicate 512 0x5A⟩
  refine ⟨K, K₁, K₂, h₁, h₂, fun hsame => ?_⟩
  have hcur : ¬ (K.currentProcess = NULL ∧ 0x21 ≠ 0x20) := by
    rw [hlone.current]
    decide
  have hswitch : irqSwitch K 0 0 0x21 = .ok (0, K) := if_neg (by decide)
  have hmsg := hsame.leftovers (List.mem_singleton_self _)
    (ht.interrupt_box handlersAt_table (by decide) hlone.owns hcur hswitch hm₁)
    (ht.interrupt_box handlersAt_table (by decide) hlone.owns hcur hswitch hm₂)
  have hsize : (0 : UInt32) = 7 := congrArg Message.size hmsg
  exact absurd hsize (by decide)

end

end DayOS
