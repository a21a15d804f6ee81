import DayOS.MailboxLinks

set_option autoImplicit false

/-! # The tail pointer of a mailbox (`message.c`)

`messages.last` is written by `ksend_message` and by the branch of `kreceive_message` that looks
for a sender. The branch for `MESSAGE_ANY` does not write it, which is right as long as the node
it takes is not the last one: the pointer is right in every state of a run if and only if no
receive from anybody takes the only message (`mailbox_tail`).
-/

namespace DayOS

open ByteMemory Linked

/-- The tail pointer in the record at `p`: `NULL` exactly for an empty chain, otherwise the last
node of the chain, and in any case no freed node. -/
structure TailRight (m : Mem) (live : List Block) (p : Nat) : Prop where
  empty : msgLast m p = NULL ↔ msgFirst m p = NULL
  last : msgFirst m p ≠ NULL → ∃ ns, Chain (msgNext m) (msgFirst m p) (ns ++ [msgLast m p])
  inUse : msgLast m p ≠ NULL → nodeBlock (msgLast m p) ∈ live

/-- The tail pointers of all processes. -/
def TailsRight (A : Allocator) (procs : List Nat) (m : Mem) : Prop :=
  ∃ live, A.Holds m live ∧ ∀ p ∈ procs, TailRight m live p

/-- A receive from anybody by a process with one message. -/
def MailOp.TakesOnlyAny (queue : Nat → List Message) : MailOp → Prop
  | receive p (some _) who => who = MESSAGE_ANY ∧ (queue p).length = 1
  | _ => False

section
variable {A : Allocator} {m m' : Mem} {procs : List Nat} {nodes nodes' : Nat → List Nat}
  {queue queue' : Nat → List Message} {live live' : List Block} {p r s a y w new : Nat}
  {msg : Message} {who : UInt32} {op : MailOp} {res : Nat × Option Message}

/-! ## What the code stores there -/

theorem fillMessage_last {node : Nat} (hr : new + 540 ≤ r ∨ r + 52 ≤ new) (hlt : new < 2 ^ 32) :
    msgLast (fillMessage m r new node msg) r = new := by
  have hc : AgreeOn (store32 (store32 (store32 m (new + 536) node) (new + 532) NULL) (r + 16) new)
      (fillMessage m r new node msg) (r + 16) 4 := by
    intro a _ _
    simp only [fillMessage]
    rw [store32_of_outside (by omega), copyMessage_of_outside (by omega)]
  rw [msgLast, load32_congr hc, load32_store32, Nat.mod_eq_of_lt hlt]

/-- A send leaves the pointer at the new node. -/
theorem deliver_last (hr : (procBlock r).Apart (nodeBlock new)) (hlt : new < 2 ^ 32)
    (hd : deliver m r new msg = some m') : msgLast m' r = new := by
  simp only [deliver, Option.bind_eq_bind, Option.bind_eq_some_iff, Option.pure_def,
    Option.some.injEq, Prod.exists] at hd
  obtain ⟨node, m₁, -, rfl⟩ := hd
  exact fillMessage_last (Or.symm hr) hlt

theorem unlinkFirst_last (hs : UnlinkApart p a 0 w) (hw : msgNext m a = w) (hwlt : w < 2 ^ 32) :
    msgLast (unlinkFirst m p a) p = msgLast m p := by
  have hwp := hs.next_record
  obtain ⟨hout, -⟩ := unlinkFirst_spec hs hw hwlt
  exact load32_congr (fun x _ _ => hout x (by omega) (by omega))

theorem unlinkNode_last (hs : UnlinkApart p a y w) (hy : msgPrev m a = y) (hw : msgNext m a = w)
    (hylt : y < 2 ^ 32) :
    msgLast (unlinkNode m p a) p = if w = 0 then y else msgLast m p := by
  have hyp := hs.prev_record
  have hwp := hs.next_record
  have hap := hs.node_record
  obtain ⟨hy', hw'⟩ := unlinkBehind_links hs hy hw
  have hfront : msgLast (unlinkNode m p a) p = msgLast (unlinkBehind m p a) p :=
    load32_congr (fun x _ _ =>
      unlinkFront_of_outside hs hy' hw' (by omega) (by omega) (by omega))
  rw [hfront, unlinkBehind, hw]
  by_cases hw0 : w = 0
  · have hkeep : msgPrev (store32 m (p + 16) (msgPrev m a)) a = y :=
      (load32_store32_of_ne (by omega)).trans hy
    rw [if_neg (not_not.mpr hw0), if_pos hw0]
    simp only [hkeep]
    rw [msgLast, load32_store32_of_ne (by omega), load32_store32, hy, Nat.mod_eq_of_lt hylt]
  · rw [if_pos hw0, if_neg hw0]
    exact load32_store32_of_ne (by omega)

/-- Only the receive by sender looks after the pointer. -/
theorem Queue.unlinkFound_last {first : Nat} {pre post : List Nat} {q : List Message}
    (h : Queue m first (pre ++ a :: post) q) (hs : BoxApart p (pre ++ a :: post))
    (hany : who = MESSAGE_ANY → pre = []) :
    msgLast (unlinkFound m p who a) p
      = if who ≠ MESSAGE_ANY ∧ post = [] then pre.getLastD 0 else msgLast m p := by
  have hlt : ∀ k, (k = 0 ∨ k ∈ pre ++ a :: post) → k < 2 ^ 32 := by
    rintro k (rfl | hk)
    · decide
    · have := hs.range k hk
      omega
  have hylt : pre.getLastD 0 < 2 ^ 32 :=
    hlt _ ((getLastD_mem_or pre).imp_right (fun hm => List.mem_append_left _ hm))
  have hwlt : post.headD 0 < 2 ^ 32 :=
    hlt _ ((headD_mem_or post).imp_right
      (fun hm => List.mem_append_right _ (List.mem_cons_of_mem _ hm)))
  obtain ⟨hy, hw⟩ := h.neighbours
  unfold unlinkFound
  by_cases hwho : who = MESSAGE_ANY
  · rw [if_pos hwho, if_neg (fun hc => hc.1 hwho)]
    obtain rfl := hany hwho
    exact unlinkFirst_last hs.unlink hw hwlt
  · rw [if_neg hwho, unlinkNode_last hs.unlink hy hw hylt]
    have hend : post.headD 0 = 0 ↔ post = [] := by
      cases post with
      | nil => exact iff_of_true rfl rfl
      | cons w post =>
          exact iff_of_false (h.chain.ne_zero_of_mem (a := w) (by simp)) (List.cons_ne_nil _ _)
    simp only [hend, hwho, ne_eq, not_false_eq_true, true_and]

/-! ## One call -/

theorem Mailboxes.nodes_unique (h : Mailboxes A m procs nodes queue live)
    (h' : Mailboxes A m procs nodes' queue' live') (hp : p ∈ procs) : nodes p = nodes' p :=
  (h.box p hp).chain.unique (h'.box p hp).chain

/-- The pointer of a well-linked mailbox is right when it holds the last of its nodes. -/
theorem Mailboxes.tailRight (h : Mailboxes A m procs nodes queue live) (hp : p ∈ procs)
    (ht : msgLast m p = (nodes p).getLastD NULL) : TailRight m live p := by
  have hchain := (h.box p hp).chain
  have hlive := h.nodeLive p hp
  rcases List.eq_nil_or_concat (nodes p) with hnil | ⟨pre, z, hsnoc⟩
  · rw [hnil] at ht hchain
    have hlast : msgLast m p = NULL := ht
    have hfirst : msgFirst m p = NULL := hchain
    exact ⟨iff_of_true hlast hfirst, fun h0 => absurd hfirst h0, fun h0 => absurd hlast h0⟩
  · rw [hsnoc, List.concat_eq_append] at ht hchain hlive
    have hlast : msgLast m p = z := by simpa using ht
    have hz : z ≠ 0 := hchain.ne_zero_of_mem (by simp)
    have hfirst : msgFirst m p ≠ NULL := fun h0 => by simpa using hchain.eq_nil_iff.mp h0
    rw [← hlast] at hz hchain hlive
    exact ⟨iff_of_false hz hfirst, fun _ => ⟨pre, hchain⟩, fun _ => hlive _ (by simp)⟩

/-- The record of another process keeps its pointer. -/
theorem Mailboxes.last_eq (h : Mailboxes A m procs nodes queue live) (hr : r ∈ procs)
    (hlive : ∀ p ∈ procs, procBlock p ∈ live') (ht : Touches A live' r (nodes r) m m')
    (hp : p ∈ procs) (hpr : p ≠ r) : msgLast m' p = msgLast m p :=
  load32_congr (fun _ _ _ =>
    h.record_eq hr hlive ht hp (by omega) (fun he => absurd he hpr))

/-- A receive, with the nodes it leaves and the pointer. -/
theorem Mailboxes.receive_last (h : Mailboxes A m procs nodes queue live) (hp : p ∈ procs)
    {buf : Message} {ret : Nat} {out : Option Message}
    (hk : kreceiveMessage A.toHeap m p (some buf) who = some (ret, out, m')) :
    (takeOldest who (queue p) = none ∧ m' = m) ∨
    ∃ pre a post queue' live', nodes p = pre ++ a :: post ∧ (who = MESSAGE_ANY → pre = []) ∧
      Mailboxes A m' procs (Function.update nodes p (pre ++ post)) queue' live' ∧
      Touches A live' p (nodes p) m m' ∧ msgLast m' p
        = if who ≠ MESSAGE_ANY ∧ post = [] then pre.getLastD 0 else msgLast m p := by
  have hbox := h.box p hp
  have hap := h.boxApart hp
  rcases hbox.finds hap A.toHeap buf who with
    ⟨hnone, hres⟩ | ⟨msg, q', pre, a, post, -, hany, hf⟩
  · rw [hres] at hk
    simp only [Option.some.injEq, Prod.mk.injEq] at hk
    exact Or.inl ⟨hnone, hk.2.2.symm⟩
  rw [hf.take] at hk
  obtain ⟨-, -, hm, ht⟩ := h.take hp hf.split hf.unlinked hk
  refine Or.inr ⟨pre, a, post, _, _, hf.split, hany, hm, ht, ?_⟩
  have hlast := Queue.unlinkFound_last (hf.split ▸ hbox.toQueue) (hf.split ▸ hap) hany
  rw [← hlast]
  -- neither `kfree` nor the counter touches the pointer
  simp only [takeMessage, Option.bind_eq_bind, Option.bind_eq_some_iff, Option.pure_def,
    Option.some.injEq, Prod.mk.injEq] at hk
  obtain ⟨m₂, hm₂, -, -, rfl⟩ := hk
  have hfree : AgreeOn (unlinkFound m p who a) m₂ p 52 :=
    A.kfree_agree (hf.unlinked.holds h hp hf.split)
      (h.nodeLive p hp a (by simp [hf.split])) hm₂ (hm.procLive p hp)
  calc msgLast (store32 m₂ (p + 20) _) p = msgLast m₂ p := load32_store32_of_ne (by omega)
    _ = msgLast (unlinkFound m p who a) p := load32_congr (hfree.mono (by omega) (by omega))

/-- **One call** that is not a receive from anybody of the only message keeps the pointers
right. -/
theorem Mailboxes.step_tail (h : Mailboxes A m procs nodes queue live)
    (ht : ∀ p ∈ procs, msgLast m p = (nodes p).getLastD NULL) (hop : op.Among procs)
    (hx : op.exec A.toHeap m = some (res, m')) (hgood : ¬ op.TakesOnlyAny queue)
    (h' : Mailboxes A m' procs nodes' queue' live') :
    ∀ p ∈ procs, msgLast m' p = (nodes' p).getLastD NULL := by
  cases op with
  | send s r msg =>
      obtain ⟨hs, hr⟩ := hop
      simp only [MailOp.exec, Option.map_eq_some_iff, Prod.mk.injEq, Prod.exists] at hx
      obtain ⟨ret, out, m₁, hk, -, rfl⟩ := hx
      cases msg with
      | none =>
          simp only [ksendMessage, Option.some.injEq, Prod.mk.injEq] at hk
          obtain ⟨-, -, rfl⟩ := hk
          intro p hp
          rw [← h.nodes_unique h' hp]
          exact ht p hp
      | some msg =>
          have hs0 : s ≠ 0 := by
            have := (h.boxApart hs).process
            omega
          obtain ⟨-, -, new, m₂, hm₂, hd⟩ := h.send_eq hs0 hr hk
          obtain ⟨hm, htouch⟩ := h.deliver hr hm₂ hd
          intro p hp
          rw [← hm.nodes_unique h' hp]
          by_cases hpr : p = r
          · have hsa := h.sendApart hr (A.kmalloc_holds h.holds (by decide) hm₂)
            have hnew := hsa.newRange
            rw [hpr, deliver_last hsa.target (by omega) hd, Function.update_self]
            simp
          · rw [h.last_eq hr h.procLive htouch hp hpr, Function.update_of_ne hpr]
            exact ht p hp
  | receive r buf who =>
      simp only [MailOp.exec, Option.map_eq_some_iff, Prod.mk.injEq, Prod.exists] at hx
      obtain ⟨ret, out, m₁, hk, -, rfl⟩ := hx
      have hsame : m₁ = m → ∀ p ∈ procs, msgLast m₁ p = (nodes' p).getLastD NULL := by
        rintro rfl p hp
        rw [← h.nodes_unique h' hp]
        exact ht p hp
      cases buf with
      | none =>
          simp only [kreceiveMessage, true_or, if_true, Option.some.injEq, Prod.mk.injEq] at hk
          exact hsame hk.2.2.symm
      | some buf =>
          rcases h.receive_last hop hk with ⟨-, hm⟩ |
            ⟨pre, a, post, queue₁, live₁, hsplit, hany, hm, htouch, hlast⟩
          · exact hsame hm
          intro p hp
          rw [← hm.nodes_unique h' hp]
          by_cases hpr : p = r
          · have hold := ht r hop
            rw [hsplit] at hold
            rw [hpr, hlast, Function.update_self]
            -- the last node stays the last one unless it is taken
            rcases List.eq_nil_or_concat post with rfl | ⟨post', z, rfl⟩
            · have hwho : who ≠ MESSAGE_ANY := by
                intro hwho
                refine hgood ⟨hwho, ?_⟩
                rw [← (h.box r hop).msgs, hsplit, hany hwho]
                rfl
              rw [if_pos ⟨hwho, rfl⟩, List.append_nil]
            · have hend : pre ++ a :: (post' ++ [z]) = (pre ++ a :: post') ++ [z] := by simp
              rw [List.concat_eq_append] at hold ⊢
              rw [if_neg (by simp), hold, hend, ← List.append_assoc, List.getLastD_concat,
                List.getLastD_concat]
          · rw [h.last_eq hop hm.procLive htouch hp hpr, Function.update_of_ne hpr]
            exact ht p hp

/-- A receive from anybody of the only message leaves the pointer at the node it has freed. -/
theorem Mailboxes.step_tail_fails (h : Mailboxes A m procs nodes queue live)
    (ht : ∀ p ∈ procs, msgLast m p = (nodes p).getLastD NULL) (hop : op.Among procs)
    (hx : op.exec A.toHeap m = some (res, m')) (hbad : op.TakesOnlyAny queue) :
    ¬ TailsRight A procs m' := by
  cases op with
  | send => exact hbad.elim
  | receive p buf who =>
      cases buf with
      | none => exact hbad.elim
      | some buf =>
          obtain ⟨rfl, hone⟩ := hbad
          simp only [MailOp.exec, Option.map_eq_some_iff, Prod.mk.injEq, Prod.exists] at hx
          obtain ⟨ret, out, m₁, hk, -, rfl⟩ := hx
          rintro ⟨live₂, -, hright⟩
          have hbox := h.box p hop
          rcases h.receive_last hop hk with ⟨hnone, -⟩ |
            ⟨pre, a, post, queue₁, live₁, hsplit, hany, hm, -, hlast⟩
          · obtain ⟨msg, hmsg⟩ := List.length_eq_one_iff.mp hone
            rw [hmsg, takeOldest_eq_none] at hnone
            exact absurd (hnone msg List.mem_cons_self) (by simp [accepts])
          rw [← hbox.msgs, hsplit, hany rfl, List.length_map] at hone
          obtain rfl : post = [] := List.length_eq_zero_iff.mp (Nat.succ.inj hone)
          rw [hany rfl] at hsplit hm
          have hnode : msgLast m p = a := by
            rw [ht p hop, hsplit]
            rfl
          have hempty : msgFirst m₁ p = NULL := by
            have hchain := (hm.box p hop).chain
            rw [Function.update_self] at hchain
            exact hchain
          rw [if_neg (fun hc => hc.1 rfl), hnode] at hlast
          have hnull := (hright p hop).empty.mpr hempty
          have ha : a ≠ 0 := hbox.chain.ne_zero_of_mem (by simp [hsplit])
          exact ha (hlast.symm.trans hnull)

/-! ## Runs -/

/-- A run from mailboxes with right pointers. -/
theorem Mailboxes.tail_run {pid : Nat → UInt32} {ops : List MailOp}
    {results : List (Nat × Option Message)} (h : Mailboxes A m procs nodes queue live)
    (ht : ∀ p ∈ procs, msgLast m p = (nodes p).getLastD NULL)
    (hpid : ∀ p ∈ procs, pidOf m p = pid p) (hops : ∀ op ∈ ops, op.Among procs)
    (hx : MailOp.run A.toHeap m ops = some (results, m')) :
    (∀ done, done <+: ops → ∀ results₁ m₁,
        MailOp.run A.toHeap m done = some (results₁, m₁) → TailsRight A procs m₁) ↔
      ∀ done op, done ++ [op] <+: ops → ¬ op.TakesOnlyAny (MailOp.runSpec pid queue done).2 := by
  have hnow : TailsRight A procs m := ⟨live, h.holds, fun p hp => h.tailRight hp (ht p hp)⟩
  induction ops generalizing m nodes queue live results with
  | nil =>
      refine iff_of_true (fun done hdone results₁ m₁ hrun => ?_) (fun done op hdone => ?_)
      · rw [List.prefix_nil.mp hdone] at hrun
        simp only [MailOp.run, Option.some.injEq, Prod.mk.injEq] at hrun
        exact hrun.2 ▸ hnow
      · exact absurd (List.prefix_nil.mp hdone) (by simp)
  | cons op ops ih =>
      simp only [MailOp.run, Option.bind_eq_bind, Option.bind_eq_some_iff, Option.pure_def,
        Option.some.injEq, Prod.mk.injEq, Prod.exists] at hx
      obtain ⟨ret, out, m₁, hop, rest, m₂, hrest, -, rfl⟩ := hx
      have hmem := hops op List.mem_cons_self
      have hfirst := fun done => MailOp.run_cons hop done
      by_cases hbad : op.TakesOnlyAny queue
      · refine iff_of_false (fun hall => ?_) (fun hnone => ?_)
        · refine h.step_tail_fails ht hmem hop hbad ?_
          exact hall [op] ((List.prefix_cons_inj op).mpr List.nil_prefix) _ _ (hfirst [])
        · exact hnone [] op ((List.prefix_cons_inj op).mpr List.nil_prefix) hbad
      obtain ⟨-, ⟨nodes₁, live₁, h₁⟩, hpids⟩ := h.step hmem hop
      have ht₁ := h.step_tail ht hmem hop hbad h₁
      rw [MailOp.spec_congr hmem hpid] at h₁
      have hlater := ih h₁ ht₁ (fun p hp => (hpids p hp).trans (hpid p hp))
        (fun o ho => hops o (List.mem_cons_of_mem _ ho)) hrest
        ⟨live₁, h₁.holds, fun p hp => h₁.tailRight hp (ht₁ p hp)⟩
      constructor
      · intro hall done o hdone
        cases done with
        | nil =>
            obtain ⟨rfl, -⟩ := List.cons_prefix_cons.mp hdone
            exact hbad
        | cons o' done =>
            obtain ⟨rfl, hdone₁⟩ := List.cons_prefix_cons.mp hdone
            refine hlater.mp (fun done' hdone' results₁ m₃ hrun => ?_) done o hdone₁
            exact hall (o' :: done') ((List.prefix_cons_inj o').mpr hdone') _ m₃
              (by rw [hfirst, hrun]; rfl)
      · intro hnone done hdone results₁ m₃ hrun
        cases done with
        | nil =>
            simp only [MailOp.run, Option.some.injEq, Prod.mk.injEq] at hrun
            exact hrun.2 ▸ hnow
        | cons o done =>
            obtain ⟨rfl, hdone₁⟩ := List.cons_prefix_cons.mp hdone
            rw [hfirst, Option.map_eq_some_iff] at hrun
            obtain ⟨⟨results₂, m₄⟩, hrun, he⟩ := hrun
            obtain rfl : m₄ = m₃ := congrArg Prod.snd he
            refine hlater.mpr (fun done' o' hdone' => ?_) done hdone₁ results₂ m₄ hrun
            exact hnone (o :: done') o' ((List.prefix_cons_inj o).mpr hdone')

/-- **The tail pointer.** In a run of sends and receives that starts with `first`, `last` and the
counter at zero, every tail pointer is right in every state if and only if no receive from
anybody takes the only message of its mailbox. -/
theorem mailbox_tail (A : Allocator) (procs : List Nat) (m₀ : Mem) (live : List Block)
    (hA : A.Holds m₀ live) (hlive : ∀ p ∈ procs, procBlock p ∈ live)
    (hempty : ∀ p ∈ procs, msgFirst m₀ p = NULL ∧ msgLast m₀ p = NULL ∧ numMessages m₀ p = 0)
    (ops : List MailOp) (hops : ∀ op ∈ ops, op.Among procs)
    (results : List (Nat × Option Message)) (m : Mem)
    (hrun : MailOp.run A.toHeap m₀ ops = some (results, m)) :
    (∀ done, done <+: ops → ∀ results₁ m₁,
        MailOp.run A.toHeap m₀ done = some (results₁, m₁) → TailsRight A procs m₁) ↔
      ∀ done op, done ++ [op] <+: ops →
        ¬ op.TakesOnlyAny (MailOp.runSpec (pidOf m₀) (fun _ => []) done).2 :=
  (Mailboxes.empty hA hlive (fun p hp => ⟨(hempty p hp).1, (hempty p hp).2.2⟩)).tail_run
    (fun p hp => (hempty p hp).2.1) (fun _ _ => rfl) hops hrun

end

/-- The pointer of a mailbox that has lost its newest message by sender is right. -/
theorem mailbox_tail_send : ∃ m₀ results m,
    MailOp.run (firstFit Layout.least).toHeap m₀ twoSenders = some (results, m) ∧
    TailsRight (firstFit Layout.least) [0x301020, 0x301064] m := by
  obtain ⟨m₀, hheap, hempty, -⟩ := two_processes
  obtain ⟨results, m, hrun⟩ := twoSenders_returns hheap
    (fun p hp => ⟨(hempty p hp).1, (hempty p hp).2.2⟩)
  have hright := (mailbox_tail (firstFit Layout.least) [0x301020, 0x301064] m₀ _ ⟨_, hheap⟩
    (by simp) hempty twoSenders (by simp [twoSenders, MailOp.Among]) results m hrun).mpr
  refine ⟨m₀, results, m, hrun, hright (fun done op hdone => ?_) _ (List.prefix_refl _) _ _ hrun⟩
  -- nobody asks for anybody's message
  have hop : op ∈ twoSenders := hdone.subset (by simp)
  simp only [twoSenders, List.mem_cons, List.not_mem_nil, or_false] at hop
  rcases hop with rfl | rfl | rfl
  · exact id
  · exact id
  · rintro ⟨hany, -⟩
    exact absurd hany (by decide)

/-- A process alone on the kernel's heap sends itself a message and takes it as anybody's. -/
theorem self_receive : ∃ m₀ results m, (firstFit Layout.least).Holds m₀ [procBlock 0x301020] ∧
    (msgFirst m₀ 0x301020 = NULL ∧ msgLast m₀ 0x301020 = NULL ∧ numMessages m₀ 0x301020 = 0) ∧
    MailOp.run (firstFit Layout.least).toHeap m₀
      [.send 0x301020 0x301020 (some Message.blank),
        .receive 0x301020 (some Message.blank) MESSAGE_ANY] = some (results, m) ∧
    msgFirst m 0x301020 = NULL ∧ msgLast m 0x301020 = 0x301064 := by
  obtain ⟨m₀, m₁, hholds, hzero, hk₁⟩ := self_process
  have hempty : msgFirst m₀ 0x301020 = NULL ∧ msgLast m₀ 0x301020 = NULL ∧
      numMessages m₀ 0x301020 = 0 :=
    ⟨load32_eq_zero (fun a ha _ => hzero a (by omega)),
      load32_eq_zero (fun a ha _ => hzero a (by omega)),
      load32_eq_zero (fun a ha _ => hzero a (by omega))⟩
  have hboxes : Mailboxes (firstFit Layout.least) m₀ [0x301020] (fun _ => []) (fun _ => [])
      [procBlock 0x301020] :=
    Mailboxes.empty hholds (by simp) (by simpa using ⟨hempty.1, hempty.2.2⟩)
  obtain ⟨m₂, hsend⟩ := hboxes.send_returns (s := 0x301020) (r := 0x301020) (by decide)
    (by simp) hk₁ Message.blank
  obtain ⟨-, -, new, m₁', hm₁', hd⟩ := hboxes.send_eq (by decide) (by simp) hsend
  obtain ⟨rfl, rfl⟩ : 0x301064 = new ∧ m₁ = m₁' := by simpa [hk₁] using hm₁'
  obtain ⟨h₂, -⟩ := hboxes.deliver (by simp) hk₁ hd
  have hlast : msgLast m₂ 0x301020 = 0x301064 := deliver_last (by decide) (by decide) hd
  have hsplit := h₂.box 0x301020 (by simp)
  simp only [Function.update_self, List.nil_append] at hsplit
  have htakes : takeOldest MESSAGE_ANY [stamp m₀ 0x301020 0x301020 Message.blank] ≠ none := by
    simp [takeOldest, accepts]
  obtain ⟨ret, out, m, hreceive⟩ := h₂.receive_returns (p := 0x301020) (by simp)
    (show ∀ n ∈ [0x301064], n < Layout.least.heapEnd by decide) Message.blank MESSAGE_ANY
  refine ⟨m₀, [(MESSAGE_SENT, some (stamp m₀ 0x301020 0x301020 Message.blank)), (ret, out)], m,
    hholds, hempty, ?_, ?_⟩
  · rw [MailOp.run_cons (MailOp.exec_send hsend), MailOp.run_cons (MailOp.exec_receive hreceive)]
    rfl
  rcases h₂.receive_last (by simp) hreceive with ⟨hnone, -⟩ |
    ⟨pre, a, post, queue₁, live₁, hnodes, hany, hm, -, hkept⟩
  · simp only [Function.update_self, List.nil_append] at hnone
    exact absurd hnone htakes
  rw [hany rfl, Function.update_self, List.nil_append, List.nil_append] at hnodes
  obtain ⟨rfl, rfl⟩ := List.cons_eq_cons.mp hnodes
  refine ⟨?_, ?_⟩
  · have hchain := (hm.box 0x301020 (by simp)).chain
    rw [hany rfl, Function.update_self] at hchain
    exact hchain
  · rw [hkept, if_neg (fun hc => hc.1 rfl), hlast]

/-- A process that takes its own message as anybody's keeps a pointer to the freed node. -/
theorem mailbox_tail_fails : ∃ m₀ results m,
    (firstFit Layout.least).Holds m₀ [procBlock 0x301020] ∧
    (msgFirst m₀ 0x301020 = NULL ∧ msgLast m₀ 0x301020 = NULL ∧ numMessages m₀ 0x301020 = 0) ∧
    MailOp.run (firstFit Layout.least).toHeap m₀
      [.send 0x301020 0x301020 (some Message.blank),
        .receive 0x301020 (some Message.blank) MESSAGE_ANY] = some (results, m) ∧
    msgFirst m 0x301020 = NULL ∧ msgLast m 0x301020 = 0x301064 ∧
    ¬ TailsRight (firstFit Layout.least) [0x301020] m := by
  obtain ⟨m₀, results, m, hholds, hempty, hrun, hfirst, hlast⟩ := self_receive
  refine ⟨m₀, results, m, hholds, hempty, hrun, hfirst, hlast, ?_⟩
  rintro ⟨live, -, hright⟩
  have hnull := (hright 0x301020 (by simp)).empty.mpr hfirst
  rw [hlast] at hnull
  exact absurd hnull (by decide)

end DayOS
