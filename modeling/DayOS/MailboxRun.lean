import DayOS.Mailbox

set_option autoImplicit false

/-! # Mailboxes as FIFO lists

The abstract mailbox is a list of messages. A send appends, a receive takes the oldest
message it accepts and leaves the order of the others. Any interleaving of sends and
receives among any number of processes refines this (`mailbox_refinement`), over any
allocator that keeps its bargain.
-/

namespace DayOS

open ByteMemory Linked

/-! ## The abstract mailbox -/

/-- `who` names a sender, or is `MESSAGE_ANY`. -/
def accepts (who : UInt32) (msg : Message) : Bool := who == MESSAGE_ANY || msg.sender == who

/-- Take the oldest acceptable message out of a list. -/
def takeOldest (who : UInt32) (q : List Message) : Option (Message × List Message) :=
  (q.find? (accepts who)).map (fun msg => (msg, q.eraseP (accepts who)))

/-- What is queued: the message with the processes' pids stamped on it. -/
def stamp (m : Mem) (sender receiver : Nat) (msg : Message) : Message :=
  { msg with
    sender := UInt32.ofNat (procPid m sender)
    receiver := UInt32.ofNat (procPid m receiver) }

/-- An oldest acceptable message splits the list. -/
theorem takeOldest_eq_some {who : UInt32} {q q' : List Message} {msg : Message}
    (h : takeOldest who q = some (msg, q')) :
    ∃ pre post, q = pre ++ msg :: post ∧ q' = pre ++ post ∧ accepts who msg = true ∧
      ∀ x ∈ pre, accepts who x = false := by
  simp only [takeOldest, Option.map_eq_some_iff, Prod.mk.injEq] at h
  obtain ⟨x, hx, rfl, rfl⟩ := h
  obtain ⟨hacc, pre, post, rfl, hpre⟩ := List.find?_eq_some_iff_append.mp hx
  have hpre' : ∀ y ∈ pre, ¬ accepts who y = true := by simpa using hpre
  refine ⟨pre, post, rfl, ?_, hacc, by simpa using hpre⟩
  rw [List.eraseP_append_right _ hpre', List.eraseP_cons_of_pos hacc]

/-! ## All mailboxes of a system -/

/-- The mailboxes of the processes `procs`, over the blocks `live` in use: each process holds
its own nodes, and every node and record is a block in use. -/
structure Mailboxes (A : Allocator) (m : Mem) (procs : List Nat) (nodes : Nat → List Nat)
    (queue : Nat → List Message) (live : List Block) : Prop where
  holds : A.Holds m live
  procLive : ∀ p ∈ procs, procBlock p ∈ live
  nodeLive : ∀ p ∈ procs, ∀ n ∈ nodes p, nodeBlock n ∈ live
  box : ∀ p ∈ procs, Mailbox m p (nodes p) (queue p)
  unshared : ∀ p ∈ procs, ∀ r ∈ procs, p ≠ r → List.Disjoint (nodes p) (nodes r)

variable {A : Allocator} {m m' : Mem} {procs : List Nat} {nodes : Nat → List Nat}
  {queue : Nat → List Message} {live : List Block} {p r : Nat}

theorem nodeBlock_ne_procBlock (n p : Nat) : nodeBlock n ≠ procBlock p := by
  simp [nodeBlock, procBlock, sizeofMessageNode, sizeofProcess]

theorem Mailboxes.boxApart (h : Mailboxes A m procs nodes queue live) (hp : p ∈ procs) :
    BoxApart p (nodes p) where
  process := A.addr_ge h.holds (h.procLive p hp)
  range n hn := ⟨A.addr_ge h.holds (h.nodeLive p hp n hn), A.fin_le h.holds (h.nodeLive p hp n hn)⟩
  record n hn := A.apart_of_ne h.holds (h.nodeLive p hp n hn) (h.procLive p hp)
    (nodeBlock_ne_procBlock n p)
  nodes := by
    refine List.Pairwise.imp_of_mem ?_ (h.box p hp).chain.nodup
    intro a b ha hb hne
    refine A.apart_of_ne h.holds (h.nodeLive p hp a ha) (h.nodeLive p hp b hb) ?_
    simpa [nodeBlock] using hne

/-- The nodes of a mailbox are 540 bytes each and do not overlap, so they are few. -/
theorem BoxApart.length_le {ns : List Nat} (h : BoxApart p ns) : 540 * ns.length ≤ 2 ^ 32 :=
  Block.length_mul_le ns h.nodes (fun n hn => (h.range n hn).2)

/-- Some of the mailboxes survive a step that changes no byte of theirs. -/
theorem Mailboxes.keep (h : Mailboxes A m procs nodes queue live) {procs' : List Nat}
    {live' : List Block} (hsub : ∀ p ∈ procs', p ∈ procs) (hholds : A.Holds m' live')
    (hproc : ∀ p ∈ procs', procBlock p ∈ live' ∧ AgreeOn m m' (p + 12) 12)
    (hnode : ∀ p ∈ procs', ∀ n ∈ nodes p, nodeBlock n ∈ live' ∧
      AgreeOn m m' n sizeofMessageNode) : Mailboxes A m' procs' nodes queue live' where
  holds := hholds
  procLive p hp := (hproc p hp).1
  nodeLive p hp n hn := (hnode p hp n hn).1
  box p hp := (h.box p (hsub p hp)).congr (hproc p hp).2 (fun n hn => (hnode p hp n hn).2)
  unshared p hp r hr := h.unshared p (hsub p hp) r (hsub r hr)

/-- Mailboxes survive an allocation. -/
theorem Mailboxes.kmalloc (h : Mailboxes A m procs nodes queue live) {n : Nat} (hn : 0 < n)
    (hk : A.kmalloc m n = some (p, m')) :
    Mailboxes A m' procs nodes queue (⟨p, n⟩ :: live) := by
  refine h.keep (fun _ => id) (A.kmalloc_holds h.holds hn hk) (fun r hr => ?_)
    (fun r hr k hk' => ?_)
  · have hlive := h.procLive r hr
    refine ⟨List.mem_cons_of_mem _ hlive, (A.kmalloc_agree h.holds hn hk hlive).mono ?_ ?_⟩
    · simp [procBlock]
    · simp [procBlock, sizeofProcess]
  · have hlive := h.nodeLive r hr k hk'
    exact ⟨List.mem_cons_of_mem _ hlive, A.kmalloc_agree h.holds hn hk hlive⟩

/-! ## One send -/

section
variable {s new : Nat} {msg : Message}

theorem ksendMessage_some (H : Heap) (hs : s ≠ 0) (hr : r ≠ 0) :
    ksendMessage H m s r (some msg) = (H.kmalloc m sizeofMessageNode).bind (fun x =>
      (deliver x.2 r x.1 (stamp m s r msg)).map
        (fun m' => (MESSAGE_SENT, some (stamp m s r msg), m'))) := by
  simp only [ksendMessage, NULL, hs, hr, or_self, if_false]
  cases hk : H.kmalloc m sizeofMessageNode with
  | none => rfl
  | some x =>
      obtain ⟨new, m₁⟩ := x
      simp only [Option.bind_eq_bind, Option.bind_some, deliver]
      cases hangMessage m₁ r new <;> rfl

/-- What a step that touches the mailbox of `r` only leaves alone: every byte the heap may
not write or that belongs to a block in use, outside the nodes `ns` and three words of the
record. -/
def Touches (A : Allocator) (live : List Block) (r : Nat) (ns : List Nat) (m m' : Mem) : Prop :=
  ∀ a, 0x1000 ≤ a → (¬ A.arena a ∨ ∃ b ∈ live, b.Has a) → (∀ n ∈ ns, ¬ (nodeBlock n).Has a) →
    ¬ (r + 12 ≤ a ∧ a < r + 24) → m' a = m a

theorem Mailboxes.sendApart (h : Mailboxes A m procs nodes queue live) (hr : r ∈ procs)
    (hnew : A.Holds m' (nodeBlock new :: live)) : SendApart r new (nodes r) where
  toBoxApart := h.boxApart hr
  newRange := ⟨A.addr_ge hnew List.mem_cons_self, A.fin_le hnew List.mem_cons_self⟩
  target := ((List.pairwise_cons.mp (A.apart hnew)).1 _ (h.procLive r hr)).symm
  fresh n hn := ((List.pairwise_cons.mp (A.apart hnew)).1 _ (h.nodeLive r hr n hn)).symm

/-- A step that replaces the mailbox of `r` and touches nothing else keeps all the others. -/
theorem Mailboxes.replace (h : Mailboxes A m procs nodes queue live) (hr : r ∈ procs)
    {ns : List Nat} {q : List Message} {live' : List Block} {old : List Nat}
    (hholds : A.Holds m' live') (hbox : Mailbox m' r ns q)
    (hold : ∀ p ∈ procs, p ≠ r → List.Disjoint (nodes p) old)
    (holdLive : ∀ n ∈ old, nodeBlock n ∈ live)
    (hns : ∀ n ∈ ns, nodeBlock n ∈ live')
    (hnsNew : ∀ p ∈ procs, p ≠ r → List.Disjoint (nodes p) ns)
    (hlive : ∀ b ∈ live, b ∉ old.map nodeBlock → b ∈ live')
    (htouch : Touches A live r old m m') :
    Mailboxes A m' procs (Function.update nodes r ns) (Function.update queue r q) live' := by
  have hkeep : ∀ p ∈ procs, ∀ b ∈ live, (b = procBlock p ∧ p ≠ r ∨ ∃ n ∈ nodes p, p ≠ r ∧
      b = nodeBlock n) → AgreeOn m m' b.addr b.size := by
    intro p hp b hb hcase a ha ha'
    have hrb := h.procLive r hr
    refine htouch a ?_ (Or.inr ⟨b, hb, ha, ha'⟩) (fun n hn hna => ?_) (fun hra => ?_)
    · exact le_trans (A.addr_ge h.holds hb) ha
    · have hne : b ≠ nodeBlock n := by
        rcases hcase with ⟨rfl, -⟩ | ⟨k, hk, hpr, rfl⟩
        · exact (nodeBlock_ne_procBlock n p).symm
        · intro he
          obtain rfl : k = n := by simpa [nodeBlock] using he
          exact hold p hp hpr hk hn
      exact (A.apart_of_ne h.holds hb (holdLive n hn) hne).not_has ⟨ha, ha'⟩ hna
    · have hne : b ≠ procBlock r := by
        rcases hcase with ⟨rfl, hpr⟩ | ⟨k, hk, hpr, rfl⟩
        · intro he
          exact hpr (by simpa [procBlock] using he)
        · exact nodeBlock_ne_procBlock k r
      refine (A.apart_of_ne h.holds hb hrb hne).not_has ⟨ha, ha'⟩ ?_
      simp only [Block.Has, procBlock, sizeofProcess]
      omega
  have hproc : ∀ p ∈ procs, procBlock p ∈ live' := by
    intro p hp
    refine hlive _ (h.procLive p hp) (fun hmem => ?_)
    obtain ⟨n, -, he⟩ := List.mem_map.mp hmem
    exact nodeBlock_ne_procBlock n p he
  refine ⟨hholds, hproc, ?_, ?_, ?_⟩
  · intro p hp n hn
    by_cases hpr : p = r
    · subst hpr
      rw [Function.update_self] at hn
      exact hns n hn
    · rw [Function.update_of_ne hpr] at hn
      refine hlive _ (h.nodeLive p hp n hn) (fun hmem => ?_)
      obtain ⟨k, hk, he⟩ := List.mem_map.mp hmem
      obtain rfl : k = n := by simpa [nodeBlock] using he
      exact hold p hp hpr hn hk
  · intro p hp
    by_cases hpr : p = r
    · subst hpr
      simpa using hbox
    · rw [Function.update_of_ne hpr, Function.update_of_ne hpr]
      refine (h.box p hp).congr ?_ (fun n hn => ?_)
      · refine (hkeep p hp _ (h.procLive p hp) (Or.inl ⟨rfl, hpr⟩)).mono ?_ ?_
        · simp [procBlock]
        · simp [procBlock, sizeofProcess]
      · exact hkeep p hp _ (h.nodeLive p hp n hn) (Or.inr ⟨n, hn, hpr, rfl⟩)
  · intro p hp p' hp' hne
    by_cases hpr : p = r
    · subst hpr
      rw [Function.update_self, Function.update_of_ne (Ne.symm hne)]
      exact (hnsNew p' hp' (Ne.symm hne)).symm
    · by_cases hpr' : p' = r
      · subst hpr'
        rw [Function.update_of_ne hpr, Function.update_self]
        exact hnsNew p hp hpr
      · rw [Function.update_of_ne hpr, Function.update_of_ne hpr']
        exact h.unshared p hp p' hp' hne

/-- A send comes back once its node is allocated. -/
theorem Mailboxes.send_returns (h : Mailboxes A m procs nodes queue live) (hs : s ≠ 0)
    (hr : r ∈ procs) {m₁ : Mem} (hk : A.kmalloc m sizeofMessageNode = some (new, m₁))
    (msg : Message) : ∃ m', ksendMessage A.toHeap m s r (some msg)
      = some (MESSAGE_SENT, some (stamp m s r msg), m') := by
  have hr0 : r ≠ 0 := by
    have := (h.boxApart hr).process
    omega
  have hnew : A.Holds m₁ (nodeBlock new :: live) := A.kmalloc_holds h.holds (by decide) hk
  have hbox₁ : Mailbox m₁ r (nodes r) (queue r) := (h.kmalloc (by decide) hk).box r hr
  have hsa := h.sendApart hr hnew
  obtain ⟨m₃, hd, -⟩ := deliver_mailbox (stamp m s r msg) hbox₁ hsa
    (by have := hsa.length_le; omega)
  refine ⟨m₃, ?_⟩
  rw [ksendMessage_some _ hs hr0, hk, Option.bind_some, hd]
  rfl

/-- A message delivered in a new node stands at the end of the receiver's mailbox, and no other
mailbox changes. -/
theorem Mailboxes.deliver (h : Mailboxes A m procs nodes queue live) (hr : r ∈ procs) {m₁ : Mem}
    (hm₁ : A.kmalloc m sizeofMessageNode = some (new, m₁))
    (hd : DayOS.deliver m₁ r new msg = some m') :
    Mailboxes A m' procs (Function.update nodes r (nodes r ++ [new]))
      (Function.update queue r (queue r ++ [msg])) (nodeBlock new :: live) ∧
    Touches A live r (nodes r) m m' := by
  have hnew : A.Holds m₁ (nodeBlock new :: live) := A.kmalloc_holds h.holds (by decide) hm₁
  have hfresh : ∀ b ∈ live, (nodeBlock new).Apart b := (List.pairwise_cons.mp (A.apart hnew)).1
  have hsa := h.sendApart hr hnew
  have hkeeps := A.kmalloc_keeps h.holds (by decide) hm₁
  -- allocation leaves the receiver's mailbox as it was
  have hbox₁ : Mailbox m₁ r (nodes r) (queue r) := (h.kmalloc (by decide) hm₁).box r hr
  obtain ⟨m₃, hd', hbox, hframe⟩ := deliver_mailbox msg hbox₁ hsa
    (by have := hsa.length_le; omega)
  obtain rfl : m₃ = m' := by simpa [hd] using hd'.symm
  have hnotNew : ∀ a, (¬ A.arena a ∨ ∃ b ∈ live, b.Has a) → ¬ (nodeBlock new).Has a := by
    rintro a (ha | ⟨b, hb, hba⟩) hna
    · exact ha ((A.inArena hnew _ List.mem_cons_self).2 a hna)
    · exact (hfresh b hb).not_has hna hba
  have htouch : Touches A live r (nodes r) m m₃ := by
    intro a _ ha hn hra
    refine (hframe a ?_ hra).trans (hkeeps a ha)
    exact List.forall_mem_cons.mpr ⟨hnotNew a ha, hn⟩
  have hholds : A.Holds m₃ (nodeBlock new :: live) := by
    refine A.write hnew (fun a _ hb => hframe a ?_ (fun hra => ?_))
    · refine List.forall_mem_cons.mpr ⟨hb _ List.mem_cons_self, fun n hn => ?_⟩
      exact hb _ (List.mem_cons_of_mem _ (h.nodeLive r hr n hn))
    · refine hb _ (List.mem_cons_of_mem _ (h.procLive r hr)) ?_
      simp only [Block.Has, procBlock, sizeofProcess]
      omega
  have hnotShared : ∀ p ∈ procs, new ∉ nodes p := fun p hp hmem =>
    (Allocator.nodup hnew).notMem (h.nodeLive p hp new hmem)
  refine ⟨h.replace hr hholds hbox (fun p hp hne => h.unshared p hp r hr hne)
    (h.nodeLive r hr) ?_ (fun p hp hne => ?_) (fun b hb _ => List.mem_cons_of_mem _ hb) htouch,
    htouch⟩
  · intro n hn
    rcases List.mem_append.mp hn with hn | hn
    · exact List.mem_cons_of_mem _ (h.nodeLive r hr n hn)
    · rw [List.mem_singleton.mp hn]
      exact List.mem_cons_self
  · rw [List.disjoint_append_right]
    exact ⟨h.unshared p hp r hr hne, by simpa using hnotShared p hp⟩

/-- A send that returns has delivered the stamped message in a new node. -/
theorem Mailboxes.send_eq (h : Mailboxes A m procs nodes queue live) (hs : s ≠ 0) (hr : r ∈ procs)
    {ret : Nat} {out : Option Message}
    (hk : ksendMessage A.toHeap m s r (some msg) = some (ret, out, m')) :
    ret = MESSAGE_SENT ∧ out = some (stamp m s r msg) ∧ ∃ new m₁,
      A.kmalloc m sizeofMessageNode = some (new, m₁) ∧
      DayOS.deliver m₁ r new (stamp m s r msg) = some m' := by
  have hr0 : r ≠ 0 := by
    have := A.addr_ge h.holds (h.procLive r hr)
    simp only [procBlock] at this
    omega
  rw [ksendMessage_some _ hs hr0] at hk
  simp only [Option.bind_eq_some_iff, Option.map_eq_some_iff, Prod.mk.injEq, Prod.exists] at hk
  obtain ⟨new, m₁, hm₁, m₂, hd, rfl, rfl, rfl⟩ := hk
  exact ⟨rfl, rfl, new, m₁, hm₁, hd⟩

/-- **A send appends** the stamped message to the receiver's mailbox and to no other. -/
theorem Mailboxes.send (h : Mailboxes A m procs nodes queue live) (hs : s ≠ 0) (hr : r ∈ procs)
    {ret : Nat} {out : Option Message}
    (hk : ksendMessage A.toHeap m s r (some msg) = some (ret, out, m')) :
    ret = MESSAGE_SENT ∧ out = some (stamp m s r msg) ∧ ∃ new,
      Mailboxes A m' procs (Function.update nodes r (nodes r ++ [new]))
        (Function.update queue r (queue r ++ [stamp m s r msg])) (nodeBlock new :: live) ∧
      Touches A live r (nodes r) m m' := by
  obtain ⟨hret, hout, new, m₁, hm₁, hd⟩ := h.send_eq hs hr hk
  exact ⟨hret, hout, new, h.deliver hr hm₁ hd⟩

end

/-! ## One receive -/

section
variable {who : UInt32} {q : List Message} {ns : List Nat} {buf msg : Message} {a : Nat}
  {pre post : List Nat}

/-- The receive that finds `a`: it unlinks `a` and takes its message. -/
structure Finds (H : Heap) (m : Mem) (p : Nat) (ns : List Nat) (buf : Message) (who : UInt32)
    (msg : Message) (q' : List Message) (m₁ : Mem) (pre : List Nat) (a : Nat)
    (post : List Nat) : Prop where
  split : ns = pre ++ a :: post
  message : readMessage m a = msg
  rest : q' = (pre ++ post).map (readMessage m)
  unlinked : Unlinked m m₁ p a pre post
  take : kreceiveMessage H m p (some buf) who = takeMessage H m₁ p a

theorem takeOldest_map {f : Nat → Message} {ns : List Nat} (pre : List Nat) {post : List Nat}
    (hns : ns = pre ++ a :: post) (hpre : ∀ n ∈ pre, accepts who (f n) = false)
    (ha : accepts who (f a) = true) :
    takeOldest who (ns.map f) = some (f a, (pre ++ post).map f) := by
  have hpre' : ∀ x ∈ pre.map f, ¬ accepts who x = true := by
    intro x hx
    obtain ⟨n, hn, rfl⟩ := List.mem_map.mp hx
    simp [hpre n hn]
  subst hns
  rw [List.map_append, List.map_cons, takeOldest, List.find?_append,
    List.find?_eq_none.mpr hpre', List.find?_cons_of_pos ha, List.eraseP_append_right _ hpre',
    List.eraseP_cons_of_pos ha]
  simp

theorem takeOldest_eq_none {q : List Message} :
    takeOldest who q = none ↔ ∀ x ∈ q, accepts who x = false := by
  simp [takeOldest]

/-- The `MESSAGE_ANY` branch, behind its guards. -/
theorem kreceiveMessage_any {H : Heap} {node : Nat} (hfirst : msgFirst m p = node)
    (hnode : node ≠ NULL) (hnum : numMessages m p ≠ 0) (buf : Message) :
    kreceiveMessage H m p (some buf) MESSAGE_ANY = takeMessage H (unlinkFirst m p node) p node := by
  simp only [NULL] at hnode
  simp [kreceiveMessage, hfirst, hnode, hnum]

theorem takeMessage_of_kfree {H : Heap} {node : Nat} (hk : H.kfree m node = some m') :
    takeMessage H m p node = some (MESSAGE_RECEIVED, some (readMessage m node),
      store32 m' (p + 20) (numMessages m' p + 2 ^ 32 - 1)) := by
  simp only [takeMessage, hk, Option.bind_eq_bind, Option.bind_some, Option.pure_def]

/-- How a receive by `who` unlinks the node it has found. -/
def unlinkFound (m : Mem) (p : Nat) (who : UInt32) (a : Nat) : Mem :=
  if who = MESSAGE_ANY then unlinkFirst m p a else unlinkNode m p a

/-- **What a receive finds** is what the abstract mailbox would hand out. A receive from anybody
finds the first node. -/
theorem Mailbox.finds (h : Mailbox m p ns q) (hs : BoxApart p ns) (H : Heap) (buf : Message)
    (who : UInt32) :
    (takeOldest who q = none ∧
      kreceiveMessage H m p (some buf) who = some (MESSAGE_ERR_RECEIVE, some buf, m)) ∨
    ∃ msg q' pre a post, takeOldest who q = some (msg, q') ∧ (who = MESSAGE_ANY → pre = []) ∧
      Finds H m p ns buf who msg q' (unlinkFound m p who a) pre a post := by
  have hlen := hs.length_le
  have hq : q = ns.map (readMessage m) := h.msgs.symm
  have hne : ∀ n ∈ ns, n ≠ NULL := fun n hn => h.chain.ne_zero_of_mem hn
  cases ns with
  | nil =>
      have h0 : msgFirst m p = 0 := h.chain
      refine Or.inl ⟨by simp [hq, takeOldest], ?_⟩
      simp [kreceiveMessage, h0]
  | cons c cs =>
      have hc : msgFirst m p = c := h.chain.head
      have hc0 : c ≠ 0 := hne c (by simp)
      have hnum : numMessages m p ≠ 0 := by
        rw [h.num]
        simp
      by_cases hany : who = MESSAGE_ANY
      · -- the oldest node of all, which heads the chain
        subst hany
        have hacc : ∀ x : Message, accepts MESSAGE_ANY x = true := fun x => by simp [accepts]
        refine Or.inr ⟨readMessage m c, cs.map (readMessage m), [], c, cs, ?_, fun _ => rfl,
          rfl, rfl, rfl, unlinkFirst_unlinked h.toQueue hs, ?_⟩
        · rw [hq]
          exact takeOldest_map (a := c) [] rfl (by simp) (hacc _)
        · exact kreceiveMessage_any hc hc0 hnum buf
      · have hscan : scan (fun n => nodeSender m n == who) (msgNext m) walkLimit c
            = some (((c :: cs).find? (fun n => nodeSender m n == who)).getD 0) :=
          scan_chain (hc ▸ h.chain) (by simp only [walkLimit]; omega) _
        have hacc : ∀ n, (nodeSender m n == who) = accepts who (readMessage m n) := by
          intro n
          have hne : (who == MESSAGE_ANY) = false := by simpa using hany
          simp [accepts, nodeSender, hne]
        cases hf : (c :: cs).find? (fun n => nodeSender m n == who) with
        | none =>
            refine Or.inl ⟨?_, ?_⟩
            · rw [hq, takeOldest_eq_none]
              intro x hx
              obtain ⟨n, hn, rfl⟩ := List.mem_map.mp hx
              rw [← hacc n]
              exact Bool.not_eq_true _ ▸ List.find?_eq_none.mp hf n hn
            · simp [kreceiveMessage, hc, hc0, hnum, hany, hscan, hf]
        | some a =>
            obtain ⟨ha, pre, post, hsplit, hpre⟩ := List.find?_eq_some_iff_append.mp hf
            have ha0 : a ≠ 0 := hne a (List.mem_of_find?_eq_some hf)
            rw [hsplit] at h hs
            have hunlink : unlinkFound m p who a = unlinkNode m p a := if_neg hany
            refine Or.inr ⟨readMessage m a, (pre ++ post).map (readMessage m), pre, a, post, ?_,
              fun he => absurd he hany, hsplit, rfl, rfl, ?_, ?_⟩
            · rw [hq]
              refine takeOldest_map _ hsplit (fun n hn => ?_) ?_
              · rw [← hacc n]
                simpa using hpre n hn
              · rw [← hacc a]
                exact ha
            · rw [hunlink]
              exact unlinkNode_unlinked h.toQueue hs
            · rw [hunlink]
              simp [kreceiveMessage, hc, hc0, hnum, hany, hscan, hf, ha0]

theorem Mailbox.find (h : Mailbox m p ns q) (hs : BoxApart p ns) (H : Heap) (buf : Message)
    (who : UInt32) :
    (takeOldest who q = none ∧
      kreceiveMessage H m p (some buf) who = some (MESSAGE_ERR_RECEIVE, some buf, m)) ∨
    ∃ msg q' m₁ pre a post, takeOldest who q = some (msg, q') ∧
      Finds H m p ns buf who msg q' m₁ pre a post := by
  rcases h.finds hs H buf who with hnone | ⟨msg, q', pre, a, post, hsome, -, hf⟩
  · exact Or.inl hnone
  · exact Or.inr ⟨msg, q', _, pre, a, post, hsome, hf⟩

/-- Unlinking keeps the heap's bargain: it writes into blocks in use and into page 0. -/
theorem Unlinked.holds {m₁ : Mem} (h : Mailboxes A m procs nodes queue live) (hp : p ∈ procs)
    (hsplit : nodes p = pre ++ a :: post) (hu : Unlinked m m₁ p a pre post) :
    A.Holds m₁ live := by
  refine A.write h.holds (fun x hx hb => hu.frame x (fun n hn hnx => ?_) (fun hpx => ?_)
    (A.arena_ge hx))
  · exact hb _ (h.nodeLive p hp n (hsplit ▸ hn)) hnx
  · refine hb _ (h.procLive p hp) ?_
    simp only [Block.Has, procBlock, sizeofProcess]
    omega

/-- The block `b` leaves the blocks in use, every other one stays. -/
theorem mem_erase_nodeBlock {n : Nat} (hne : n ≠ a) (hn : nodeBlock n ∈ live) :
    nodeBlock n ∈ live.erase (nodeBlock a) := by
  refine (List.mem_erase_of_ne ?_).mpr hn
  simpa [nodeBlock] using hne

/-- The end of a receive: the node goes back to the heap, the counter goes down. -/
theorem Mailboxes.take (h : Mailboxes A m procs nodes queue live) (hp : p ∈ procs)
    {m₁ : Mem} (hsplit : nodes p = pre ++ a :: post) (hu : Unlinked m m₁ p a pre post)
    {ret : Nat} {out : Option Message}
    (ht : takeMessage A.toHeap m₁ p a = some (ret, out, m')) :
    ret = MESSAGE_RECEIVED ∧ out = some (readMessage m a) ∧
      Mailboxes A m' procs (Function.update nodes p (pre ++ post))
        (Function.update queue p ((pre ++ post).map (readMessage m)))
        (live.erase (nodeBlock a)) ∧
      Touches A (live.erase (nodeBlock a)) p (nodes p) m m' := by
  have haLive : nodeBlock a ∈ live := h.nodeLive p hp a (by simp [hsplit])
  have hholds₁ : A.Holds m₁ live := hu.holds h hp hsplit
  have hbox := h.boxApart hp
  simp only [takeMessage, Option.bind_eq_bind, Option.bind_eq_some_iff, Option.pure_def,
    Option.some.injEq, Prod.mk.injEq] at ht
  obtain ⟨m₂, hm₂, rfl, rfl, rfl⟩ := ht
  have hholds₂ : A.Holds m₂ (live.erase (nodeBlock a)) := A.kfree_holds hholds₁ haLive hm₂
  have hnodup : (nodes p).Nodup := (h.box p hp).chain.nodup
  rw [hsplit] at hnodup
  have hne : ∀ n ∈ pre ++ post, n ≠ a := by
    rintro n hn rfl
    exact (List.nodup_cons.mp (List.nodup_middle.mp hnodup)).1 hn
  have hsub : ∀ n ∈ pre ++ post, n ∈ nodes p := by
    intro n hn
    rw [hsplit]
    simp only [List.mem_append, List.mem_cons] at hn ⊢
    tauto
  have hrest : ∀ n ∈ pre ++ post, nodeBlock n ∈ live.erase (nodeBlock a) := fun n hn =>
    mem_erase_nodeBlock (hne n hn) (h.nodeLive p hp n (hsub n hn))
  have hprocs : ∀ r ∈ procs, procBlock r ∈ live.erase (nodeBlock a) := fun r hr =>
    (List.mem_erase_of_ne (nodeBlock_ne_procBlock a r).symm).mpr (h.procLive r hr)
  have hkeep : ∀ b ∈ live.erase (nodeBlock a), AgreeOn m₁ m₂ b.addr b.size := fun b hb =>
    A.kfree_agree hholds₁ haLive hm₂ hb
  have hpk : AgreeOn m₁ m₂ p 52 := hkeep _ (hprocs p hp)
  -- the queue survives the two last writes
  have hqueue : Queue m₂ (msgFirst m₁ p) (pre ++ post) ((pre ++ post).map (readMessage m)) :=
    hu.queue.congr (fun n hn => hkeep _ (hrest n hn))
  have hfirst : msgFirst m₂ p = msgFirst m₁ p := load32_congr (hpk.mono (by omega) (by omega))
  have hnum : numMessages m₂ p = (pre ++ post).length + 1 := by
    have h₂ : numMessages m₂ p = numMessages m₁ p :=
      load32_congr (hpk.mono (by omega) (by omega))
    rw [h₂, hu.num, (h.box p hp).num, hsplit]
    simp only [List.length_append, List.length_cons]
    omega
  have hlen := hbox.length_le
  have hlenle : (pre ++ post).length < 2 ^ 32 := by
    rw [hsplit] at hlen
    simp only [List.length_append, List.length_cons] at hlen ⊢
    omega
  generalize hm₃ : store32 m₂ (p + 20) (numMessages m₂ p + 2 ^ 32 - 1) = m₃
  have hout : ∀ x, (x < p + 20 ∨ p + 24 ≤ x) → m₃ x = m₂ x := fun x hx =>
    hm₃ ▸ store32_of_outside hx
  have hrecord : ∀ n ∈ pre ++ post, n + 540 ≤ p ∨ p + 52 ≤ n := fun n hn =>
    hbox.record n (hsub n hn)
  have hbox₃ : Mailbox m₃ p (pre ++ post) ((pre ++ post).map (readMessage m)) := by
    refine ⟨?_, ?_⟩
    · have hf : msgFirst m₃ p = msgFirst m₁ p := by
        rw [← hfirst]
        exact load32_congr (fun x _ _ => hout x (by omega))
      rw [hf]
      refine hqueue.congr (fun n hn x hx hx' => hout x ?_)
      have := hrecord n hn
      simp only [sizeofMessageNode] at hx'
      omega
    · rw [← hm₃, numMessages, load32_store32, hnum]
      omega
  have htouch : Touches A (live.erase (nodeBlock a)) p (nodes p) m m₃ := by
    intro x hlo hx hn hpx
    rw [hout x (by omega), A.kfree_keeps hholds₁ haLive hm₂ x hx]
    exact hu.frame x (hsplit ▸ hn) hpx hlo
  refine ⟨rfl, congrArg some hu.message, ?_, htouch⟩
  have hholds₃ : A.Holds m₃ (live.erase (nodeBlock a)) := by
    refine A.write hholds₂ (fun x _ hb => hout x ?_)
    have := hb _ (hprocs p hp)
    simp only [Block.Has, procBlock, sizeofProcess] at this
    omega
  have hne' : ∀ b ∈ live, b ≠ nodeBlock a → b ∈ live.erase (nodeBlock a) := fun b hb hb' =>
    (List.mem_erase_of_ne hb').mpr hb
  refine h.replace hp hholds₃ hbox₃ (fun r hr hrp => h.unshared r hr p hp hrp)
    (h.nodeLive p hp) hrest (fun r hr hrp n hn hnp => ?_) (fun b hb hb' => hne' b hb ?_)
    (fun x hlo hx hn hpx => htouch x hlo ?_ hn hpx)
  · exact h.unshared r hr p hp hrp hn (hsub n hnp)
  · rintro rfl
    exact hb' (List.mem_map_of_mem (by simp [hsplit]))
  · refine hx.imp id ?_
    rintro ⟨b, hb, hbx⟩
    refine ⟨b, hne' b hb ?_, hbx⟩
    rintro rfl
    exact hn a (by simp [hsplit]) hbx

/-- **A receive takes the oldest message it accepts**, from the mailbox of `p` and no other. -/
theorem Mailboxes.receive (h : Mailboxes A m procs nodes queue live) (hp : p ∈ procs)
    {ret : Nat} {out : Option Message}
    (hk : kreceiveMessage A.toHeap m p (some buf) who = some (ret, out, m')) :
    (takeOldest who (queue p) = none ∧ ret = MESSAGE_ERR_RECEIVE ∧ out = some buf ∧ m' = m) ∨
    ∃ msg q' a ns', takeOldest who (queue p) = some (msg, q') ∧ ret = MESSAGE_RECEIVED ∧
      out = some msg ∧ (a ∈ nodes p ∧ ∀ n ∈ ns', n ∈ nodes p) ∧
      Mailboxes A m' procs (Function.update nodes p ns') (Function.update queue p q')
        (live.erase (nodeBlock a)) ∧
      Touches A (live.erase (nodeBlock a)) p (nodes p) m m' := by
  rcases (h.box p hp).find (h.boxApart hp) A.toHeap buf who with
    ⟨hnone, hres⟩ | ⟨msg, q', m₁, pre, a, post, hsome, hf⟩
  · rw [hres] at hk
    simp only [Option.some.injEq, Prod.mk.injEq] at hk
    obtain ⟨rfl, rfl, rfl⟩ := hk
    exact Or.inl ⟨hnone, rfl, rfl, rfl⟩
  · rw [hf.take] at hk
    obtain ⟨rfl, rfl, hm, ht⟩ := h.take hp hf.split hf.unlinked hk
    refine Or.inr ⟨msg, q', a, pre ++ post, hsome, rfl, congrArg some hf.message,
      ⟨by simp [hf.split], fun n hn => ?_⟩, hf.rest ▸ hm, ht⟩
    rw [hf.split]
    exact ((List.sublist_cons_self a post).append_left pre).subset hn

end

/-! ## Runs -/

/-- A call of one of the two functions. -/
inductive MailOp where
  | send (sender receiver : Nat) (msg : Option Message)
  | receive (process : Nat) (msg : Option Message) (who : UInt32)

namespace MailOp

/-- The call is made among the processes `procs`. -/
def Among (procs : List Nat) : MailOp → Prop
  | send s r _ => s ∈ procs ∧ r ∈ procs
  | receive p _ _ => p ∈ procs

/-- The call on the kernel's memory: return value, the caller's message, memory. -/
def exec (H : Heap) (m : Mem) : MailOp → Option ((Nat × Option Message) × Mem)
  | send s r msg => (ksendMessage H m s r msg).map (fun x => ((x.1, x.2.1), x.2.2))
  | receive p msg who => (kreceiveMessage H m p msg who).map (fun x => ((x.1, x.2.1), x.2.2))

/-- The call on abstract mailboxes: a send appends to the receiver's list, a receive takes
the oldest acceptable element. -/
def spec (pid : Nat → UInt32) (queue : Nat → List Message) :
    MailOp → (Nat × Option Message) × (Nat → List Message)
  | send _ _ none => ((MESSAGE_ERR_SEND, none), queue)
  | send s r (some msg) =>
      let msg := { msg with sender := pid s, receiver := pid r }
      ((MESSAGE_SENT, some msg), Function.update queue r (queue r ++ [msg]))
  | receive _ none _ => ((MESSAGE_ERR_RECEIVE, none), queue)
  | receive p (some buf) who =>
      match takeOldest who (queue p) with
      | none => ((MESSAGE_ERR_RECEIVE, some buf), queue)
      | some (msg, q) => ((MESSAGE_RECEIVED, some msg), Function.update queue p q)

/-- Calls one after the other, with all their results. -/
def run (H : Heap) (m : Mem) : List MailOp → Option (List (Nat × Option Message) × Mem)
  | [] => some ([], m)
  | op :: ops => do
      let (res, m) ← op.exec H m
      let (rest, m) ← run H m ops
      return (res :: rest, m)

def runSpec (pid : Nat → UInt32) (queue : Nat → List Message) :
    List MailOp → List (Nat × Option Message) × (Nat → List Message)
  | [] => ([], queue)
  | op :: ops =>
      let (res, queue) := op.spec pid queue
      let (rest, queue) := runSpec pid queue ops
      (res :: rest, queue)

end MailOp

section
variable {op : MailOp} {res : Nat × Option Message}

/-- The pids the records hold, as a message carries them. -/
def pidOf (m : Mem) (p : Nat) : UInt32 := UInt32.ofNat (procPid m p)

/-- Outside the three words of the mailbox of `r`, every record stays what it is. -/
theorem Mailboxes.record_eq (h : Mailboxes A m procs nodes queue live) (hr : r ∈ procs)
    {live' : List Block} (hlive : ∀ p ∈ procs, procBlock p ∈ live')
    (ht : Touches A live' r (nodes r) m m') (hp : p ∈ procs) {a : Nat} (ha : p ≤ a ∧ a < p + 52)
    (hbox : p = r → ¬ (p + 12 ≤ a ∧ a < p + 24)) : m' a = m a := by
  have hge := (h.boxApart hp).process
  refine ht a (by omega) (Or.inr ⟨_, hlive p hp, ha⟩) (fun n hn hna => ?_) (fun hra => ?_)
  · have hap := A.apart_of_ne h.holds (h.nodeLive r hr n hn) (h.procLive p hp)
      (nodeBlock_ne_procBlock n p)
    exact hap.not_has hna ha
  · by_cases hpr : p = r
    · have hout := hbox hpr
      omega
    · have hap := A.apart_of_ne h.holds (h.procLive p hp) (h.procLive r hr)
        (fun he => hpr (by simpa [procBlock] using he))
      simp only [Block.Apart, procBlock, sizeofProcess] at hap
      omega

/-- The pids stay what they are. -/
theorem Mailboxes.pidOf_eq (h : Mailboxes A m procs nodes queue live) (hr : r ∈ procs)
    {live' : List Block} (hlive : ∀ p ∈ procs, procBlock p ∈ live')
    (ht : Touches A live' r (nodes r) m m') (hp : p ∈ procs) : pidOf m' p = pidOf m p :=
  congrArg UInt32.ofNat (load32_congr (fun _ _ _ =>
    h.record_eq hr hlive ht hp (by omega) (fun _ => by omega)))

/-- **One call refines one abstract step.** -/
theorem Mailboxes.step (h : Mailboxes A m procs nodes queue live) (hop : op.Among procs)
    (hx : op.exec A.toHeap m = some (res, m')) :
    res = (op.spec (pidOf m) queue).1 ∧ (∃ nodes' live',
      Mailboxes A m' procs nodes' (op.spec (pidOf m) queue).2 live') ∧
      ∀ p ∈ procs, pidOf m' p = pidOf m p := by
  cases op with
  | send s r msg =>
      obtain ⟨hs, hr⟩ := hop
      simp only [MailOp.exec, Option.map_eq_some_iff, Prod.mk.injEq, Prod.exists] at hx
      obtain ⟨ret, out, m₁, hk, rfl, rfl⟩ := hx
      cases msg with
      | none =>
          simp only [ksendMessage, Option.some.injEq, Prod.mk.injEq] at hk
          obtain ⟨rfl, rfl, rfl⟩ := hk
          exact ⟨rfl, ⟨nodes, live, h⟩, fun _ _ => rfl⟩
      | some msg =>
          have hs0 : s ≠ 0 := by
            have := (h.boxApart hs).process
            omega
          obtain ⟨rfl, rfl, new, hm, ht⟩ := h.send hs0 hr hk
          exact ⟨rfl, ⟨_, _, hm⟩, fun p hp => h.pidOf_eq hr h.procLive ht hp⟩
  | receive p buf who =>
      simp only [MailOp.exec, Option.map_eq_some_iff, Prod.mk.injEq, Prod.exists] at hx
      obtain ⟨ret, out, m₁, hk, rfl, rfl⟩ := hx
      cases buf with
      | none =>
          simp only [kreceiveMessage, true_or, if_true, Option.some.injEq, Prod.mk.injEq] at hk
          obtain ⟨rfl, rfl, rfl⟩ := hk
          exact ⟨rfl, ⟨nodes, live, h⟩, fun _ _ => rfl⟩
      | some buf =>
          rcases h.receive hop hk with ⟨hnone, rfl, rfl, hm'⟩ |
            ⟨msg, q', a, ns', hsome, rfl, rfl, ha, hm, ht⟩
          · have hspec : (MailOp.receive p (some buf) who).spec (pidOf m) queue
                = ((MESSAGE_ERR_RECEIVE, some buf), queue) := by
              simp only [MailOp.spec, hnone]
            rw [hspec, hm']
            exact ⟨rfl, ⟨nodes, live, h⟩, fun _ _ => rfl⟩
          · have hspec : (MailOp.receive p (some buf) who).spec (pidOf m) queue
                = ((MESSAGE_RECEIVED, some msg), Function.update queue p q') := by
              simp only [MailOp.spec, hsome]
            rw [hspec]
            exact ⟨rfl, ⟨_, _, hm⟩, fun r hr => h.pidOf_eq hop hm.procLive ht hr⟩

/-- In the memory `m`, a call of the heap with the blocks `live` in use does not return. -/
def HeapFails (A : Allocator) (m : Mem) (live : List Block) : Prop :=
  A.kmalloc m sizeofMessageNode = none ∨
    ∃ m₁, A.Holds m₁ live ∧ ∃ b ∈ live, A.kfree m₁ b.addr = none

/-- A call comes back unless the heap does not. -/
theorem Mailboxes.exec_eq_none (h : Mailboxes A m procs nodes queue live) (hop : op.Among procs)
    (hx : op.exec A.toHeap m = none) : HeapFails A m live := by
  cases op with
  | send s r msg =>
      obtain ⟨hs, hr⟩ := hop
      simp only [MailOp.exec, Option.map_eq_none_iff] at hx
      cases msg with
      | none => cases hx
      | some msg =>
          have hs0 : s ≠ 0 := by
            have := (h.boxApart hs).process
            omega
          refine Or.inl (Option.eq_none_iff_forall_not_mem.mpr ?_)
          rintro ⟨new, m₁⟩ hm₁
          obtain ⟨m₃, hk⟩ := h.send_returns hs0 hr hm₁ msg
          rw [hk] at hx
          cases hx
  | receive p buf who =>
      simp only [MailOp.exec, Option.map_eq_none_iff] at hx
      cases buf with
      | none =>
          simp only [kreceiveMessage, true_or, if_true] at hx
          cases hx
      | some buf =>
          rcases (h.box p hop).find (h.boxApart hop) A.toHeap buf who with
            ⟨-, hres⟩ | ⟨msg, q', m₁, pre, a, post, -, hf⟩
          · rw [hres] at hx
            cases hx
          · rw [hf.take] at hx
            simp only [takeMessage, Option.bind_eq_bind, Option.bind_eq_none_iff] at hx
            refine Or.inr ⟨m₁, hf.unlinked.holds h hop hf.split, nodeBlock a,
              h.nodeLive p hop a (by simp [hf.split]), ?_⟩
            refine Option.eq_none_iff_forall_not_mem.mpr (fun m₂ hm₂ => ?_)
            cases hx m₂ hm₂

/-- A call among `procs` reads the pids of `procs` only. -/
theorem MailOp.spec_congr {pid pid' : Nat → UInt32} (hop : op.Among procs)
    (hpid : ∀ p ∈ procs, pid p = pid' p) : op.spec pid queue = op.spec pid' queue := by
  cases op with
  | send s r msg =>
      cases msg with
      | none => rfl
      | some msg => simp only [MailOp.spec, hpid s hop.1, hpid r hop.2]
  | receive p buf who => cases buf <;> rfl

/-- A run of calls refines the abstract run, from any mailboxes on. -/
theorem Mailboxes.run {ops : List MailOp} {results : List (Nat × Option Message)}
    (h : Mailboxes A m procs nodes queue live) (hops : ∀ op ∈ ops, op.Among procs)
    (hx : MailOp.run A.toHeap m ops = some (results, m')) :
    results = (MailOp.runSpec (pidOf m) queue ops).1 ∧ ∃ nodes' live',
      Mailboxes A m' procs nodes' (MailOp.runSpec (pidOf m) queue ops).2 live' := by
  -- the abstract run reads pids of `procs` only, and these do not change
  suffices hgen : ∀ pid : Nat → UInt32, (∀ p ∈ procs, pidOf m p = pid p) →
      results = (MailOp.runSpec pid queue ops).1 ∧ ∃ nodes' live',
        Mailboxes A m' procs nodes' (MailOp.runSpec pid queue ops).2 live' from
    hgen (pidOf m) (fun _ _ => rfl)
  intro pid hpid
  induction ops generalizing m nodes queue live results with
  | nil =>
      simp only [MailOp.run, Option.some.injEq, Prod.mk.injEq] at hx
      obtain ⟨rfl, rfl⟩ := hx
      exact ⟨rfl, nodes, live, h⟩
  | cons op ops ih =>
      simp only [MailOp.run, Option.bind_eq_bind, Option.bind_eq_some_iff, Option.pure_def,
        Option.some.injEq, Prod.mk.injEq, Prod.exists] at hx
      obtain ⟨ret, out, m₁, hop, rest, m₂, hrest, rfl, rfl⟩ := hx
      have hmem := hops op List.mem_cons_self
      obtain ⟨hres, ⟨nodes₁, live₁, h₁⟩, hpids⟩ := h.step hmem hop
      have hspec : op.spec (pidOf m) queue = op.spec pid queue := MailOp.spec_congr hmem hpid
      rw [hspec] at hres h₁
      obtain ⟨hrests, hboxes⟩ := ih h₁ (fun o ho => hops o (List.mem_cons_of_mem _ ho)) hrest
        (fun p hp => (hpids p hp).trans (hpid p hp))
      refine ⟨?_, hboxes⟩
      rw [hres, hrests]
      rfl

/-- Empty mailboxes: no first node, none counted. -/
theorem Mailboxes.empty (hA : A.Holds m live) (hlive : ∀ p ∈ procs, procBlock p ∈ live)
    (hempty : ∀ p ∈ procs, msgFirst m p = NULL ∧ numMessages m p = 0) :
    Mailboxes A m procs (fun _ => []) (fun _ => []) live where
  holds := hA
  procLive := hlive
  nodeLive _ _ _ hn := absurd hn List.not_mem_nil
  box p hp := ⟨⟨(hempty p hp).1, trivial, rfl⟩, (hempty p hp).2⟩
  unshared _ _ _ _ _ := List.disjoint_nil_left _

/-- A run comes back unless the heap does not, in a state the run has reached. -/
theorem Mailboxes.run_eq_none {ops : List MailOp} (h : Mailboxes A m procs nodes queue live)
    (hops : ∀ op ∈ ops, op.Among procs) (hx : MailOp.run A.toHeap m ops = none) :
    ∃ done, done <+: ops ∧ ∃ results m₁ live₁, MailOp.run A.toHeap m done = some (results, m₁) ∧
      A.Holds m₁ live₁ ∧ HeapFails A m₁ live₁ := by
  induction ops generalizing m nodes queue live with
  | nil => cases hx
  | cons op ops ih =>
      have hmem := hops op List.mem_cons_self
      cases hop : op.exec A.toHeap m with
      | none => exact ⟨[], List.nil_prefix, [], m, live, rfl, h.holds, h.exec_eq_none hmem hop⟩
      | some x =>
          obtain ⟨res, m₁⟩ := x
          obtain ⟨-, ⟨nodes₁, live₁, h₁⟩, -⟩ := h.step hmem hop
          have hrest : MailOp.run A.toHeap m₁ ops = none := by
            cases hrest : MailOp.run A.toHeap m₁ ops with
            | none => rfl
            | some y => simp [MailOp.run, hop, hrest] at hx
          obtain ⟨done, hdone, results, m₂, live₂, hrun, hfails⟩ :=
            ih h₁ (fun o ho => hops o (List.mem_cons_of_mem _ ho)) hrest
          refine ⟨op :: done, (List.prefix_cons_inj op).mpr hdone, res :: results, m₂, live₂, ?_,
            hfails⟩
          simp [MailOp.run, hop, hrun]

/-- **Mailbox refinement.** Any interleaving of sends and receives among processes whose
mailboxes start empty returns what the FIFO lists return, and leaves every mailbox a
well-linked chain of nodes in use, its own ones, with the list's messages and their number
in the counter. A run that does not come back has reached a state where the heap fails. -/
theorem mailbox_refinement (A : Allocator) (procs : List Nat) (m₀ : Mem) (live : List Block)
    (hA : A.Holds m₀ live) (hlive : ∀ p ∈ procs, procBlock p ∈ live)
    (hempty : ∀ p ∈ procs, msgFirst m₀ p = NULL ∧ numMessages m₀ p = 0)
    (ops : List MailOp) (hops : ∀ op ∈ ops, op.Among procs) :
    (∀ results m, MailOp.run A.toHeap m₀ ops = some (results, m) →
      results = (MailOp.runSpec (pidOf m₀) (fun _ => []) ops).1 ∧ ∃ nodes live',
        Mailboxes A m procs nodes (MailOp.runSpec (pidOf m₀) (fun _ => []) ops).2 live') ∧
    (MailOp.run A.toHeap m₀ ops = none → ∃ done, done <+: ops ∧ ∃ results m live',
      MailOp.run A.toHeap m₀ done = some (results, m) ∧ A.Holds m live' ∧
        HeapFails A m live') := by
  have h := Mailboxes.empty hA hlive hempty
  exact ⟨fun _ _ hx => h.run hops hx, fun hx => h.run_eq_none hops hx⟩

end

/-! ## Following a run on the kernel heap -/

theorem MailOp.exec_send {H : Heap} {s ret : Nat} {msg out : Option Message}
    (hk : ksendMessage H m s r msg = some (ret, out, m')) :
    (MailOp.send s r msg).exec H m = some ((ret, out), m') := by
  rw [MailOp.exec, hk]
  rfl

theorem MailOp.exec_receive {H : Heap} {who : UInt32} {ret : Nat} {msg out : Option Message}
    (hk : kreceiveMessage H m p msg who = some (ret, out, m')) :
    (MailOp.receive p msg who).exec H m = some ((ret, out), m') := by
  rw [MailOp.exec, hk]
  rfl

theorem MailOp.run_cons {H : Heap} {m₁ : Mem} {op : MailOp} {res : Nat × Option Message}
    (hop : op.exec H m = some (res, m₁)) (ops : List MailOp) : MailOp.run H m (op :: ops)
      = (MailOp.run H m₁ ops).map (fun x => (res :: x.1, x.2)) := by
  cases hrest : MailOp.run H m₁ ops <;> simp [MailOp.run, hop, hrest]

section
variable {L : Layout} {s a : Nat} {row row' : List FirstFit.Node} {who : UInt32}

/-- A send, where first fit finds room for its node. -/
theorem Mailboxes.send_follows (h : Mailboxes (firstFit L) m procs nodes queue live)
    (row' : List FirstFit.Node)
    (hheap : HeapState L (heapLimit L) m row live) (hs : s ≠ 0) (hr : r ∈ procs)
    (hm : FirstFit.malloc headerSize L.heapStart L.heapEnd sizeofMessageNode row = some (a, row'))
    (msg : Message) : ∃ m', ksendMessage (firstFit L).toHeap m s r (some msg)
        = some (MESSAGE_SENT, some (stamp m s r msg), m') ∧
      HeapState L (heapLimit L) m' row' (nodeBlock (a + headerSize) :: live) ∧
      Mailboxes (firstFit L) m' procs (Function.update nodes r (nodes r ++ [a + headerSize]))
        (Function.update queue r (queue r ++ [stamp m s r msg]))
        (nodeBlock (a + headerSize) :: live) ∧
      (∀ p ∈ procs, ∀ x, p ≤ x ∧ x < p + 52 → (p = r → ¬ (p + 12 ≤ x ∧ x < p + 24)) →
        m' x = m x) ∧ ∀ x, 0x1000 ≤ x → ¬ (firstFit L).arena x → m' x = m x := by
  obtain ⟨m₁, hk, hheap₁, -⟩ := firstFit_kmalloc hheap (by decide) (by decide) hm
  obtain ⟨m', hsend⟩ := h.send_returns hs hr hk msg
  obtain ⟨-, -, new, m₂, hk₂, hd⟩ := h.send_eq hs hr hsend
  obtain ⟨rfl, rfl⟩ : a + headerSize = new ∧ m₁ = m₂ := by simpa [hk] using hk₂
  obtain ⟨hboxes, htouch⟩ := h.deliver hr hk hd
  have hin := (firstFit L).inArena h.holds
  -- the message goes to the new node, the one in front of it, and the record
  have hsa := h.sendApart hr (A := firstFit L) ⟨_, hheap₁⟩
  have hbox₁ : Mailbox m₁ r (nodes r) (queue r) := (h.kmalloc (by decide) hk).box r hr
  obtain ⟨m₃, hd', -, hframe⟩ := deliver_mailbox (stamp m s r msg) hbox₁ hsa
    (by have := hsa.length_le; omega)
  obtain rfl : m₃ = m' := by simpa [hd] using hd'.symm
  refine ⟨m₃, hsend, hheap₁.writeOutside (fun x _ hx => hframe x ?_ (fun hrx => ?_)), hboxes,
    fun p hp x hx hout => h.record_eq hr h.procLive htouch hp hx hout,
    fun x hx harena => htouch x hx (Or.inl harena) (fun n hn hnx => ?_) (fun hrx => ?_)⟩
  · refine List.forall_mem_cons.mpr ⟨hx _ List.mem_cons_self, fun n hn => ?_⟩
    exact hx _ (List.mem_cons_of_mem _ (h.nodeLive r hr n hn))
  · refine hx _ (List.mem_cons_of_mem _ (h.procLive r hr)) ?_
    simp only [Block.Has, procBlock, sizeofProcess]
    omega
  · exact harena ((hin _ (h.nodeLive r hr n hn)).2 x hnx)
  · refine harena ((hin _ (h.procLive r hr)).2 x ?_)
    simp only [Block.Has, procBlock, sizeofProcess]
    omega

/-- A receive comes back when the nodes are in front of the end of the heap. -/
theorem Mailboxes.receive_returns (h : Mailboxes (firstFit L) m procs nodes queue live)
    (hp : p ∈ procs) (hend : ∀ n ∈ nodes p, n < L.heapEnd) (buf : Message) (who : UInt32) :
    ∃ ret out m', kreceiveMessage (firstFit L).toHeap m p (some buf) who = some (ret, out, m') := by
  rcases (h.box p hp).find (h.boxApart hp) (firstFit L).toHeap buf who with
    ⟨-, hres⟩ | ⟨msg, q', m₁, pre, a, post, -, hf⟩
  · exact ⟨_, _, _, hres⟩
  · have ha : a ∈ nodes p := by simp [hf.split]
    obtain ⟨row, hheap⟩ := hf.unlinked.holds h hp hf.split
    obtain ⟨-, -, -, m₂, hk, -⟩ := hheap.free (h.nodeLive p hp a ha) (hend a ha)
    exact ⟨_, _, _, hf.take.trans (takeMessage_of_kfree hk)⟩

/-- A process that takes the only message of its mailbox gives the node back. -/
theorem Mailboxes.receive_follows (h : Mailboxes (firstFit L) m procs nodes queue live)
    (hheap : HeapState L (heapLimit L) m row live) (hp : p ∈ procs)
    (hnodes : nodes p = [a + headerSize]) (hlt : a + headerSize < L.heapEnd) (buf : Message) :
    ∃ msg m', queue p = [msg] ∧
      kreceiveMessage (firstFit L).toHeap m p (some buf) MESSAGE_ANY
        = some (MESSAGE_RECEIVED, some msg, m') ∧
      HeapState L (heapLimit L) m' (FirstFit.release a row)
        (live.erase (nodeBlock (a + headerSize))) ∧
      Mailboxes (firstFit L) m' procs (Function.update nodes p []) (Function.update queue p [])
        (live.erase (nodeBlock (a + headerSize))) ∧
      ∀ r ∈ procs, ∀ x, r ≤ x ∧ x < r + 52 → (r = p → ¬ (r + 12 ≤ x ∧ x < r + 24)) →
        m' x = m x := by
  have hlive : nodeBlock (a + headerSize) ∈ live := h.nodeLive p hp _ (by simp [hnodes])
  have hqueue : queue p = [readMessage m (a + headerSize)] := by
    rw [← (h.box p hp).msgs, hnodes]
    rfl
  rcases (h.box p hp).finds (h.boxApart hp) (firstFit L).toHeap buf MESSAGE_ANY with
    ⟨hnone, -⟩ | ⟨msg, q', pre, b, post, -, hany, hf⟩
  · rw [hqueue, takeOldest_eq_none] at hnone
    exact absurd (hnone _ List.mem_cons_self) (by simp [accepts])
  obtain rfl : pre = [] := hany rfl
  have hsplit := hf.split
  rw [hnodes, List.nil_append] at hsplit
  obtain ⟨rfl, rfl⟩ := List.cons_eq_cons.mp hsplit
  -- unlinking writes to the node and the record
  have hheap₁ : HeapState L (heapLimit L) (unlinkFound m p MESSAGE_ANY (a + headerSize)) row live := by
    refine hheap.writeOutside (fun x hx hb => hf.unlinked.frame x (fun n hn hnx => ?_) (fun hpx => ?_)
      ((firstFit L).arena_ge hx))
    · exact hb _ (h.nodeLive p hp n (hf.split ▸ hn)) hnx
    · refine hb _ (h.procLive p hp) ?_
      simp only [Block.Has, procBlock, sizeofProcess]
      omega
  obtain ⟨m₂, hk, hheap₂, -⟩ := firstFit_kfree hheap₁ hlive hlt
  have htake := takeMessage_of_kfree (H := (firstFit L).toHeap) (p := p) hk
  obtain ⟨-, hout, hboxes, htouch⟩ := h.take hp hf.split hf.unlinked htake
  refine ⟨_, _, hqueue, hf.take.trans (htake.trans (by rw [hout])), hheap₂.writeOutside
    (fun x _ hb => store32_of_outside ?_), hboxes, fun r hr x hx hout => ?_⟩
  · have hrecord := hb _ ((List.mem_erase_of_ne (nodeBlock_ne_procBlock _ p).symm).mpr
      (h.procLive p hp))
    simp only [Block.Has, procBlock, sizeofProcess] at hrecord
    omega
  · exact h.record_eq hp hboxes.procLive htouch hr hx hout

end

/-- Two records on the kernel heap, all of zeros. -/
theorem two_records : ∃ m₀ : Mem,
    HeapState Layout.least (heapLimit Layout.least) m₀
      [⟨0x301000, 0, true⟩, ⟨0x301010, 52, false⟩, ⟨0x301054, 52, false⟩]
      [procBlock 0x301064, procBlock 0x301020] ∧
    ∀ p ∈ [0x301020, 0x301064], ∀ x, p ≤ x → x < p + 52 → m₀ x = 0 := by
  have hstart : Layout.least.heapStart = 0x301000 := by decide
  have hinit : HeapState Layout.least (heapLimit Layout.least)
      (kinitHeap Layout.least (fun _ => 0)) [⟨0x301000, 0, true⟩] [] :=
    hstart ▸ heapState_init _ (by decide)
  obtain ⟨m₁, -, hheap₁, hframe₁⟩ := firstFit_kmalloc hinit (by decide) (by decide)
    (show FirstFit.malloc headerSize Layout.least.heapStart Layout.least.heapEnd 52 _
      = some (0x301010, [⟨0x301000, 0, true⟩, ⟨0x301010, 52, false⟩]) by decide)
  obtain ⟨m₂, -, hheap₂, hframe₂⟩ := firstFit_kmalloc hheap₁ (by decide) (by decide)
    (show FirstFit.malloc headerSize Layout.least.heapStart Layout.least.heapEnd 52 _
      = some (0x301054, [⟨0x301000, 0, true⟩, ⟨0x301010, 52, false⟩, ⟨0x301054, 52, false⟩])
      by decide)
  refine ⟨m₂, hheap₂, fun p hp x hx hx' => ?_⟩
  -- only headers have been written to
  have hcases : p = 0x301020 ∨ p = 0x301064 := by simpa using hp
  rw [hframe₂ x, hframe₁ x]
  · simp only [kinitHeap, hstart]
    rw [store32_of_outside (by omega), store32_of_outside (by omega),
      store32_of_outside (by omega), store32_of_outside (by omega)]
  all_goals
    simp only [List.forall_mem_cons, Block.Has, FirstFit.Node.header, headerSize]
    simp
    omega

/-- Two processes on the kernel heap, with empty mailboxes and the pids 1 and 2. -/
theorem two_processes : ∃ m₀ : Mem,
    HeapState Layout.least (heapLimit Layout.least) m₀
      [⟨0x301000, 0, true⟩, ⟨0x301010, 52, false⟩, ⟨0x301054, 52, false⟩]
      [procBlock 0x301064, procBlock 0x301020] ∧
    (∀ p ∈ [0x301020, 0x301064], msgFirst m₀ p = NULL ∧ msgLast m₀ p = NULL ∧
      numMessages m₀ p = 0) ∧
    pidOf m₀ 0x301020 = 1 ∧ pidOf m₀ 0x301064 = 2 := by
  obtain ⟨m₀, hheap, hzero⟩ := two_records
  refine ⟨store32 (store32 m₀ 0x301028 1) 0x30106C 2, hheap.writeOutside (fun a _ ha => ?_),
    fun p hp => ?_, ?_, ?_⟩
  · simp only [List.forall_mem_cons, Block.Has, procBlock, sizeofProcess] at ha
    rw [store32_of_outside (by omega), store32_of_outside (by omega)]
  · have hword : ∀ k, 12 ≤ k → k < 24 →
        load32 (store32 (store32 m₀ 0x301028 1) 0x30106C 2) (p + k) = 0 := by
      intro k hk hk'
      refine load32_eq_zero (fun a ha ha' => ?_)
      have hcases : p = 0x301020 ∨ p = 0x301064 := by simpa using hp
      rw [store32_of_outside (by omega), store32_of_outside (by omega)]
      exact hzero p hp a (by omega) (by omega)
    exact ⟨hword 12 (by omega) (by omega), hword 16 (by omega) (by omega),
      hword 20 (by omega) (by omega)⟩
  · rw [pidOf, procPid, load32_store32_of_ne (by decide), load32_store32]
    rfl
  · rw [pidOf, procPid, load32_store32]
    rfl

/-- A message with the signal `n`. -/
def saying (n : UInt32) : Message := { Message.blank with signal := n }

/-- Both send to the process 2, which takes its own message. -/
def twoSenders : List MailOp :=
  [.send 0x301020 0x301064 (some (saying 7)), .send 0x301064 0x301064 (some (saying 8)),
    .receive 0x301064 (some Message.blank) 2]

/-- All three calls come back. -/
theorem twoSenders_returns {m₀ : Mem}
    (hheap : HeapState Layout.least (heapLimit Layout.least) m₀
      [⟨0x301000, 0, true⟩, ⟨0x301010, 52, false⟩, ⟨0x301054, 52, false⟩]
      [procBlock 0x301064, procBlock 0x301020])
    (hquiet : ∀ p ∈ [0x301020, 0x301064], msgFirst m₀ p = NULL ∧ numMessages m₀ p = 0) :
    ∃ results m, MailOp.run (firstFit Layout.least).toHeap m₀ twoSenders = some (results, m) := by
  have hboxes := Mailboxes.empty (A := firstFit Layout.least) ⟨_, hheap⟩ (by simp) hquiet
  obtain ⟨m₁, hsend₁, hheap₁, hboxes₁, -⟩ := hboxes.send_follows (s := 0x301020) (r := 0x301064)
    (a := 0x301098) [⟨0x301000, 0, true⟩, ⟨0x301010, 52, false⟩, ⟨0x301054, 52, false⟩,
      ⟨0x301098, 540, false⟩] hheap (by decide) (by simp) (by decide) (saying 7)
  obtain ⟨m₂, hsend₂, -, hboxes₂, -⟩ := hboxes₁.send_follows (s := 0x301064) (r := 0x301064)
    (a := 0x3012C4) [⟨0x301000, 0, true⟩, ⟨0x301010, 52, false⟩, ⟨0x301054, 52, false⟩,
      ⟨0x301098, 540, false⟩, ⟨0x3012C4, 540, false⟩] hheap₁ (by decide) (by simp) (by decide)
    (saying 8)
  have hnodes : ∀ n ∈ [0x3010A8, 0x3012D4], n < Layout.least.heapEnd := by decide
  obtain ⟨ret, out, m₃, hreceive⟩ :=
    hboxes₂.receive_returns (p := 0x301064) (by simp) hnodes Message.blank 2
  rw [twoSenders, MailOp.run_cons (MailOp.exec_send hsend₁),
    MailOp.run_cons (MailOp.exec_send hsend₂), MailOp.run_cons (MailOp.exec_receive hreceive)]
  exact ⟨_, _, rfl⟩

/-- On the kernel's own heap. -/
theorem mailbox_refinement_self : ∃ m₀ results m nodes live,
    MailOp.run (firstFit Layout.least).toHeap m₀ twoSenders = some (results, m) ∧
    results = [(MESSAGE_SENT, some { saying 7 with sender := 1, receiver := 2 }),
      (MESSAGE_SENT, some { saying 8 with sender := 2, receiver := 2 }),
      (MESSAGE_RECEIVED, some { saying 8 with sender := 2, receiver := 2 })] ∧
    Mailboxes (firstFit Layout.least) m [0x301020, 0x301064] nodes
      (MailOp.runSpec (pidOf m₀) (fun _ => []) twoSenders).2 live := by
  obtain ⟨m₀, hheap, hempty, hpid₁, hpid₂⟩ := two_processes
  have hquiet : ∀ p ∈ [0x301020, 0x301064], msgFirst m₀ p = NULL ∧ numMessages m₀ p = 0 :=
    fun p hp => ⟨(hempty p hp).1, (hempty p hp).2.2⟩
  obtain ⟨results, m, hrun⟩ := twoSenders_returns hheap hquiet
  obtain ⟨hresults, nodes, live, hboxes⟩ := (mailbox_refinement (firstFit Layout.least)
    [0x301020, 0x301064] m₀ _ ⟨_, hheap⟩ (by simp) hquiet twoSenders
    (by simp [twoSenders, MailOp.Among])).1 results m hrun
  refine ⟨m₀, results, m, nodes, live, hrun, hresults.trans ?_, hboxes⟩
  simp only [twoSenders, MailOp.runSpec, MailOp.spec, hpid₁, hpid₂]
  rfl

end DayOS
