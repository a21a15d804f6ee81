import DayOS.Allocator
import DayOS.Records

set_option autoImplicit false

/-! # Mailboxes (`message.c`)

`ksend_message` hangs a new node at the end of the receiver's chain, `kreceive_message`
unlinks the first node, or the first one from a given sender. `Mailbox m p ns q` says that
the record at `p` holds the well-linked chain `ns` with the messages `q`; the two functions
are followed branch by branch, and each result is again a `Mailbox`.
-/

namespace DayOS

open ByteMemory Linked

/-! ## The code -/

def MESSAGE_SENT : Nat := 0
def MESSAGE_ERR_SEND : Nat := 1
def MESSAGE_RECEIVED : Nat := 0
def MESSAGE_ERR_RECEIVE : Nat := 2

/-- `MESSAGE_ANY`, the constant `-1` compared with an unsigned word. -/
def MESSAGE_ANY : UInt32 := 0xFFFFFFFF

/-- The branch of `ksend_message` that hangs `newmsg` into the receiver's chain; it hands
back the node in front of it, `NULL` for an empty mailbox. -/
def hangMessage (m : Mem) (receiver newmsg : Nat) : Option (Nat × Mem) := do
  let node := msgFirst m receiver
  if node = NULL then
    return (node, store32 m (receiver + 12) newmsg)
  else
    let node ← scan (fun a => msgNext m a == NULL) (msgNext m) walkLimit node
    return (node, store32 m (node + 532) newmsg)

/-- The rest of `ksend_message`: back link, end of chain, tail pointer, contents, counter. -/
def fillMessage (m : Mem) (receiver newmsg node : Nat) (msg : Message) : Mem :=
  let m := store32 m (newmsg + 536) node
  let m := store32 m (newmsg + 532) NULL
  let m := store32 m (receiver + 16) newmsg
  let m := copyMessage m newmsg msg
  store32 m (receiver + 20) (numMessages m receiver + 1)

/-- `ksend_message`: the return value and the caller's message afterwards. -/
def ksendMessage (H : Heap) (m : Mem) (sender receiver : Nat) (msg : Option Message) :
    Option (Nat × Option Message × Mem) :=
  match msg with
  | none => some (MESSAGE_ERR_SEND, none, m)
  | some msg =>
      if sender = NULL ∨ receiver = NULL then some (MESSAGE_ERR_SEND, some msg, m)
      else do
        let msg := { msg with
          sender := UInt32.ofNat (procPid m sender)
          receiver := UInt32.ofNat (procPid m receiver) }
        let (newmsg, m) ← H.kmalloc m sizeofMessageNode
        let (node, m) ← hangMessage m receiver newmsg
        return (MESSAGE_SENT, some msg, fillMessage m receiver newmsg node msg)

/-- The `MESSAGE_ANY` branch of `kreceive_message`. -/
def unlinkFirst (m : Mem) (process node : Nat) : Mem :=
  let m := if msgNext m node ≠ NULL then store32 m (msgNext m node + 536) NULL else m
  store32 m (process + 12) (msgNext m node)

/-- First half of the branch that unlinks the node found for a sender: the node behind gets
the back link. Without a node behind, the tail pointer moves back and the node in front is
patched even where there is none: that store goes to page 0. -/
def unlinkBehind (m : Mem) (process node : Nat) : Mem :=
  if msgNext m node ≠ NULL then store32 m (msgNext m node + 536) (msgPrev m node)
  else
    let m := store32 m (process + 16) (msgPrev m node)
    store32 m (msgPrev m node + 532) NULL

/-- Second half: the node in front gets the forward link, or the record does, and then the
node behind is patched even where there is none. -/
def unlinkFront (m : Mem) (process node : Nat) : Mem :=
  if msgPrev m node ≠ NULL then store32 m (msgPrev m node + 532) (msgNext m node)
  else
    let m := store32 m (process + 12) (msgNext m node)
    store32 m (msgNext m node + 536) NULL

/-- The branch of `kreceive_message` that unlinks the node found for a sender. -/
def unlinkNode (m : Mem) (process node : Nat) : Mem :=
  unlinkFront (unlinkBehind m process node) process node

/-- The sender field of a node's message. -/
def nodeSender (m : Mem) (node : Nat) : UInt32 := (readMessage m node).sender

/-- The end of `kreceive_message`: copy out, free the node, count down. -/
def takeMessage (H : Heap) (m : Mem) (process node : Nat) :
    Option (Nat × Option Message × Mem) := do
  let msg := readMessage m node
  let m ← H.kfree m node
  return (MESSAGE_RECEIVED, some msg,
    store32 m (process + 20) (numMessages m process + 2 ^ 32 - 1))

/-- `kreceive_message`: the return value and the caller's buffer afterwards. -/
def kreceiveMessage (H : Heap) (m : Mem) (process : Nat) (msg : Option Message)
    (who : UInt32) : Option (Nat × Option Message × Mem) :=
  if msg = none ∨ msgFirst m process = NULL then some (MESSAGE_ERR_RECEIVE, msg, m)
  else
    let node := msgFirst m process
    if node = NULL ∨ numMessages m process = 0 then some (MESSAGE_ERR_RECEIVE, msg, m)
    else if who = MESSAGE_ANY then takeMessage H (unlinkFirst m process node) process node
    else do
      let node ← scan (fun a => nodeSender m a == who) (msgNext m) walkLimit node
      if node = NULL then return (MESSAGE_ERR_RECEIVE, msg, m)
      else takeMessage H (unlinkNode m process node) process node

/-! ## The mailbox of a process -/

/-- From the node `first` on, `ns` is a well-linked chain with the messages `q`. -/
structure Queue (m : Mem) (first : Nat) (ns : List Nat) (q : List Message) : Prop where
  chain : Chain (msgNext m) first ns
  mirror : Mirror (msgPrev m) NULL ns
  msgs : ns.map (readMessage m) = q

/-- The record at `p` holds the queue of the nodes `ns` with the messages `q`, and counts
it. -/
structure Mailbox (m : Mem) (p : Nat) (ns : List Nat) (q : List Message) : Prop extends
    Queue m (msgFirst m p) ns q where
  num : numMessages m p = ns.length

section
variable {m m' : Mem} {p n : Nat} {ns : List Nat} {q : List Message}

theorem msgNext_congr (h : AgreeOn m m' n sizeofMessageNode) : msgNext m' n = msgNext m n :=
  load32_congr (h.mono (by omega) (by simp [sizeofMessageNode]))

theorem msgPrev_congr (h : AgreeOn m m' n sizeofMessageNode) : msgPrev m' n = msgPrev m n :=
  load32_congr (h.mono (by omega) (by simp [sizeofMessageNode]))

theorem readNode_congr (h : AgreeOn m m' n sizeofMessageNode) :
    readMessage m' n = readMessage m n :=
  readMessage_congr (h.mono (by omega) (by simp [sizeofMessageNode]))

/-- A queue depends on its nodes only. -/
theorem Queue.congr {first : Nat} (h : Queue m first ns q)
    (hn : ∀ n ∈ ns, AgreeOn m m' n sizeofMessageNode) : Queue m' first ns q where
  chain := h.chain.congr (fun n hmem => msgNext_congr (hn n hmem))
  mirror := h.mirror.congr (fun n hmem => msgPrev_congr (hn n hmem))
  msgs := by
    rw [← h.msgs]
    exact List.map_congr_left (fun n hmem => readNode_congr (hn n hmem))

/-- A mailbox depends on three words of the record and on its nodes only. -/
theorem Mailbox.congr (h : Mailbox m p ns q) (hp : AgreeOn m m' (p + 12) 12)
    (hn : ∀ n ∈ ns, AgreeOn m m' n sizeofMessageNode) : Mailbox m' p ns q := by
  have hf : msgFirst m' p = msgFirst m p := load32_congr (hp.mono (by omega) (by omega))
  have hc : numMessages m' p = numMessages m p := load32_congr (hp.mono (by omega) (by omega))
  exact ⟨hf ▸ h.toQueue.congr hn, hc.trans h.num⟩

/-- A record holds one queue of messages. -/
theorem Mailbox.unique {ns' : List Nat} {q' : List Message} (h : Mailbox m p ns q)
    (h' : Mailbox m p ns' q') : q = q' := by
  rw [← h.msgs, ← h'.msgs, h.chain.unique h'.chain]

end

/-! ## Sending -/

section
variable {m : Mem} {r new : Nat} {ns : List Nat} {q : List Message} {msg : Message}

/-- `ksend_message` behind `kmalloc`: hang the node and fill it. -/
def deliver (m : Mem) (receiver newmsg : Nat) (msg : Message) : Option Mem := do
  let (node, m) ← hangMessage m receiver newmsg
  return fillMessage m receiver newmsg node msg

theorem fillMessage_of_outside {node a : Nat} (h₁ : a < new ∨ new + 540 ≤ a)
    (h₂ : a < r + 16 ∨ r + 24 ≤ a) : fillMessage m r new node msg a = m a := by
  simp only [fillMessage]
  rw [store32_of_outside (by omega), copyMessage_of_outside (by omega),
    store32_of_outside (by omega), store32_of_outside (by omega), store32_of_outside (by omega)]

variable (hr : new + 540 ≤ r ∨ r + 52 ≤ new)

include hr in
theorem fillMessage_next {node : Nat} : msgNext (fillMessage m r new node msg) new = 0 := by
  have hc : AgreeOn (store32 (store32 (store32 m (new + 536) node) (new + 532) NULL) (r + 16) new)
      (fillMessage m r new node msg) (new + 532) 4 := by
    intro a _ _
    simp only [fillMessage]
    rw [store32_of_outside (by omega), copyMessage_of_outside (by omega)]
  rw [msgNext, load32_congr hc, load32_store32_of_ne (by omega), load32_store32]
  rfl

include hr in
theorem fillMessage_prev {node : Nat} (hnode : node < 2 ^ 32) :
    msgPrev (fillMessage m r new node msg) new = node := by
  have hc : AgreeOn (store32 (store32 (store32 m (new + 536) node) (new + 532) NULL) (r + 16) new)
      (fillMessage m r new node msg) (new + 536) 4 := by
    intro a _ _
    simp only [fillMessage]
    rw [store32_of_outside (by omega), copyMessage_of_outside (by omega)]
  rw [msgPrev, load32_congr hc, load32_store32_of_ne (by omega), load32_store32_of_ne (by omega),
    load32_store32, Nat.mod_eq_of_lt hnode]

include hr in
theorem fillMessage_message {node : Nat} :
    readMessage (fillMessage m r new node msg) new = msg := by
  have hc : AgreeOn (copyMessage (store32 (store32 (store32 m (new + 536) node) (new + 532)
      NULL) (r + 16) new) new msg) (fillMessage m r new node msg) new 528 :=
    agreeOn_store32 (by omega)
  rw [readMessage_congr hc, readMessage_copyMessage]

include hr in
theorem fillMessage_num {node : Nat} (hlt : numMessages m r + 1 < 2 ^ 32) :
    numMessages (fillMessage m r new node msg) r = numMessages m r + 1 := by
  have hc : AgreeOn m (copyMessage (store32 (store32 (store32 m (new + 536) node) (new + 532)
      NULL) (r + 16) new) new msg) (r + 20) 4 := by
    intro a _ _
    rw [copyMessage_of_outside (by omega), store32_of_outside (by omega),
      store32_of_outside (by omega), store32_of_outside (by omega)]
  simp only [fillMessage, numMessages, load32_store32]
  rw [load32_congr hc]
  exact Nat.mod_eq_of_lt hlt

/-- Where the node in front of the new one is linked: in the record or in the last node. -/
def hangSlot (r : Nat) (ns : List Nat) : Nat :=
  match ns.getLast? with
  | none => r + 12
  | some z => z + 532

theorem hangMessage_eq (h : Queue m (msgFirst m r) ns q) (hlen : ns.length < walkLimit) :
    hangMessage m r new = some (ns.getLastD NULL, store32 m (hangSlot r ns) new) := by
  unfold hangMessage
  rcases List.eq_nil_or_concat ns with rfl | ⟨pre, z, rfl⟩
  · have h0 : msgFirst m r = 0 := h.chain
    simp [h0, hangSlot]
  · have hc := h.chain
    rw [List.concat_eq_append] at hc hlen ⊢
    have h0 : msgFirst m r ≠ 0 := fun h0 => by simpa using hc.eq_nil_iff.mp h0
    have hscan := scan_chain hc hlen (fun a => msgNext m a == 0)
    rw [find?_last hc] at hscan
    simp [h0, hscan, hangSlot]

/-- The blocks of a mailbox: the record at `p` and its nodes lie above page 0, and no two
of them overlap. -/
structure BoxApart (p : Nat) (ns : List Nat) : Prop where
  process : 0x1000 ≤ p
  range : ∀ n ∈ ns, 0x1000 ≤ n ∧ n + 540 ≤ 2 ^ 32
  record : ∀ n ∈ ns, (nodeBlock n).Apart (procBlock p)
  nodes : ns.Pairwise (fun a b => (nodeBlock a).Apart (nodeBlock b))

/-- The blocks sending works with: a mailbox and a new node that overlaps none of it. -/
structure SendApart (r new : Nat) (ns : List Nat) : Prop extends BoxApart r ns where
  newRange : 0x1000 ≤ new ∧ new + 540 ≤ 2 ^ 32
  target : (procBlock r).Apart (nodeBlock new)
  fresh : ∀ n ∈ ns, (nodeBlock n).Apart (nodeBlock new)

/-- Delivery writes the new node, three words of the record and one link. -/
theorem fillMessage_hang_of_outside {node a : Nat} (h₁ : a < new ∨ new + 540 ≤ a)
    (h₂ : a < r + 16 ∨ r + 24 ≤ a) (h₃ : a < hangSlot r ns ∨ hangSlot r ns + 4 ≤ a) :
    fillMessage (store32 m (hangSlot r ns) new) r new node msg a = m a :=
  (fillMessage_of_outside h₁ h₂).trans (store32_of_outside h₃)

theorem fill_empty {m' : Mem} (h : Queue m (msgFirst m r) [] q) (hs : SendApart r new [])
    (hm' : fillMessage (store32 m (r + 12) new) r new 0 msg = m') :
    Queue m' (msgFirst m' r) [new] (q ++ [msg]) := by
  subst hm'
  have hr := hs.target
  obtain ⟨hlo, hhi⟩ := hs.newRange
  have hnew : new ≠ 0 := by omega
  have hlt : new < 2 ^ 32 := by omega
  simp only [Block.Apart, nodeBlock, procBlock, sizeofMessageNode, sizeofProcess] at hr
  have hq : q = [] := h.msgs.symm
  refine ⟨⟨?_, hnew, fillMessage_next (by omega)⟩, ⟨fillMessage_prev (by omega) (by decide),
    trivial⟩, ?_⟩
  · have hc : AgreeOn (store32 m (r + 12) new)
        (fillMessage (store32 m (r + 12) new) r new 0 msg) (r + 12) 4 :=
      fun a _ _ => fillMessage_of_outside (by omega) (by omega)
    rw [msgFirst, load32_congr hc, load32_store32, Nat.mod_eq_of_lt hlt]
  · rw [hq]
    simp only [List.map_cons, List.map_nil, List.nil_append]
    rw [fillMessage_message (by omega)]

theorem fill_nonempty {pre : List Nat} {z : Nat} {m' : Mem}
    (h : Queue m (msgFirst m r) (pre ++ [z]) q) (hs : SendApart r new (pre ++ [z]))
    (hm' : fillMessage (store32 m (z + 532) new) r new z msg = m') :
    Queue m' (msgFirst m' r) (pre ++ [z] ++ [new]) (q ++ [msg]) := by
  subst hm'
  obtain ⟨⟨-, hrange, hrec, hnodes⟩, ⟨hlo, hhi⟩, hr, hfresh⟩ := hs
  have hnew : new ≠ 0 := by omega
  have hlt : new < 2 ^ 32 := by omega
  have hz : z < 2 ^ 32 := by
    have := hrange z (by simp)
    omega
  have hzr := hrec z (by simp)
  have hzn := hfresh z (by simp)
  simp only [Block.Apart, nodeBlock, procBlock, sizeofMessageNode, sizeofProcess] at *
  -- bytes outside the new node, the record's tail and counter, and the last link
  have hout : ∀ a, (a < new ∨ new + 540 ≤ a) → (a < r + 16 ∨ r + 24 ≤ a) →
      (a < z + 532 ∨ z + 536 ≤ a) →
      fillMessage (store32 m (z + 532) new) r new z msg a = m a :=
    fun a h₁ h₂ h₃ => (fillMessage_of_outside h₁ h₂).trans (store32_of_outside h₃)
  have hpre : ∀ n ∈ pre, AgreeOn m (fillMessage (store32 m (z + 532) new) r new z msg) n 540 := by
    intro n hn a _ _
    have h₁ := hrec n (by simp [hn])
    have h₂ := hfresh n (by simp [hn])
    have h₃ := (List.pairwise_append.mp hnodes).2.2 n hn z (by simp)
    exact hout a (by omega) (by omega) (by omega)
  have hzlo : AgreeOn m (fillMessage (store32 m (z + 532) new) r new z msg) z 528 :=
    fun a _ _ => hout a (by omega) (by omega) (by omega)
  have hzprev : AgreeOn m (fillMessage (store32 m (z + 532) new) r new z msg) (z + 536) 4 :=
    fun a _ _ => hout a (by omega) (by omega) (by omega)
  have hznext : msgNext (fillMessage (store32 m (z + 532) new) r new z msg) z = new := by
    have hc : AgreeOn (store32 m (z + 532) new)
        (fillMessage (store32 m (z + 532) new) r new z msg) (z + 532) 4 :=
      fun a _ _ => fillMessage_of_outside (by omega) (by omega)
    rw [msgNext, load32_congr hc, load32_store32, Nat.mod_eq_of_lt hlt]
  have hfirst : msgFirst (fillMessage (store32 m (z + 532) new) r new z msg) r = msgFirst m r :=
    load32_congr (fun a _ _ => hout a (by omega) (by omega) (by omega))
  refine ⟨?_, ?_, ?_⟩
  · rw [hfirst]
    exact h.chain.snoc hznext (fillMessage_next (by omega)) hnew
      (fun n hn => msgNext_congr (hpre n hn))
  · refine mirror_append.mpr ⟨h.mirror.congr (fun n hn => ?_), ?_, trivial⟩
    · rcases List.mem_append.mp hn with hn | hn
      · exact msgPrev_congr (hpre n hn)
      · rw [List.mem_singleton.mp hn]
        exact load32_congr hzprev
    · rw [show (pre ++ [z]).getLastD NULL = z by simp]
      exact fillMessage_prev (by omega) hz
  · rw [List.map_append, ← h.msgs]
    congr 1
    · refine List.map_congr_left (fun n hn => ?_)
      rcases List.mem_append.mp hn with hn | hn
      · exact readNode_congr (hpre n hn)
      · rw [List.mem_singleton.mp hn]
        exact readMessage_congr hzlo
    · simp only [List.map_cons, List.map_nil]
      rw [fillMessage_message (by omega)]

/-- **Sending appends.** The receiver's chain gains the new node and the message at its end,
whatever was in the node's block before, and the counter goes up by one; outside the nodes
and three words of the record nothing changes. -/
theorem deliver_queue (msg : Message) (h : Queue m (msgFirst m r) ns q) (hs : SendApart r new ns)
    (hlen : ns.length < walkLimit) (hnum : numMessages m r + 1 < 2 ^ 32) :
    ∃ m', deliver m r new msg = some m' ∧ Queue m' (msgFirst m' r) (ns ++ [new]) (q ++ [msg]) ∧
      numMessages m' r = numMessages m r + 1 ∧
      ∀ a, (∀ n ∈ new :: ns, ¬ (nodeBlock n).Has a) → ¬ (r + 12 ≤ a ∧ a < r + 24) →
        m' a = m a := by
  have hdel : deliver m r new msg = some (fillMessage (store32 m (hangSlot r ns) new) r new
      (ns.getLastD NULL) msg) := by
    simp [deliver, hangMessage_eq h hlen]
  refine ⟨_, hdel, ?_, ?_, fun a ha ha' => ?_⟩
  · rcases List.eq_nil_or_concat ns with rfl | ⟨pre, z, rfl⟩
    · exact fill_empty h hs rfl
    · rw [List.concat_eq_append] at *
      have hslot : hangSlot r (pre ++ [z]) = z + 532 := by simp [hangSlot]
      have hlast : (pre ++ [z]).getLastD NULL = z := by simp
      rw [hslot, hlast]
      exact fill_nonempty h hs rfl
  · have hslot : r + 24 ≤ hangSlot r ns ∨ hangSlot r ns + 4 ≤ r + 20 := by
      unfold hangSlot
      split
      case h_1 => omega
      case h_2 z hz =>
          have := hs.record z (List.mem_of_getLast? hz)
          simp only [Block.Apart, nodeBlock, procBlock, sizeofMessageNode, sizeofProcess] at this
          omega
    have hkeep : numMessages (store32 m (hangSlot r ns) new) r = numMessages m r :=
      load32_store32_of_ne (by omega)
    have htarget : r + 52 ≤ new ∨ new + 540 ≤ r := hs.target
    rw [fillMessage_num (by omega) (by rw [hkeep]; exact hnum), hkeep]
  · have hn := ha new (by simp)
    simp only [Block.Has, nodeBlock, sizeofMessageNode] at ha hn
    refine fillMessage_hang_of_outside (by omega) (by omega) ?_
    unfold hangSlot
    split
    case h_1 => omega
    case h_2 z hz =>
        have := ha z (List.mem_cons_of_mem _ (List.mem_of_getLast? hz))
        omega

/-- Sending keeps a mailbox a mailbox. -/
theorem deliver_mailbox (msg : Message) (h : Mailbox m r ns q) (hs : SendApart r new ns)
    (hlen : ns.length + 1 < 2 ^ 32) :
    ∃ m', deliver m r new msg = some m' ∧ Mailbox m' r (ns ++ [new]) (q ++ [msg]) ∧
      ∀ a, (∀ n ∈ new :: ns, ¬ (nodeBlock n).Has a) → ¬ (r + 12 ≤ a ∧ a < r + 24) →
        m' a = m a := by
  obtain ⟨m', hd, hq, hn, hf⟩ := deliver_queue msg h.toQueue hs
    (by simp only [walkLimit]; omega) (by rw [h.num]; exact hlen)
  exact ⟨m', hd, ⟨hq, by rw [hn, h.num, List.length_append]; rfl⟩, hf⟩

end

/-! ## Unlinking -/

section
variable {m : Mem} {p a y w : Nat}

/-- The addresses an unlink of `a` between `y` and `w` works with do not overlap. Either
neighbour may be missing (`0`). -/
structure UnlinkApart (p a y w : Nat) : Prop where
  prev_node : y + 540 ≤ a ∨ a + 540 ≤ y
  next_node : w + 540 ≤ a ∨ a + 540 ≤ w
  prev_record : y + 540 ≤ p ∨ p + 52 ≤ y
  next_record : w + 540 ≤ p ∨ p + 52 ≤ w
  node_record : a + 540 ≤ p ∨ p + 52 ≤ a
  both : y = w ∨ y + 540 ≤ w ∨ w + 540 ≤ y

section
variable (hs : UnlinkApart p a y w) (hy : msgPrev m a = y) (hw : msgNext m a = w)
include hs hy hw

theorem unlinkBehind_of_outside {x : Nat} (h₁ : x < y + 532 ∨ y + 536 ≤ x)
    (h₂ : x < w + 536 ∨ w + 540 ≤ x) (h₃ : x < p + 16 ∨ p + 20 ≤ x) :
    unlinkBehind m p a x = m x := by
  have hya := hs.prev_node
  have hap := hs.node_record
  unfold unlinkBehind
  split
  · rw [hw, store32_of_outside h₂]
  · have hy' : msgPrev (store32 m (p + 16) (msgPrev m a)) a = y :=
      (load32_store32_of_ne (by omega)).trans hy
    simp only [hy']
    rw [store32_of_outside h₁, store32_of_outside h₃]

omit hs in
theorem unlinkBehind_prev (hw0 : w ≠ 0) (hylt : y < 2 ^ 32) :
    msgPrev (unlinkBehind m p a) w = y := by
  unfold unlinkBehind
  rw [hw, if_pos hw0, hy, msgPrev, load32_store32, Nat.mod_eq_of_lt hylt]

theorem unlinkFront_of_outside {x : Nat} (h₁ : x < y + 532 ∨ y + 536 ≤ x)
    (h₂ : x < w + 536 ∨ w + 540 ≤ x) (h₃ : x < p + 12 ∨ p + 16 ≤ x) :
    unlinkFront m p a x = m x := by
  have hap := hs.node_record
  unfold unlinkFront
  split
  · rw [hy, store32_of_outside h₁]
  · have hw' : msgNext (store32 m (p + 12) (msgNext m a)) a = w :=
      (load32_store32_of_ne (by omega)).trans hw
    simp only [hw']
    rw [store32_of_outside h₂, store32_of_outside h₃]

omit hs in
theorem unlinkFront_next (hy0 : y ≠ 0) (hwlt : w < 2 ^ 32) :
    msgNext (unlinkFront m p a) y = w := by
  unfold unlinkFront
  rw [hy, if_pos hy0, hw, msgNext, load32_store32, Nat.mod_eq_of_lt hwlt]

theorem unlinkFront_first (hwlt : w < 2 ^ 32) :
    msgFirst (unlinkFront m p a) p = if y = 0 then w else msgFirst m p := by
  have hap := hs.node_record
  have hyp := hs.prev_record
  have hwp := hs.next_record
  unfold unlinkFront
  rw [hy]
  by_cases hy0 : y = 0
  · have hw' : msgNext (store32 m (p + 12) (msgNext m a)) a = w :=
      (load32_store32_of_ne (by omega)).trans hw
    rw [if_neg (not_not.mpr hy0), if_pos hy0]
    simp only [hw']
    rw [msgFirst, load32_store32_of_ne (by omega), hw, load32_store32, Nat.mod_eq_of_lt hwlt]
  · rw [if_pos hy0, if_neg hy0]
    exact load32_store32_of_ne (by omega)

theorem unlinkFront_prev (hy0 : y = 0) : msgPrev (unlinkFront m p a) w = 0 := by
  have hap := hs.node_record
  unfold unlinkFront
  have hw' : msgNext (store32 m (p + 12) (msgNext m a)) a = w :=
    (load32_store32_of_ne (by omega)).trans hw
  rw [hy, if_neg (not_not.mpr hy0)]
  simp only [hw', msgPrev, load32_store32]
  rfl

/-- **Unlinking a node**: what the two halves together leave behind. -/
theorem unlinkNode_spec (hylt : y < 2 ^ 32) (hwlt : w < 2 ^ 32) :
    (∀ x, (x < y + 532 ∨ y + 536 ≤ x) → (x < w + 536 ∨ w + 540 ≤ x) →
      (x < p + 12 ∨ p + 20 ≤ x) → unlinkNode m p a x = m x) ∧
    (y ≠ 0 → msgNext (unlinkNode m p a) y = w) ∧
    (w ≠ 0 → msgPrev (unlinkNode m p a) w = y) ∧
    msgFirst (unlinkNode m p a) p = if y = 0 then w else msgFirst m p := by
  obtain ⟨hya, hwa, hyp, hwp, hap, hyw⟩ := id hs
  have hout : ∀ x, (x < y + 532 ∨ y + 536 ≤ x) → (x < w + 536 ∨ w + 540 ≤ x) →
      (x < p + 16 ∨ p + 20 ≤ x) → unlinkBehind m p a x = m x :=
    fun x => unlinkBehind_of_outside hs hy hw
  have hy₁ : msgPrev (unlinkBehind m p a) a = y := by
    rw [← hy]
    exact load32_congr (fun x _ _ => hout x (by omega) (by omega) (by omega))
  have hw₁ : msgNext (unlinkBehind m p a) a = w := by
    rw [← hw]
    exact load32_congr (fun x _ _ => hout x (by omega) (by omega) (by omega))
  have hf₁ : msgFirst (unlinkBehind m p a) p = msgFirst m p :=
    load32_congr (fun x _ _ => hout x (by omega) (by omega) (by omega))
  refine ⟨fun x h₁ h₂ h₃ => ?_, fun hy0 => unlinkFront_next hy₁ hw₁ hy0 hwlt, fun hw0 => ?_, ?_⟩
  · exact (unlinkFront_of_outside hs hy₁ hw₁ h₁ h₂ (by omega)).trans (hout x h₁ h₂ (by omega))
  · by_cases hy0 : y = 0
    · exact (unlinkFront_prev hs hy₁ hw₁ hy0).trans hy0.symm
    · -- the node in front is patched, which leaves the back link just set alone
      have hkeep : msgPrev (unlinkFront (unlinkBehind m p a) p a) w
          = msgPrev (unlinkBehind m p a) w := by
        unfold unlinkFront
        rw [hy₁, if_pos hy0]
        exact load32_store32_of_ne (by omega)
      exact hkeep.trans (unlinkBehind_prev hy hw hw0 hylt)
  · rw [← hf₁]
    exact unlinkFront_first hs hy₁ hw₁ hwlt

end

variable {pre post : List Nat} {q : List Message}

theorem Queue.neighbours {first : Nat} (h : Queue m first (pre ++ a :: post) q) :
    msgPrev m a = pre.getLastD 0 ∧ msgNext m a = post.headD 0 := by
  obtain ⟨-, hprev, -⟩ := mirror_append.mp h.mirror
  exact ⟨hprev, (Chain.tail_of_append h.chain).head⟩

theorem BoxApart.unlink (hs : BoxApart p (pre ++ a :: post)) :
    UnlinkApart p a (pre.getLastD 0) (post.headD 0) := by
  obtain ⟨hp, hrange, hrec, hnodes⟩ := hs
  have ha := hrange a (by simp)
  have har := hrec a (by simp)
  obtain ⟨-, hnpost, hcross⟩ := List.pairwise_append.mp hnodes
  obtain ⟨hapost, -⟩ := List.pairwise_cons.mp hnpost
  -- a neighbour is missing or one of the nodes
  have hprev : pre.getLastD 0 = 0 ∨ pre.getLastD 0 ∈ pre := by
    rcases List.eq_nil_or_concat pre with rfl | ⟨pre', y, rfl⟩
    · exact Or.inl rfl
    · exact Or.inr (by simp)
  have hnext : post.headD 0 = 0 ∨ post.headD 0 ∈ post := by
    cases post with
    | nil => exact Or.inl rfl
    | cons w post => exact Or.inr (by simp)
  simp only [Block.Apart, nodeBlock, procBlock, sizeofMessageNode, sizeofProcess] at *
  generalize pre.getLastD 0 = y at hprev ⊢
  generalize post.headD 0 = w at hnext ⊢
  refine ⟨?_, ?_, ?_, ?_, by omega, ?_⟩
  · rcases hprev with rfl | hy
    · omega
    · exact hcross y hy a (by simp)
  · rcases hnext with rfl | hw
    · omega
    · have := hapost w hw
      omega
  · rcases hprev with rfl | hy
    · omega
    · exact hrec y (by simp [hy])
  · rcases hnext with rfl | hw
    · omega
    · exact hrec w (by simp [hw])
  · rcases hprev with rfl | hy <;> rcases hnext with rfl | hw
    · exact Or.inl rfl
    · have := hrange w (by simp [hw])
      omega
    · have := hrange y (by simp [hy])
      omega
    · exact Or.inr (hcross y hy w (by simp [hw]))

/-- What unlinking `a` does to a mailbox: the queue loses `a`, the node's message and the
counter stay, and only links between the nodes, two words of the record and page 0 are
written. -/
structure Unlinked (m m' : Mem) (p a : Nat) (pre post : List Nat) : Prop where
  queue : Queue m' (msgFirst m' p) (pre ++ post) ((pre ++ post).map (readMessage m))
  message : readMessage m' a = readMessage m a
  num : numMessages m' p = numMessages m p
  frame : ∀ x, (∀ n ∈ pre ++ a :: post, ¬ (nodeBlock n).Has x) → ¬ (p + 12 ≤ x ∧ x < p + 24) →
    0x1000 ≤ x → m' x = m x

theorem getLastD_mem_or (pre : List Nat) : pre.getLastD 0 = 0 ∨ pre.getLastD 0 ∈ pre := by
  rcases List.eq_nil_or_concat pre with rfl | ⟨pre', y, rfl⟩
  · exact Or.inl rfl
  · exact Or.inr (by simp)

theorem headD_mem_or (post : List Nat) : post.headD 0 = 0 ∨ post.headD 0 ∈ post := by
  cases post with
  | nil => exact Or.inl rfl
  | cons w post => exact Or.inr (by simp)

/-- A node of a mailbox is apart from every other one, present or missing. -/
theorem BoxApart.ne {ns : List Nat} (hs : BoxApart p ns) {n k : Nat} (hn : n ∈ ns)
    (hk : k = 0 ∨ k ∈ ns) (hnk : n ≠ k) : n + 540 ≤ k ∨ k + 540 ≤ n := by
  rcases hk with rfl | hk
  · have := hs.range n hn
    omega
  · have : Std.Symm (fun a b => (nodeBlock a).Apart (nodeBlock b)) :=
      ⟨fun _ _ => Block.Apart.symm⟩
    exact hs.nodes.forall hn hk hnk

/-- Stores into the forward link of `y`, the back link of `w` and two words of the record
leave everything else of the nodes alone. -/
theorem BoxApart.keeps {m' : Mem} {ns : List Nat} (hs : BoxApart p ns)
    (hy : y = 0 ∨ y ∈ ns) (hw : w = 0 ∨ w ∈ ns)
    (hout : ∀ x, (x < y + 532 ∨ y + 536 ≤ x) → (x < w + 536 ∨ w + 540 ≤ x) →
      (x < p + 12 ∨ p + 20 ≤ x) → m' x = m x) :
    ∀ n ∈ ns, readMessage m' n = readMessage m n ∧
      (n ≠ y → msgNext m' n = msgNext m n) ∧ (n ≠ w → msgPrev m' n = msgPrev m n) := by
  intro n hn
  have h₁ := hs.ne hn hy
  have h₂ := hs.ne hn hw
  have h₃ : n + 540 ≤ p ∨ p + 52 ≤ n := hs.record n hn
  have hrec : ∀ x, n ≤ x → x < n + 540 → (x < p + 12 ∨ p + 20 ≤ x) := fun x _ _ => by omega
  have hslot₁ : ∀ x, n ≤ x → x < n + 540 → (n ≠ y ∨ x < n + 532 ∨ n + 536 ≤ x) →
      (x < y + 532 ∨ y + 536 ≤ x) := by
    intro x _ _ h
    by_cases hny : n = y
    · omega
    · have := h₁ hny
      omega
  have hslot₂ : ∀ x, n ≤ x → x < n + 540 → (n ≠ w ∨ x < n + 536) →
      (x < w + 536 ∨ w + 540 ≤ x) := by
    intro x _ _ h
    by_cases hnw : n = w
    · omega
    · have := h₂ hnw
      omega
  refine ⟨readMessage_congr (fun x _ _ => ?_), fun hny => load32_congr (fun x _ _ => ?_),
    fun hnw => load32_congr (fun x _ _ => ?_)⟩
  · exact hout x (hslot₁ x (by omega) (by omega) (by omega))
      (hslot₂ x (by omega) (by omega) (by omega)) (hrec x (by omega) (by omega))
  · exact hout x (hslot₁ x (by omega) (by omega) (Or.inl hny))
      (hslot₂ x (by omega) (by omega) (by omega)) (hrec x (by omega) (by omega))
  · exact hout x (hslot₁ x (by omega) (by omega) (by omega))
      (hslot₂ x (by omega) (by omega) (Or.inl hnw)) (hrec x (by omega) (by omega))

/-- The queue without `a`, once the neighbours' links and the record's head are right. -/
theorem Queue.remove {m' : Mem} {first first' : Nat} (h : Queue m first (pre ++ a :: post) q)
    (hfirst : first' = if pre.getLastD 0 = 0 then post.headD 0 else first)
    (hnext : pre.getLastD 0 ≠ 0 → msgNext m' (pre.getLastD 0) = post.headD 0)
    (hprev : post.headD 0 ≠ 0 → msgPrev m' (post.headD 0) = pre.getLastD 0)
    (hkeep : ∀ n ∈ pre ++ post, readMessage m' n = readMessage m n ∧
      (n ≠ pre.getLastD 0 → msgNext m' n = msgNext m n) ∧
      (n ≠ post.headD 0 → msgPrev m' n = msgPrev m n)) :
    Queue m' first' (pre ++ post) ((pre ++ post).map (readMessage m)) := by
  obtain ⟨-, hwa⟩ := h.neighbours
  have hsub : (pre ++ post).Sublist (pre ++ a :: post) :=
    (List.sublist_cons_self a post).append_left pre
  have hne0 : ∀ n ∈ pre ++ post, n ≠ 0 := fun n hn => h.chain.ne_zero_of_mem (hsub.subset hn)
  have hnodup : (pre ++ post).Nodup := h.chain.nodup.sublist hsub
  have hdisj := List.disjoint_of_nodup_append hnodup
  have hpost : ∀ n ∈ post, n ≠ pre.getLastD 0 := by
    rintro n hn rfl
    rcases getLastD_mem_or pre with h0 | hm
    · exact hne0 _ (List.mem_append_right _ hn) h0
    · exact hdisj hm hn
  have hpre : ∀ n ∈ pre, n ≠ post.headD 0 := by
    rintro n hn rfl
    rcases headD_mem_or post with h0 | hm
    · exact hne0 _ (List.mem_append_left _ hn) h0
    · exact hdisj hn hm
  refine ⟨?_, ?_, List.map_congr_left (fun n hn => (hkeep n hn).1)⟩
  · rw [hfirst]
    rcases List.eq_nil_or_concat pre with rfl | ⟨pre', y, rfl⟩
    · have hc : Chain (msgNext m) (msgNext m a) post := Chain.tail_of_append h.chain
      rw [hwa] at hc
      exact hc.congr (fun n hn => (hkeep n (by simp [hn])).2.1 (hpost n hn))
    · rw [List.concat_eq_append] at *
      have hy : (pre' ++ [y]).getLastD 0 = y := by simp
      simp only [hy] at hkeep hnext hpost ⊢
      have hy0 : y ≠ 0 := hne0 y (by simp)
      rw [if_neg hy0]
      refine h.chain.unlink ((hnext hy0).trans hwa.symm) (fun n hn => ?_)
        (fun n hn => (hkeep n (by simp [hn])).2.1 (hpost n hn))
      refine (hkeep n (by simp [hn])).2.1 ?_
      rintro rfl
      exact (List.nodup_append.mp (List.nodup_append.mp hnodup).1).2.2 n hn n (by simp) rfl
  · obtain ⟨hmpre, -, hmpost⟩ := mirror_append.mp h.mirror
    refine mirror_append.mpr
      ⟨hmpre.congr (fun n hn => (hkeep n (by simp [hn])).2.2 (hpre n hn)), ?_⟩
    cases post with
    | nil => trivial
    | cons w post =>
        refine hmpost.rehead (hprev (hne0 w (by simp)))
          (fun n hn => (hkeep n (by simp [hn])).2.2 ?_)
        rintro rfl
        exact (List.nodup_cons.mp (List.nodup_append.mp hnodup).2.1).1 hn

theorem unlinkNode_unlinked (h : Queue m (msgFirst m p) (pre ++ a :: post) q)
    (hs : BoxApart p (pre ++ a :: post)) : Unlinked m (unlinkNode m p a) p a pre post := by
  obtain ⟨hya, hwa⟩ := h.neighbours
  have hlt : ∀ k, (k = 0 ∨ k ∈ pre ++ a :: post) → k < 2 ^ 32 := by
    rintro k (rfl | hk)
    · decide
    · have := hs.range k hk
      omega
  have hyL : pre.getLastD 0 = 0 ∨ pre.getLastD 0 ∈ pre ++ a :: post :=
    (getLastD_mem_or pre).imp id (fun hm => List.mem_append_left _ hm)
  have hwL : post.headD 0 = 0 ∨ post.headD 0 ∈ pre ++ a :: post :=
    (headD_mem_or post).imp id (fun hm => List.mem_append_right _ (List.mem_cons_of_mem _ hm))
  obtain ⟨hout, hnext, hprev, hfirst⟩ :=
    unlinkNode_spec hs.unlink hya hwa (hlt _ hyL) (hlt _ hwL)
  have hkeep := hs.keeps hyL hwL hout
  have hrecord : ∀ k, (k = 0 ∨ k ∈ pre ++ a :: post) → k + 540 ≤ p ∨ p + 52 ≤ k := by
    rintro k (rfl | hk)
    · have := hs.process
      omega
    · exact hs.record k hk
  refine ⟨h.remove hfirst hnext hprev (fun n hn => hkeep n ?_),
    (hkeep a (by simp)).1, ?_, fun x hx hx' hlo => ?_⟩
  · exact ((List.sublist_cons_self a post).append_left pre).subset hn
  · have h₁ := hrecord _ hyL
    have h₂ := hrecord _ hwL
    exact load32_congr (fun x _ _ => hout x (by omega) (by omega) (by omega))
  · have hnode : ∀ k, (k = 0 ∨ k ∈ pre ++ a :: post) → x < k ∨ k + 540 ≤ x := by
      rintro k (rfl | hk)
      · omega
      · have := hx k hk
        simp only [Block.Has, nodeBlock, sizeofMessageNode] at this
        omega
    have h₁ := hnode _ hyL
    have h₂ := hnode _ hwL
    exact hout x (by omega) (by omega) (by omega)

/-- Unlinking the first node patches the back link of the second one, if there is one. -/
theorem unlinkFirst_spec (hs : UnlinkApart p a 0 w) (hw : msgNext m a = w) (hwlt : w < 2 ^ 32) :
    (∀ x, (x < w + 536 ∨ w + 540 ≤ x) → (x < p + 12 ∨ p + 16 ≤ x) →
      unlinkFirst m p a x = m x) ∧
    (w ≠ 0 → msgPrev (unlinkFirst m p a) w = 0) ∧ msgFirst (unlinkFirst m p a) p = w := by
  obtain ⟨-, hwa, -, hwp, hap, -⟩ := hs
  unfold unlinkFirst
  rw [hw]
  by_cases hw0 : w = 0
  · rw [if_neg (not_not.mpr hw0)]
    simp only [hw]
    refine ⟨fun x _ h₂ => store32_of_outside h₂, fun h => absurd hw0 h, ?_⟩
    rw [msgFirst, load32_store32, Nat.mod_eq_of_lt hwlt]
  · rw [if_pos hw0]
    have hw' : msgNext (store32 m (w + 536) NULL) a = w :=
      (load32_store32_of_ne (by omega)).trans hw
    simp only [hw']
    refine ⟨fun x h₁ h₂ => ?_, fun _ => ?_, ?_⟩
    · rw [store32_of_outside h₂, store32_of_outside h₁]
    · rw [msgPrev, load32_store32_of_ne (by omega), load32_store32]
      rfl
    · rw [msgFirst, load32_store32, Nat.mod_eq_of_lt hwlt]

theorem unlinkFirst_unlinked (h : Queue m (msgFirst m p) (a :: post) q) (hs : BoxApart p (a :: post)) :
    Unlinked m (unlinkFirst m p a) p a [] post := by
  have hq : Queue m (msgFirst m p) ([] ++ a :: post) q := h
  have hs' : BoxApart p ([] ++ a :: post) := hs
  obtain ⟨-, hwa⟩ := hq.neighbours
  have hwL : post.headD 0 = 0 ∨ post.headD 0 ∈ a :: post :=
    (headD_mem_or post).imp id (fun hm => List.mem_cons_of_mem _ hm)
  have hwlt : post.headD 0 < 2 ^ 32 := by
    rcases hwL with h0 | hk
    · omega
    · have := hs.range _ hk
      omega
  have hu : UnlinkApart p a 0 (post.headD 0) := hs'.unlink
  obtain ⟨hout, hprev, hfirst⟩ := unlinkFirst_spec hu hwa hwlt
  have hkeep := hs.keeps (Or.inl rfl) hwL (fun x (_ : x < 0 + 532 ∨ 0 + 536 ≤ x) h₂ h₃ =>
    hout x h₂ (by omega))
  have hwp := hu.next_record
  refine ⟨hq.remove hfirst (fun h0 => absurd rfl h0) hprev
    (fun n hn => hkeep n (List.mem_cons_of_mem _ hn)), (hkeep a (by simp)).1, ?_,
    fun x hx hx' hlo => ?_⟩
  · exact load32_congr (fun x _ _ => hout x (by omega) (by omega))
  · refine hout x ?_ (by omega)
    rcases hwL with h0 | hk
    · omega
    · have := hx _ hk
      simp only [Block.Has, nodeBlock, sizeofMessageNode] at this
      omega

end

end DayOS
