import DayOS.MailboxRun

set_option autoImplicit false

/-! # The links a receive follows (`message.c`)

`kreceive_message` reads and writes the links of nodes. Page 0 is mapped, so a store through
a null link does not stop the kernel, and the model of `Mailbox.lean` lets it go by. Here the
same code runs with a log of every access to a `next` or `prev` field (`kreceiveUnlink`, equal
to `kreceiveMessage` once the log is dropped). On every mailbox a run can reach, all accesses
go to nodes of the chain but for one case: the matching message is the only one
(`receive_links`).
-/

namespace DayOS

open ByteMemory Linked

/-! ## The code, with a log -/

/-- The two link fields of a `MESSAGE_NODE`. -/
inductive LinkField where
  | next
  | prev
  deriving DecidableEq

/-- An access to a link of the node at `node`: a load, or a store. -/
structure LinkAccess where
  store : Bool
  field : LinkField
  node : Nat
  deriving DecidableEq

/-- The memory, and the accesses to links so far. -/
structure Logged where
  mem : Mem
  log : List LinkAccess

/-- Code that logs its accesses; `none` is a loop that does not end. -/
abbrev LinkM := StateT Logged Option

/-- `node->next`. -/
def loadNext (node : Nat) : LinkM Nat :=
  fun s => some (msgNext s.mem node, ⟨s.mem, s.log ++ [⟨false, .next, node⟩]⟩)

/-- `node->prev`. -/
def loadPrev (node : Nat) : LinkM Nat :=
  fun s => some (msgPrev s.mem node, ⟨s.mem, s.log ++ [⟨false, .prev, node⟩]⟩)

/-- `node->next = value`. -/
def storeNext (node value : Nat) : LinkM Unit :=
  fun s => some ((), ⟨store32 s.mem (node + 532) value, s.log ++ [⟨true, .next, node⟩]⟩)

/-- `node->prev = value`. -/
def storePrev (node value : Nat) : LinkM Unit :=
  fun s => some ((), ⟨store32 s.mem (node + 536) value, s.log ++ [⟨true, .prev, node⟩]⟩)

/-- `current_process->messages.first = value`. -/
def storeFirst (process value : Nat) : LinkM Unit :=
  fun s => some ((), { s with mem := store32 s.mem (process + 12) value })

/-- `current_process->messages.last = value`. -/
def storeLast (process value : Nat) : LinkM Unit :=
  fun s => some ((), { s with mem := store32 s.mem (process + 16) value })

/-- `unlinkFirst`, logged. -/
def unlinkFirstLogged (process node : Nat) : LinkM Unit := do
  if (← loadNext node) ≠ NULL then
    storePrev (← loadNext node) NULL
  storeFirst process (← loadNext node)

/-- `unlinkBehind`, logged. -/
def unlinkBehindLogged (process node : Nat) : LinkM Unit := do
  if (← loadNext node) ≠ NULL then
    storePrev (← loadNext node) (← loadPrev node)
  else
    storeLast process (← loadPrev node)
    storeNext (← loadPrev node) NULL

/-- `unlinkFront`, logged. -/
def unlinkFrontLogged (process node : Nat) : LinkM Unit := do
  if (← loadPrev node) ≠ NULL then
    storeNext (← loadPrev node) (← loadNext node)
  else
    storeFirst process (← loadNext node)
    storePrev (← loadNext node) NULL

/-- The loop that looks for a sender, logged; at most `fuel` nodes long. -/
def scanLogged (who : UInt32) : Nat → Nat → LinkM Nat
  | 0, _ => fun _ => none
  | fuel + 1, node => do
      if node = NULL then return NULL
      else if nodeSender (← get).mem node == who then return node
      else scanLogged who fuel (← loadNext node)

/-- `kreceive_message` up to the point where the node found is unlinked; `none` is the exit
with `MESSAGE_ERR_RECEIVE`. What follows touches no link. -/
def kreceiveUnlink (process : Nat) (msg : Option Message) (who : UInt32) :
    LinkM (Option Nat) := do
  let m := (← get).mem
  if msg = none ∨ msgFirst m process = NULL then return none
  else
    let node := msgFirst m process
    if node = NULL ∨ numMessages m process = 0 then return none
    else if who = MESSAGE_ANY then
      unlinkFirstLogged process node
      return some node
    else
      let node ← scanLogged who walkLimit node
      if node = NULL then return none
      else
        unlinkBehindLogged process node
        unlinkFrontLogged process node
        return some node

/-! ## The log does not change the code -/

section
variable {m : Mem} {p a : Nat} {log : List LinkAccess} {who : UInt32}

/-- What `unlinkFirst` accesses. -/
def firstLog (m : Mem) (node : Nat) : List LinkAccess :=
  if msgNext m node ≠ NULL then
    [⟨false, .next, node⟩, ⟨false, .next, node⟩, ⟨true, .prev, msgNext m node⟩,
      ⟨false, .next, node⟩]
  else [⟨false, .next, node⟩, ⟨false, .next, node⟩]

/-- What `unlinkBehind` accesses; in its second branch the record has been written to before
the back link is read again. -/
def behindLog (m : Mem) (process node : Nat) : List LinkAccess :=
  if msgNext m node ≠ NULL then
    [⟨false, .next, node⟩, ⟨false, .next, node⟩, ⟨false, .prev, node⟩,
      ⟨true, .prev, msgNext m node⟩]
  else
    [⟨false, .next, node⟩, ⟨false, .prev, node⟩, ⟨false, .prev, node⟩,
      ⟨true, .next, msgPrev (store32 m (process + 16) (msgPrev m node)) node⟩]

/-- What `unlinkFront` accesses. -/
def frontLog (m : Mem) (process node : Nat) : List LinkAccess :=
  if msgPrev m node ≠ NULL then
    [⟨false, .prev, node⟩, ⟨false, .prev, node⟩, ⟨false, .next, node⟩,
      ⟨true, .next, msgPrev m node⟩]
  else
    [⟨false, .prev, node⟩, ⟨false, .next, node⟩, ⟨false, .next, node⟩,
      ⟨true, .prev, msgNext (store32 m (process + 12) (msgNext m node)) node⟩]

@[simp] theorem pure_logged {α : Type} (x : α) (s : Logged) : (pure x : LinkM α) s = some (x, s) :=
  rfl

theorem unlinkFirstLogged_run : unlinkFirstLogged p a ⟨m, log⟩
    = some ((), ⟨unlinkFirst m p a, log ++ firstLog m a⟩) := by
  unfold unlinkFirstLogged unlinkFirst firstLog
  by_cases hw : msgNext m a = 0
  · simp [bind, StateT.bind, loadNext, storeFirst, hw]
  · simp [bind, StateT.bind, loadNext, storePrev, storeFirst, hw]

theorem unlinkBehindLogged_run : unlinkBehindLogged p a ⟨m, log⟩
    = some ((), ⟨unlinkBehind m p a, log ++ behindLog m p a⟩) := by
  unfold unlinkBehindLogged unlinkBehind behindLog
  by_cases hw : msgNext m a = 0
  · simp [bind, StateT.bind, loadNext, loadPrev, storeNext, storeLast, hw]
  · simp [bind, StateT.bind, loadNext, loadPrev, storePrev, hw]

theorem unlinkFrontLogged_run : unlinkFrontLogged p a ⟨m, log⟩
    = some ((), ⟨unlinkFront m p a, log ++ frontLog m p a⟩) := by
  unfold unlinkFrontLogged unlinkFront frontLog
  by_cases hy : msgPrev m a = 0
  · simp [bind, StateT.bind, loadNext, loadPrev, storePrev, storeFirst, hy]
  · simp [bind, StateT.bind, loadNext, loadPrev, storeNext, hy]

/-- The loop reads the forward links of the nodes it passes, which are on the chain. -/
theorem scanLogged_run (fuel : Nat) : ∃ passed,
    scanLogged who fuel a ⟨m, log⟩ = (scan (fun n => nodeSender m n == who) (msgNext m) fuel a).map
      (fun node => (node, ⟨m, log ++ passed⟩)) ∧
    ∀ ns, Chain (msgNext m) a ns → ∀ x ∈ passed, x.node ∈ ns := by
  induction fuel generalizing a log with
  | zero => exact ⟨[], rfl, by simp⟩
  | succ fuel ih =>
      unfold scanLogged scan
      by_cases ha : a = 0
      · exact ⟨[], by simp [ha], by simp⟩
      · by_cases hs : nodeSender m a = who
        · refine ⟨[], ?_, by simp⟩
          simp [ha, hs, bind, StateT.bind, get, getThe, MonadStateOf.get, StateT.get]
        · obtain ⟨passed, hp, hon⟩ := @ih (msgNext m a) (log ++ [⟨false, .next, a⟩])
          refine ⟨⟨false, .next, a⟩ :: passed, ?_, fun ns hns => ?_⟩
          · simp [ha, hs, bind, StateT.bind, get, getThe, MonadStateOf.get, StateT.get, loadNext,
              hp]
          · cases ns with
            | nil => exact absurd hns ha
            | cons c cs =>
                obtain rfl : a = c := hns.1
                refine List.forall_mem_cons.mpr ⟨List.mem_cons_self, fun x hx => ?_⟩
                exact List.mem_cons_of_mem _ (hon cs hns.tail x hx)

/-- The exits in front of the search. -/
theorem kreceiveUnlink_guard {msg : Option Message}
    (h : msg = none ∨ msgFirst m p = NULL ∨ numMessages m p = 0) :
    kreceiveUnlink p msg who ⟨m, []⟩ = some (none, ⟨m, []⟩) := by
  unfold kreceiveUnlink
  simp only [bind, StateT.bind, get, getThe, MonadStateOf.get, StateT.get, pure, Option.bind_some]
  by_cases h₁ : msg = none ∨ msgFirst m p = NULL
  · rw [if_pos h₁]
    rfl
  · have h₂ : msgFirst m p = NULL ∨ numMessages m p = 0 := by tauto
    rw [if_neg h₁, if_pos h₂]
    rfl

section
variable {msg : Option Message} (hmsg : msg ≠ none) (hfirst : msgFirst m p ≠ NULL)
  (hnum : numMessages m p ≠ 0)
include hmsg hfirst hnum

/-- Behind its guards, a receive from anybody takes the first node. -/
theorem kreceiveUnlink_any : kreceiveUnlink p msg MESSAGE_ANY ⟨m, []⟩
    = some (some (msgFirst m p),
        ⟨unlinkFirst m p (msgFirst m p), firstLog m (msgFirst m p)⟩) := by
  have h₁ : ¬ (msg = none ∨ msgFirst m p = NULL) := by tauto
  have h₂ : ¬ (msgFirst m p = NULL ∨ numMessages m p = 0) := by tauto
  unfold kreceiveUnlink
  simp only [bind, StateT.bind, get, getThe, MonadStateOf.get, StateT.get, pure, Option.bind_some,
    if_neg h₁, if_neg h₂, if_true, unlinkFirstLogged_run]
  rfl

/-- Behind its guards, a receive by sender takes the node its search finds. -/
theorem kreceiveUnlink_sender (hany : who ≠ MESSAGE_ANY) : ∃ passed,
    kreceiveUnlink p msg who ⟨m, []⟩
      = (scan (fun n => nodeSender m n == who) (msgNext m) walkLimit (msgFirst m p)).map
          (fun node => if node = NULL then (none, ⟨m, passed⟩)
            else (some node, ⟨unlinkNode m p node,
              passed ++ behindLog m p node ++ frontLog (unlinkBehind m p node) p node⟩)) ∧
    ∀ ns, Chain (msgNext m) (msgFirst m p) ns → ∀ x ∈ passed, x.node ∈ ns := by
  have h₁ : ¬ (msg = none ∨ msgFirst m p = NULL) := by tauto
  have h₂ : ¬ (msgFirst m p = NULL ∨ numMessages m p = 0) := by tauto
  obtain ⟨passed, hp, hon⟩ := @scanLogged_run m (msgFirst m p) [] who walkLimit
  refine ⟨passed, ?_, hon⟩
  unfold kreceiveUnlink
  simp only [bind, StateT.bind, get, getThe, MonadStateOf.get, StateT.get, pure, Option.bind_some,
    if_neg h₁, if_neg h₂, if_neg hany, hp, List.nil_append]
  cases scan (fun n => nodeSender m n == who) (msgNext m) walkLimit (msgFirst m p) with
  | none => rfl
  | some node =>
      by_cases hn : node = NULL
      · simp only [hn, if_true, Option.map_some, Option.bind_some]
        rfl
      · simp only [hn, if_false, Option.map_some, Option.bind_some, bind, StateT.bind,
          unlinkBehindLogged_run, unlinkFrontLogged_run]
        rfl

end

/-- **The log is all that is added**: without it, the code is `kreceive_message`. -/
theorem kreceiveMessage_eq (H : Heap) (msg : Option Message) :
    kreceiveMessage H m p msg who = (kreceiveUnlink p msg who ⟨m, []⟩).bind (fun x =>
      match x.1 with
      | none => some (MESSAGE_ERR_RECEIVE, msg, x.2.mem)
      | some node => takeMessage H x.2.mem p node) := by
  unfold kreceiveMessage
  by_cases h₁ : msg = none ∨ msgFirst m p = NULL
  · rw [if_pos h₁, kreceiveUnlink_guard (h₁.imp id Or.inl)]
    rfl
  · by_cases h₂ : msgFirst m p = NULL ∨ numMessages m p = 0
    · simp only [if_neg h₁, if_pos h₂, kreceiveUnlink_guard (Or.inr h₂), Option.bind_some]
    · simp only [if_neg h₁, if_neg h₂]
      have hmsg : msg ≠ none := by tauto
      have hfirst : msgFirst m p ≠ NULL := by tauto
      have hnum : numMessages m p ≠ 0 := by tauto
      by_cases hany : who = MESSAGE_ANY
      · rw [if_pos hany, hany, kreceiveUnlink_any hmsg hfirst hnum]
        rfl
      · obtain ⟨passed, hp, -⟩ := kreceiveUnlink_sender hmsg hfirst hnum hany
        rw [if_neg hany, hp]
        cases scan (fun n => nodeSender m n == who) (msgNext m) walkLimit (msgFirst m p) with
        | none => rfl
        | some node =>
            by_cases hn : node = NULL
            · simp only [hn, if_true, Option.map_some, Option.bind_some, bind, pure]
            · simp only [hn, if_false, Option.map_some, Option.bind_some, bind]

end

/-! ## Where the accesses go -/

section
variable {m m' : Mem} {p a y w : Nat} {who : UInt32} {ns : List Nat} {q : List Message}
  {x : LinkAccess}

theorem firstLog_node (hw : msgNext m a = w) (hx : x ∈ firstLog m a) :
    x.node = a ∨ (w ≠ 0 ∧ x.node = w) := by
  unfold firstLog at hx
  rw [hw] at hx
  split at hx
  case isTrue h =>
      simp only [List.mem_cons, List.not_mem_nil, or_false] at hx
      rcases hx with rfl | rfl | rfl | rfl <;> simp [h]
  case isFalse =>
      simp only [List.mem_cons, List.not_mem_nil, or_false, or_self] at hx
      exact Or.inl (hx ▸ rfl)

section
variable (hs : UnlinkApart p a y w) (hy : msgPrev m a = y) (hw : msgNext m a = w)
include hs hy hw

/-- The first half stores into the node behind, or else into the node in front. -/
theorem behindLog_node (hx : x ∈ behindLog m p a) :
    x.node = a ∨ (w ≠ 0 ∧ x.node = w) ∨ (w = 0 ∧ x.node = y) := by
  have hap := hs.node_record
  have hkeep : msgPrev (store32 m (p + 16) y) a = y :=
    (load32_store32_of_ne (by omega)).trans hy
  unfold behindLog at hx
  rw [hw, hy, hkeep] at hx
  split at hx
  case isTrue h =>
      simp only [List.mem_cons, List.not_mem_nil, or_false] at hx
      rcases hx with rfl | rfl | rfl | rfl <;> simp [h]
  case isFalse h =>
      simp only [List.mem_cons, List.not_mem_nil, or_false] at hx
      rcases hx with rfl | rfl | rfl | rfl <;> simp [not_not.mp h]

/-- The second half stores into the node in front, or else into the node behind. -/
theorem frontLog_node (hx : x ∈ frontLog m p a) :
    x.node = a ∨ (y ≠ 0 ∧ x.node = y) ∨ (y = 0 ∧ x.node = w) := by
  have hap := hs.node_record
  have hkeep : msgNext (store32 m (p + 12) w) a = w :=
    (load32_store32_of_ne (by omega)).trans hw
  unfold frontLog at hx
  rw [hw, hy, hkeep] at hx
  split at hx
  case isTrue h =>
      simp only [List.mem_cons, List.not_mem_nil, or_false] at hx
      rcases hx with rfl | rfl | rfl | rfl <;> simp [h]
  case isFalse h =>
      simp only [List.mem_cons, List.not_mem_nil, or_false] at hx
      rcases hx with rfl | rfl | rfl | rfl <;> simp [not_not.mp h]

/-- Without a node behind, the first half stores through the back link. -/
theorem behindLog_store (hw0 : w = 0) : ⟨true, .next, y⟩ ∈ behindLog m p a := by
  have hap := hs.node_record
  have hkeep : msgPrev (store32 m (p + 16) y) a = y :=
    (load32_store32_of_ne (by omega)).trans hy
  unfold behindLog
  rw [hw, hy, hkeep, if_neg (not_not.mpr hw0)]
  simp

/-- The links of the node are still there for the second half. -/
theorem unlinkBehind_links :
    msgPrev (unlinkBehind m p a) a = y ∧ msgNext (unlinkBehind m p a) a = w := by
  obtain ⟨hya, hwa, -, -, hap, -⟩ := id hs
  have hout : ∀ x, a ≤ x → x < a + 540 → unlinkBehind m p a x = m x := fun x _ _ =>
    unlinkBehind_of_outside hs hy hw (by omega) (by omega) (by omega)
  constructor
  · rw [← hy]
    exact load32_congr (fun x _ _ => hout x (by omega) (by omega))
  · rw [← hw]
    exact load32_congr (fun x _ _ => hout x (by omega) (by omega))

end

/-- An unlink stays on the chain when the node has a neighbour. -/
theorem Queue.unlinkLog_node {first : Nat} {pre post : List Nat}
    (h : Queue m first (pre ++ a :: post) q) (hs : BoxApart p (pre ++ a :: post))
    (hne : pre ≠ [] ∨ post ≠ [])
    (hx : x ∈ behindLog m p a ++ frontLog (unlinkBehind m p a) p a) :
    x.node ∈ pre ++ a :: post := by
  have hu := hs.unlink
  obtain ⟨hy, hw⟩ := h.neighbours
  obtain ⟨hy', hw'⟩ := unlinkBehind_links hu hy hw
  have ha : a ∈ pre ++ a :: post := by simp
  have hpre : pre.getLastD 0 ≠ 0 → pre.getLastD 0 ∈ pre ++ a :: post := fun h0 =>
    List.mem_append_left _ ((getLastD_mem_or pre).resolve_left h0)
  have hpost : post.headD 0 ≠ 0 → post.headD 0 ∈ pre ++ a :: post := fun h0 =>
    List.mem_append_right _ (List.mem_cons_of_mem _ ((headD_mem_or post).resolve_left h0))
  -- one of the two neighbours is there
  have hone : pre.getLastD 0 ≠ 0 ∨ post.headD 0 ≠ 0 := by
    refine hne.imp (fun hpre0 h0 => ?_) (fun hpost0 h0 => ?_)
    · obtain ⟨pre', z, rfl⟩ := (List.eq_nil_or_concat pre).resolve_left hpre0
      exact h.chain.ne_zero_of_mem (a := z) (by simp) (by simpa using h0)
    · cases post with
      | nil => exact hpost0 rfl
      | cons z post => exact h.chain.ne_zero_of_mem (a := z) (by simp) h0
  rcases List.mem_append.mp hx with hx | hx
  · rcases behindLog_node hu hy hw hx with hn | ⟨h0, hn⟩ | ⟨h0, hn⟩
    · exact hn ▸ ha
    · exact hn ▸ hpost h0
    · exact hn ▸ hpre (hone.resolve_right (not_not.mpr h0))
  · rcases frontLog_node hu hy' hw' hx with hn | ⟨h0, hn⟩ | ⟨h0, hn⟩
    · exact hn ▸ ha
    · exact hn ▸ hpre h0
    · exact hn ▸ hpost (hone.resolve_left (not_not.mpr h0))

/-! ## Receiving on reachable mailboxes -/

/-- A receive by `who` ends, and accesses the links of nodes on the mailbox's chain only: it
never stores through a null link. -/
def ReceiveInside (m : Mem) (p : Nat) (msg : Option Message) (who : UInt32) : Prop :=
  ∃ ns found s, Chain (msgNext m) (msgFirst m p) ns ∧
    kreceiveUnlink p msg who ⟨m, []⟩ = some (found, s) ∧
    ∀ x ∈ s.log, x.node ∈ ns ∧ (x.store = true → x.node ≠ NULL)

/-- A receive by sender whose match is the only message. -/
def TakesOnly (m : Mem) (p : Nat) (msg : Option Message) (who : UInt32) : Prop :=
  msg ≠ none ∧ who ≠ MESSAGE_ANY ∧ numMessages m p = 1 ∧ nodeSender m (msgFirst m p) = who

/-- What a receive does with the links of a mailbox. -/
theorem Mailbox.kreceiveUnlink_run (h : Mailbox m p ns q) (hs : BoxApart p ns)
    (msg : Option Message) (who : UInt32) : ∃ found s,
    kreceiveUnlink p msg who ⟨m, []⟩ = some (found, s) ∧
    (¬ TakesOnly m p msg who → ∀ x ∈ s.log, x.node ∈ ns) ∧
    (TakesOnly m p msg who → ⟨true, .next, NULL⟩ ∈ s.log) := by
  have hlen := hs.length_le
  have hne : ∀ n ∈ ns, n ≠ NULL := fun n hn => h.chain.ne_zero_of_mem hn
  by_cases hmsg : msg = none
  · exact ⟨none, _, kreceiveUnlink_guard (Or.inl hmsg), by simp, fun ht => absurd hmsg ht.1⟩
  cases ns with
  | nil =>
      refine ⟨none, _, kreceiveUnlink_guard (Or.inr (Or.inl h.chain)), by simp, fun ht => ?_⟩
      exact absurd (h.num.symm.trans ht.2.2.1) (by simp)
  | cons c cs =>
      have hc : msgFirst m p = c := h.chain.head
      have hfirst : msgFirst m p ≠ NULL := hc ▸ hne c (by simp)
      have hnum : numMessages m p ≠ 0 := by
        rw [h.num]
        simp
      by_cases hany : who = MESSAGE_ANY
      · subst hany
        refine ⟨_, _, kreceiveUnlink_any hmsg hfirst hnum, fun _ x hx => ?_,
          fun ht => absurd rfl ht.2.1⟩
        rw [hc] at hx
        have hw : msgNext m c = cs.headD 0 := h.chain.tail.head
        rcases firstLog_node hw hx with hn | ⟨h0, hn⟩
        · exact hn ▸ List.mem_cons_self
        · exact hn ▸ List.mem_cons_of_mem _ ((headD_mem_or cs).resolve_left h0)
      · obtain ⟨passed, hp, hon⟩ := kreceiveUnlink_sender hmsg hfirst hnum hany
        rw [scan_chain h.chain (by simp only [walkLimit]; omega)] at hp
        cases hf : (c :: cs).find? (fun n => nodeSender m n == who) with
        | none =>
            refine ⟨none, ⟨m, passed⟩, by rw [hp, hf]; rfl, fun _ => hon _ h.chain, fun ht => ?_⟩
            have hno := List.find?_eq_none.mp hf c List.mem_cons_self
            exact absurd (beq_iff_eq.mpr (hc ▸ ht.2.2.2)) hno
        | some a =>
            obtain ⟨ha, pre, post, hsplit, -⟩ := List.find?_eq_some_iff_append.mp hf
            have ha0 : a ≠ NULL := hne a (List.mem_of_find?_eq_some hf)
            rw [hf, Option.getD_some, Option.map_some, if_neg ha0] at hp
            refine ⟨some a, _, hp, fun ht x hx => ?_, fun ht => ?_⟩
            · rw [List.append_assoc] at hx
              rcases List.mem_append.mp hx with hx | hx
              · exact hon _ h.chain x hx
              · rw [hsplit] at h hs ⊢
                refine h.toQueue.unlinkLog_node hs ?_ hx
                -- a match without neighbours is the only message
                by_contra hno
                obtain ⟨rfl, rfl⟩ : pre = [] ∧ post = [] := by simpa using hno
                refine ht ⟨hmsg, hany, h.num, ?_⟩
                rw [h.chain.head]
                exact beq_iff_eq.mp ha
            · have hone : (c :: cs).length = 1 := h.num.symm.trans ht.2.2.1
              rw [hsplit] at h hs hone
              obtain ⟨rfl, rfl⟩ : pre = [] ∧ post = [] := by
                simp only [List.length_append, List.length_cons] at hone
                exact ⟨List.length_eq_zero_iff.mp (by omega),
                  List.length_eq_zero_iff.mp (by omega)⟩
              obtain ⟨hy, hw⟩ := h.toQueue.neighbours
              have hstore := behindLog_store hs.unlink hy hw rfl
              exact List.mem_append_left _ (List.mem_append_right _ hstore)

/-- On a mailbox, a receive leaves the chain exactly when it takes the only message by its
sender. -/
theorem Mailbox.receiveInside_iff (h : Mailbox m p ns q) (hs : BoxApart p ns)
    (msg : Option Message) (who : UInt32) :
    ReceiveInside m p msg who ↔ ¬ TakesOnly m p msg who := by
  obtain ⟨found, s, hrun, hinside, hnull⟩ := h.kreceiveUnlink_run hs msg who
  constructor
  · rintro ⟨ns', found', s', -, hrun', hlog⟩ ht
    obtain ⟨-, rfl⟩ : found = found' ∧ s = s' := by simpa [hrun] using hrun'
    exact (hlog _ (hnull ht)).2 rfl rfl
  · intro ht
    refine ⟨ns, found, s, h.chain, hrun, fun x hx => ?_⟩
    exact ⟨hinside ht x hx, fun _ => h.chain.ne_zero_of_mem (hinside ht x hx)⟩

end

/-- **Receive and null links.** In whatever state sends and receives have brought the
mailboxes of any processes, a receive keeps to the links of its chain unless it asks for a
sender and the only message is from that sender. -/
theorem receive_links (A : Allocator) (procs : List Nat) (m₀ : Mem) (live : List Block)
    (hA : A.Holds m₀ live) (hlive : ∀ p ∈ procs, procBlock p ∈ live)
    (hempty : ∀ p ∈ procs, msgFirst m₀ p = NULL ∧ numMessages m₀ p = 0)
    (ops : List MailOp) (hops : ∀ op ∈ ops, op.Among procs)
    (results : List (Nat × Option Message)) (m : Mem)
    (hrun : MailOp.run A.toHeap m₀ ops = some (results, m)) (p : Nat) (hp : p ∈ procs)
    (msg : Option Message) (who : UInt32) :
    ReceiveInside m p msg who ↔ ¬ TakesOnly m p msg who := by
  obtain ⟨-, nodes, live', h⟩ := (Mailboxes.empty hA hlive hempty).run hops hrun
  exact (h.box p hp).receiveInside_iff (h.boxApart hp) msg who

/-- A process alone on the kernel's heap: its record is empty, and the next block follows it. -/
theorem self_process : ∃ m₀ m₁, (firstFit Layout.least).Holds m₀ [procBlock 0x301020] ∧
    (∀ a, 0x301020 ≤ a → m₀ a = 0) ∧
    (firstFit Layout.least).kmalloc m₀ sizeofMessageNode = some (0x301064, m₁) := by
  have hstart : Layout.least.heapStart = 0x301000 := by decide
  have hinit : HeapState Layout.least (heapLimit Layout.least)
      (kinitHeap Layout.least (fun _ => 0)) [⟨0x301000, 0, true⟩] [] :=
    hstart ▸ heapState_init _ (by decide)
  -- the record, of zero bytes
  obtain ⟨m₀, -, hs₀, hf₀⟩ := firstFit_kmalloc hinit (by decide) (by decide)
    (show FirstFit.malloc headerSize Layout.least.heapStart Layout.least.heapEnd 52 _
      = some (0x301010, [⟨0x301000, 0, true⟩, ⟨0x301010, 52, false⟩]) by decide)
  have hzero : ∀ a, 0x301020 ≤ a → m₀ a = 0 := by
    intro a ha
    rw [hf₀ a]
    · simp only [kinitHeap, hstart]
      rw [store32_of_outside (by omega), store32_of_outside (by omega),
        store32_of_outside (by omega), store32_of_outside (by omega)]
    · simp only [List.forall_mem_cons, Block.Has, FirstFit.Node.header, headerSize]
      simp
      omega
  -- the node behind it
  obtain ⟨m₁, hk₁, -, -⟩ := firstFit_kmalloc hs₀ (by decide) (by decide)
    (show FirstFit.malloc headerSize Layout.least.heapStart Layout.least.heapEnd 540 _
      = some (0x301054, [⟨0x301000, 0, true⟩, ⟨0x301010, 52, false⟩, ⟨0x301054, 540, false⟩])
      by decide)
  exact ⟨m₀, m₁, ⟨_, hs₀⟩, hzero, hk₁⟩

/-- A process alone on the kernel's heap sends itself a message. -/
theorem self_message : ∃ m₀ results m, (firstFit Layout.least).Holds m₀ [procBlock 0x301020] ∧
    (msgFirst m₀ 0x301020 = NULL ∧ numMessages m₀ 0x301020 = 0) ∧
    MailOp.run (firstFit Layout.least).toHeap m₀
      [.send 0x301020 0x301020 (some Message.blank)] = some (results, m) ∧
    (MailOp.runSpec (pidOf m₀) (fun _ => [])
      [.send 0x301020 0x301020 (some Message.blank)]).2 0x301020 = [Message.blank] ∧
    msgLast m₀ 0x301020 = NULL := by
  obtain ⟨m₀, m₁, hholds, hzero, hk₁⟩ := self_process
  have hempty : msgFirst m₀ 0x301020 = NULL ∧ numMessages m₀ 0x301020 = 0 :=
    ⟨load32_eq_zero (fun a ha _ => hzero a (by omega)),
      load32_eq_zero (fun a ha _ => hzero a (by omega))⟩
  have hpid : pidOf m₀ 0x301020 = 0 := by
    have h0 : procPid m₀ 0x301020 = 0 := load32_eq_zero (fun a ha _ => hzero a (by omega))
    rw [pidOf, h0]
    rfl
  have hboxes : Mailboxes (firstFit Layout.least) m₀ [0x301020] (fun _ => []) (fun _ => [])
      [procBlock 0x301020] := Mailboxes.empty hholds (by simp) (by simpa using hempty)
  obtain ⟨m, hsend⟩ := hboxes.send_returns (s := 0x301020) (r := 0x301020) (by decide)
    (by simp) hk₁ Message.blank
  refine ⟨m₀, [(MESSAGE_SENT, some (stamp m₀ 0x301020 0x301020 Message.blank))], m, hholds,
    hempty, ?_, ?_, load32_eq_zero (fun a ha _ => hzero a (by omega))⟩
  · simp only [MailOp.run, MailOp.exec, hsend]
    rfl
  · simp only [MailOp.runSpec, MailOp.spec, hpid]
    simp [Message.blank]

/-- Asked for anybody's message, the process takes its own over the links of its chain. -/
theorem receive_links_any : ∃ m : Mem, ReceiveInside m 0x301020 (some Message.blank) MESSAGE_ANY := by
  obtain ⟨m₀, results, m, hholds, hempty, hrun, -⟩ := self_message
  refine ⟨m, (receive_links (firstFit Layout.least) [0x301020] m₀ _ hholds (by simp)
    (by simpa using hempty) _ (by simp [MailOp.Among]) results m hrun 0x301020 (by simp) _ _).mpr ?_⟩
  exact fun ht => ht.2.1 rfl

/-- Asked for a message from itself, the process stores through a null link. -/
theorem receive_links_fails : ∃ m₀ results m,
    (firstFit Layout.least).Holds m₀ [procBlock 0x301020] ∧
    (msgFirst m₀ 0x301020 = NULL ∧ numMessages m₀ 0x301020 = 0) ∧
    MailOp.run (firstFit Layout.least).toHeap m₀
      [.send 0x301020 0x301020 (some Message.blank)] = some (results, m) ∧
    ¬ ReceiveInside m 0x301020 (some Message.blank) 0 := by
  obtain ⟨m₀, results, m, hholds, hempty, hrun, hqueue, -⟩ := self_message
  have hboxes : Mailboxes (firstFit Layout.least) m₀ [0x301020] (fun _ => []) (fun _ => [])
      [procBlock 0x301020] := Mailboxes.empty hholds (by simp) (by simpa using hempty)
  obtain ⟨-, nodes, live, h⟩ := hboxes.run (by simp [MailOp.Among]) hrun
  refine ⟨m₀, results, m, hholds, hempty, hrun, fun hinside => ?_⟩
  have hbox := h.box 0x301020 (by simp)
  rw [hqueue] at hbox
  refine (hbox.receiveInside_iff (h.boxApart (by simp)) _ _).mp hinside ?_
  obtain ⟨a, ha, hmsg⟩ := List.map_eq_singleton_iff.mp hbox.msgs
  refine ⟨by simp, by decide, by rw [hbox.num, ha]; rfl, ?_⟩
  have hfirst : msgFirst m 0x301020 = a := by
    rw [hbox.chain.head, ha]
    rfl
  rw [hfirst, nodeSender, hmsg]
  rfl

end DayOS
