import DayOS.MailboxRun
import DayOS.ProcessList

set_option autoImplicit false

/-! # Mailboxes across process lifetimes

Runs of creations, kills, sends and receives over one heap that hands out freed blocks with
their old contents. The constructors do not set `messages.first`, and `CreateKernelProcess`
does not set `user_stack`, so what a process finds in its mailbox depends on the old contents
of the block its record was made from. Where the block holds `NULL` there, a process receives
what was sent to it since its creation and nothing else (`mailbox_isolation_of_clean`).
-/

namespace DayOS

open ByteMemory Linked

/-! ## Runs with their history -/

/-- What happened to the live processes: which of them `CreateUserProcess` made, and what was
sent to and received by each since its creation. -/
structure Lives where
  alive : List Nat
  user : Nat → Bool
  sent : Nat → List Message
  got : Nat → List Message

/-- A new process, to which nothing was sent so far. -/
def Lives.birth (g : Lives) (p : Nat) (user : Bool) : Lives where
  alive := p :: g.alive
  user := Function.update g.user p user
  sent := Function.update g.sent p []
  got := Function.update g.got p []

/-- The stacks allocated for `p`, as its record has them. -/
def stacksOf (user : Bool) (m : Mem) (p : Nat) : List Block :=
  ⟨procStack m p, STACK_SIZE⟩ :: if user then [⟨userStack m p, STACK_SIZE⟩] else []

inductive Event where
  | createKernel (entry : Nat)
  | createUser (entry context : Nat)
  | kill (p : Nat)
  | send (s r : Nat) (msg : Message)
  | receive (p : Nat) (buf : Message) (who : UInt32)
  | write (m : Mem)

/-- One step of the kernel and what it adds to the history. Processes may write to their
stacks at any time. -/
inductive LifeStep {σ : Type} (A : Allocator) (V : Contexts σ) :
    Kernel σ → Lives → Event → Kernel σ → Lives → Prop
  | createKernel {K K' : Kernel σ} {g : Lives} {entry p : Nat} :
      createKernelProcess A.toHeap V K entry = some (p, K') →
      LifeStep A V K g (.createKernel entry) K' (g.birth p false)
  | createUser {K K' : Kernel σ} {g : Lives} {entry context p : Nat} :
      createUserProcess A.toHeap K entry context = some (p, K') →
      LifeStep A V K g (.createUser entry context) K' (g.birth p true)
  | kill {K K' : Kernel σ} {g : Lives} {p : Nat} : p ∈ g.alive →
      killProcess A.toHeap V K p = .ok K' →
      LifeStep A V K g (.kill p) K' { g with alive := g.alive.erase p }
  | send {K : Kernel σ} {g : Lives} {s r ret : Nat} {msg msg' : Message} {m' : Mem} :
      s ∈ g.alive → r ∈ g.alive →
      ksendMessage A.toHeap K.mem s r (some msg) = some (ret, some msg', m') →
      LifeStep A V K g (.send s r msg) { K with mem := m' }
        { g with sent := Function.update g.sent r (g.sent r ++ [msg']) }
  | receive {K : Kernel σ} {g : Lives} {p : Nat} {buf msg : Message} {who : UInt32} {m' : Mem} :
      p ∈ g.alive →
      kreceiveMessage A.toHeap K.mem p (some buf) who = some (MESSAGE_RECEIVED, some msg, m') →
      LifeStep A V K g (.receive p buf who) { K with mem := m' }
        { g with got := Function.update g.got p (g.got p ++ [msg]) }
  | receiveNone {K : Kernel σ} {g : Lives} {p : Nat} {buf : Message} {out : Option Message}
      {who : UInt32} {m' : Mem} : p ∈ g.alive →
      kreceiveMessage A.toHeap K.mem p (some buf) who = some (MESSAGE_ERR_RECEIVE, out, m') →
      LifeStep A V K g (.receive p buf who) { K with mem := m' } g
  | write {K : Kernel σ} {g : Lives} {m' : Mem} :
      (∀ a, (∀ p ∈ g.alive, ∀ b ∈ stacksOf (g.user p) K.mem p, ¬ b.Has a) → m' a = K.mem a) →
      LifeStep A V K g (.write m') { K with mem := m' } g

/-- The states reached from an empty process list and heap on by steps that all meet the
condition `P`. -/
inductive LifeRun {σ : Type} (A : Allocator) (V : Contexts σ)
    (P : Kernel σ → Lives → Event → Prop) : Kernel σ → Lives → Prop
  | boot {K : Kernel σ} {g : Lives} : A.Holds K.mem [] → K.firstProcess = NULL →
      K.numProc < 2 ^ 32 → g.alive = [] → LifeRun A V P K g
  | step {K K' : Kernel σ} {g g' : Lives} {e : Event} : LifeRun A V P K g →
      LifeStep A V K g e K' g' → P K g e → LifeRun A V P K' g'

/-- **Mailbox isolation.** Every live process has a well-formed mailbox, and what it has
received together with what waits there is exactly what was sent to it since its creation. -/
def Isolated (A : Allocator) (m : Mem) (g : Lives) : Prop :=
  ∃ nodes queue live, Mailboxes A m g.alive nodes queue live ∧
    ∀ p ∈ g.alive, (g.got p ++ queue p).Perm (g.sent p)

/-! ## When the code keeps mailboxes apart -/

/-- The condition on one step: no live process has the pid a new one gets, the block of a
new record holds `NULL` where `messages.first` will be, and a process that is killed has a
user stack of its own or `NULL` for one. -/
def Clean {σ : Type} (H : Heap) (K : Kernel σ) (g : Lives) : Event → Prop
  | .createKernel _ => (∀ r ∈ g.alive, procPid K.mem r ≠ K.numProc) ∧
      ∀ p m, kernelRecord H K = some (p, m) → msgFirst m p = NULL
  | .createUser _ _ => (∀ r ∈ g.alive, procPid K.mem r ≠ K.numProc) ∧
      ∀ p m, userRecord H K = some (p, m) → msgFirst m p = NULL
  | .kill p => g.user p = true ∨ userStack K.mem p = NULL
  | _ => True

/-- The invariant of clean runs. -/
structure Lived {σ : Type} (A : Allocator) (V : Contexts σ) (K : Kernel σ) (g : Lives)
    (nodes : Nat → List Nat) (queue : Nat → List Message) (live : List Block) : Prop where
  list : ProcList V.area K.mem K.firstProcess g.alive
  num : K.numProc < 2 ^ 32
  boxes : Mailboxes A K.mem g.alive nodes queue live
  stackLive : ∀ p ∈ g.alive, ∀ b ∈ stacksOf (g.user p) K.mem p, b ∈ live
  stackNodup : ∀ p ∈ g.alive, (stacksOf (g.user p) K.mem p).Nodup
  stackOwn : ∀ p ∈ g.alive, ∀ r ∈ g.alive, p ≠ r →
    List.Disjoint (stacksOf (g.user p) K.mem p) (stacksOf (g.user r) K.mem r)
  history : ∀ p ∈ g.alive, (g.got p ++ queue p).Perm (g.sent p)

section
variable {σ : Type} {A : Allocator} {V : Contexts σ} {K K' : Kernel σ} {g : Lives}
  {nodes : Nat → List Nat} {queue : Nat → List Message} {live : List Block} {m m' : Mem} {p : Nat}

theorem stacksOf_congr {u : Bool} (h : AgreeOn m m' (p + 28) 8) :
    stacksOf u m' p = stacksOf u m p := by
  have h₁ : procStack m' p = procStack m p := load32_congr (h.mono (by omega) (by omega))
  have h₂ : userStack m' p = userStack m p := load32_congr (h.mono (by omega) (by omega))
  simp only [stacksOf, h₁, h₂]

theorem size_of_mem_stacksOf {u : Bool} {b : Block} (h : b ∈ stacksOf u m p) :
    b.size = STACK_SIZE := by
  cases u <;> simp only [stacksOf, List.mem_cons, List.not_mem_nil, or_false, if_true,
    Bool.false_eq_true, if_false] at h
  · rw [h]
  · rcases h with rfl | rfl <;> rfl

/-- A stack is neither a record nor a node. -/
theorem ne_of_mem_stacksOf {u : Bool} {b : Block} (h : b ∈ stacksOf u m p) (k : Nat) :
    b ≠ procBlock k ∧ b ≠ nodeBlock k := by
  have hsize := size_of_mem_stacksOf h
  constructor <;> rintro rfl <;> cases hsize

/-! ## The steps -/

/-- The mailboxes of a process list with one more, new process. -/
theorem Mailboxes.cons {procs : List Nat} (h : Mailboxes A m procs nodes queue live)
    (hp : procBlock p ∈ live) (hnew : p ∉ procs) (hfirst : msgFirst m p = NULL)
    (hnum : numMessages m p = 0) :
    Mailboxes A m (p :: procs) (Function.update nodes p []) (Function.update queue p []) live := by
  have hne : ∀ r ∈ procs, r ≠ p := by
    rintro r hr rfl
    exact hnew hr
  refine ⟨h.holds, List.forall_mem_cons.mpr ⟨hp, h.procLive⟩,
    List.forall_mem_cons.mpr ⟨by simp, fun r hr => ?_⟩,
    List.forall_mem_cons.mpr ⟨?_, fun r hr => ?_⟩, fun r hr k hk hrk => ?_⟩
  · rw [Function.update_of_ne (hne r hr)]
    exact h.nodeLive r hr
  · rw [Function.update_self, Function.update_self]
    exact ⟨⟨hfirst, trivial, rfl⟩, hnum⟩
  · rw [Function.update_of_ne (hne r hr), Function.update_of_ne (hne r hr)]
    exact h.box r hr
  · by_cases hrp : r = p
    · subst hrp
      simp
    · by_cases hkp : k = p
      · subst hkp
        simp
      · rw [Function.update_of_ne hrp, Function.update_of_ne hkp]
        exact h.unshared r ((List.mem_cons.mp hr).resolve_left hrp) k
          ((List.mem_cons.mp hk).resolve_left hkp) hrk

/-- A step that keeps the records but for the mailboxes and timers keeps the rest of the
invariant. -/
theorem Lived.of_keep (h : Lived A V K g nodes queue live) {nodes' : Nat → List Nat}
    {queue' : Nat → List Message} {live' : List Block} {sent got : Nat → List Message}
    (hrec : ∀ p ∈ g.alive, ∀ a, p ≤ a → a < p + 52 → ¬ (p + 12 ≤ a ∧ a < p + 24) → m' a = K.mem a)
    (hboxes : Mailboxes A m' g.alive nodes' queue' live')
    (hstack : ∀ p ∈ g.alive, ∀ b ∈ stacksOf (g.user p) K.mem p, b ∈ live')
    (hist : ∀ p ∈ g.alive, (got p ++ queue' p).Perm (sent p)) :
    Lived A V { K with mem := m' } { g with sent := sent, got := got } nodes' queue' live' := by
  have hstacks : ∀ p ∈ g.alive, stacksOf (g.user p) m' p = stacksOf (g.user p) K.mem p :=
    fun p hp => stacksOf_congr (fun a _ _ => hrec p hp a (by omega) (by omega) (by omega))
  refine ⟨h.list.congr (fun p hp => ⟨fun a _ _ => hrec p hp a (by omega) (by omega) (by omega),
      fun a _ _ => hrec p hp a (by omega) (by omega) (by omega)⟩), h.num, hboxes, fun p hp => ?_,
    fun p hp => ?_, fun p hp r hr hne => ?_, hist⟩
  · simp only [hstacks p hp]
    exact hstack p hp
  · simp only [hstacks p hp]
    exact h.stackNodup p hp
  · simp only [hstacks p hp, hstacks r hr]
    exact h.stackOwn p hp r hr hne

theorem Lived.send (h : Lived A V K g nodes queue live) {s r ret : Nat} {msg msg' : Message}
    (hs : s ∈ g.alive) (hr : r ∈ g.alive)
    (hk : ksendMessage A.toHeap K.mem s r (some msg) = some (ret, some msg', m')) :
    ∃ nodes' queue' live', Lived A V { K with mem := m' }
      { g with sent := Function.update g.sent r (g.sent r ++ [msg']) } nodes' queue' live' := by
  have hs0 : s ≠ 0 := by
    have := (h.boxes.boxApart hs).process
    omega
  obtain ⟨-, hout, new, hm, ht⟩ := h.boxes.send hs0 hr hk
  obtain rfl : msg' = stamp K.mem s r msg := by simpa using hout
  refine ⟨_, _, _, h.of_keep (fun p hp a ha ha' hbox => ?_) hm (fun p hp b hb => ?_)
    (fun p hp => ?_)⟩
  · exact h.boxes.record_eq hr h.boxes.procLive ht hp ⟨ha, ha'⟩ (fun _ => hbox)
  · exact List.mem_cons_of_mem _ (h.stackLive p hp b hb)
  · by_cases hpr : p = r
    · subst hpr
      rw [Function.update_self, Function.update_self, ← List.append_assoc]
      exact (h.history p hp).append_right _
    · rw [Function.update_of_ne hpr, Function.update_of_ne hpr]
      exact h.history p hp

theorem takeOldest_perm {who : UInt32} {q q' : List Message} {msg : Message}
    (h : takeOldest who q = some (msg, q')) : q.Perm (msg :: q') := by
  obtain ⟨pre, post, rfl, rfl, -⟩ := takeOldest_eq_some h
  exact List.perm_middle

theorem Lived.receive (h : Lived A V K g nodes queue live) {buf msg : Message} {who : UInt32}
    (hp : p ∈ g.alive) (hk : kreceiveMessage A.toHeap K.mem p (some buf) who
      = some (MESSAGE_RECEIVED, some msg, m')) :
    ∃ nodes' queue' live', Lived A V { K with mem := m' }
      { g with got := Function.update g.got p (g.got p ++ [msg]) } nodes' queue' live' := by
  rcases h.boxes.receive hp hk with ⟨-, hret, -⟩ | ⟨msg', q', a, ns', hsome, -, hout, ha, hm, ht⟩
  · cases hret
  · obtain rfl : msg = msg' := by simpa using hout
    refine ⟨_, _, _, h.of_keep (fun r hr a ha ha' hbox => ?_) hm (fun r hr b hb => ?_)
      (fun r hr => ?_)⟩
    · exact h.boxes.record_eq hp hm.procLive ht hr ⟨ha, ha'⟩ (fun _ => hbox)
    · exact (List.mem_erase_of_ne (ne_of_mem_stacksOf hb a).2).mpr (h.stackLive r hr b hb)
    · by_cases hrp : r = p
      · subst hrp
        rw [Function.update_self, Function.update_self, List.append_assoc]
        exact ((takeOldest_perm hsome).symm.append_left _).trans (h.history r hr)
      · rw [Function.update_of_ne hrp, Function.update_of_ne hrp]
        exact h.history r hr

/-- Processes that write to their stacks disturb nobody. -/
theorem Lived.write (h : Lived A V K g nodes queue live)
    (hw : ∀ a, (∀ p ∈ g.alive, ∀ b ∈ stacksOf (g.user p) K.mem p, ¬ b.Has a) →
      m' a = K.mem a) : Lived A V { K with mem := m' } g nodes queue live := by
  have hkeep : ∀ c ∈ live, (∀ p ∈ g.alive, c ∉ stacksOf (g.user p) K.mem p) →
      AgreeOn K.mem m' c.addr c.size := by
    intro c hc hne a ha ha'
    refine hw a (fun p hp b hb hba => ?_)
    have hbc : b ≠ c := fun he => hne p hp (he ▸ hb)
    exact (A.apart_of_ne h.boxes.holds (h.stackLive p hp b hb) hc hbc).not_has hba ⟨ha, ha'⟩
  have hproc : ∀ p ∈ g.alive, AgreeOn K.mem m' p 52 := fun p hp =>
    hkeep _ (h.boxes.procLive p hp) (fun r _ hmem => (ne_of_mem_stacksOf hmem p).1 rfl)
  have hnode : ∀ p ∈ g.alive, ∀ n ∈ nodes p, AgreeOn K.mem m' n 540 := fun p hp n hn =>
    hkeep _ (h.boxes.nodeLive p hp n hn) (fun r _ hmem => (ne_of_mem_stacksOf hmem n).2 rfl)
  have hholds : A.Holds m' live := by
    refine A.write h.boxes.holds (fun a _ hb => hw a (fun p hp b hb' => ?_))
    exact hb b (h.stackLive p hp b hb')
  refine h.of_keep (fun p hp a ha ha' _ => hproc p hp a ha ha') (h.boxes.keep (fun _ => id) hholds
    (fun p hp => ⟨h.boxes.procLive p hp, (hproc p hp).mono (by omega) (by omega)⟩)
    (fun p hp n hn => ⟨h.boxes.nodeLive p hp n hn, hnode p hp n hn⟩)) h.stackLive h.history

/-- A process `p` has been made on the allocator. `new` are its stacks, and its record is filled
in in the memory `m`, where no block in use before has changed. -/
structure Carved (A : Allocator) (area : Nat → Prop) (K K' : Kernel σ) (live new : List Block)
    (p stack context : Nat) (state : Cpu) (m : Mem) : Prop where
  holds : A.Holds m (procBlock p :: (new ++ live))
  own : ⟨stack, STACK_SIZE⟩ ∈ new
  keeps : ∀ x, (¬ A.arena x ∨ ∃ b ∈ live, b.Has x) → m x = K.mem x
  record : NewRecord area m K'.mem p stack K.firstProcess K.numProc context state
  globals : K' = { K with
    mem := K'.mem, frames := K'.frames, firstProcess := p, numProc := (K.numProc + 1) % 2 ^ 32 }

/-- What one more allocation keeps. -/
theorem kept_cons {b₀ : Block} {x : Nat} (h : ¬ A.arena x ∨ ∃ b ∈ live, b.Has x) :
    ¬ A.arena x ∨ ∃ b ∈ b₀ :: live, b.Has x := by
  rcases h with hx | ⟨b, hb, hbx⟩
  · exact Or.inl hx
  · exact Or.inr ⟨b, List.mem_cons_of_mem _ hb, hbx⟩

theorem createUserProcess_carves {entry context : Nat} (hholds : A.Holds K.mem live)
    (hk : createUserProcess A.toHeap K entry context = some (p, K')) :
    ∃ stack ustack m, userRecord A.toHeap K = some (p, m) ∧ userStack K'.mem p = ustack ∧
      Carved A (fun _ => False) K K' live [⟨ustack, STACK_SIZE⟩, ⟨stack, STACK_SIZE⟩] p stack
        context (newState entry (ustack + STACK_SIZE) 0x1B 0x23) m := by
  obtain ⟨stack, m₁, ustack, m₂, m₃, h₁, h₂, h₃, hK, hnew⟩ := createUserProcess_spec hk
  have hpos : 0 < STACK_SIZE := by decide
  have hpos' : 0 < sizeofProcess := by decide
  have hl₁ := A.kmalloc_holds hholds hpos h₁
  have hl₂ := A.kmalloc_holds hl₁ hpos h₂
  have hl₃ := A.kmalloc_holds hl₂ hpos' h₃
  have hap : p + 52 ≤ stack ∨ stack + 4096 ≤ p :=
    (List.pairwise_cons.mp (A.apart hl₃)).1 ⟨stack, STACK_SIZE⟩ (by simp)
  have hlt : stack + 4096 ≤ 2 ^ 32 := A.fin_le hl₁ List.mem_cons_self
  have hu : ustack < 2 ^ 32 := by
    have := A.fin_le hl₂ List.mem_cons_self
    simp only [STACK_SIZE] at this
    omega
  obtain ⟨hrec, hustack⟩ := hnew hap hlt hu
  have hframes : K'.frames = K.frames := by rw [hK]
  refine ⟨stack, ustack, m₃, by simp [userRecord, h₁, h₂, h₃], hustack, hl₃, by simp,
    fun x hx => ?_, hrec, by rw [hframes]; exact hK⟩
  calc m₃ x
      = m₂ x := A.kmalloc_keeps hl₂ hpos' h₃ x (kept_cons (kept_cons hx))
    _ = m₁ x := A.kmalloc_keeps hl₁ hpos h₂ x (kept_cons hx)
    _ = K.mem x := A.kmalloc_keeps hholds hpos h₁ x hx

theorem createKernelProcess_carves {entry : Nat} (hholds : A.Holds K.mem live)
    (hV : ∀ a, A.arena a → ¬ V.area a)
    (hk : createKernelProcess A.toHeap V K entry = some (p, K')) :
    ∃ stack context m, kernelRecord A.toHeap K = some (p, m) ∧
      Carved A V.area K K' live [⟨stack, STACK_SIZE⟩] p stack context
        (newState entry (stack + STACK_SIZE) 0x08 0x10) m := by
  obtain ⟨stack, m₁, m₂, context, h₁, h₂, hK, hnew⟩ := createKernelProcess_spec hk
  have hpos : 0 < STACK_SIZE := by decide
  have hpos' : 0 < sizeofProcess := by decide
  have hl₁ := A.kmalloc_holds hholds hpos h₁
  have hl₂ := A.kmalloc_holds hl₁ hpos' h₂
  have hap : p + 52 ≤ stack ∨ stack + 4096 ≤ p :=
    (List.pairwise_cons.mp (A.apart hl₂)).1 ⟨stack, STACK_SIZE⟩ (by simp)
  have hlt : stack + 4096 ≤ 2 ^ 32 := A.fin_le hl₁ List.mem_cons_self
  have harea : ∀ x, (p ≤ x ∧ x < p + 52 ∨ stack ≤ x ∧ x < stack + 4096) → ¬ V.area x := by
    intro x hx
    refine hV x ?_
    rcases hx with hx | hx
    · exact (A.inArena hl₂ _ List.mem_cons_self).2 x hx
    · exact (A.inArena hl₁ _ List.mem_cons_self).2 x hx
  obtain ⟨hrec, -⟩ := hnew hap hlt harea
  refine ⟨stack, context, m₂, by simp [kernelRecord, h₁, h₂], hl₂, by simp, fun x hx => ?_, hrec,
    hK⟩
  calc m₂ x
      = m₁ x := A.kmalloc_keeps hl₁ hpos' h₂ x (kept_cons hx)
    _ = K.mem x := A.kmalloc_keeps hholds hpos h₁ x hx

section
variable {area : Nat → Prop} {m₃ : Mem} {stack context : Nat} {state : Cpu} {user : Bool}
  {new : List Block}

/-- The blocks of the new process do not meet those in use before. -/
theorem Carved.apart (h : Carved A area K K' live new p stack context state m₃) {b : Block}
    (hb : b ∈ live) : b.Apart (procBlock p) ∧ b.Apart ⟨stack, STACK_SIZE⟩ := by
  have hnd : (procBlock p :: (new ++ live)).Nodup := Allocator.nodup h.holds
  obtain ⟨hpnew, hnew⟩ := List.nodup_cons.mp hnd
  have hlive : b ∈ procBlock p :: (new ++ live) := by simp [hb]
  have hslive : ⟨stack, STACK_SIZE⟩ ∈ procBlock p :: (new ++ live) := by simp [h.own]
  refine ⟨A.apart_of_ne h.holds hlive List.mem_cons_self
    (fun he => hpnew (he ▸ List.mem_append_right _ hb)), A.apart_of_ne h.holds hlive hslive
    (fun he => (List.nodup_append.mp hnew).2.2 _ h.own b hb he.symm)⟩

/-- No byte of a block in use before has changed. -/
theorem Carved.agree (h : Carved A area K K' live new p stack context state m₃)
    (harea : ∀ a, A.arena a → ¬ area a) {b : Block} (hb : b ∈ live) :
    AgreeOn K.mem K'.mem b.addr b.size := by
  intro x hx hx'
  obtain ⟨h₁, h₂⟩ := h.apart hb
  have ha : A.arena x := (A.inArena h.holds b (by simp [hb])).2 x ⟨hx, hx'⟩
  simp only [Block.Apart, procBlock, sizeofProcess, STACK_SIZE] at h₁ h₂
  calc K'.mem x
      = m₃ x := h.record.outside x (harea x ha) (by omega) (by omega)
    _ = K.mem x := h.keeps x (Or.inr ⟨b, hb, hx, hx'⟩)

/-- Filling in the record does not disturb the allocator. -/
theorem Carved.holds_filled (h : Carved A area K K' live new p stack context state m₃)
    (harea : ∀ a, A.arena a → ¬ area a) : A.Holds K'.mem (procBlock p :: (new ++ live)) := by
  refine A.write h.holds (fun a ha hb => h.record.outside a (harea a ha) ?_ ?_)
  · have hoff := hb _ List.mem_cons_self
    simp only [Block.Has, procBlock, sizeofProcess] at hoff
    omega
  · have hoff := hb ⟨stack, STACK_SIZE⟩ (by simp [h.own])
    simp only [Block.Has, STACK_SIZE] at hoff
    omega

/-- The process list with the new process in front. -/
theorem Lived.birth_list (h : Lived A V K g nodes queue live)
    (hfresh : ∀ r ∈ g.alive, procPid K.mem r ≠ K.numProc)
    (hc : Carved A area K K' live new p stack context state m₃)
    (harea : ∀ a, A.arena a → ¬ area a) (hV : ∀ a, A.arena a → ¬ V.area a) :
    ProcList V.area K'.mem p (p :: g.alive) := by
  have hrange : 0x1000 ≤ p ∧ p + 52 ≤ 2 ^ 32 :=
    ⟨A.addr_ge hc.holds List.mem_cons_self, A.fin_le hc.holds List.mem_cons_self⟩
  have hoff : ∀ k, procBlock k ∈ procBlock p :: (new ++ live) → ∀ x, (procBlock k).Has x →
      A.arena x := fun k hk => (A.inArena hc.holds _ hk).2
  have hcreate := h.list.create h.num hfresh
    (List.forall_mem_map.mpr (fun r hr x hx hx' =>
      hc.keeps x (Or.inr ⟨_, h.boxes.procLive r hr, hx, hx'⟩))) hc.record hrange
    (fun x hx => hV x (hoff p List.mem_cons_self x hx))
    (fun r hr => (hc.apart (h.boxes.procLive r hr)).1)
    (fun r hr => (hc.apart (h.boxes.procLive r hr)).2)
    (fun r hr x hx => harea x (hoff r (by simp [h.boxes.procLive r hr]) x hx))
  exact hcreate.1

/-- **A birth** on a clean block: the new process has an empty mailbox, the others keep
theirs. `new` are the stacks just allocated. -/
theorem Lived.birth (h : Lived A V K g nodes queue live)
    (hfresh : ∀ r ∈ g.alive, procPid K.mem r ≠ K.numProc)
    (hc : Carved A area K K' live new p stack context state m₃)
    (hstacks : ∀ b ∈ stacksOf user K'.mem p, b ∈ new)
    (hnodup : (stacksOf user K'.mem p).Nodup)
    (harea : ∀ a, A.arena a → ¬ area a) (hV : ∀ a, A.arena a → ¬ V.area a)
    (hclean : msgFirst m₃ p = NULL) :
    Lived A V K' (g.birth p user) (Function.update nodes p []) (Function.update queue p [])
      (procBlock p :: (new ++ live)) := by
  have hlive : ∀ b ∈ live, b ∈ procBlock p :: (new ++ live) := fun b hb => by simp [hb]
  have hnd : (procBlock p :: (new ++ live)).Nodup := Allocator.nodup hc.holds
  have hdisj : ∀ b ∈ new, b ∉ live := fun b hb hb' =>
    (List.nodup_append.mp (List.nodup_cons.mp hnd).2).2.2 b hb b hb' rfl
  have hp : p ∉ g.alive := fun hmem =>
    (List.nodup_cons.mp hnd).1 (List.mem_append_right _ (h.boxes.procLive p hmem))
  have hne : ∀ r ∈ g.alive, r ≠ p := by
    rintro r hr rfl
    exact hp hr
  have hfirst : K'.firstProcess = p := congrArg Kernel.firstProcess hc.globals
  have hnum : K'.numProc < 2 ^ 32 := by
    rw [hc.globals]
    exact Nat.mod_lt _ (by decide)
  have hproc : ∀ r ∈ g.alive, AgreeOn K.mem K'.mem r 52 := fun r hr =>
    hc.agree harea (h.boxes.procLive r hr)
  have hboxes : Mailboxes A K'.mem g.alive nodes queue (procBlock p :: (new ++ live)) :=
    h.boxes.keep (fun _ => id) (hc.holds_filled harea)
      (fun r hr => ⟨hlive _ (h.boxes.procLive r hr), (hproc r hr).mono (by omega) (by omega)⟩)
      (fun r hr n hn => ⟨hlive _ (h.boxes.nodeLive r hr n hn),
        hc.agree harea (h.boxes.nodeLive r hr n hn)⟩)
  have hfirst0 : msgFirst K'.mem p = NULL := by
    rw [← hclean]
    exact load32_congr (hc.record.stale.mono (by omega) (by omega))
  have hsame : ∀ r ∈ g.alive, stacksOf ((g.birth p user).user r) K'.mem r
      = stacksOf (g.user r) K.mem r := by
    intro r hr
    simp only [Lives.birth, Function.update_of_ne (hne r hr)]
    exact stacksOf_congr ((hproc r hr).mono (by omega) (by omega))
  have hself : stacksOf ((g.birth p user).user p) K'.mem p = stacksOf user K'.mem p := by
    simp [Lives.birth]
  refine ⟨?_, hnum, hboxes.cons List.mem_cons_self hp hfirst0 hc.record.num_eq, ?_, ?_, ?_, ?_⟩
  · rw [hfirst]
    exact h.birth_list hfresh hc harea hV
  · refine List.forall_mem_cons.mpr ⟨fun b hb => ?_, fun r hr b hb => ?_⟩
    · rw [hself] at hb
      exact List.mem_cons_of_mem _ (List.mem_append_left _ (hstacks b hb))
    · rw [hsame r hr] at hb
      exact hlive b (h.stackLive r hr b hb)
  · refine List.forall_mem_cons.mpr ⟨hself ▸ hnodup, fun r hr => ?_⟩
    rw [hsame r hr]
    exact h.stackNodup r hr
  · -- the new stacks are new, so no other process has them
    have hnewown : ∀ r ∈ g.alive, List.Disjoint (stacksOf ((g.birth p user).user p) K'.mem p)
        (stacksOf ((g.birth p user).user r) K'.mem r) := by
      intro r hr b hb hb'
      rw [hself] at hb
      rw [hsame r hr] at hb'
      exact hdisj b (hstacks b hb) (h.stackLive r hr b hb')
    intro r hr k hk hrk
    rcases List.mem_cons.mp hr with rfl | hr'
    · exact hnewown k ((List.mem_cons.mp hk).resolve_left (Ne.symm hrk))
    · rcases List.mem_cons.mp hk with rfl | hk'
      · exact (hnewown r hr').symm
      · rw [hsame r hr', hsame k hk']
        exact h.stackOwn r hr' k hk' hrk
  · refine List.forall_mem_cons.mpr ⟨by simp [Lives.birth], fun r hr => ?_⟩
    simp only [Lives.birth, Function.update_of_ne (hne r hr)]
    exact h.history r hr

end

theorem Lived.createUser (h : Lived A V K g nodes queue live) {entry context : Nat}
    (hV : ∀ a, A.arena a → ¬ V.area a) (hclean : Clean A.toHeap K g (.createUser entry context))
    (hk : createUserProcess A.toHeap K entry context = some (p, K')) :
    ∃ nodes' queue' live', Lived A V K' (g.birth p true) nodes' queue' live' := by
  obtain ⟨hfresh, hfirst0⟩ := hclean
  obtain ⟨stack, ustack, m, hrecord, hustack, hc⟩ := createUserProcess_carves h.boxes.holds hk
  have hstacks : stacksOf true K'.mem p = [⟨stack, STACK_SIZE⟩, ⟨ustack, STACK_SIZE⟩] := by
    simp only [stacksOf, hc.record.stack_eq, hustack, if_true]
  have hne : (⟨stack, STACK_SIZE⟩ : Block) ≠ ⟨ustack, STACK_SIZE⟩ := by
    have hnd := (List.nodup_cons.mp (Allocator.nodup hc.holds)).2
    exact fun he => (List.nodup_cons.mp hnd).1 (by simp [he])
  refine ⟨_, _, _, h.birth hfresh hc (fun b hb => ?_) ?_ (fun _ _ => id) hV (hfirst0 p m hrecord)⟩
  · rw [hstacks] at hb
    simp only [List.mem_cons, List.not_mem_nil, or_false] at hb ⊢
    tauto
  · rw [hstacks]
    simpa using hne

theorem Lived.createKernel (h : Lived A V K g nodes queue live) {entry : Nat}
    (hV : ∀ a, A.arena a → ¬ V.area a) (hclean : Clean A.toHeap K g (.createKernel entry))
    (hk : createKernelProcess A.toHeap V K entry = some (p, K')) :
    ∃ nodes' queue' live', Lived A V K' (g.birth p false) nodes' queue' live' := by
  obtain ⟨hfresh, hfirst0⟩ := hclean
  obtain ⟨stack, context, m, hrecord, hc⟩ := createKernelProcess_carves h.boxes.holds hV hk
  have hstacks : stacksOf false K'.mem p = [⟨stack, STACK_SIZE⟩] := by
    simp [stacksOf, hc.record.stack_eq]
  exact ⟨_, _, _, h.birth hfresh hc (fun b hb => hstacks ▸ hb)
    (hstacks ▸ List.nodup_singleton _) hV hV (hfirst0 p m hrecord)⟩

/-- Releasing a process frees its stacks and its record, and nothing that others have. -/
theorem releaseProcess_holds {u : Bool} (hholds : A.Holds m live)
    (hp : procBlock p ∈ live) (hstacks : ∀ b ∈ stacksOf u m p, b ∈ live)
    (hnodup : (stacksOf u m p).Nodup) (hclean : u = true ∨ userStack m p = NULL)
    (hk : releaseProcess A.toHeap m p = some m') :
    ∃ live', A.Holds m' live' ∧ ∀ c ∈ live, c ≠ procBlock p → c ∉ stacksOf u m p →
      c ∈ live' ∧ AgreeOn m m' c.addr c.size := by
  simp only [releaseProcess, Option.bind_eq_bind, Option.bind_eq_some_iff] at hk
  obtain ⟨m₁, h₁, m₂, h₂, h₃⟩ := hk
  have hs : (⟨procStack m p, STACK_SIZE⟩ : Block) ∈ stacksOf u m p := by simp [stacksOf]
  have hl₁ := A.kfree_holds hholds (hstacks _ hs) h₁
  have hmem₁ : ∀ c ∈ live, c ≠ ⟨procStack m p, STACK_SIZE⟩ →
      c ∈ live.erase ⟨procStack m p, STACK_SIZE⟩ := fun c hc hne => (List.mem_erase_of_ne hne).mpr hc
  have hk₁ : ∀ c ∈ live, c ≠ ⟨procStack m p, STACK_SIZE⟩ → AgreeOn m m₁ c.addr c.size :=
    fun c hc hne => A.kfree_agree hholds (hstacks _ hs) h₁ (hmem₁ c hc hne)
  have hpne : procBlock p ≠ ⟨procStack m p, STACK_SIZE⟩ := fun he =>
    (ne_of_mem_stacksOf hs p).1 he.symm
  have hu₁ : userStack m₁ p = userStack m p :=
    load32_congr ((hk₁ _ hp hpne).mono (by simp [procBlock]) (by simp [procBlock, sizeofProcess]))
  rw [hu₁] at h₂
  -- what freeing the user stack leaves: the blocks without it, or all of them
  have hmid : ∃ live₂, A.Holds m₂ live₂ ∧ ∀ c ∈ live, c ∉ stacksOf u m p →
      c ∈ live₂ ∧ AgreeOn m m₂ c.addr c.size := by
    have hout : ∀ c, c ∉ stacksOf u m p → c ≠ ⟨procStack m p, STACK_SIZE⟩ := by
      rintro c hc rfl
      exact hc hs
    rcases hclean with rfl | hnull
    · have hus : (⟨userStack m p, STACK_SIZE⟩ : Block) ∈ stacksOf true m p := by simp [stacksOf]
      have hne : (⟨userStack m p, STACK_SIZE⟩ : Block) ≠ ⟨procStack m p, STACK_SIZE⟩ := by
        intro he
        simp [stacksOf, he] at hnodup
      have hul := hmem₁ _ (hstacks _ hus) hne
      refine ⟨_, A.kfree_holds hl₁ hul h₂, fun c hc hcs => ?_⟩
      have hc₂ : c ∈ (live.erase ⟨procStack m p, STACK_SIZE⟩).erase ⟨userStack m p, STACK_SIZE⟩ := by
        refine (List.mem_erase_of_ne ?_).mpr (hmem₁ c hc (hout c hcs))
        rintro rfl
        exact hcs hus
      exact ⟨hc₂, (hk₁ c hc (hout c hcs)).trans (A.kfree_agree hl₁ hul h₂ hc₂)⟩
    · rw [hnull, A.kfree_null] at h₂
      obtain rfl : m₁ = m₂ := by simpa using h₂
      exact ⟨_, hl₁, fun c hc hcs => ⟨hmem₁ c hc (hout c hcs), hk₁ c hc (hout c hcs)⟩⟩
  obtain ⟨live₂, hl₂, hk₂⟩ := hmid
  have hp₂ : procBlock p ∈ live₂ := (hk₂ _ hp (fun hmem => (ne_of_mem_stacksOf hmem p).1 rfl)).1
  refine ⟨_, A.kfree_holds hl₂ hp₂ h₃, fun c hc hcp hcs => ?_⟩
  have hc₃ : c ∈ live₂.erase (procBlock p) := (List.mem_erase_of_ne hcp).mpr (hk₂ c hc hcs).1
  exact ⟨hc₃, (hk₂ c hc hcs).2.trans (A.kfree_agree hl₂ hp₂ h₃ hc₃)⟩

/-- Destroying the context touches no block in use, and relinking one link word of another
process. -/
theorem Lived.unlink_keeps (h : Lived A V K g nodes queue live) (hV : ∀ a, A.arena a → ¬ V.area a)
    {pre post : List Nat} (halive : g.alive = pre ++ p :: post) {m₁ : Mem} {frames : σ}
    (hd : V.destroyContext K.mem K.frames (procContext K.mem p) = some (m₁, frames)) :
    (∀ a, A.arena a → (∀ b ∈ live, ¬ b.Has a) → relink m₁ pre p a = K.mem a) ∧
      ∀ c ∈ live, (∀ r ∈ pre ++ post, c ≠ procBlock r) →
        AgreeOn K.mem (relink m₁ pre p) c.addr c.size := by
  have hlast : ∀ b, pre.getLast? = some b → b ∈ pre ++ post := fun b hb =>
    List.mem_append_left _ (List.mem_of_getLast? hb)
  have hlive : ∀ b, pre.getLast? = some b → procBlock b ∈ live := by
    intro b hb
    refine h.boxes.procLive b ?_
    rw [halive]
    exact List.mem_append_left _ (List.mem_of_getLast? hb)
  have h₂ : ∀ x, (∀ b, pre.getLast? = some b → x < b + 48 ∨ b + 52 ≤ x) →
      relink m₁ pre p x = m₁ x := fun x hx => relink_of_outside hx
  constructor
  · intro x hx hb
    rw [h₂ x (fun b hb' => ?_), V.destroy_keeps hd x (hV x hx)]
    have := hb _ (hlive b hb')
    simp only [Block.Has, procBlock, sizeofProcess] at this
    omega
  · intro c hc hne x hx hx'
    rw [h₂ x (fun b hb => ?_), V.destroy_keeps hd x
      (hV x ((A.inArena h.boxes.holds c hc).2 x ⟨hx, hx'⟩))]
    have hap := A.apart_of_ne h.boxes.holds hc (hlive b hb) (hne b (hlast b hb))
    simp only [Block.Apart, procBlock, sizeofProcess] at hap
    omega

theorem Lived.kill (h : Lived A V K g nodes queue live) (hV : ∀ a, A.arena a → ¬ V.area a)
    (hp : p ∈ g.alive) (hclean : Clean A.toHeap K g (.kill p))
    (hk : killProcess A.toHeap V K p = .ok K') :
    ∃ live', Lived A V K' { g with alive := g.alive.erase p } nodes queue live' := by
  obtain ⟨pre, post, halive⟩ := List.append_of_mem hp
  have hlist := h.list
  rw [halive] at hlist
  rw [killProcess_eq _ V hlist.chain hlist.pids hlist.records.length_lt] at hk
  obtain ⟨m₁, frames, m₃, hd, hr, rfl⟩ := killAt_ok hk
  have herase : g.alive.erase p = pre ++ post := by
    rw [halive, erase_middle hlist.chain.nodup]
  have hsub : ∀ r ∈ pre ++ post, r ∈ g.alive := fun r hr' => by
    rw [← herase] at hr'
    exact List.mem_of_mem_erase hr'
  have hnep : ∀ r ∈ pre ++ post, r ≠ p := by
    rintro r hr' rfl
    rw [← herase] at hr'
    exact (h.list.chain.nodup.not_mem_erase) hr'
  -- up to the three frees only link words of the list have changed
  obtain ⟨hout, hrest⟩ := h.unlink_keeps hV halive hd
  have hholds₂ : A.Holds (relink m₁ pre p) live := A.write h.boxes.holds hout
  have hpp : AgreeOn K.mem (relink m₁ pre p) p 52 := hrest _ (h.boxes.procLive p hp)
    (fun r hr' he => hnep r hr' (by simpa [procBlock] using he.symm))
  have hstacks : stacksOf (g.user p) (relink m₁ pre p) p = stacksOf (g.user p) K.mem p :=
    stacksOf_congr (hpp.mono (by omega) (by omega))
  have hustack : userStack (relink m₁ pre p) p = userStack K.mem p :=
    load32_congr (hpp.mono (by omega) (by omega))
  obtain ⟨live', hholds₃, hkeep⟩ := releaseProcess_holds (u := g.user p) hholds₂
    (h.boxes.procLive p hp) (hstacks ▸ h.stackLive p hp) (hstacks ▸ h.stackNodup p hp)
    (hustack ▸ hclean) hr
  rw [hstacks] at hkeep
  have hproc : ∀ r ∈ pre ++ post, procBlock r ∈ live' ∧ AgreeOn (relink m₁ pre p) m₃ r 52 :=
    fun r hr' => hkeep _ (h.boxes.procLive r (hsub r hr'))
      (fun he => hnep r hr' (by simpa [procBlock] using he))
      (fun hmem => (ne_of_mem_stacksOf hmem r).1 rfl)
  obtain ⟨hkilled, hword⟩ := hlist.kill (fun r hr' x hx hx' => V.destroy_keeps hd x
      (hV x ((A.inArena h.boxes.holds _ (h.boxes.procLive r (halive ▸ hr'))).2 x ⟨hx, hx'⟩)))
    (fun r hr' => (hproc r hr').2)
  have hnode : ∀ r ∈ pre ++ post, ∀ n ∈ nodes r, nodeBlock n ∈ live' ∧
      AgreeOn K.mem m₃ n sizeofMessageNode := by
    intro r hr' n hn
    have hlive := h.boxes.nodeLive r (hsub r hr') n hn
    obtain ⟨hmem, hag⟩ := hkeep _ hlive (nodeBlock_ne_procBlock n p)
      (fun hmem => (ne_of_mem_stacksOf hmem n).2 rfl)
    exact ⟨hmem, (hrest _ hlive (fun k _ => nodeBlock_ne_procBlock n k)).trans hag⟩
  have hsame : ∀ r ∈ pre ++ post, stacksOf (g.user r) m₃ r = stacksOf (g.user r) K.mem r :=
    fun r hr' => stacksOf_congr ((hword r hr').mono (by omega) (by omega))
  refine ⟨live', ?_⟩
  rw [herase]
  refine ⟨hkilled, h.num, h.boxes.keep hsub hholds₃
    (fun r hr' => ⟨(hproc r hr').1, (hword r hr').mono (by omega) (by omega)⟩) hnode, ?_, ?_, ?_,
    fun r hr' => h.history r (hsub r hr')⟩
  · intro r hr' b hb
    rw [hsame r hr'] at hb
    exact (hkeep b (h.stackLive r (hsub r hr') b hb) (ne_of_mem_stacksOf hb p).1
      (fun hmem => h.stackOwn r (hsub r hr') p hp (hnep r hr') hb hmem)).1
  · intro r hr'
    rw [hsame r hr']
    exact h.stackNodup r (hsub r hr')
  · intro r hr' k hk' hne
    rw [hsame r hr', hsame k hk']
    exact h.stackOwn r (hsub r hr') k (hsub k hk') hne

/-! ## Runs -/

/-- **A clean step keeps the invariant.** -/
theorem Lived.step (h : Lived A V K g nodes queue live) (hV : ∀ a, A.arena a → ¬ V.area a)
    {g' : Lives} {e : Event} (hstep : LifeStep A V K g e K' g') (hclean : Clean A.toHeap K g e) :
    ∃ nodes' queue' live', Lived A V K' g' nodes' queue' live' := by
  cases hstep with
  | createKernel hk => exact h.createKernel hV hclean hk
  | createUser hk => exact h.createUser hV hclean hk
  | kill hp hk =>
      obtain ⟨live', hl'⟩ := h.kill hV hp hclean hk
      exact ⟨nodes, queue, live', hl'⟩
  | send hs hr hk => exact h.send hs hr hk
  | receive hp hk => exact h.receive hp hk
  | receiveNone hp hk =>
      rcases h.boxes.receive hp hk with ⟨-, -, -, hm⟩ | ⟨_, _, _, _, -, hret, -⟩
      · rw [hm]
        exact ⟨nodes, queue, live, h⟩
      · cases hret
  | write hw => exact ⟨nodes, queue, live, h.write hw⟩

/-- The invariant without a process, over a heap that serves others. -/
theorem Lived.boot (hholds : A.Holds K.mem live) (hfirst : K.firstProcess = NULL)
    (hnum : K.numProc < 2 ^ 32) (halive : g.alive = []) :
    Lived A V K g (fun _ => []) (fun _ => []) live := by
  have hempty : Mailboxes A K.mem [] (fun _ => []) (fun _ => []) live :=
    Mailboxes.empty hholds (by simp) (by simp)
  refine ⟨?_, hnum, ?_, ?_, ?_, ?_, ?_⟩ <;> rw [halive]
  · exact ⟨hfirst, by simp, by simp, by simp, by simp⟩
  · exact hempty
  all_goals simp

/-- **The invariant holds along every clean run.** -/
theorem LifeRun.lived (h : LifeRun A V (Clean A.toHeap) K g) (hV : ∀ a, A.arena a → ¬ V.area a) :
    ∃ nodes queue live, Lived A V K g nodes queue live := by
  induction h with
  | boot hholds hfirst hnum halive => exact ⟨_, _, _, Lived.boot hholds hfirst hnum halive⟩
  | step _ hstep hclean ih =>
      obtain ⟨nodes, queue, live, hl⟩ := ih
      exact hl.step hV hstep hclean

/-- **Mailbox isolation in clean runs.** Where every record is made from a block that holds
`NULL` at `messages.first`, every kill finds a user stack of the process or `NULL`, and pids
are not reused among the living, every mailbox is isolated in every state reached. -/
theorem mailbox_isolation_of_clean (h : LifeRun A V (Clean A.toHeap) K g)
    (hV : ∀ a, A.arena a → ¬ V.area a) : Isolated A K.mem g := by
  obtain ⟨nodes, queue, live, hl⟩ := h.lived hV
  exact ⟨nodes, queue, live, hl.boxes, hl.history⟩

end

/-! ## A reused record -/

/-- The heap after a message to the second process, which may have been taken. -/
def oneMessage (taken : Bool) : List FirstFit.Node := twoProcesses ++ [⟨0x3050D8, 540, taken⟩]

theorem third_malloc :
    FirstFit.malloc headerSize Layout.least.heapStart Layout.least.heapEnd sizeofMessageNode
      twoProcesses = some (0x3050D8, oneMessage false) := by
  decide

theorem last_malloc :
    FirstFit.malloc headerSize Layout.least.heapStart Layout.least.heapEnd sizeofMessageNode
      (oneMessage false) = some (0x305304, oneMessage false ++ [⟨0x305304, 540, false⟩]) := by
  decide

/-- The row of nodes once the second process is killed. -/
def afterKill (taken : Bool) : List FirstFit.Node :=
  FirstFit.release 0x305094 (FirstFit.release 0x304084 (FirstFit.release 0x303074 (oneMessage taken)))

/-- The next process gets the same blocks. -/
theorem reuse_mallocs (taken : Bool) : ∃ ns₁ ns₂,
    FirstFit.malloc headerSize Layout.least.heapStart Layout.least.heapEnd STACK_SIZE
      (afterKill taken) = some (0x303074, ns₁) ∧
    FirstFit.malloc headerSize Layout.least.heapStart Layout.least.heapEnd STACK_SIZE
      ns₁ = some (0x304084, ns₂) ∧
    FirstFit.malloc headerSize Layout.least.heapStart Layout.least.heapEnd sizeofProcess
      ns₂ = some (0x305094, oneMessage taken) := by
  refine ⟨FirstFit.setFree 0x303074 false (afterKill taken),
    FirstFit.setFree 0x304084 false (FirstFit.setFree 0x303074 false (afterKill taken)), ?_⟩
  cases taken <;> decide

/-- The record of the second process and the node of its message hold no header. -/
theorem no_header (taken : Bool) {a : Nat}
    (ha : 0x3050A4 ≤ a ∧ a < 0x3050D8 ∨ 0x3050E8 ≤ a ∧ a < 0x305304) :
    ∀ x ∈ oneMessage taken ++ [⟨0x305304, 540, false⟩], ¬ (x.header headerSize).Has a := by
  simp only [oneMessage, twoProcesses, List.cons_append, List.nil_append, List.forall_mem_cons,
    Block.Has, FirstFit.Node.header, headerSize, List.not_mem_nil, false_implies, implies_true,
    and_true]
  omega

/-- No process yet. -/
def Lives.none : Lives := ⟨[], fun _ => false, fun _ => [], fun _ => []⟩

/-- A creation is clean when the new record is and the pid is nobody's. -/
theorem MadeUser.clean {L : Layout} {K K' : Kernel Unit} {ns : List FirstFit.Node}
    {live : List Block} {entry context stack ustack p : Nat} {m : Mem} {g : Lives}
    (h : MadeUser L K ns live entry context stack ustack p K' m) (hfirst : msgFirst m p = NULL)
    (hpids : ∀ r ∈ g.alive, procPid K.mem r ≠ K.numProc) :
    Clean (firstFit L).toHeap K g (.createUser entry context) := by
  refine ⟨hpids, fun q m' hrec => ?_⟩
  obtain ⟨rfl, rfl⟩ : p = q ∧ m = m' := by simpa [h.record] using hrec
  exact hfirst

/-- Two user processes, with empty mailboxes, of memory never written to. -/
theorem two_users : ∃ (K₁ K₂ : Kernel Unit) (w₁ w₂ : Mem),
    MadeUser Layout.least bootKernel (twoProcesses.take 4) [] 0x40000000 0x102000 0x301020 0x302030
      0x303040 K₁ w₁ ∧
    MadeUser Layout.least K₁ twoProcesses [procBlock 0x303040, ⟨0x302030, STACK_SIZE⟩,
      ⟨0x301020, STACK_SIZE⟩] 0x40000000 0x102000 0x303084 0x304094 0x3050A4 K₂ w₂ ∧
    (Clean (firstFit Layout.least).toHeap bootKernel Lives.none (.createUser 0x40000000 0x102000) ∧
      Clean (firstFit Layout.least).toHeap K₁ (Lives.none.birth 0x303040 true)
        (.createUser 0x40000000 0x102000)) ∧
    (∀ p ∈ [0x3050A4, 0x303040], msgFirst K₂.mem p = NULL ∧ numMessages K₂.mem p = 0) ∧
    procPid K₂.mem 0x303040 = 0 := by
  obtain ⟨K₁, w₁, hK₁, hzero₁, hzero⟩ := first_process
  obtain ⟨h₁, h₂, h₃⟩ := second_mallocs
  obtain ⟨K₂, w₂, hK₂⟩ := firstFit_createUser hK₁.heap h₁ h₂ h₃ 0x40000000 0x102000
  have hfirst₁ : msgFirst w₁ 0x303040 = NULL := load32_eq_zero (fun a ha _ => hzero₁ a (by omega))
  have hfirst₂ : msgFirst w₂ 0x3050A4 = NULL := by
    refine load32_eq_zero (fun a ha ha' => ?_)
    rw [hK₂.keeps a (fun x hx => no_header false (Or.inl (by omega)) x
      (List.mem_append_left _ (List.mem_append_left _ hx)))]
    exact hzero a (by omega)
  -- the second creation leaves the first record alone
  have hkeep : ∀ a, 0x303040 ≤ a → a < 0x303074 → K₂.mem a = K₁.mem a := by
    intro a ha ha'
    rw [hK₂.fields.outside a id (by simp only [headerSize]; omega) (by simp only [headerSize]; omega)]
    refine hK₂.keeps a ?_
    simp only [twoProcesses, List.forall_mem_cons, Block.Has, FirstFit.Node.header, headerSize]
    simp
    omega
  have hpid₁ : procPid K₁.mem 0x303040 = 0 := hK₁.fields.pid_eq
  have hnum₁ : K₁.numProc = 1 := congrArg Kernel.numProc hK₁.kernel
  refine ⟨K₁, K₂, w₁, w₂, hK₁, hK₂, ⟨hK₁.clean hfirst₁ (fun r hr => absurd hr List.not_mem_nil),
    hK₂.clean hfirst₂ (fun r hr => ?_)⟩, ?_, ?_⟩
  · obtain rfl : r = 0x303040 := by simpa [Lives.birth, Lives.none] using hr
    rw [hpid₁, hnum₁]
    decide
  · simp only [List.forall_mem_cons, List.not_mem_nil, false_implies, implies_true, and_true]
    refine ⟨⟨?_, hK₂.fields.num_eq⟩, ?_, ?_⟩
    · exact (load32_congr (hK₂.fields.stale.mono (by decide) (by decide))).trans hfirst₂
    · exact ((load32_congr (fun a _ _ => hkeep a (by omega) (by omega))).trans
        (load32_congr (hK₁.fields.stale.mono (by decide) (by decide)))).trans hfirst₁
    · exact (load32_congr (fun a _ _ => hkeep a (by omega) (by omega))).trans hK₁.fields.num_eq
  · exact (load32_congr (fun a _ _ => hkeep a (by omega) (by omega))).trans hpid₁

/-- A message to a reused record goes behind the old message, and is not the first to be
received. -/
theorem stale_receive {m : Mem} {live : List Block} {s : Nat} {old : Message}
    (msg buf : Message) (hs : s ≠ 0) (hheap : HeapState Layout.least (heapLimit Layout.least) m
      (oneMessage false) live)
    (hlive : ⟨0x3050E8, sizeofMessageNode⟩ ∈ live ∧ ⟨0x3050A4, sizeofProcess⟩ ∈ live)
    (hqueue : Queue m (msgFirst m 0x3050A4) [0x3050E8] [old])
    (hnum : numMessages m 0x3050A4 = 0) :
    ∃ m₁ m₂, ksendMessage (firstFit Layout.least).toHeap m s 0x3050A4 (some msg)
        = some (MESSAGE_SENT, some (stamp m s 0x3050A4 msg), m₁) ∧
      kreceiveMessage (firstFit Layout.least).toHeap m₁ 0x3050A4 (some buf) MESSAGE_ANY
        = some (MESSAGE_RECEIVED, some old, m₂) := by
  obtain ⟨m₀, hk, hs₀, hf₀⟩ := firstFit_kmalloc hheap (by decide) (by decide) last_malloc
  have hkeep : ∀ a, (0x3050A4 ≤ a ∧ a < 0x3050D8 ∨ 0x3050E8 ≤ a ∧ a < 0x305304) →
      m₀ a = m a := fun a ha => hf₀ a (no_header false ha)
  have hfirst₀ : msgFirst m₀ 0x3050A4 = msgFirst m 0x3050A4 :=
    load32_congr (fun a _ _ => hkeep a (by omega))
  have hnum₀ : numMessages m₀ 0x3050A4 = 0 :=
    (load32_congr (fun a _ _ => hkeep a (by omega))).trans hnum
  have hqueue₀ : Queue m₀ (msgFirst m₀ 0x3050A4) [0x3050E8] [old] := by
    rw [hfirst₀]
    refine hqueue.congr (fun n hn a h₁ h₂ => hkeep a ?_)
    simp only [List.mem_singleton] at hn
    simp only [sizeofMessageNode] at h₂
    omega
  have hapart : SendApart 0x3050A4 0x305314 [0x3050E8] :=
    ⟨⟨by decide, by decide, by decide, by simp⟩, by decide, by decide, by decide⟩
  obtain ⟨m₁, hd, hq₁, hn₁, hf₁⟩ := deliver_queue (stamp m s 0x3050A4 msg) hqueue₀ hapart
    (by decide) (by rw [hnum₀]; decide)
  have hbox : BoxApart 0x3050A4 [0x3050E8, 0x305314] :=
    ⟨by decide, by decide, by decide, by simp [nodeBlock, Block.Apart, sizeofMessageNode]⟩
  have hq : Queue m₁ (msgFirst m₁ 0x3050A4) [0x3050E8, 0x305314]
      [old, stamp m s 0x3050A4 msg] := hq₁
  have hu := unlinkFirst_unlinked hq hbox
  have hs₁ : HeapState Layout.least (heapLimit Layout.least) m₁ _ _ := hs₀.write (fun a _ ha =>
    hf₁ a (List.forall_mem_cons.mpr ⟨ha ⟨0x305304 + headerSize, sizeofMessageNode⟩ (by simp),
      List.forall_mem_singleton.mpr (ha _ (List.mem_cons_of_mem _ hlive.1))⟩) (fun hra => by
        refine ha _ (List.mem_cons_of_mem _ hlive.2) ?_
        simp only [Block.Has, sizeofProcess]
        omega))
  -- unlinking writes into blocks in use and page 0 only, so the heap stays what it is
  have hholds : (firstFit Layout.least).Holds (unlinkFirst m₁ 0x3050A4 0x3050E8) _ :=
    (firstFit Layout.least).write ⟨_, hs₁⟩ (fun a ha hb => hu.frame a (fun n hn hna => by
      simp only [List.nil_append, List.mem_cons, List.not_mem_nil, or_false] at hn
      rcases hn with rfl | rfl
      · exact hb _ (List.mem_cons_of_mem _ hlive.1) hna
      · exact hb ⟨0x305304 + headerSize, sizeofMessageNode⟩ (by simp) hna) (fun hra => by
      refine hb _ (List.mem_cons_of_mem _ hlive.2) ?_
      simp only [Block.Has, sizeofProcess]
      omega) ((firstFit Layout.least).arena_ge ha))
  obtain ⟨ns, hns⟩ := hholds
  obtain ⟨x, -, -, m₂, hfree, -⟩ := hns.free (List.mem_cons_of_mem _ hlive.1) (by decide)
  have hfirst₁ : msgFirst m₁ 0x3050A4 = 0x3050E8 := hq.chain.head
  have hnum₁ : numMessages m₁ 0x3050A4 = 1 := by rw [hn₁, hnum₀]
  have hmsg : readMessage (unlinkFirst m₁ 0x3050A4 0x3050E8) 0x3050E8 = old := by
    rw [hu.message]
    exact (List.cons.inj hq.msgs).1
  have hfree' : (firstFit Layout.least).kfree (unlinkFirst m₁ 0x3050A4 0x3050E8) 0x3050E8
      = some m₂ := by
    rw [firstFit_kfree_eq]
    exact hfree
  refine ⟨m₁, _, ?_, (kreceiveMessage_any hfirst₁ (by decide) (by rw [hnum₁]; decide) buf).trans
    (hmsg ▸ takeMessage_of_kfree hfree')⟩
  rw [ksendMessage_some _ hs (by decide), hk]
  exact congrArg (Option.map _) hd

/-- A message that says nothing but its signal. -/
def signalMessage (signal : UInt32) : Message := { Message.blank with signal := signal }

theorem bootKernel_run (P : Kernel Unit → Lives → Event → Prop) :
    LifeRun (firstFit Layout.least) plainContexts P bootKernel Lives.none :=
  .boot ⟨_, bootKernel_heap⟩ rfl (by decide) rfl

/-- Two user processes, and a message from the first to the second. -/
structure Sent (K₂ : Kernel Unit) (m₃ : Mem) : Prop where
  send : ksendMessage (firstFit Layout.least).toHeap K₂.mem 0x303040 0x3050A4
    (some (signalMessage 1)) = some (MESSAGE_SENT,
      some (stamp K₂.mem 0x303040 0x3050A4 (signalMessage 1)), m₃)
  heap : HeapState Layout.least (heapLimit Layout.least) m₃ (oneMessage false)
    [nodeBlock 0x3050E8, procBlock 0x3050A4, ⟨0x304094, STACK_SIZE⟩, ⟨0x303084, STACK_SIZE⟩,
      procBlock 0x303040, ⟨0x302030, STACK_SIZE⟩, ⟨0x301020, STACK_SIZE⟩]
  boxes : Mailboxes (firstFit Layout.least) m₃ [0x3050A4, 0x303040]
    (Function.update (fun _ => []) 0x3050A4 [0x3050E8])
    (Function.update (fun _ => []) 0x3050A4 [stamp K₂.mem 0x303040 0x3050A4 (signalMessage 1)])
    [nodeBlock 0x3050E8, procBlock 0x3050A4, ⟨0x304094, STACK_SIZE⟩, ⟨0x303084, STACK_SIZE⟩,
      procBlock 0x303040, ⟨0x302030, STACK_SIZE⟩, ⟨0x301020, STACK_SIZE⟩]
  ownStacks : procStack m₃ 0x3050A4 = 0x303084 ∧ userStack m₃ 0x3050A4 = 0x304094
  pid : procPid m₃ 0x303040 = 0

/-- The first of two new processes sends the second one a message. -/
theorem MadeUser.sent {K₁ K₂ : Kernel Unit} {w₂ : Mem}
    (hK₂ : MadeUser Layout.least K₁ twoProcesses [procBlock 0x303040, ⟨0x302030, STACK_SIZE⟩,
      ⟨0x301020, STACK_SIZE⟩] 0x40000000 0x102000 0x303084 0x304094 0x3050A4 K₂ w₂)
    (hempty : ∀ p ∈ [0x3050A4, 0x303040], msgFirst K₂.mem p = NULL ∧ numMessages K₂.mem p = 0)
    (hpid : procPid K₂.mem 0x303040 = 0) : ∃ m₃, Sent K₂ m₃ := by
  have hboxes := Mailboxes.empty (A := firstFit Layout.least) ⟨_, hK₂.heap⟩
    (by simp [procBlock]) hempty
  obtain ⟨m₃, hsend, hheap, hboxes₃, hkeep, -⟩ := hboxes.send_follows (s := 0x303040) (r := 0x3050A4) _
    hK₂.heap (by decide) (by simp) third_malloc (signalMessage 1)
  have hword : ∀ p ∈ [0x3050A4, 0x303040], ∀ k, (k + 4 ≤ 12 ∨ 24 ≤ k) → k + 4 ≤ 52 →
      load32 m₃ (p + k) = load32 K₂.mem (p + k) := fun p hp k hk hk' =>
    load32_congr (fun x _ _ => hkeep p hp x (by omega) (fun _ => by omega))
  exact ⟨m₃, hsend, hheap, hboxes₃,
    ⟨(hword _ (by simp) 28 (by omega) (by omega)).trans hK₂.fields.stack_eq,
      (hword _ (by simp) 32 (by omega) (by omega)).trans hK₂.userStack_eq⟩,
    (hword _ (by simp) 8 (by omega) (by omega)).trans hpid⟩

/-- **A process receives what was sent to its predecessor.** The process at `0x3050A4` is
killed with a message waiting; the next one gets the same record, is sent a message and
receives the old one. -/
theorem mailbox_isolation_fails : ∃ (K : Kernel Unit) (g : Lives),
    LifeRun (firstFit Layout.least) plainContexts (fun _ _ _ => True) K g ∧
      ¬ Isolated (firstFit Layout.least) K.mem g := by
  obtain ⟨K₁, K₂, w₁, w₂, hK₁, hK₂, -, hempty, hpid⟩ := two_users
  obtain ⟨m₃, hsent⟩ := hK₂.sent hempty hpid
  obtain ⟨K₄, hkill, -, hheap₄, -, hkeep₄⟩ := kill_second (K := { K₂ with mem := m₃ }) []
    hsent.heap (congrArg Kernel.firstProcess hK₂.kernel) hsent.ownStacks.1 hsent.ownStacks.2 (by decide)
    (by simp)
  obtain ⟨ns₁, ns₂, h₁', h₂', h₃'⟩ := reuse_mallocs false
  obtain ⟨K₅, w₅, hK₅⟩ := firstFit_createUser hheap₄ h₁' h₂' h₃' 0x40000000 0x102000
  -- the reused record still has the old link, and the old node its message
  have hkeep₅ : ∀ a, (0x3050A4 ≤ a ∧ a < 0x3050D8 ∨ 0x3050E8 ≤ a ∧ a < 0x305304) →
      w₅ a = m₃ a := fun a ha => (hK₅.keeps a (fun x hx => no_header false ha x
        (List.mem_append_left _ hx))).trans (hkeep₄ a (fun x hx => no_header false ha x
          (List.mem_append_left _ hx)))
  have hfirst₅ : msgFirst K₅.mem 0x3050A4 = msgFirst m₃ 0x3050A4 :=
    (load32_congr (hK₅.fields.stale.mono (by decide) (by decide))).trans
      (load32_congr (fun a _ _ => hkeep₅ a (by omega)))
  have hqueue₅ : Queue K₅.mem (msgFirst K₅.mem 0x3050A4) [0x3050E8]
      [stamp K₂.mem 0x303040 0x3050A4 (signalMessage 1)] := by
    have hqueue₃ := (hsent.boxes.box 0x3050A4 (by simp)).toQueue
    simp only [Function.update_self] at hqueue₃
    rw [hfirst₅]
    refine hqueue₃.congr (fun n hn a ha ha' => ?_)
    simp only [List.mem_singleton] at hn
    simp only [sizeofMessageNode] at ha'
    rw [hK₅.fields.outside a id (Or.inr (by simp only [headerSize]; omega))
      (Or.inr (by simp only [headerSize]; omega))]
    exact hkeep₅ a (by omega)
  obtain ⟨m₆, m₇, hsend', hreceive⟩ := stale_receive (s := 0x303040) (signalMessage 2)
    Message.blank (by decide) hK₅.heap (by decide) hqueue₅ hK₅.fields.num_eq
  have hrun := (bootKernel_run (fun _ _ _ => True)).step (.createUser hK₁.create) trivial
  have hrun := hrun.step (.createUser hK₂.create) trivial
  have hrun := hrun.step (.send (by simp [Lives.birth]) (by simp [Lives.birth]) hsent.send) trivial
  have hrun := hrun.step (.kill (by simp [Lives.birth]) hkill) trivial
  have hrun := hrun.step (.createUser hK₅.create) trivial
  have hrun := hrun.step (.send (by simp [Lives.birth, Lives.none, headerSize])
    (by simp [Lives.birth, headerSize]) hsend') trivial
  have hrun := hrun.step (.receive (by simp [Lives.birth, headerSize]) hreceive) trivial
  refine ⟨_, _, hrun, ?_⟩
  rintro ⟨nodes, queue, live, -, hperm⟩
  have hmem := (hperm 0x3050A4 (by simp [Lives.birth, headerSize])).subset
    (List.mem_append_left _ (by simp [Lives.birth]; exact Or.inr rfl))
  simp [Lives.birth, headerSize] at hmem
  have hsignal : (1 : UInt32) = 2 := congrArg Message.signal hmem
  exact absurd hsignal (by decide)

/-- A clean run: the second process takes its message before it is killed, and the next one, in
the same record, is sent another. -/
theorem mailbox_isolation_of_clean_first : ∃ (K : Kernel Unit) (g : Lives),
    LifeRun (firstFit Layout.least) plainContexts (Clean (firstFit Layout.least).toHeap) K g ∧
    g.alive = [0x3050A4, 0x303040] ∧ (g.sent 0x3050A4).map Message.signal = [2] ∧
    Isolated (firstFit Layout.least) K.mem g := by
  obtain ⟨K₁, K₂, w₁, w₂, hK₁, hK₂, hclean, hempty, hpid⟩ := two_users
  obtain ⟨m₃, hsent⟩ := hK₂.sent hempty hpid
  have hnum₁ : K₁.numProc = 1 := congrArg Kernel.numProc hK₁.kernel
  have hnum₂ : K₂.numProc = (K₁.numProc + 1) % 2 ^ 32 := congrArg Kernel.numProc hK₂.kernel
  -- the message is taken
  obtain ⟨msg, m₄, -, hreceive, hheap₄, hboxes₄, hkeep₄⟩ := hsent.boxes.receive_follows
    (p := 0x3050A4) (a := 0x3050D8) hsent.heap (by simp) (by simp [headerSize]) (by decide)
    Message.blank
  have hfirst₄ : msgFirst m₄ 0x3050A4 = NULL := by
    have hchain := (hboxes₄.box 0x3050A4 (by simp)).chain
    rwa [Function.update_self] at hchain
  have hword : ∀ p ∈ [0x3050A4, 0x303040], ∀ k, (k + 4 ≤ 12 ∨ 24 ≤ k) → k + 4 ≤ 52 →
      load32 m₄ (p + k) = load32 m₃ (p + k) := fun p hp k hk hk' =>
    load32_congr (fun x _ _ => hkeep₄ p hp x (by omega) (fun _ => by omega))
  have hpid₄ : procPid m₄ 0x303040 = 0 :=
    (hword _ (by simp) 8 (by omega) (by omega)).trans hsent.pid
  -- the process is killed, and its record used again
  have hrow : FirstFit.release 0x3050D8 (oneMessage false) = oneMessage true := by decide
  rw [hrow] at hheap₄
  obtain ⟨K₅, hkill, -, hheap₅, hnum₅, hkeep₅⟩ := kill_second (K := { K₂ with mem := m₄ })
    [] hheap₄ (congrArg Kernel.firstProcess hK₂.kernel)
    ((hword _ (by simp) 28 (by omega) (by omega)).trans hsent.ownStacks.1)
    ((hword _ (by simp) 32 (by omega) (by omega)).trans hsent.ownStacks.2) (by decide) (by simp)
  obtain ⟨ns₁, ns₂, h₁, h₂, h₃⟩ := reuse_mallocs true
  obtain ⟨K₆, w₆, hK₆⟩ := firstFit_createUser hheap₅ h₁ h₂ h₃ 0x40000000 0x102000
  have hpid₅ : procPid K₅.mem 0x303040 = 0 := by
    refine (load32_congr (fun a _ _ => hkeep₅ a ?_)).trans hpid₄
    simp only [oneMessage, twoProcesses, List.cons_append, List.nil_append, List.forall_mem_cons,
      Block.Has, FirstFit.Node.header, headerSize, List.not_mem_nil, false_implies, implies_true,
      and_true]
    omega
  have hfirst₆ : msgFirst w₆ 0x3050A4 = NULL := by
    have hkept : ∀ a, 0x3050A4 ≤ a → a < 0x3050D8 → w₆ a = m₄ a := fun a ha ha' =>
      (hK₆.keeps a (fun x hx => no_header true (Or.inl ⟨ha, ha'⟩) x (List.mem_append_left _ hx))).trans
        (hkeep₅ a (fun x hx => no_header true (Or.inl ⟨ha, ha'⟩) x (List.mem_append_left _ hx)))
    exact (load32_congr (fun a _ _ => hkept a (by omega) (by omega))).trans hfirst₄
  -- the run
  have hrun := (bootKernel_run _).step (.createUser hK₁.create) hclean.1
  have hrun := hrun.step (.createUser hK₂.create) hclean.2
  have hrun := hrun.step (.send (by simp [Lives.birth]) (by simp [Lives.birth]) hsent.send) trivial
  have hrun := hrun.step (.receive (by simp [Lives.birth]) hreceive) trivial
  have hrun := hrun.step (.kill (by simp [Lives.birth]) hkill) (Or.inl (by simp [Lives.birth]))
  have hrun := hrun.step (.createUser hK₆.create) (hK₆.clean hfirst₆ (fun r hr => by
    obtain rfl : r = 0x303040 := by simpa [Lives.birth, Lives.none] using hr
    rw [hnum₅, hpid₅]
    show 0 ≠ K₂.numProc
    rw [hnum₂, hnum₁]
    decide))
  -- another message
  obtain ⟨nodes, queue, live, hl⟩ := hrun.lived (fun _ _ => id)
  obtain ⟨m₇, hk, -⟩ := firstFit_kmalloc hK₆.heap (by decide) (by decide)
    (show FirstFit.malloc headerSize Layout.least.heapStart Layout.least.heapEnd sizeofMessageNode
      (oneMessage true) = some (0x3050D8, oneMessage false) by decide)
  obtain ⟨m₈, hsend⟩ := hl.boxes.send_returns (s := 0x303040) (r := 0x3050A4) (by decide)
    (by simp [Lives.birth, headerSize]) hk (signalMessage 2)
  have hrun := hrun.step (.send (by simp [Lives.birth, Lives.none, headerSize])
    (by simp [Lives.birth, headerSize]) hsend) trivial
  refine ⟨_, _, hrun, ?_, ?_, mailbox_isolation_of_clean hrun (fun _ _ => id)⟩
  · simp [Lives.birth, Lives.none, headerSize]
  · simp [Lives.birth, headerSize, stamp, signalMessage]

end DayOS
