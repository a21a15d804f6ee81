import DayOS.IntHandler
import DayOS.Lifetimes
import DayOS.TrapFrames

set_option autoImplicit false

/-! # What the kernel keeps of a process that waits

A process that does not run is a frame on its kernel stack, and a record that knows where. No
operation of the kernel on another process touches either: not the heap, since both are blocks
in use, and not the mailboxes, since the fields in question are not theirs.
-/

namespace DayOS

open ByteMemory Linked Ia32

/-! ## Frames -/

/-- In the kernel stack at `stack`, the frame at `st` brings the registers `r` back. -/
structure SavedFrame (m : Mem) (stack st : Nat) (r : Registers) : Prop where
  low : stack ≤ st
  high : st + 4 * frameLength r.cpl ≤ stack + STACK_SIZE
  outer : r.cpl ≠ 0 → st = frameOf stack
  back : resumed (readCpu m st) st 0x10 = r

section
variable {tss vector top st stack : Nat} {high : Nat → UInt16} {m m' : Mem} {r k : Registers}
  {gate : Gate} {code : Option UInt32}

/-- Only the part of the frame that is pushed counts. -/
theorem resumed_congr (hback : resumed (readCpu m st) st 0x10 = r)
    (h : AgreeOn m m' st (4 * frameLength r.cpl)) : resumed (readCpu m' st) st 0x10 = r := by
  have hword : ∀ n, n + 4 ≤ 4 * frameLength r.cpl →
      readWord m' (st + n) = readWord m (st + n) := fun n hn =>
    congrArg UInt32.ofNat (load32_congr (h.mono (by omega) (by omega)))
  have hpos := sixteen_le_frameLength r.cpl
  have h₀ : readWord m' st = readWord m st := hword 0 (by omega)
  have hcs : (readWord m (st + 56)).toUInt16.toNat % 4 = r.cpl := by
    rw [← hback]
    rfl
  rw [← hback]
  by_cases hring : r.cpl = 0
  · simp only [resumed, readCpu, h₀, hword 4 (by omega), hword 8 (by omega), hword 12 (by omega),
      hword 16 (by omega), hword 20 (by omega), hword 24 (by omega), hword 28 (by omega),
      hword 32 (by omega), hword 36 (by omega), hword 40 (by omega), hword 52 (by omega),
      hword 56 (by omega), hword 60 (by omega), hcs, hring, ne_eq, not_true, if_false]
  · have hlen : frameLength r.cpl = 18 := if_pos hring
    rw [readCpu_congr (h.mono le_rfl (by simp only [sizeofCpu]; omega))]

theorem SavedFrame.congr (h : SavedFrame m stack st r)
    (hm : AgreeOn m m' st (4 * frameLength r.cpl)) : SavedFrame m' stack st r :=
  ⟨h.low, h.high, h.outer, resumed_congr h.back hm⟩

/-- Leaving the kernel through the frame. -/
theorem SavedFrame.leave (h : SavedFrame m stack st r) (hstack : stack + STACK_SIZE ≤ 2 ^ 32)
    (hk : k.ss = 0x10) : leaveKernel k m st = r := by
  have hpos := sixteen_le_frameLength r.cpl
  have hhigh := h.high
  have hcs : (readCpu m st).cs.toUInt16.toNat % 4 = r.cpl := by
    rw [← h.back]
    rfl
  have hout : (readCpu m st).cs.toUInt16.toNat % 4 ≠ 0 → st + 72 ≤ 2 ^ 32 := by
    intro hne
    rw [hcs] at hne
    have hlen : frameLength r.cpl = 18 := if_pos hne
    omega
  rw [leaveKernel_eq (by omega) hout, hk]
  exact h.back

/-- A new value for `eax`. -/
theorem SavedFrame.answer (h : SavedFrame m stack st r) (v : Nat) :
    SavedFrame (store32 m (st + 16) v) stack st { r with eax := UInt32.ofNat v } := by
  have hword : ∀ n, n + 4 ≤ 16 ∨ 20 ≤ n →
      readWord (store32 m (st + 16) v) (st + n) = readWord m (st + n) := fun n hn =>
    congrArg UInt32.ofNat (load32_store32_of_ne (by omega))
  have heax : readWord (store32 m (st + 16) v) (st + 16) = UInt32.ofNat v := by
    rw [readWord, load32_store32]
    exact ofNat_mod v
  have h₀ : readWord (store32 m (st + 16) v) st = readWord m st := hword 0 (by omega)
  have hcpu : readCpu (store32 m (st + 16) v) st = { readCpu m st with eax := UInt32.ofNat v } := by
    simp only [readCpu, h₀, heax, hword 4 (by omega), hword 8 (by omega),
      hword 12 (by omega), hword 20 (by omega), hword 24 (by omega), hword 28 (by omega),
      hword 32 (by omega), hword 36 (by omega), hword 40 (by omega), hword 44 (by omega),
      hword 48 (by omega), hword 52 (by omega), hword 56 (by omega), hword 60 (by omega),
      hword 64 (by omega), hword 68 (by omega)]
  refine ⟨h.low, h.high, h.outer, ?_⟩
  rw [hcpu, ← h.back]
  rfl

variable (high m') in
/-- **The frame of a trap.** It ends at `top`, inside the kernel stack. -/
theorem SavedFrame.of_enter (gate : Gate) (hcode : code.isSome ↔ HasCode vector)
    (hsp : (if r.cpl ≠ 0 then load32 m (tss + 4) else r.esp.toNat) = top % 2 ^ 32)
    (htop : top ≤ 2 ^ 32) (hlow : stack + 4 * frameLength r.cpl ≤ top)
    (hhigh : top ≤ stack + STACK_SIZE) (hout : r.cpl ≠ 0 → top = stack + STACK_SIZE)
    (hss : r.cpl = 0 → r.ss = 0x10)
    (hst : (enterKernel tss high m r gate vector code).1.esp.toNat = st)
    (hkeep : AgreeOn (enterKernel tss high m r gate vector code).2 m' st (4 * frameLength r.cpl)) :
    SavedFrame m' stack st r := by
  obtain ⟨hmem, hesp⟩ := enterKernel_eq high gate hcode hsp htop (by omega)
  have hpos := sixteen_le_frameLength r.cpl
  have hw : ∀ k w, k < frameLength r.cpl →
      (trapFrame high r vector code).words[k]? = some w → readWord m' (st + 4 * k) = w := by
    intro k w hk hget
    have htake : ((trapFrame high r vector code).words.take (frameLength r.cpl))[k]? = some w := by
      rw [List.getElem?_take_of_lt hk, hget]
    rw [readWord, load32_congr (hkeep.mono (by omega) (by omega)), hmem, ← hesp, hst,
      load32_writeWords htake, UInt32.ofNat_toNat]
  have hesp₀ : r.cpl = 0 → UInt32.ofNat (st + 64) = r.esp := by
    intro hring
    rw [if_neg (fun h => h hring)] at hsp
    have hlen : frameLength r.cpl = 16 := if_neg (fun h => h hring)
    have hend : st + 64 = top := by omega
    apply UInt32.toNat_inj.mp
    rw [hend, UInt32.toNat_ofNat', hsp]
  refine ⟨by omega, by omega, fun hring => ?_, ?_⟩
  · have hlen : frameLength r.cpl = 18 := if_pos hring
    have htop' := hout hring
    rw [frameOf_eq]
    simp only [STACK_SIZE] at *
    omega
  · rw [resumed_of_words hss hesp₀ (fun k w _ hk => hw k w hk)]
    have heax : readWord m' (st + 16) = r.eax := hw 4 _ (by omega) rfl
    rw [heax]

/-- The registers a new process starts with. -/
def startRegisters (entry esp cs ds stack : Nat) : Registers :=
  resumed (newState entry esp cs ds) (frameOf stack) 0x10

end

/-! ## What an operation leaves alone -/

/-- The state pointer, the context, the pid and the stacks of `p` are as before, and so is the
content of the kernel stack. -/
structure Untouched (m m' : Mem) (p : Nat) : Prop where
  record : AgreeOn m m' p 12
  words : AgreeOn m m' (p + 28) 8
  stack : AgreeOn m m' (procStack m p) STACK_SIZE

section
variable {m m' m'' : Mem} {p : Nat}

theorem Untouched.state_eq (h : Untouched m m' p) : procState m' p = procState m p :=
  load32_congr (h.record.mono (by omega) (by omega))

theorem Untouched.context_eq (h : Untouched m m' p) : procContext m' p = procContext m p :=
  load32_congr (h.record.mono (by omega) (by omega))

theorem Untouched.pid_eq (h : Untouched m m' p) : procPid m' p = procPid m p :=
  load32_congr (h.record.mono (by omega) (by omega))

theorem Untouched.stack_eq (h : Untouched m m' p) : procStack m' p = procStack m p :=
  load32_congr (h.words.mono (by omega) (by omega))

end

section
variable {σ : Type} {A : Allocator} {V : Contexts σ} {K K' : Kernel σ} {g : Lives}
  {nodes : Nat → List Nat} {queue : Nat → List Message} {live : List Block} {m m' : Mem}
  {p q r : Nat}

theorem stack_mem_stacksOf (u : Bool) (m : Mem) (p : Nat) :
    (⟨procStack m p, STACK_SIZE⟩ : Block) ∈ stacksOf u m p := List.mem_cons_self

theorem Lived.stack_live (h : Lived A V K g nodes queue live) (hp : p ∈ g.alive) :
    (⟨procStack K.mem p, STACK_SIZE⟩ : Block) ∈ live :=
  h.stackLive p hp _ (stack_mem_stacksOf _ _ _)

/-- What keeps the blocks in use keeps what the kernel has of the processes. -/
theorem Lived.untouched (h : Lived A V K g nodes queue live) (hp : p ∈ g.alive)
    (hrec : AgreeOn K.mem m' p 12) (hwords : AgreeOn K.mem m' (p + 28) 8)
    (hstack : ∀ x, A.arena x → (⟨procStack K.mem p, STACK_SIZE⟩ : Block).Has x → m' x = K.mem x) :
    Untouched K.mem m' p :=
  ⟨hrec, hwords, fun x hx hx' =>
    hstack x ((A.inArena h.boxes.holds _ (h.stack_live hp)).2 x ⟨hx, hx'⟩) ⟨hx, hx'⟩⟩

/-- A step on a mailbox. -/
theorem Lived.untouched_of_touches (h : Lived A V K g nodes queue live) (hr : r ∈ g.alive)
    {live' : List Block} (hproc : ∀ p ∈ g.alive, procBlock p ∈ live')
    (hstack : ∀ p ∈ g.alive, ∀ b ∈ stacksOf (g.user p) K.mem p, b ∈ live')
    (ht : Touches A live' r (nodes r) K.mem m') (hp : p ∈ g.alive) : Untouched K.mem m' p := by
  have hrec : ∀ a, p ≤ a → a < p + 52 → ¬ (p + 12 ≤ a ∧ a < p + 24) → m' a = K.mem a :=
    fun a ha ha' hbox => h.boxes.record_eq hr hproc ht hp ⟨ha, ha'⟩ (fun _ => hbox)
  refine h.untouched hp (fun a ha ha' => hrec a ha (by omega) (by omega))
    (fun a ha ha' => hrec a (by omega) (by omega) (by omega)) (fun x hx hhas => ?_)
  have hlive := h.stack_live hp
  refine ht x (A.arena_ge hx) (Or.inr ⟨_, hstack p hp _ (stack_mem_stacksOf _ _ _), hhas⟩)
    (fun n hn hnx => ?_) (fun hrx => ?_)
  · have hne := (ne_of_mem_stacksOf (stack_mem_stacksOf (g.user p) K.mem p) n).2
    exact (A.apart_of_ne h.boxes.holds hlive (h.boxes.nodeLive r hr n hn) hne).not_has hhas hnx
  · have hne := (ne_of_mem_stacksOf (stack_mem_stacksOf (g.user p) K.mem p) r).1
    refine (A.apart_of_ne h.boxes.holds hlive (h.boxes.procLive r hr) hne).not_has hhas ?_
    simp only [Block.Has, procBlock, sizeofProcess]
    omega

/-- **Sending** leaves all processes alone. -/
theorem Lived.send_untouched (h : Lived A V K g nodes queue live) {s ret : Nat} {msg : Message}
    {out : Option Message} (hs : s ∈ g.alive) (hr : r ∈ g.alive)
    (hk : ksendMessage A.toHeap K.mem s r (some msg) = some (ret, out, m')) (hp : p ∈ g.alive) :
    Untouched K.mem m' p := by
  have hs0 : s ≠ 0 := by
    have := (h.boxes.boxApart hs).process
    omega
  obtain ⟨-, -, new, hm, ht⟩ := h.boxes.send hs0 hr hk
  exact h.untouched_of_touches hr h.boxes.procLive h.stackLive ht hp

/-- **Receiving** does. -/
theorem Lived.receive_untouched (h : Lived A V K g nodes queue live) {ret : Nat}
    {buf : Message} {out : Option Message} {who : UInt32} (hr : r ∈ g.alive)
    (hk : kreceiveMessage A.toHeap K.mem r (some buf) who = some (ret, out, m')) (hp : p ∈ g.alive) :
    Untouched K.mem m' p := by
  rcases h.boxes.receive hr hk with ⟨-, -, -, rfl⟩ | ⟨_, _, a, _, -, -, -, -, hm, ht⟩
  · exact ⟨AgreeOn.refl _ _ _, AgreeOn.refl _ _ _, AgreeOn.refl _ _ _⟩
  · refine h.untouched_of_touches hr hm.procLive (fun p hp b hb => ?_) ht hp
    exact (List.mem_erase_of_ne (ne_of_mem_stacksOf hb a).2).mpr (h.stackLive p hp b hb)

/-- A process `p` has come in front of the list: no block in use has changed, and the frame of
the new one is `state`. -/
structure Born (A : Allocator) (area : Nat → Prop) (K K' : Kernel σ) (live : List Block) (p : Nat)
    (state : Cpu) : Prop where
  agree : ∀ b ∈ live, AgreeOn K.mem K'.mem b.addr b.size
  outside : ∀ x, ¬ A.arena x → ¬ area x → K'.mem x = K.mem x
  state_eq : procState K'.mem p = frameOf (procStack K'.mem p)
  frame : readCpu K'.mem (frameOf (procStack K'.mem p)) = state
  pid : procPid K'.mem p = K.numProc % 2 ^ 32
  room : procStack K'.mem p + STACK_SIZE ≤ 2 ^ 32
  globals : K' = { K with
    mem := K'.mem, frames := K'.frames, firstProcess := p, numProc := (K.numProc + 1) % 2 ^ 32 }

/-- A process made on the allocator is one. -/
theorem Carved.born {area : Nat → Prop} {new : List Block} {m₃ : Mem} {stack context : Nat}
    {state : Cpu} (h : Carved A area K K' live new p stack context state m₃)
    (harea : ∀ a, A.arena a → ¬ area a) : Born A area K K' live p state := by
  have hmem : (⟨stack, STACK_SIZE⟩ : Block) ∈ procBlock p :: (new ++ live) := by simp [h.own]
  have hpArena := (A.inArena h.holds _ List.mem_cons_self).2
  have hsArena := (A.inArena h.holds _ hmem).2
  simp only [Block.Has, procBlock, sizeofProcess, STACK_SIZE] at hpArena hsArena
  refine ⟨fun b hb => h.agree harea hb, fun x hx hxa => ?_, ?_, ?_, h.record.pid_eq, ?_, h.globals⟩
  · have hp : ¬ (p ≤ x ∧ x < p + 52) := fun hin => hx (hpArena x hin)
    have hs : ¬ (stack ≤ x ∧ x < stack + 4096) := fun hin => hx (hsArena x hin)
    calc K'.mem x
        = m₃ x := h.record.outside x hxa (by omega) (by omega)
      _ = K.mem x := h.keeps x (Or.inl hx)
  · rw [h.record.state_eq, h.record.stack_eq]
  · rw [h.record.stack_eq, h.record.frame_eq]
  · rw [h.record.stack_eq]
    exact A.fin_le h.holds hmem

/-- **A new user process.** -/
theorem createUser_born {entry context : Nat} (hholds : A.Holds K.mem live)
    (hk : createUserProcess A.toHeap K entry context = some (p, K')) :
    Born A (fun _ => False) K K' live p
      (newState entry (userStack K'.mem p + STACK_SIZE) 0x1B 0x23) := by
  obtain ⟨stack, ustack, m, -, rfl, hc⟩ := createUserProcess_carves hholds hk
  exact hc.born (fun _ _ => id)

/-- **A new kernel process.** -/
theorem createKernel_born {entry : Nat} (hholds : A.Holds K.mem live)
    (hV : ∀ a, A.arena a → ¬ V.area a)
    (hk : createKernelProcess A.toHeap V K entry = some (p, K')) :
    Born A V.area K K' live p (newState entry (procStack K'.mem p + STACK_SIZE) 0x08 0x10) := by
  obtain ⟨stack, context, m, -, hc⟩ := createKernelProcess_carves hholds hV hk
  rw [show procStack K'.mem p = stack from hc.record.stack_eq]
  exact hc.born hV

/-- A birth leaves the others alone. -/
theorem Lived.untouched_of_born (h : Lived A V K g nodes queue live) {area : Nat → Prop}
    {state : Cpu} (hb : Born A area K K' live q state) (hp : p ∈ g.alive) :
    Untouched K.mem K'.mem p := by
  have hrec : AgreeOn K.mem K'.mem p 52 := hb.agree _ (h.boxes.procLive p hp)
  exact ⟨hrec.mono (by omega) (by omega), hrec.mono (by omega) (by omega),
    hb.agree _ (h.stack_live hp)⟩

/-- Releasing a process changes nothing outside the heap. -/
theorem releaseProcess_outside {u : Bool} (hholds : A.Holds m live)
    (hp : procBlock p ∈ live) (hstacks : ∀ b ∈ stacksOf u m p, b ∈ live)
    (hnodup : (stacksOf u m p).Nodup) (hclean : u = true ∨ userStack m p = NULL)
    (hk : releaseProcess A.toHeap m p = some m') {x : Nat} (hx : ¬ A.arena x) : m' x = m x := by
  simp only [releaseProcess, Option.bind_eq_bind, Option.bind_eq_some_iff] at hk
  obtain ⟨m₁, h₁, m₂, h₂, h₃⟩ := hk
  have hs : (⟨procStack m p, STACK_SIZE⟩ : Block) ∈ stacksOf u m p := stack_mem_stacksOf u m p
  have hl₁ := A.kfree_holds hholds (hstacks _ hs) h₁
  have hpne : procBlock p ≠ ⟨procStack m p, STACK_SIZE⟩ := fun he =>
    (ne_of_mem_stacksOf hs p).1 he.symm
  have hp₁ : procBlock p ∈ live.erase ⟨procStack m p, STACK_SIZE⟩ :=
    (List.mem_erase_of_ne hpne).mpr hp
  have hu₁ : userStack m₁ p = userStack m p :=
    load32_congr ((A.kfree_agree hholds (hstacks _ hs) h₁ hp₁).mono (by simp [procBlock])
      (by simp [procBlock, sizeofProcess]))
  rw [hu₁] at h₂
  -- the user stack, if there is one
  have hmid : m₂ x = m₁ x ∧ ∃ live₂, A.Holds m₂ live₂ ∧ procBlock p ∈ live₂ := by
    rcases hclean with rfl | hnull
    · have hus : (⟨userStack m p, STACK_SIZE⟩ : Block) ∈ stacksOf true m p := by simp [stacksOf]
      have hne : (⟨userStack m p, STACK_SIZE⟩ : Block) ≠ ⟨procStack m p, STACK_SIZE⟩ := by
        intro he
        simp [stacksOf, he] at hnodup
      have hul : (⟨userStack m p, STACK_SIZE⟩ : Block) ∈ live.erase ⟨procStack m p, STACK_SIZE⟩ :=
        (List.mem_erase_of_ne hne).mpr (hstacks _ hus)
      have hpu : procBlock p ≠ ⟨userStack m p, STACK_SIZE⟩ := fun he =>
        (ne_of_mem_stacksOf hus p).1 he.symm
      exact ⟨A.kfree_keeps hl₁ hul h₂ x (Or.inl hx), _, A.kfree_holds hl₁ hul h₂,
        (List.mem_erase_of_ne hpu).mpr hp₁⟩
    · rw [hnull, A.kfree_null] at h₂
      obtain rfl : m₁ = m₂ := by simpa using h₂
      exact ⟨rfl, _, hl₁, hp₁⟩
  obtain ⟨hx₂, live₂, hl₂, hp₂⟩ := hmid
  rw [A.kfree_keeps hl₂ hp₂ h₃ x (Or.inl hx), hx₂,
    A.kfree_keeps hholds (hstacks _ hs) h₁ x (Or.inl hx)]

/-- **The end of a process** leaves the others alone, and changes nothing outside the heap but what
destroying its context does. -/
theorem Lived.kill_untouched (h : Lived A V K g nodes queue live)
    (hV : ∀ a, A.arena a → ¬ V.area a) (hq : q ∈ g.alive)
    (hclean : g.user q = true ∨ userStack K.mem q = NULL)
    (hk : killProcess A.toHeap V K q = .ok K') :
    (∀ p ∈ g.alive.erase q, Untouched K.mem K'.mem p) ∧
    (∃ m₁, V.destroyContext K.mem K.frames (procContext K.mem q) = some (m₁, K'.frames) ∧
      ∀ x, ¬ A.arena x → K'.mem x = m₁ x) ∧
    K' = { K with mem := K'.mem, frames := K'.frames, firstProcess := K'.firstProcess } := by
  obtain ⟨pre, post, halive⟩ := List.append_of_mem hq
  have hlist := h.list
  rw [halive] at hlist
  rw [killProcess_eq _ V hlist.chain hlist.pids hlist.records.length_lt] at hk
  obtain ⟨m₁, frames, m₃, hd, hr, rfl⟩ := killAt_ok hk
  have herase : g.alive.erase q = pre ++ post := by
    rw [halive, erase_middle hlist.chain.nodup]
  have hsub : ∀ r ∈ pre ++ post, r ∈ g.alive := fun r hr' => by
    rw [← herase] at hr'
    exact List.mem_of_mem_erase hr'
  have hne : ∀ r ∈ pre ++ post, r ≠ q := by
    rintro r hr' rfl
    rw [← herase] at hr'
    exact (h.list.chain.nodup.not_mem_erase) hr'
  -- up to the frees only link words of the list have changed
  obtain ⟨hout, hrest⟩ := h.unlink_keeps hV halive hd
  have hholds : A.Holds (relink m₁ pre q) live := A.write h.boxes.holds hout
  have hqq : AgreeOn K.mem (relink m₁ pre q) q 52 := hrest _ (h.boxes.procLive q hq)
    (fun r hr' he => hne r hr' (by simpa [procBlock] using he.symm))
  have hstacks : stacksOf (g.user q) (relink m₁ pre q) q = stacksOf (g.user q) K.mem q :=
    stacksOf_congr (hqq.mono (by omega) (by omega))
  have hustack : userStack (relink m₁ pre q) q = userStack K.mem q :=
    load32_congr (hqq.mono (by omega) (by omega))
  obtain ⟨live', -, hkeep⟩ := releaseProcess_holds (u := g.user q) hholds
    (h.boxes.procLive q hq) (hstacks ▸ h.stackLive q hq) (hstacks ▸ h.stackNodup q hq)
    (hustack ▸ hclean) hr
  rw [hstacks] at hkeep
  have hlast : ∀ b, pre.getLast? = some b → b ∈ pre ++ post := fun b hb =>
    List.mem_append_left _ (List.mem_of_getLast? hb)
  refine ⟨fun p hp => ?_, ⟨m₁, hd, fun x hx => ?_⟩, rfl⟩
  · rw [herase] at hp
    have hpa := hsub p hp
    -- the record up to its link, and the stack
    have hrelink : AgreeOn K.mem (relink m₁ pre q) p 48 := by
      intro x hx hx'
      have hrec : (procBlock p).Has x := by
        simp only [Block.Has, procBlock, sizeofProcess]
        omega
      rw [relink_of_outside (fun b hb => ?_), V.destroy_keeps hd x
        (hV x ((A.inArena h.boxes.holds _ (h.boxes.procLive p hpa)).2 x hrec))]
      by_cases hbp : b = p
      · omega
      · have hap := A.apart_of_ne h.boxes.holds (h.boxes.procLive b (hsub b (hlast b hb)))
          (h.boxes.procLive p hpa) (fun he => hbp (by simpa [procBlock] using he))
        simp only [Block.Apart, procBlock, sizeofProcess] at hap
        omega
    have hrec : AgreeOn (relink m₁ pre q) m₃ p 52 := (hkeep _ (h.boxes.procLive p hpa)
      (fun he => hne p hp (by simpa [procBlock] using he))
      (fun hmem => (ne_of_mem_stacksOf hmem p).1 rfl)).2
    have hmem := stack_mem_stacksOf (g.user p) K.mem p
    have hstack := hrest _ (h.stack_live hpa) (fun r _ => (ne_of_mem_stacksOf hmem r).1)
    have hfree := (hkeep _ (h.stack_live hpa) (ne_of_mem_stacksOf hmem q).1
      (fun hmem' => h.stackOwn p hpa q hq (hne p hp) hmem hmem')).2
    exact ⟨(hrelink.mono le_rfl (by omega)).trans (hrec.mono le_rfl (by omega)),
      (hrelink.mono (by omega) (by omega)).trans (hrec.mono (by omega) (by omega)),
      hstack.trans hfree⟩
  · have harena : ∀ b, pre.getLast? = some b → x < b + 48 ∨ b + 52 ≤ x := by
      intro b hb
      have hin := (A.inArena h.boxes.holds _ (h.boxes.procLive b (hsub b (hlast b hb)))).2
      by_contra hcon
      refine hx (hin x ?_)
      simp only [Block.Has, procBlock, sizeofProcess]
      omega
    show m₃ x = m₁ x
    rw [releaseProcess_outside hholds (h.boxes.procLive q hq) (hstacks ▸ h.stackLive q hq)
      (hstacks ▸ h.stackNodup q hq) (hustack ▸ hclean) hr hx, relink_of_outside harena]

/-! ## What the invariant does not look at -/

/-- The bytes of a record that the list and the mailboxes do not use: the state pointer and the
context, the break, the timer, the status and the owner. -/
def OwnField (p x : Nat) : Prop :=
  p ≤ x ∧ x < p + 8 ∨ p + 24 ≤ x ∧ x < p + 28 ∨ p + 36 ≤ x ∧ x < p + 48

/-- Stores into stacks, into such fields and outside the heap keep the invariant. -/
theorem Lived.fields (h : Lived A V K g nodes queue live)
    (hm : ∀ x, A.arena x → (∀ p ∈ g.alive, ¬ OwnField p x) →
      (∀ p ∈ g.alive, ∀ b ∈ stacksOf (g.user p) K.mem p, ¬ b.Has x) → K'.mem x = K.mem x)
    (hfirst : K'.firstProcess = K.firstProcess) (hnum : K'.numProc = K.numProc) :
    Lived A V K' g nodes queue live := by
  have hstackOff : ∀ c ∈ live, (∀ p ∈ g.alive, c ∉ stacksOf (g.user p) K.mem p) →
      ∀ x, c.Has x → ∀ p ∈ g.alive, ∀ b ∈ stacksOf (g.user p) K.mem p, ¬ b.Has x := by
    intro c hc hne x hx p hp b hb hbx
    have hbc : b ≠ c := fun he => hne p hp (he ▸ hb)
    exact (A.apart_of_ne h.boxes.holds (h.stackLive p hp b hb) hc hbc).not_has hbx hx
  have hfieldOff : ∀ c ∈ live, ∀ p ∈ g.alive, c ≠ procBlock p → ∀ x, c.Has x → ¬ OwnField p x := by
    intro c hc p hp hne x hx hf
    refine (A.apart_of_ne h.boxes.holds hc (h.boxes.procLive p hp) hne).not_has hx ?_
    simp only [Block.Has, procBlock, sizeofProcess]
    unfold OwnField at hf
    omega
  have hrec : ∀ p ∈ g.alive, ∀ x, p ≤ x → x < p + 52 → ¬ OwnField p x → K'.mem x = K.mem x := by
    intro p hp x hx hx' hf
    have hhas : (procBlock p).Has x := ⟨hx, hx'⟩
    have hlive := h.boxes.procLive p hp
    refine hm x ((A.inArena h.boxes.holds _ hlive).2 x hhas) (fun q hq hqf => ?_)
      (hstackOff _ hlive (fun r _ hmem => (ne_of_mem_stacksOf hmem p).1 rfl) x hhas)
    by_cases hqp : q = p
    · exact hf (hqp ▸ hqf)
    · exact hfieldOff _ hlive q hq (fun he => hqp (by simpa [procBlock] using he.symm)) x hhas hqf
  have hnode : ∀ p ∈ g.alive, ∀ n ∈ nodes p, AgreeOn K.mem K'.mem n sizeofMessageNode := by
    intro p hp n hn x hx hx'
    have hlive := h.boxes.nodeLive p hp n hn
    have hhas : (nodeBlock n).Has x := ⟨hx, hx'⟩
    exact hm x ((A.inArena h.boxes.holds _ hlive).2 x hhas)
      (fun q hq => hfieldOff _ hlive q hq (nodeBlock_ne_procBlock n q) x hhas)
      (hstackOff _ hlive (fun r _ hmem => (ne_of_mem_stacksOf hmem n).2 rfl) x hhas)
  have hholds : A.Holds K'.mem live := by
    refine A.write h.boxes.holds (fun x hx hb => hm x hx (fun p hp hf => ?_) (fun p hp b hb' => ?_))
    · refine hb _ (h.boxes.procLive p hp) ?_
      simp only [Block.Has, procBlock, sizeofProcess]
      unfold OwnField at hf
      omega
    · exact hb b (h.stackLive p hp b hb')
  have hword : ∀ p ∈ g.alive, ∀ n k, p + n + k ≤ p + 52 →
      (∀ x, p + n ≤ x → x < p + n + k → ¬ OwnField p x) → AgreeOn K.mem K'.mem (p + n) k :=
    fun p hp n k hk hf x hx hx' => hrec p hp x (by omega) (by omega) (hf x hx hx')
  have hstacks : ∀ p ∈ g.alive, stacksOf (g.user p) K'.mem p = stacksOf (g.user p) K.mem p :=
    fun p hp => stacksOf_congr (hword p hp 28 8 (by omega) (fun x _ _ => by
      unfold OwnField
      omega))
  refine ⟨?_, by rw [hnum]; exact h.num, h.boxes.keep (fun _ => id) hholds (fun p hp => ?_)
    (fun p hp n hn => ⟨h.boxes.nodeLive p hp n hn, hnode p hp n hn⟩), fun p hp => ?_, fun p hp => ?_,
    fun p hp r hr hne => ?_, h.history⟩
  · rw [hfirst]
    refine h.list.congr (fun p hp => ⟨hword p hp 8 4 (by omega) (fun x _ _ => ?_),
      hword p hp 48 4 (by omega) (fun x _ _ => ?_)⟩) <;>
    · unfold OwnField
      omega
  · refine ⟨h.boxes.procLive p hp, hword p hp 12 12 (by omega) (fun x _ _ => ?_)⟩
    unfold OwnField
    omega
  · rw [hstacks p hp]
    exact h.stackLive p hp
  · rw [hstacks p hp]
    exact h.stackNodup p hp
  · rw [hstacks p hp, hstacks r hr]
    exact h.stackOwn p hp r hr hne

end

end DayOS
