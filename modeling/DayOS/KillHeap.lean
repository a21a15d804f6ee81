import DayOS.Lifetimes

set_option autoImplicit false

/-! # What `KillProcess` gives back to the heap

`KillProcess` passes the kernel stack, the word `user_stack` and the record to `kfree`. The
blocks a process owns are its record, its stacks and the nodes queued in its mailbox, so the
three calls release exactly these for a process of `CreateUserProcess` with an empty mailbox.
Queued nodes are never freed, and `CreateKernelProcess` does not set `user_stack`.
-/

namespace DayOS

open ByteMemory Linked

/-! ## Releasing what one owns -/

/-- The heap `H` with a `kfree` that turns down every pointer but those to blocks of `own` in
use. What comes back on it has passed to `kfree` only such pointers, none of them twice. -/
def Heap.releasing (H : Heap) (own : List Block) : Heap where
  kmalloc := H.kmalloc
  kfree m addr :=
    if (∃ b ∈ own, b.addr = addr) ∧ nodeFree m (headerStart addr) = 0 then H.kfree m addr
    else none

/-- The blocks allocated for the process `p`: its record, its stacks and the nodes of the
messages queued in its mailbox. -/
def ownBlocks (user : Bool) (m : Mem) (p : Nat) (nodes : List Nat) : List Block :=
  procBlock p :: (stacksOf user m p ++ nodes.map nodeBlock)

/-- **What a kill is to release.** `KillProcess` comes back, passes to `kfree` only pointers to
blocks of `own` in use, each once, and leaves all of these free and the free flag of every
other block of the heap as it was. -/
def KillReleases {σ : Type} (L : Layout) (V : Contexts σ) (K : Kernel σ) (p : Nat)
    (own : List Block) : Prop :=
  ∃ K', killProcess (firstFit L).toHeap V K p = .ok K' ∧
    killProcess ((firstFit L).toHeap.releasing own) V K p = .ok K' ∧
    (∀ b ∈ own, nodeFree K'.mem (headerStart b.addr) = 1) ∧
    ∀ qs, Chain (nodeNext K.mem) L.heapStart qs → ∀ q ∈ qs,
      (∀ b ∈ own, q ≠ headerStart b.addr) → nodeFree K'.mem q = nodeFree K.mem q

/-- The states reached by steps that all meet the condition `P`, from an empty process list
on, over a heap in which others hold the blocks `others`. -/
inductive TenantRun {σ : Type} (A : Allocator) (V : Contexts σ)
    (P : Kernel σ → Lives → Event → Prop) (others : List Block) : Kernel σ → Lives → Prop
  | boot {K : Kernel σ} {g : Lives} : A.Holds K.mem others → K.firstProcess = NULL →
      K.numProc < 2 ^ 32 → g.alive = [] → TenantRun A V P others K g
  | step {K K' : Kernel σ} {g g' : Lives} {e : Event} : TenantRun A V P others K g →
      LifeStep A V K g e K' g' → P K g e → TenantRun A V P others K' g'

section
variable {σ : Type} {L : Layout} {V : Contexts σ} {K : Kernel σ} {g : Lives} {lim : Nat}
  {m m₁ m' m'' : Mem} {ns : List FirstFit.Node} {live own others : List Block} {b : Block} {p : Nat}
  {qs bs cs : List Nat}

/-! ## The flags of the headers -/

/-- Of the headers `qs`, those in `bs` say free now, and the others what they said before. -/
def FlagsAfter (qs : List Nat) (m m' : Mem) (bs : List Nat) : Prop :=
  ∀ q ∈ qs, nodeFree m' q = if q ∈ bs then 1 else nodeFree m q

theorem FlagsAfter.trans (h₁ : FlagsAfter qs m m' bs) (h₂ : FlagsAfter qs m' m'' cs) :
    FlagsAfter qs m m'' (bs ++ cs) := by
  intro q hq
  rw [h₂ q hq, h₁ q hq]
  by_cases hc : q ∈ cs <;> by_cases hb : q ∈ bs <;> simp [hb, hc]

/-- The header of a block in use is one of the heap's, and says that the block is in use. -/
theorem HeapState.header_used (h : HeapState L lim m ns live) (hb : b ∈ live) :
    headerStart b.addr ∈ ns.map FirstFit.Node.addr ∧ nodeFree m (headerStart b.addr) = 0 ∧
      headerStart b.addr + headerSize = b.addr := by
  obtain ⟨x, hx, hfree, hbx, -⟩ := h.serves.node b hb
  have hlt := h.heap.below x hx
  have hend := L.heapEnd_le
  have hhead : headerStart b.addr = x.addr := by
    simp only [headerStart, hbx, headerSize]
    omega
  have hnode := (h.heap.node x hx).free
  rw [hfree] at hnode
  rw [hhead]
  exact ⟨List.mem_map_of_mem hx, by simpa using hnode, hbx.symm⟩

/-- Blocks in use with one header are the same. -/
theorem HeapState.eq_of_header (h : HeapState L lim m ns live) (hb : b ∈ live) {c : Block}
    (hc : c ∈ live) (he : headerStart b.addr = headerStart c.addr) : b = c := by
  obtain ⟨-, -, h₁⟩ := h.header_used hb
  obtain ⟨-, -, h₂⟩ := h.header_used hc
  exact List.inj_on_of_nodup_map h.serves.nodup hb hc (by omega)

/-- **Freeing a block in use** sets its flag and no other one, and keeps the bytes of every
block in use. -/
theorem HeapState.free_flags (h : HeapState L lim m ns live) (hb : b ∈ live)
    (hlt : b.addr < L.heapEnd) :
    ∃ m' ns', kfree L m b.addr = some m' ∧ HeapState L lim m' ns' (live.erase b) ∧
      ns'.map FirstFit.Node.addr = ns.map FirstFit.Node.addr ∧
      FlagsAfter (ns.map FirstFit.Node.addr) m m' [headerStart b.addr] ∧
      ∀ c ∈ live, AgreeOn m m' c.addr c.size := by
  have h16 : headerSize = 16 := rfl
  obtain ⟨-, -, hhead⟩ := h.header_used hb
  obtain ⟨x, hx, hbx, m', hk, hs, hf⟩ := h.free hb hlt
  have hxb : x.addr = headerStart b.addr := by omega
  have hmap : (FirstFit.release x.addr ns).map FirstFit.Node.addr
      = ns.map FirstFit.Node.addr := by
    rw [FirstFit.release, FirstFit.setFree, List.map_map]
    exact List.map_congr_left (fun y _ => FirstFit.Node.mark_addr)
  refine ⟨m', _, hk, hs, hmap, fun q hq => ?_, fun c hc a ha ha' => hf a (fun hxa => ?_)⟩
  · obtain ⟨y, hy, rfl⟩ := List.mem_map.mp hq
    by_cases hyx : y.addr = x.addr
    · have hy' : y.mark x.addr true ∈ FirstFit.release x.addr ns :=
        FirstFit.mem_setFree.mpr ⟨y, hy, rfl⟩
      have hfree := (hs.heap.node _ hy').free
      rw [FirstFit.Node.mark_free_of_eq hyx, FirstFit.Node.mark_addr, if_pos rfl] at hfree
      rw [hfree, if_pos (by simp [hyx, hxb])]
    · rw [if_neg (by simp only [List.mem_singleton]; omega)]
      have hne : y ≠ x := fun he => hyx (congrArg FirstFit.Node.addr he)
      have hfin := h.heap.laid.fin_le_or hy hx hne
      simp only [FirstFit.Node.fin] at hfin
      exact load32_congr (fun a ha ha' => hf a (by omega))
  · have hap := h.header_apart hx hc
    simp only [Block.Apart, FirstFit.Node.header] at hap
    omega

theorem kfree_some_lt {a : Nat} (h : kfree L m a = some m') (ha : a ≠ NULL) : a < L.heapEnd := by
  by_contra hge
  rw [kfree, if_neg ha, if_pos hge] at h
  cases h

/-! ## The three calls -/

theorem releasing_kfree {H : Heap} (hown : b ∈ own) (hflag : nodeFree m (headerStart b.addr) = 0) :
    (H.releasing own).kfree m b.addr = H.kfree m b.addr :=
  if_pos ⟨⟨b, hown, rfl⟩, hflag⟩

theorem releasing_kfree_some {H : Heap} {a : Nat} (h : (H.releasing own).kfree m a = some m') :
    ∃ b ∈ own, b.addr = a ∧ nodeFree m (headerStart b.addr) = 0 ∧ H.kfree m b.addr = some m' := by
  simp only [Heap.releasing] at h
  split at h
  case isTrue hok =>
      obtain ⟨⟨b, hown, rfl⟩, hflag⟩ := hok
      exact ⟨b, hown, rfl, hflag, h⟩
  case isFalse => cases h

/-- The words of a record that `kfree` is given do not change while other blocks are freed. -/
theorem userStack_agree (h : AgreeOn m m' (procBlock p).addr (procBlock p).size) :
    userStack m' p = userStack m p :=
  load32_congr (h.mono (by simp [procBlock]) (by simp [procBlock, sizeofProcess]))

/-- Where the three pointers are those of three different blocks in use, `KillProcess` frees
these. -/
theorem releaseProcess_frees {s u : Block} (h : HeapState L lim m ns live)
    (hs : s ∈ live) (hu : u ∈ live) (hp : procBlock p ∈ live) (hsa : s.addr = procStack m p)
    (hua : u.addr = userStack m p) (hus : u ≠ s) (hps : procBlock p ≠ s) (hpu : procBlock p ≠ u)
    (hown : ∀ b ∈ [s, u, procBlock p], b ∈ own ∧ b.addr < L.heapEnd) :
    ∃ m', releaseProcess (firstFit L).toHeap m p = some m' ∧
      releaseProcess ((firstFit L).toHeap.releasing own) m p = some m' ∧
      FlagsAfter (ns.map FirstFit.Node.addr) m m'
        [headerStart s.addr, headerStart u.addr, headerStart p] := by
  simp only [List.forall_mem_cons] at hown
  obtain ⟨⟨hso, hslt⟩, ⟨huo, hult⟩, ⟨hpo, hplt⟩, -⟩ := hown
  obtain ⟨m₁, ns₁, hk₁, h₁, hns₁, hf₁, ha₁⟩ := h.free_flags hs hslt
  have hu₁ : u ∈ live.erase s := (List.mem_erase_of_ne hus).mpr hu
  have hp₁ : procBlock p ∈ live.erase s := (List.mem_erase_of_ne hps).mpr hp
  obtain ⟨m₂, ns₂, hk₂, h₂, hns₂, hf₂, -⟩ := h₁.free_flags hu₁ hult
  have hp₂ : procBlock p ∈ (live.erase s).erase u := (List.mem_erase_of_ne hpu).mpr hp₁
  obtain ⟨m₃, ns₃, hk₃, -, -, hf₃, -⟩ := h₂.free_flags hp₂ hplt
  rw [hns₁] at hf₂
  rw [hns₂, hns₁] at hf₃
  have hword : userStack m₁ p = u.addr := (userStack_agree (ha₁ _ hp)).trans hua.symm
  refine ⟨m₃, ?_, ?_, (hf₁.trans hf₂).trans hf₃⟩
  · simp only [releaseProcess, Option.bind_eq_bind, firstFit_kfree_eq]
    rw [← hsa, hk₁, Option.bind_some, hword, hk₂]
    exact hk₃
  · have hg₁ := (releasing_kfree (H := (firstFit L).toHeap) hso (h.header_used hs).2.1).trans hk₁
    have hg₂ := (releasing_kfree (H := (firstFit L).toHeap) huo (h₁.header_used hu₁).2.1).trans hk₂
    have hg₃ := (releasing_kfree (H := (firstFit L).toHeap) hpo (h₂.header_used hp₂).2.1).trans hk₃
    simp only [releaseProcess, Option.bind_eq_bind]
    rw [← hsa, hg₁, Option.bind_some, hword, hg₂]
    exact hg₃

/-- Where the heap lets all three pointers pass, they are those of three different blocks the
process owns. -/
theorem releaseProcess_releasing {s : Block} (h : HeapState L lim m ns live)
    (hlive : ∀ b ∈ own, b ∈ live) (hs : s ∈ own) (hp : procBlock p ∈ own)
    (hsa : s.addr = procStack m p) (hps : procBlock p ≠ s)
    (hk : releaseProcess ((firstFit L).toHeap.releasing own) m p = some m') :
    ∃ u ∈ own, u.addr = userStack m p ∧ u ≠ s ∧ procBlock p ≠ u ∧
      (∀ b ∈ [s, u, procBlock p], b.addr < L.heapEnd) ∧
      FlagsAfter (ns.map FirstFit.Node.addr) m m'
        [headerStart s.addr, headerStart u.addr, headerStart p] := by
  have hnull : ∀ b ∈ live, b.addr ≠ NULL := by
    intro b hb
    have hge := (h.inHeap hb).1
    have := L.heapStart_ge
    simp only [NULL]
    omega
  simp only [releaseProcess, Option.bind_eq_bind, Option.bind_eq_some_iff] at hk
  obtain ⟨m₁, hk₁, m₂, hk₂, hk₃⟩ := hk
  -- the kernel stack
  obtain ⟨s', hs', hse, -, hk₁⟩ := releasing_kfree_some hk₁
  obtain rfl : s' = s :=
    List.inj_on_of_nodup_map h.serves.nodup (hlive _ hs') (hlive _ hs) (hse.trans hsa.symm)
  have hslt := kfree_some_lt hk₁ (hnull _ (hlive _ hs))
  obtain ⟨_, ns₁, hk₁', h₁, hns₁, hf₁, ha₁⟩ := h.free_flags (hlive _ hs) hslt
  obtain rfl := Option.some.inj (hk₁.symm.trans hk₁')
  -- the user stack
  obtain ⟨u, hu, hue, hflag₂, hk₂⟩ := releasing_kfree_some hk₂
  have hus : u ≠ s' := by
    rintro rfl
    rw [hf₁ _ (h.header_used (hlive _ hu)).1, if_pos List.mem_cons_self] at hflag₂
    cases hflag₂
  have hu₁ : u ∈ live.erase s' := (List.mem_erase_of_ne hus).mpr (hlive _ hu)
  have hp₁ : procBlock p ∈ live.erase s' := (List.mem_erase_of_ne hps).mpr (hlive _ hp)
  have hult := kfree_some_lt hk₂ (hnull _ (hlive _ hu))
  obtain ⟨_, ns₂, hk₂', h₂, hns₂, hf₂, -⟩ := h₁.free_flags hu₁ hult
  obtain rfl := Option.some.inj (hk₂.symm.trans hk₂')
  -- the record
  obtain ⟨q, hq, hqe, hflag₃, hk₃⟩ := releasing_kfree_some hk₃
  obtain rfl : q = procBlock p :=
    List.inj_on_of_nodup_map h.serves.nodup (hlive _ hq) (hlive _ hp) hqe
  have hpu : procBlock p ≠ u := by
    rintro rfl
    rw [hf₂ _ (h₁.header_used hu₁).1, if_pos List.mem_cons_self] at hflag₃
    cases hflag₃
  have hp₂ : procBlock p ∈ (live.erase s').erase u := (List.mem_erase_of_ne hpu).mpr hp₁
  have hplt := kfree_some_lt hk₃ (hnull _ (hlive _ hp))
  obtain ⟨_, ns₃, hk₃', -, -, hf₃, -⟩ := h₂.free_flags hp₂ hplt
  obtain rfl := Option.some.inj (hk₃.symm.trans hk₃')
  rw [hns₁] at hf₂
  rw [hns₂, hns₁] at hf₃
  refine ⟨u, hu, hue.trans (userStack_agree (ha₁ _ (hlive _ hp))), hus, hpu, ?_,
    (hf₁.trans hf₂).trans hf₃⟩
  simp only [List.forall_mem_cons]
  exact ⟨hslt, hult, hplt, by simp⟩

/-! ## One kill -/

/-- When the three calls of `KillProcess` release what the process owns: its context can be
destroyed, its blocks start where `kfree` takes them, and the word `user_stack` is all there is
besides the kernel stack and the record. That is so for a user process with an empty mailbox;
in a kernel process the word is whatever the record's block held before. -/
structure Releasable (L : Layout) (V : Contexts σ) (K : Kernel σ) (p : Nat) (user : Bool)
    (nodes : List Nat) : Prop where
  destroys : (V.destroyContext K.mem K.frames (procContext K.mem p)).isSome
  below : ∀ b ∈ ownBlocks user K.mem p nodes, b.addr < L.heapEnd
  mailbox : nodes = if user then [] else [userStack K.mem p]

variable {nodes : Nat → List Nat} {queue : Nat → List Message} {user : Bool} {l : List Nat}

theorem mem_ownBlocks : b ∈ ownBlocks user m p l ↔
    b = procBlock p ∨ b ∈ stacksOf user m p ∨ ∃ n ∈ l, nodeBlock n = b := by
  simp only [ownBlocks, List.mem_cons, List.mem_append, List.mem_map]

theorem stack_mem_ownBlocks : (⟨procStack m p, STACK_SIZE⟩ : Block) ∈ ownBlocks user m p l :=
  mem_ownBlocks.mpr (Or.inr (Or.inl List.mem_cons_self))

theorem killAt_of_release {H : Heap} {pre : List Nat} {frames : σ}
    (hd : V.destroyContext K.mem K.frames (procContext K.mem p) = some (m₁, frames))
    (hr : releaseProcess H (relink m₁ pre p) p = some m') :
    killAt H V K pre p = .ok { K with
      mem := m', frames := frames,
      firstProcess := if pre = [] then procNext K.mem p else K.firstProcess } := by
  simp only [killAt, hd, hr, returning, bind, Except.bind]
  rfl

/-- Where the calls release what the process owns, this is three blocks. -/
theorem Releasable.blocks (h : Releasable L V K p user l) (hnodup : (stacksOf user K.mem p).Nodup) :
    ∃ u ∈ ownBlocks user K.mem p l, u.addr = userStack K.mem p ∧
      u ≠ ⟨procStack K.mem p, STACK_SIZE⟩ ∧ procBlock p ≠ u ∧
      ∀ b ∈ ownBlocks user K.mem p l, b ∈ [⟨procStack K.mem p, STACK_SIZE⟩, u, procBlock p] := by
  have hl := h.mailbox
  cases user with
  | true =>
      simp only [if_true] at hl
      subst hl
      refine ⟨⟨userStack K.mem p, STACK_SIZE⟩, by simp [ownBlocks, stacksOf], rfl, ?_, ?_, ?_⟩
      · intro he
        simp [stacksOf, he] at hnodup
      · exact fun he => (ne_of_mem_stacksOf (u := true) (m := K.mem) (p := p)
          (by simp [stacksOf]) p).1 he.symm
      · intro b hb
        simp only [ownBlocks, stacksOf, if_true, List.map_nil, List.append_nil, List.mem_cons,
          List.not_mem_nil, or_false] at hb ⊢
        tauto
  | false =>
      simp only [Bool.false_eq_true, if_false] at hl
      subst hl
      refine ⟨nodeBlock (userStack K.mem p), by simp [ownBlocks, stacksOf], rfl, ?_, ?_, ?_⟩
      · exact fun he => (ne_of_mem_stacksOf (u := false) (m := K.mem) (p := p)
          List.mem_cons_self _).2 he.symm
      · exact (nodeBlock_ne_procBlock _ p).symm
      · intro b hb
        simp only [ownBlocks, stacksOf, Bool.false_eq_true, if_false, List.map_cons, List.map_nil,
          List.cons_append, List.nil_append, List.mem_cons, List.not_mem_nil, or_false] at hb ⊢
        tauto

/-- Where three blocks are all that a process owns, they are as `Releasable` has them. -/
theorem mailbox_of_own {u : Block} (hnodes : l.Nodup) (hnodup : (stacksOf user m p).Nodup)
    (hu : u ∈ ownBlocks user m p l) (hua : u.addr = userStack m p)
    (hus : u ≠ ⟨procStack m p, STACK_SIZE⟩) (hpu : procBlock p ≠ u)
    (hown : ∀ b ∈ ownBlocks user m p l, b = ⟨procStack m p, STACK_SIZE⟩ ∨ b = u ∨ b = procBlock p) :
    l = if user then [] else [userStack m p] := by
  have hs : (⟨procStack m p, STACK_SIZE⟩ : Block) ∈ stacksOf user m p := List.mem_cons_self
  have hnode : ∀ n ∈ l, nodeBlock n = u := by
    intro n hn
    rcases hown _ (mem_ownBlocks.mpr (Or.inr (Or.inr ⟨n, hn, rfl⟩))) with he | he | he
    · exact absurd he.symm (ne_of_mem_stacksOf hs n).2
    · exact he
    · exact absurd he (nodeBlock_ne_procBlock n p)
  cases user with
  | true =>
      have hus' : (⟨userStack m p, STACK_SIZE⟩ : Block) ∈ stacksOf true m p := by simp [stacksOf]
      have hu' : ⟨userStack m p, STACK_SIZE⟩ = u := by
        rcases hown _ (mem_ownBlocks.mpr (Or.inr (Or.inl hus'))) with he | he | he
        · simp [stacksOf, he] at hnodup
        · exact he
        · exact absurd he (ne_of_mem_stacksOf hus' p).1
      refine List.eq_nil_iff_forall_not_mem.mpr (fun n hn => ?_)
      exact (ne_of_mem_stacksOf hus' n).2 (hu'.trans (hnode n hn).symm)
  | false =>
      have hall : ∀ n ∈ l, n = userStack m p := fun n hn =>
        (congrArg Block.addr (hnode n hn)).trans hua
      rcases mem_ownBlocks.mp hu with he | he | ⟨n, hn, -⟩
      · exact absurd he.symm hpu
      · simp only [stacksOf, Bool.false_eq_true, if_false, List.mem_singleton] at he
        exact absurd he hus
      · cases l with
        | nil => cases hn
        | cons a rest =>
            obtain rfl := hall a List.mem_cons_self
            have hrest : rest = [] := List.eq_nil_iff_forall_not_mem.mpr (fun k hk =>
              (List.nodup_cons.mp hnodes).1 (hall k (List.mem_cons_of_mem _ hk) ▸ hk))
            rw [hrest]
            rfl

/-- Headers that three calls have set free are those of the three blocks. -/
theorem HeapState.eq_of_freed (h : HeapState L lim m ns live) {s u r : Block} (hs : s ∈ live)
    (hu : u ∈ live) (hr : r ∈ live) (hf : FlagsAfter (ns.map FirstFit.Node.addr) m m'
      [headerStart s.addr, headerStart u.addr, headerStart r.addr])
    (hb : b ∈ live) (hfree : nodeFree m' (headerStart b.addr) = 1) : b = s ∨ b = u ∨ b = r := by
  obtain ⟨hq, hused, -⟩ := h.header_used hb
  have hflag := hf _ hq
  rw [hfree, hused] at hflag
  have hmem : headerStart b.addr ∈
      [headerStart s.addr, headerStart u.addr, headerStart r.addr] := by
    by_contra hmem
    rw [if_neg hmem] at hflag
    cases hflag
  simp only [List.mem_cons, List.not_mem_nil, or_false] at hmem
  rcases hmem with he | he | he
  · exact Or.inl (h.eq_of_header hb hs he)
  · exact Or.inr (Or.inl (h.eq_of_header hb hu he))
  · exact Or.inr (Or.inr (h.eq_of_header hb hr he))

/-- What a process owns is in use. -/
theorem Lived.own_live (h : Lived (firstFit L) V K g nodes queue live) (hp : p ∈ g.alive)
    (hb : b ∈ ownBlocks (g.user p) K.mem p (nodes p)) : b ∈ live := by
  rcases mem_ownBlocks.mp hb with rfl | hb | ⟨n, hn, rfl⟩
  · exact h.boxes.procLive p hp
  · exact h.stackLive p hp b hb
  · exact h.boxes.nodeLive p hp n hn

/-- Up to the three calls a kill leaves the heap, its flags and the words that `kfree` is given. -/
theorem Lived.unlink_flags (h : Lived (firstFit L) V K g nodes queue live)
    (hV : ∀ a, (firstFit L).arena a → ¬ V.area a) {pre post : List Nat}
    (halive : g.alive = pre ++ p :: post) (hs : HeapState L (heapLimit L) K.mem ns live)
    {frames : σ} (hd : V.destroyContext K.mem K.frames (procContext K.mem p) = some (m₁, frames)) :
    HeapState L (heapLimit L) (relink m₁ pre p) ns live ∧
      FlagsAfter (ns.map FirstFit.Node.addr) K.mem (relink m₁ pre p) [] ∧
      procStack (relink m₁ pre p) p = procStack K.mem p ∧
      userStack (relink m₁ pre p) p = userStack K.mem p := by
  have hp : p ∈ g.alive := by simp [halive]
  have hnep : ∀ r ∈ pre ++ post, procBlock p ≠ procBlock r := by
    intro r hr he
    obtain rfl : p = r := congrArg Block.addr he
    have hnd := h.list.chain.nodup
    rw [halive, List.nodup_middle, List.nodup_cons] at hnd
    exact hnd.1 hr
  obtain ⟨hout, hrest⟩ := h.unlink_keeps hV halive hd
  have hheader : ∀ x ∈ ns, AgreeOn K.mem (relink m₁ pre p) x.addr headerSize := by
    intro x hx a ha ha'
    refine hout a ?_ (fun b hb => (hs.header_apart hx hb).symm.not_has ⟨ha, ha'⟩)
    have hlo := hs.heap.laid.start_le hx
    have hfin := hs.heap.bound x hx
    simp only [FirstFit.Node.fin] at hfin
    show L.heapStart ≤ a ∧ a < heapLimit L
    omega
  have hrecord : AgreeOn K.mem (relink m₁ pre p) p 52 := hrest _ (h.boxes.procLive p hp) hnep
  refine ⟨⟨hs.heap.congr hheader, hs.serves, hs.pos⟩, fun q hq => ?_,
    load32_congr (hrecord.mono (by omega) (by omega)),
    load32_congr (hrecord.mono (by omega) (by omega))⟩
  obtain ⟨x, hx, rfl⟩ := List.mem_map.mp hq
  rw [if_neg List.not_mem_nil]
  exact load32_congr ((hheader x hx).mono (by omega) (by simp [headerSize]))

theorem procBlock_ne_stack : procBlock p ≠ ⟨procStack m p, STACK_SIZE⟩ := fun he =>
  (ne_of_mem_stacksOf (u := true) (m := m) (p := p) List.mem_cons_self p).1 he.symm

/-- A kill that releases what the process owns needs the condition. -/
theorem Lived.releasable (h : Lived (firstFit L) V K g nodes queue live)
    (hV : ∀ a, (firstFit L).arena a → ¬ V.area a) (hp : p ∈ g.alive)
    (hkill : KillReleases L V K p (ownBlocks (g.user p) K.mem p (nodes p))) :
    Releasable L V K p (g.user p) (nodes p) := by
  obtain ⟨pre, post, halive⟩ := List.append_of_mem hp
  have hlist := h.list
  rw [halive] at hlist
  obtain ⟨K', -, hk, hfree, -⟩ := hkill
  rw [killProcess_eq _ V hlist.chain hlist.pids hlist.records.length_lt] at hk
  obtain ⟨m₁, frames, m₃, hd, hr, rfl⟩ := killAt_ok hk
  obtain ⟨ns, hs⟩ := h.boxes.holds
  obtain ⟨hs₁, hf₁, hstack, hustack⟩ := h.unlink_flags hV halive hs hd
  have hlive : ∀ b ∈ ownBlocks (g.user p) K.mem p (nodes p), b ∈ live := fun b hb =>
    h.own_live hp hb
  have hpown : procBlock p ∈ ownBlocks (g.user p) K.mem p (nodes p) := List.mem_cons_self
  obtain ⟨u, hu, hua, hus, hpu, hlt, hf⟩ := releaseProcess_releasing hs₁ hlive
    stack_mem_ownBlocks hpown hstack.symm procBlock_ne_stack hr
  rw [hustack] at hua
  -- all that is free at the end was freed by one of the three calls
  have hflags := hf₁.trans hf
  rw [List.nil_append] at hflags
  have hthree : ∀ b ∈ ownBlocks (g.user p) K.mem p (nodes p),
      b = ⟨procStack K.mem p, STACK_SIZE⟩ ∨ b = u ∨ b = procBlock p := fun b hb =>
    hs.eq_of_freed (hlive _ stack_mem_ownBlocks) (hlive u hu) (hlive _ hpown) hflags (hlive b hb)
      (hfree b hb)
  refine ⟨by rw [hd]; rfl, fun b hb => hlt b ?_, mailbox_of_own (h.boxes.box p hp).chain.nodup
    (h.stackNodup p hp) hu hua hus hpu hthree⟩
  simpa using hthree b hb

/-- And the condition is enough. -/
theorem Lived.releases (h : Lived (firstFit L) V K g nodes queue live)
    (hV : ∀ a, (firstFit L).arena a → ¬ V.area a) (hp : p ∈ g.alive)
    (hrel : Releasable L V K p (g.user p) (nodes p)) :
    KillReleases L V K p (ownBlocks (g.user p) K.mem p (nodes p)) := by
  obtain ⟨pre, post, halive⟩ := List.append_of_mem hp
  have hlist := h.list
  rw [halive] at hlist
  have hkill : ∀ H : Heap, killProcess H V K p = killAt H V K pre p := fun H =>
    killProcess_eq H V hlist.chain hlist.pids hlist.records.length_lt
  obtain ⟨⟨m₁, frames⟩, hd⟩ := Option.isSome_iff_exists.mp hrel.destroys
  obtain ⟨ns, hs⟩ := h.boxes.holds
  obtain ⟨hs₁, hf₁, hstack, hustack⟩ := h.unlink_flags hV halive hs hd
  have hlive : ∀ b ∈ ownBlocks (g.user p) K.mem p (nodes p), b ∈ live := fun b hb =>
    h.own_live hp hb
  have hpown : procBlock p ∈ ownBlocks (g.user p) K.mem p (nodes p) := List.mem_cons_self
  obtain ⟨u, hu, hua, hus, hpu, hthree⟩ := hrel.blocks (h.stackNodup p hp)
  have hown : ∀ b ∈ [⟨procStack K.mem p, STACK_SIZE⟩, u, procBlock p],
      b ∈ ownBlocks (g.user p) K.mem p (nodes p) ∧ b.addr < L.heapEnd := by
    simp only [List.forall_mem_cons]
    exact ⟨⟨stack_mem_ownBlocks, hrel.below _ stack_mem_ownBlocks⟩, ⟨hu, hrel.below u hu⟩,
      ⟨hpown, hrel.below _ hpown⟩, by simp⟩
  obtain ⟨m₃, hr, hr', hf⟩ := releaseProcess_frees hs₁ (hlive _ stack_mem_ownBlocks)
    (hlive u hu) (hlive _ hpown) hstack.symm (hua.trans hustack.symm) hus
    procBlock_ne_stack hpu hown
  have hflags := hf₁.trans hf
  rw [List.nil_append] at hflags
  refine ⟨_, (hkill _).trans (killAt_of_release hd hr), (hkill _).trans (killAt_of_release hd hr'),
    fun b hb => ?_, fun qs hqs q hq hne => ?_⟩
  · have hmem := hthree b hb
    show nodeFree m₃ (headerStart b.addr) = 1
    rw [hflags _ (hs.header_used (hlive b hb)).1, if_pos]
    simp only [List.mem_cons, List.not_mem_nil, or_false] at hmem ⊢
    rcases hmem with rfl | rfl | rfl
    · exact Or.inl rfl
    · exact Or.inr (Or.inl rfl)
    · exact Or.inr (Or.inr rfl)
  · obtain rfl := hqs.unique hs.heap.chain
    show nodeFree m₃ q = nodeFree K.mem q
    rw [hflags q hq, if_neg]
    simp only [List.mem_cons, List.not_mem_nil, or_false, not_or]
    exact ⟨hne ⟨procStack K.mem p, STACK_SIZE⟩ stack_mem_ownBlocks, hne u hu,
      hne (procBlock p) hpown⟩

/-- **What a kill releases.** -/
theorem Lived.kill_releases (h : Lived (firstFit L) V K g nodes queue live)
    (hV : ∀ a, (firstFit L).arena a → ¬ V.area a) (hp : p ∈ g.alive) :
    KillReleases L V K p (ownBlocks (g.user p) K.mem p (nodes p)) ↔
      Releasable L V K p (g.user p) (nodes p) :=
  ⟨h.releasable hV hp, h.releases hV hp⟩

/-! ## Runs -/

/-- **The invariant holds along every clean run**, whatever others hold. -/
theorem TenantRun.lived {A : Allocator} (h : TenantRun A V (Clean A.toHeap) others K g)
    (hV : ∀ a, A.arena a → ¬ V.area a) : ∃ nodes queue live, Lived A V K g nodes queue live := by
  induction h with
  | boot hholds hfirst hnum halive => exact ⟨_, _, _, Lived.boot hholds hfirst hnum halive⟩
  | step _ hstep hclean ih =>
      obtain ⟨nodes, queue, live, hl⟩ := ih
      exact hl.step hV hstep hclean

/-- **`KillProcess` releases what the process owns** exactly where its mailbox is empty and
`user_stack` its own, in every state that clean steps reach: every new record came from a block
with `NULL` for `messages.first`, no pid was given out twice, and earlier kills found a user
stack or `NULL`. -/
theorem kill_heap (h : TenantRun (firstFit L) V (Clean (firstFit L).toHeap) others K g)
    (hV : ∀ a, (firstFit L).arena a → ¬ V.area a) (hp : p ∈ g.alive) :
    ∃ nodes, Chain (msgNext K.mem) (msgFirst K.mem p) nodes ∧
      (KillReleases L V K p (ownBlocks (g.user p) K.mem p nodes) ↔
        Releasable L V K p (g.user p) nodes) := by
  obtain ⟨nodes, queue, live, hl⟩ := h.lived hV
  exact ⟨nodes p, (hl.boxes.box p hp).chain, hl.kill_releases hV hp⟩

end

/-! ## On the kernel heap -/

theorem bootKernel_tenant : TenantRun (firstFit Layout.least) plainContexts
    (Clean (firstFit Layout.least).toHeap) [] bootKernel Lives.none :=
  .boot ⟨_, bootKernel_heap⟩ rfl (by decide) rfl

/-- The second of two processes, killed with an empty mailbox. -/
theorem kill_heap_first : ∃ (K : Kernel Unit) (nodes : List Nat),
    Chain (msgNext K.mem) (msgFirst K.mem 0x3050A4) nodes ∧
      KillReleases Layout.least plainContexts K 0x3050A4 (ownBlocks true K.mem 0x3050A4 nodes) := by
  obtain ⟨K₁, K₂, w₁, w₂, hK₁, hK₂, hclean, hempty, -⟩ := two_users
  have hrun := (bootKernel_tenant.step (.createUser hK₁.create) hclean.1).step
    (.createUser hK₂.create) hclean.2
  obtain ⟨nodes, hchain, hiff⟩ := kill_heap hrun (fun _ _ => id) (p := 0x3050A4)
    List.mem_cons_self
  have hnil : nodes = [] := hchain.eq_nil_iff.mp (hempty _ (by simp)).1
  have huser : ((Lives.none.birth 0x303040 true).birth 0x3050A4 true).user 0x3050A4 = true := by
    simp [Lives.birth]
  rw [huser] at hiff
  refine ⟨K₂, nodes, hchain, hiff.mpr ⟨rfl, ?_, hnil⟩⟩
  rw [hnil]
  simp only [ownBlocks, stacksOf, hK₂.fields.stack_eq, hK₂.userStack_eq, if_true, List.map_nil,
    List.append_nil, List.forall_mem_cons, procBlock]
  decide

/-- **A queued node outlives its process.** The second process is sent a message and killed
with the message waiting. -/
theorem kill_heap_fails : ∃ (K : Kernel Unit) (g : Lives) (nodes : List Nat),
    TenantRun (firstFit Layout.least) plainContexts (Clean (firstFit Layout.least).toHeap) [] K g ∧
      0x3050A4 ∈ g.alive ∧ Chain (msgNext K.mem) (msgFirst K.mem 0x3050A4) nodes ∧
      ¬ KillReleases Layout.least plainContexts K 0x3050A4
        (ownBlocks (g.user 0x3050A4) K.mem 0x3050A4 nodes) := by
  obtain ⟨K₁, K₂, w₁, w₂, hK₁, hK₂, hclean, hempty, hpid⟩ := two_users
  obtain ⟨m₃, hsent⟩ := hK₂.sent hempty hpid
  have hrun := (bootKernel_tenant.step (.createUser hK₁.create) hclean.1).step
    (.createUser hK₂.create) hclean.2
  have hrun := hrun.step (.send (by simp [Lives.birth]) (by simp [Lives.birth]) hsent.send) trivial
  have hchain : Chain (msgNext m₃) (msgFirst m₃ 0x3050A4) [0x3050E8] := by
    have hchain := (hsent.boxes.box 0x3050A4 (by simp)).chain
    rwa [Function.update_self] at hchain
  refine ⟨_, _, [0x3050E8], hrun, by simp [Lives.birth], hchain, fun hrel => ?_⟩
  obtain ⟨nodes, queue, live, hl⟩ := hrun.lived (fun _ _ => id)
  have hp : 0x3050A4 ∈ ((Lives.none.birth 0x303040 true).birth 0x3050A4 true).alive :=
    List.mem_cons_self
  have hnodes : nodes 0x3050A4 = [0x3050E8] := (hl.boxes.box _ hp).chain.unique hchain
  have hmail := ((hl.kill_releases (fun _ _ => id) hp).mp (hnodes ▸ hrel)).mailbox
  rw [hnodes] at hmail
  simp [Lives.birth] at hmail

end DayOS
