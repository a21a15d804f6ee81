import DayOS.Allocator

set_option autoImplicit false

/-! # Preemption inside `kmalloc` (`heap.c`)

`kernel_process` runs with interrupts enabled, and the heap has no lock. Here its call of
`kmalloc` is a sequence of steps: the test of a node, the move to the next one, the creation of
a block, the store of the free flag. Between any two of them interrupt and system call handlers
make complete calls of `kmalloc` and `kfree`.

The heap stays in order as long as no handler takes the node that the process is about to take,
and no handler appends a block that the process does not see (`preempted_kmalloc`).
-/

namespace DayOS

open ByteMemory Linked

/-! ## The steps -/

/-- Where the kernel process is in its call of `kmalloc(n)`. -/
inductive KmallocPoint where
  /-- It is in no call. -/
  | outside
  /-- At the head of the loop, with these values of `node` and `last`. -/
  | test (n node last : Nat)
  /-- Behind a test that has failed. -/
  | next (n node : Nat)
  /-- Behind the loop, in front of `kcreateBlock`. -/
  | create (n last : Nat)
  /-- In front of `node->free = 0`, in the loop or behind `kcreateBlock`. -/
  | take (n node : Nat)

/-- The memory, the blocks handed out and not freed, and the call of the kernel process. -/
structure HeapUsers where
  mem : Mem
  live : List Block
  point : KmallocPoint

/-- One step of the kernel process; `none` outside of a call and where an assertion fails. -/
def kernelStep (L : Layout) (s : HeapUsers) : Option HeapUsers :=
  match s.point with
  | .outside => none
  | .test n node last =>
      if node = NULL then some { s with point := .create n last }
      else if ¬ node < L.heapEnd then none
      else if nodeMagic s.mem node ≠ MAGIC then none
      else if n ≤ nodeSize s.mem node ∧ nodeFree s.mem node = 1 then
        some { s with point := .take n node }
      else some { s with point := .next n node }
  | .next n node => some { s with point := .test n (nodeNext s.mem node) node }
  | .create n last =>
      (kcreateBlock L s.mem last n).map (fun x => { s with mem := x.2, point := .take n x.1 })
  | .take n node =>
      some ⟨store32 s.mem (node + 4) 0, ⟨blockStart node, n⟩ :: s.live, .outside⟩

/-- What the others do in the meantime: complete calls for at most `N` bytes, and writes into the
blocks they hold and outside the heap. -/
inductive HandlerStep (L : Layout) (N : Nat) (s : HeapUsers) : HeapUsers → Prop
  | kmalloc {n p : Nat} {m' : Mem} : 0 < n → n ≤ N → kmalloc L s.mem n = some (p, m') →
      HandlerStep L N s { s with mem := m', live := ⟨p, n⟩ :: s.live }
  | kfree {b : Block} {m' : Mem} : b ∈ s.live → kfree L s.mem b.addr = some m' →
      HandlerStep L N s { s with mem := m', live := s.live.erase b }
  | write {m' : Mem} : (∀ a, L.heapStart ≤ a ∧ a < L.heapEnd + (0x10 + N) →
      (∀ b ∈ s.live, ¬ b.Has a) → m' a = s.mem a) → HandlerStep L N s { s with mem := m' }

/-- The states that steps in any order lead to, where the kernel process makes its steps in the
states `ok` only. It may call `kmalloc` any number of times. -/
inductive PreemptedRun (L : Layout) (N : Nat) (ok : HeapUsers → Prop) (s₀ : HeapUsers) :
    HeapUsers → Prop
  | start : PreemptedRun L N ok s₀ s₀
  | call {s : HeapUsers} {n : Nat} : PreemptedRun L N ok s₀ s → s.point = .outside → 0 < n →
      n ≤ N → PreemptedRun L N ok s₀ { s with point := .test n L.heapStart L.heapStart }
  | kernel {s s' : HeapUsers} : PreemptedRun L N ok s₀ s → ok s → kernelStep L s = some s' →
      PreemptedRun L N ok s₀ s'
  | handler {s s' : HeapUsers} : PreemptedRun L N ok s₀ s → HandlerStep L N s s' →
      PreemptedRun L N ok s₀ s'

/-- The heap is as the kernel process has found it: the node it is about to take is still free,
and behind the last node it has seen there is none, or a free one alone. -/
def Undisturbed (s : HeapUsers) : Prop :=
  match s.point with
  | .take _ node => nodeFree s.mem node = 1
  | .create _ last => nodeNext s.mem last = NULL ∨
      nodeFree s.mem (nodeNext s.mem last) = 1 ∧ nodeNext s.mem (nodeNext s.mem last) = NULL
  | _ => True

/-- At boot. -/
def bootHeap (L : Layout) (m : Mem) : HeapUsers := ⟨kinitHeap L m, [], .outside⟩

/-- The blocks handed out are apart, the chain runs through nodes side by side, and every node
that was in it in the memory `m₁` still is. -/
structure HeapIntact (L : Layout) (lim : Nat) (m₁ : Mem) (s : HeapUsers) : Prop where
  apart : s.live.Pairwise Block.Apart
  chain : ∃ ns₁ ns, IsHeap L lim m₁ ns₁ ∧ IsHeap L lim s.mem ns ∧
    ∀ x ∈ ns₁, ∃ y ∈ ns, y.addr = x.addr

section
variable {L : Layout} {lim N n node last : Nat} {m m' : Mem} {ns ns' pre rest : List FirstFit.Node}
  {x z : FirstFit.Node} {live : List Block} {s s' : HeapUsers} {ok : HeapUsers → Prop}

/-! ## Without preemption -/

/-- Steps of the kernel process alone. -/
def Alone (L : Layout) : HeapUsers → HeapUsers → Prop :=
  Relation.ReflTransGen (fun s s' => kernelStep L s = some s')

/-- A test that fails. -/
theorem kernelStep_test (hnull : node ≠ NULL) (hlt : node < L.heapEnd)
    (hmagic : nodeMagic m node = MAGIC) (hfit : ¬ (n ≤ nodeSize m node ∧ nodeFree m node = 1)) :
    kernelStep L ⟨m, live, .test n node last⟩ = some ⟨m, live, .next n node⟩ := by
  simp only [kernelStep, if_neg hnull, if_neg (not_not.mpr hlt), if_neg (not_not.mpr hmagic),
    if_neg hfit]

/-- The search, step by step. -/
theorem alone_scan {fuel p l : Nat} (h : kmallocScan L m n fuel node last = some (p, l)) :
    Alone L ⟨m, live, .test n node last⟩
      ⟨m, live, if p = NULL then .create n l else .take n p⟩ := by
  induction fuel generalizing node last with
  | zero => cases h
  | succ fuel ih =>
      unfold kmallocScan at h
      split at h
      case isTrue hnull =>
          obtain ⟨rfl, rfl⟩ : NULL = p ∧ last = l := by simpa using h
          exact Relation.ReflTransGen.single (if_pos hnull)
      case isFalse hnull =>
      split at h
      case isTrue => cases h
      case isFalse hlt =>
      split at h
      case isTrue => cases h
      case isFalse hmagic =>
      split at h
      case isTrue hfit =>
          obtain ⟨rfl, rfl⟩ : node = p ∧ last = l := by simpa using h
          refine Relation.ReflTransGen.single ?_
          simp only [kernelStep, if_neg hnull, if_neg hlt, if_neg hmagic, if_pos hfit]
      case isFalse hfit =>
          have htest := @kernelStep_test L n node last m live hnull (not_not.mp hlt)
            (not_not.mp hmagic) hfit
          exact Relation.ReflTransGen.head htest (Relation.ReflTransGen.head rfl (ih h))

/-- **Without preemption** the steps are `kmalloc`. -/
theorem alone_kmalloc {p : Nat} (hk : kmalloc L m n = some (p, m')) :
    Alone L ⟨m, live, .test n L.heapStart L.heapStart⟩ ⟨m', ⟨p, n⟩ :: live, .outside⟩ := by
  simp only [kmalloc, Option.bind_eq_bind, Option.bind_eq_some_iff, Prod.exists] at hk
  obtain ⟨node, last, hscan, hk⟩ := hk
  refine (alone_scan hscan).trans ?_
  by_cases hnode : node = NULL
  · rw [if_neg (not_not.mpr hnode), Option.bind_eq_some_iff] at hk
    obtain ⟨⟨new, m₁⟩, hcreate, htake⟩ := hk
    rw [if_pos hnode]
    have hstep : kernelStep L ⟨m, live, .create n last⟩ = some ⟨m₁, live, .take n new⟩ := by
      simp only [kernelStep, hcreate, Option.map_some]
    simp only [Option.pure_def, Option.some.injEq, Prod.mk.injEq] at htake
    obtain ⟨rfl, rfl⟩ := htake
    exact Relation.ReflTransGen.head hstep (Relation.ReflTransGen.single rfl)
  · rw [if_pos hnode] at hk
    rw [if_neg hnode]
    simp only [Option.pure_def, Option.some.injEq, Prod.mk.injEq] at hk
    obtain ⟨rfl, rfl⟩ := hk
    exact Relation.ReflTransGen.single rfl

/-! ## The invariant -/

/-- What the call holds on to is in the row. -/
def KmallocPoint.On (N : Nat) (ns : List FirstFit.Node) : KmallocPoint → Prop
  | outside => True
  | test n node last => (0 < n ∧ n ≤ N) ∧
      (node = NULL ∧ last ∈ ns.map FirstFit.Node.addr ∨ node ∈ ns.map FirstFit.Node.addr)
  | next n node => (0 < n ∧ n ≤ N) ∧ node ∈ ns.map FirstFit.Node.addr
  | create n last => (0 < n ∧ n ≤ N) ∧ last ∈ ns.map FirstFit.Node.addr
  | take n node => (0 < n ∧ n ≤ N) ∧ ∃ x ∈ ns, x.addr = node ∧ n ≤ x.size

/-- The row `ns` is in memory, it serves the blocks handed out, and the call is in it. -/
structure Steady (L : Layout) (N : Nat) (s : HeapUsers) (ns : List FirstFit.Node) : Prop where
  heap : HeapState L (L.heapEnd + (0x10 + N)) s.mem ns s.live
  point : s.point.On N ns

/-- Each node has one at its address. -/
def KeepsNodes (ns ns' : List FirstFit.Node) : Prop := ∀ x ∈ ns, ∃ y ∈ ns', y.addr = x.addr

theorem KeepsNodes.refl : KeepsNodes ns ns := fun x hx => ⟨x, hx, rfl⟩

theorem KeepsNodes.trans {ns'' : List FirstFit.Node} (h : KeepsNodes ns ns')
    (h' : KeepsNodes ns' ns'') : KeepsNodes ns ns'' := by
  intro x hx
  obtain ⟨y, hy, hyx⟩ := h x hx
  obtain ⟨w, hw, hwy⟩ := h' y hy
  exact ⟨w, hw, hwy.trans hyx⟩

theorem KeepsNodes.addr_mem (h : KeepsNodes ns ns') {a : Nat}
    (ha : a ∈ ns.map FirstFit.Node.addr) : a ∈ ns'.map FirstFit.Node.addr := by
  obtain ⟨x, hx, rfl⟩ := List.mem_map.mp ha
  obtain ⟨y, hy, hyx⟩ := h x hx
  exact hyx ▸ List.mem_map_of_mem hy

/-- Nodes that stay in their places keep the call in the row. -/
theorem KmallocPoint.On.mono {point : KmallocPoint} (h : point.On N ns)
    (hns : ∀ x ∈ ns, ∃ y ∈ ns', y.addr = x.addr ∧ y.size = x.size) : point.On N ns' := by
  have hkeeps : KeepsNodes ns ns' := by
    intro x hx
    obtain ⟨y, hy, hyx, -⟩ := hns x hx
    exact ⟨y, hy, hyx⟩
  cases point with
  | outside => trivial
  | test n node last =>
      obtain ⟨hn, hnode⟩ := h
      exact ⟨hn, hnode.imp (fun hc => ⟨hc.1, hkeeps.addr_mem hc.2⟩) hkeeps.addr_mem⟩
  | next n node => exact ⟨h.1, hkeeps.addr_mem h.2⟩
  | create n last => exact ⟨h.1, hkeeps.addr_mem h.2⟩
  | take n node =>
      obtain ⟨hn, x, hx, hxn, hsize⟩ := h
      obtain ⟨y, hy, hyx, hys⟩ := hns x hx
      exact ⟨hn, y, hy, hyx.trans hxn, by rw [hys]; exact hsize⟩

/-! ## The others -/

theorem kfree_lt {a : Nat} (ha : a ≠ NULL) (hk : kfree L m a = some m') : a < L.heapEnd := by
  by_contra hlt
  rw [kfree, if_neg ha, if_pos hlt] at hk
  cases hk

/-- Complete calls keep the heap in order and the call of the kernel process in it. -/
theorem Steady.handler (hN : L.heapEnd + (0x10 + N) < 2 ^ 32) (h : Steady L N s ns)
    (hs : HandlerStep L N s s') : ∃ ns', Steady L N s' ns' ∧ KeepsNodes ns ns' := by
  suffices hnodes : ∃ ns', HeapState L (L.heapEnd + (0x10 + N)) s'.mem ns' s'.live ∧
      s'.point = s.point ∧ ∀ x ∈ ns, ∃ y ∈ ns', y.addr = x.addr ∧ y.size = x.size by
    obtain ⟨ns', hheap, hpoint, hns⟩ := hnodes
    refine ⟨ns', ⟨hheap, hpoint ▸ h.point.mono hns⟩, fun x hx => ?_⟩
    obtain ⟨y, hy, hyx, -⟩ := hns x hx
    exact ⟨y, hy, hyx⟩
  cases hs with
  | kmalloc hn hnN hk =>
      obtain ⟨q, ns', -, hm, hheap, -⟩ := h.heap.malloc hn (by omega) hN hk
        (kmalloc_le_limit hN h.heap.heap hn hnN hk)
      exact ⟨ns', hheap, rfl, fun x hx => FirstFit.malloc_node hm hx⟩
  | @kfree b m' hb hk =>
      have hstart := (h.heap.inHeap hb).1
      have hge := L.heapStart_ge
      have hlt := kfree_lt (by simp only [NULL]; omega) hk
      obtain ⟨x, -, -, m₁, hk₁, hheap, -⟩ := h.heap.free hb hlt
      obtain rfl : m₁ = m' := by simpa [hk] using hk₁.symm
      exact ⟨_, hheap, rfl, fun y hy => FirstFit.setFree_node hy⟩
  | write hw => exact ⟨ns, h.heap.writeOutside hw, rfl, fun x hx => ⟨x, hx, rfl, rfl⟩⟩

/-! ## The kernel process -/

/-- Behind a node of the chain stands a node of the chain, or nothing. -/
theorem next_mem {next : Nat → Nat} {p a : Nat} {l : List Nat} (hc : Chain next p l) (ha : a ∈ l) :
    next a = 0 ∨ next a ∈ l := by
  obtain ⟨pre, post, rfl⟩ := List.append_of_mem ha
  have htail := Chain.tail_of_append hc
  cases post with
  | nil => exact Or.inl htail
  | cons b post =>
      right
      rw [htail.1]
      simp

theorem Steady.test (h : Steady L N ⟨m, live, .test n node last⟩ ns)
    (hk : kernelStep L ⟨m, live, .test n node last⟩ = some s') : Steady L N s' ns := by
  obtain ⟨hheap, hn, hnode⟩ := h
  simp only [kernelStep] at hk
  split at hk
  case isTrue hnull =>
      obtain rfl := Option.some.inj hk
      refine ⟨hheap, hn, ?_⟩
      rcases hnode with ⟨-, hlast⟩ | hmem
      · exact hlast
      · exact absurd hnull (hheap.heap.chain.ne_zero_of_mem hmem)
  case isFalse hnull =>
  have hmem := hnode.resolve_left (fun hc => hnull hc.1)
  split at hk
  case isTrue => cases hk
  case isFalse =>
  split at hk
  case isTrue => cases hk
  case isFalse =>
  split at hk
  case isTrue hfit =>
      obtain rfl := Option.some.inj hk
      obtain ⟨x, hx, rfl⟩ := List.mem_map.mp hmem
      refine ⟨hheap, hn, x, hx, rfl, ?_⟩
      rw [← (hheap.heap.node x hx).size]
      exact hfit.1
  case isFalse =>
      obtain rfl := Option.some.inj hk
      exact ⟨hheap, hn, hmem⟩

theorem Steady.next (h : Steady L N ⟨m, live, .next n node⟩ ns) :
    Steady L N ⟨m, live, .test n (nodeNext m node) node⟩ ns := by
  obtain ⟨hheap, hn, hmem⟩ := h
  refine ⟨hheap, hn, ?_⟩
  rcases next_mem hheap.heap.chain hmem with hnull | hnext
  · exact Or.inl ⟨hnull, hmem⟩
  · exact Or.inr hnext

/-- The row without the nodes behind `z`. -/
theorem IsHeap.cut (h : IsHeap L lim m (pre ++ [z] ++ rest)) :
    IsHeap L lim (store32 m (z.addr + 12) NULL) (pre ++ [z]) := by
  have hlaid := (FirstFit.laid_append.mp h.laid).1
  have hpre : ∀ y ∈ pre, AgreeOn m (store32 m (z.addr + 12) NULL) y.addr headerSize := by
    intro y hy
    have hyz := (List.pairwise_append.mp hlaid.pairwise).2.2 y hy z (by simp)
    simp only [FirstFit.Node.fin, headerSize] at hyz
    exact agreeOn_store32 (by simp only [headerSize]; omega)
  refine ⟨hlaid, ?_, ?_, fun y hy => h.below y (List.mem_append_left _ hy),
    fun y hy => h.bound y (List.mem_append_left _ hy)⟩
  · have hc := h.chain
    rw [List.map_append, List.map_append] at hc
    obtain ⟨r, hr, -⟩ := chain_append.mp hc
    rw [List.map_append]
    refine Seg.redirect hr ?_ (fun a ha => ?_)
    · exact load32_store32 m (z.addr + 12) NULL
    · obtain ⟨y, hy, rfl⟩ := List.mem_map.mp ha
      exact nodeNext_congr (hpre y hy)
  · intro y hy
    have hnode := h.node y (List.mem_append_left _ hy)
    rcases List.mem_append.mp hy with hmem | hmem
    · exact hnode.congr (hpre y hmem)
    · rw [List.mem_singleton.mp hmem] at hnode ⊢
      exact hnode.congr_words (agreeOn_store32 (by omega))

/-- A new block behind `z`, whatever was there. -/
theorem isHeap_create (h : IsHeap L lim m (pre ++ [z] ++ rest)) (hn : n < 2 ^ 32)
    (hlt : z.fin headerSize < L.heapEnd) (hb : z.fin headerSize + headerSize + n ≤ lim) :
    IsHeap L lim (newHeader m z.addr (z.fin headerSize) n)
      (pre ++ [z] ++ [⟨z.fin headerSize, n, true⟩]) := by
  have hL := L.heapEnd_le
  have hle : z.addr + 16 ≤ z.fin headerSize := by
    simp only [FirstFit.Node.fin, headerSize]
    omega
  have hover : newHeader (store32 m (z.addr + 12) NULL) z.addr (z.fin headerSize) n
      = newHeader m z.addr (z.fin headerSize) n := by
    unfold newHeader
    rw [store32_store32]
  rw [← hover]
  exact h.cut.snoc rfl hlt hb (fun a => newHeader_of_outside)
    (newHeader_nodeNext_last hle (by omega)) (newHeader_nodeAt hn) newHeader_nodeNext

theorem NodeAt.free_iff (h : NodeAt m x) : nodeFree m x.addr = 1 ↔ x.free = true := by
  rw [h.free]
  cases x.free <;> simp

/-- Undisturbed, the last node seen has nothing behind it but perhaps one free node, where the
new block goes. -/
theorem undisturbed_behind (h : IsHeap L lim m (pre ++ [z] ++ rest))
    (hu : Undisturbed ⟨m, live, .create n z.addr⟩) :
    ∀ y ∈ rest, y.free = true ∧ y.addr = z.fin headerSize := by
  have hc := h.chain
  rw [List.append_assoc, List.map_append, List.singleton_append, List.map_cons] at hc
  have htail := Chain.tail_of_append hc
  have hlaid := (FirstFit.laid_append.mp h.laid).2
  cases rest with
  | nil => exact fun y hy => absurd hy List.not_mem_nil
  | cons y rest =>
      rw [List.map_cons] at htail
      have hy := h.node y (by simp)
      have hy0 : y.addr ≠ NULL := htail.2.1
      rcases hu with hnull | ⟨hfree, hend⟩
      · exact absurd (htail.1.symm.trans hnull) hy0
      · rw [htail.1] at hfree hend
        have hnil : rest = [] := by
          have hrest := htail.tail.eq_nil_iff.mp hend
          simpa using hrest
        rw [hnil]
        intro w hw
        rw [List.mem_singleton.mp hw]
        refine ⟨hy.free_iff.mp hfree, ?_⟩
        have haddr := hlaid.1
        rw [FirstFit.endOf_append] at haddr
        exact haddr

theorem Steady.create (hN : L.heapEnd + (0x10 + N) < 2 ^ 32)
    (h : Steady L N ⟨m, live, .create n last⟩ ns) (hu : Undisturbed ⟨m, live, .create n last⟩)
    (hk : kernelStep L ⟨m, live, .create n last⟩ = some s') :
    ∃ ns', Steady L N s' ns' ∧ KeepsNodes ns ns' := by
  have h16 : headerSize = 16 := rfl
  obtain ⟨hheap, hn, hlast⟩ := h
  obtain ⟨z, hz, rfl⟩ := List.mem_map.mp hlast
  obtain ⟨pre, rest, hsplit⟩ := List.append_of_mem hz
  rw [List.append_cons] at hsplit
  subst hsplit
  have hrest := undisturbed_behind hheap.heap hu
  have hz0 : z.addr ≠ NULL := hheap.heap.chain.ne_zero_of_mem hlast
  have hbound := hheap.heap.bound z hz
  simp only [kernelStep, kcreateBlock_eq (hheap.heap.node z hz) hz0 hn.1 (by omega),
    Option.map_eq_some_iff] at hk
  obtain ⟨x, hx, rfl⟩ := hk
  split at hx
  case isFalse => cases hx
  case isTrue hlt =>
  obtain rfl := Option.some.inj hx
  refine ⟨_, ⟨⟨isHeap_create hheap.heap (by omega) hlt (by omega), ?_, hheap.pos⟩, hn, ?_⟩, ?_⟩
  · exact hheap.serves.replace_free (fun y hy => (hrest y hy).1) (by simp)
  · exact ⟨⟨z.fin headerSize, n, true⟩, by simp, rfl, le_rfl⟩
  · intro y hy
    rcases List.mem_append.mp hy with hmem | hmem
    · exact ⟨y, List.mem_append_left _ hmem, rfl⟩
    · exact ⟨⟨z.fin headerSize, n, true⟩, by simp, (hrest y hmem).2.symm⟩

theorem HeapState.blockStart_eq (h : HeapState L lim m ns live) (hx : x ∈ ns) :
    blockStart x.addr = x.addr + headerSize := by
  have hL := L.heapEnd_le
  have hlt := h.heap.below x hx
  simp only [blockStart, headerSize]
  omega

theorem Steady.take (h : Steady L N ⟨m, live, .take n node⟩ ns)
    (hu : Undisturbed ⟨m, live, .take n node⟩) :
    ∃ ns', Steady L N ⟨store32 m (node + 4) 0, ⟨blockStart node, n⟩ :: live, .outside⟩ ns' ∧
      KeepsNodes ns ns' := by
  obtain ⟨hheap, hn, x, hx, rfl, hsize⟩ := h
  have hfree : x.free = true := (hheap.heap.node x hx).free_iff.mp hu
  have hrow := isHeap_setFree hheap.heap hx false
  rw [if_neg Bool.false_ne_true] at hrow
  refine ⟨_, ⟨⟨hrow, ?_, ?_⟩, trivial⟩, fun y hy => ?_⟩
  · rw [hheap.blockStart_eq hx]
    exact hheap.serves.take hheap.heap.laid (by decide) hx hfree hsize
  · exact List.forall_mem_cons.mpr ⟨hn.1, hheap.pos⟩
  · obtain ⟨w, hw, hwy, -⟩ := FirstFit.setFree_node hy
    exact ⟨w, hw, hwy⟩

/-- **One step** of the kernel process on an undisturbed heap. -/
theorem Steady.kernel (hN : L.heapEnd + (0x10 + N) < 2 ^ 32) (h : Steady L N s ns)
    (hu : Undisturbed s) (hk : kernelStep L s = some s') :
    ∃ ns', Steady L N s' ns' ∧ KeepsNodes ns ns' := by
  obtain ⟨m, live, point⟩ := s
  cases point with
  | outside => cases hk
  | test n node last => exact ⟨ns, h.test hk, KeepsNodes.refl⟩
  | next n node =>
      obtain rfl := Option.some.inj hk
      exact ⟨ns, h.next, KeepsNodes.refl⟩
  | create n last => exact h.create hN hu hk
  | take n node =>
      obtain rfl := Option.some.inj hk
      exact h.take hu

/-! ## Runs -/

theorem Steady.run (hN : L.heapEnd + (0x10 + N) < 2 ^ 32) (h : Steady L N s ns)
    (hrun : PreemptedRun L N Undisturbed s s') :
    ∃ ns', Steady L N s' ns' ∧ KeepsNodes ns ns' := by
  induction hrun with
  | start => exact ⟨ns, h, KeepsNodes.refl⟩
  | call _ _ hn hnN ih =>
      obtain ⟨ns₁, h₁, hkeeps⟩ := ih
      refine ⟨ns₁, ⟨h₁.heap, ⟨hn, hnN⟩, Or.inr ?_⟩, hkeeps⟩
      have hc := h₁.heap.heap.chain
      obtain ⟨pre, z, hz, -⟩ := h₁.heap.heap.exists_last
      cases hns : ns₁ with
      | nil => simp [hns] at hz
      | cons x rest =>
          rw [hns] at hc
          rw [hc.1]
          exact List.mem_cons_self
  | kernel _ hu hk ih =>
      obtain ⟨ns₁, h₁, hkeeps⟩ := ih
      obtain ⟨ns₂, h₂, hkeeps'⟩ := h₁.kernel hN hu hk
      exact ⟨ns₂, h₂, hkeeps.trans hkeeps'⟩
  | handler _ hs ih =>
      obtain ⟨ns₁, h₁, hkeeps⟩ := ih
      obtain ⟨ns₂, h₂, hkeeps'⟩ := h₁.handler hN hs
      exact ⟨ns₂, h₂, hkeeps.trans hkeeps'⟩

theorem steady_boot (L : Layout) (N : Nat) (m : Mem) :
    Steady L N (bootHeap L m) [⟨L.heapStart, 0, true⟩] := by
  have hS := L.heapEnd_eq
  have h16 : headerSize = 16 := rfl
  exact ⟨heapState_init m (by omega), trivial⟩

/-- **The heap under preemption.** In every run from boot, with calls of any sizes up to `N` and
handlers at every point of the kernel process's calls, where its steps find the heap undisturbed,
the blocks handed out are apart, the chain is in order, and no node of an earlier state is
lost. -/
theorem preempted_kmalloc (hN : L.heapEnd + (0x10 + N) < 2 ^ 32) (m : Mem) {s₁ : HeapUsers}
    (h₁ : PreemptedRun L N Undisturbed (bootHeap L m) s₁)
    (h : PreemptedRun L N Undisturbed s₁ s) :
    HeapIntact L (L.heapEnd + (0x10 + N)) s₁.mem s := by
  obtain ⟨ns₁, hs₁, -⟩ := (steady_boot L N m).run hN h₁
  obtain ⟨ns, hs, hkeeps⟩ := hs₁.run hN h
  exact ⟨hs.heap.serves.apart hs.heap.heap.laid, ns₁, ns, hs₁.heap.heap, hs.heap.heap, hkeeps⟩

/-! ## The two windows -/

/-- A handler that gets in behind the test of the root, which has no room. -/
theorem handler_behind_root {s₀ : HeapUsers} {k p : Nat}
    (hroot : NodeAt m ⟨L.heapStart, 0, true⟩)
    (hrun : PreemptedRun L N Undisturbed s₀ ⟨m, [], .outside⟩) (hn : 0 < n ∧ n ≤ N)
    (hkN : 0 < k ∧ k ≤ N) (hk : kmalloc L m k = some (p, m')) :
    PreemptedRun L N Undisturbed s₀ ⟨m', [⟨p, k⟩], .next n L.heapStart⟩ := by
  have hge := L.heapStart_ge
  have hE := L.heapEnd_eq
  have hsize : nodeSize m L.heapStart = 0 := hroot.size
  have hfull : ¬ (n ≤ nodeSize m L.heapStart ∧ nodeFree m L.heapStart = 1) := by omega
  have htest := (hrun.call rfl hn.1 hn.2).kernel trivial
    (kernelStep_test (by simp only [NULL]; omega) (by omega) hroot.magic hfull)
  exact htest.handler (HandlerStep.kmalloc hkN.1 hkN.2 hk)

/-- A block in a node that is in use is not apart from the block held there. -/
theorem HeapState.not_apart (h : HeapState L lim m ns live) (hx : x ∈ ns) (hused : x.free = false)
    (hn : 0 < n) : ¬ (⟨x.addr + headerSize, n⟩ :: live).Pairwise Block.Apart := by
  obtain ⟨b, hb, hbx⟩ := h.serves.used x hx hused
  have hpos := h.pos b hb
  intro hapart
  have hxb := (List.pairwise_cons.mp hapart).1 b hb
  simp only [Block.Apart] at hxb
  omega

/-- Between the test and the store: a node that a handler has taken is handed out twice. -/
theorem take_disturbed (h : Steady L N ⟨m, live, .take n node⟩ ns)
    (hu : ¬ Undisturbed ⟨m, live, .take n node⟩)
    (hk : kernelStep L ⟨m, live, .take n node⟩ = some s') :
    ¬ s'.live.Pairwise Block.Apart := by
  obtain ⟨hheap, hn, x, hx, rfl, -⟩ := h
  obtain rfl := Option.some.inj hk
  have hused : x.free = false := by
    have hfree := mt (hheap.heap.node x hx).free_iff.mpr hu
    simpa using hfree
  show ¬ (⟨blockStart x.addr, n⟩ :: live).Pairwise Block.Apart
  rw [hheap.blockStart_eq hx]
  exact hheap.not_apart hx hused hn.1

/-- Between the search and the creation: where a handler has appended a block in use, the new
header is written over it, and the block is handed out twice. -/
theorem create_disturbed {y : FirstFit.Node}
    (h : Steady L N ⟨m, live, .create n z.addr⟩ (pre ++ [z] ++ y :: rest)) (hused : y.free = false)
    (hk : kernelStep L ⟨m, live, .create n z.addr⟩ = some s) (hk' : kernelStep L s = some s') :
    ¬ s'.live.Pairwise Block.Apart := by
  obtain ⟨hheap, hn, hlast⟩ := h
  have hz : z ∈ pre ++ [z] ++ y :: rest := by simp
  have hy : y ∈ pre ++ [z] ++ y :: rest := by simp
  have hz0 : z.addr ≠ NULL := hheap.heap.chain.ne_zero_of_mem hlast
  have hyz : y.addr = z.fin headerSize := by
    have haddr := (FirstFit.laid_append.mp hheap.heap.laid).2.1
    rw [FirstFit.endOf_append] at haddr
    exact haddr
  have hL := L.heapEnd_le
  have hlt := hheap.heap.below y hy
  rw [hyz] at hlt
  simp only [kernelStep, kcreateBlock_eq (hheap.heap.node z hz) hz0 hn.1 (by omega), if_pos hlt,
    Option.map_some, Option.some.injEq] at hk
  obtain rfl := hk
  obtain rfl := Option.some.inj hk'
  show ¬ (⟨blockStart (z.fin headerSize), n⟩ :: live).Pairwise Block.Apart
  rw [← hyz, hheap.blockStart_eq hy]
  exact hheap.not_apart hy hused hn.1

/-- Steps of the kernel process alone are steps of a run. -/
theorem PreemptedRun.alone {s₀ : HeapUsers} (hrun : PreemptedRun L N (fun _ => True) s₀ s)
    (h : Alone L s s') : PreemptedRun L N (fun _ => True) s₀ s' := by
  induction h with
  | refl => exact hrun
  | tail _ hk ih => exact ih.kernel trivial hk

/-- Whenever a free node is the first one for `n` bytes and for `k`, a handler that asks for `k`
behind the test gets the block of the process. -/
theorem taken_twice {s₀ : HeapUsers} {k : Nat}
    (hrun : PreemptedRun L N (fun _ => True) s₀ ⟨m, live, .outside⟩) (h : IsHeap L lim m ns)
    (hx : ns.find? (FirstFit.fits n) = some x) (hxk : ns.find? (FirstFit.fits k) = some x)
    (hn : 0 < n ∧ n ≤ N) (hk : 0 < k ∧ k ≤ N) :
    ∃ m', PreemptedRun L N (fun _ => True) s₀
      ⟨m', ⟨blockStart x.addr, n⟩ :: ⟨x.addr + headerSize, k⟩ :: live, .outside⟩ := by
  obtain ⟨last, hscan⟩ := (kmallocScan_eq L.heapStart h.chain h.node h.below h.length_lt).1 x hx
  have hx0 : x.addr ≠ NULL :=
    h.chain.ne_zero_of_mem (List.mem_map_of_mem (List.mem_of_find?_eq_some hx))
  have hfound := (hrun.call rfl hn.1 hn.2).alone (alone_scan hscan)
  rw [if_neg hx0] at hfound
  have htaken := hfound.handler (HandlerStep.kmalloc hk.1 hk.2 (kmalloc_reuse h hxk))
  exact ⟨_, htaken.kernel trivial rfl⟩

/-- In a fresh heap, the first block serves every search for as many bytes or fewer once it has
been freed. -/
theorem find_released {q b : Nat} (hn : 0 < n) (hnb : n ≤ b)
    (hm : FirstFit.malloc headerSize L.heapStart L.heapEnd b [⟨L.heapStart, 0, true⟩]
      = some (q, ns)) :
    (FirstFit.release q ns).find? (FirstFit.fits n) = some ⟨q, b, true⟩ := by
  have h16 : headerSize = 16 := rfl
  have hroot : ¬ n ≤ 0 := by omega
  rcases FirstFit.malloc_cases hm with ⟨x, hx, -⟩ | ⟨-, -, hq, rfl⟩
  · rw [find_root (by omega)] at hx
    cases hx
  · have hqn : q = L.heapStart + headerSize := hq
    have hne : L.heapStart ≠ q := by omega
    rw [← hq]
    simp [FirstFit.release, FirstFit.setFree, FirstFit.Node.mark, FirstFit.fits, hroot, hne, hnb]

/-- On a fresh heap, the first block is handed out twice once it has been freed. -/
theorem freed_taken_twice {s₀ : HeapUsers} {b k p : Nat} (hN : L.heapEnd + (0x10 + N) < 2 ^ 32)
    (hrun : PreemptedRun L N (fun _ => True) s₀ ⟨m, [], .outside⟩)
    (h : HeapState L (L.heapEnd + (0x10 + N)) m [⟨L.heapStart, 0, true⟩] []) (hbN : b ≤ N)
    (hn : 0 < n ∧ n ≤ b) (hk : 0 < k ∧ k ≤ b) (hm : kmalloc L m b = some (p, m'))
    (hp : p < L.heapEnd) :
    ∃ m', PreemptedRun L N (fun _ => True) s₀ ⟨m', [⟨p, n⟩, ⟨p, k⟩], .outside⟩ := by
  have hb : 0 < b := by omega
  obtain ⟨q, ns, rfl, hrow, hheap, -⟩ := h.malloc hb (by omega) hN hm
    (kmalloc_le_limit hN h.heap hb hbN hm)
  obtain ⟨x, -, hxq, m₁, hfree, hheap', -⟩ := hheap.free List.mem_cons_self hp
  have hfreed := (hrun.handler (HandlerStep.kmalloc hb hbN hm)).handler
    (HandlerStep.kfree List.mem_cons_self hfree)
  rw [List.erase_cons_head] at hheap' hfreed
  obtain rfl : q = x.addr := Nat.add_right_cancel hxq
  have hfind := find_released hn.1 hn.2 hrow
  obtain ⟨m₂, htwice⟩ := taken_twice hfreed hheap'.heap hfind (find_released hk.1 hk.2 hrow)
    ⟨hn.1, hn.2.trans hbN⟩ ⟨hk.1, hk.2.trans hbN⟩
  rw [hheap'.blockStart_eq (List.mem_of_find?_eq_some hfind)] at htwice
  exact ⟨m₂, htwice⟩

end

/-- A handler allocates a message node while the search of the kernel process is at the root. -/
theorem preempted_kmalloc_search : ∃ s, s.point = .next 264 Layout.least.heapStart ∧
    s.live = [⟨Layout.least.heapStart + 32, 540⟩] ∧
    HeapIntact Layout.least (Layout.least.heapEnd + (0x10 + 0x1000))
      (bootHeap Layout.least (fun _ => 0)).mem s := by
  have hroot := (@isHeap_init Layout.least (fun _ => 0)).node _ List.mem_cons_self
  have hk := kmalloc_kinitHeap Layout.least (fun _ => 0) (show 0 < 540 by decide)
  have hrun := handler_behind_root hroot PreemptedRun.start (show 0 < 264 ∧ 264 ≤ 0x1000 by decide)
    (show 0 < 540 ∧ 540 ≤ 0x1000 by decide) hk
  exact ⟨_, rfl, rfl, preempted_kmalloc (by decide) (fun _ => 0) PreemptedRun.start hrun⟩

/-- A page has been freed. Between the test of its node and the store of the flag a handler gets it
for a message node: both blocks are the same. -/
theorem preempted_kmalloc_fails : ∃ s,
    PreemptedRun Layout.least 0x1000 (fun _ => True) (bootHeap Layout.least (fun _ => 0)) s ∧
    s.point = .outside ∧ s.live = [⟨0x301020, 264⟩, ⟨0x301020, 540⟩] ∧
    ¬ s.live.Pairwise Block.Apart := by
  have hinit : HeapState Layout.least (Layout.least.heapEnd + (0x10 + 0x1000))
      (kinitHeap Layout.least (fun _ => 0)) [⟨Layout.least.heapStart, 0, true⟩] [] :=
    heapState_init _ (by decide)
  have hk := kmalloc_kinitHeap Layout.least (fun _ => 0) (show 0 < 0x1000 by decide)
  obtain ⟨m', htwice⟩ := freed_taken_twice (by decide) PreemptedRun.start hinit le_rfl
    (show 0 < 264 ∧ 264 ≤ 0x1000 by decide) (show 0 < 540 ∧ 540 ≤ 0x1000 by decide) hk (by decide)
  refine ⟨_, htwice, rfl, rfl, ?_⟩
  simp [Block.Apart]

end DayOS
