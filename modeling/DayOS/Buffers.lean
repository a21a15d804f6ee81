import DayOS.HeapRun

set_option autoImplicit false

/-! # A heap block for the time of a call

A caller that takes a block, fills it and gives it back leaves a heap that serves the same
blocks as before (`HeapState.buffer`). This includes the size zero, for which `kmalloc` hands
out the root node.

`kmalloc` compares the start of a new block with `HEAP_END`, not its end. Whether the blocks of
several such calls, one after the other, all end inside the heap depends on the row of nodes
only (`BuffersFit.congr`).
-/

namespace DayOS

open ByteMemory Linked

/-- Blocks of these sizes, each taken and given back before the next, end inside the heap. -/
def BuffersFit (L : Layout) : Mem → List Nat → Prop
  | _, [] => True
  | m, n :: sizes => ∀ p m', kmalloc L m n = some (p, m') →
      p + n ≤ L.heapEnd ∧ ∀ m'', kfree L m' p = some m'' → BuffersFit L m'' sizes

/-- The heap `m` serves the blocks `live`, and `m'` the block of `n` bytes at `p` besides them.
When it is given back, its bytes written or not, the row of nodes is `ns'`. -/
structure Buffer (L : Layout) (m : Mem) (live : List Block) (n p : Nat) (m' : Mem)
    (ns' : List FirstFit.Node) : Prop where
  start : L.heapStart ≤ p
  stop : p + n ≤ L.heapEnd
  apart : ∀ b ∈ live, b.Apart ⟨p, n⟩
  writes : ∀ x, x < L.heapStart ∨ L.heapEnd ≤ x → m' x = m x
  held : ∀ b ∈ live, AgreeOn m m' b.addr b.size
  free : ∀ m₁, (∀ x, L.heapStart ≤ x → x < L.heapEnd → ¬ (p ≤ x ∧ x < p + n) → m₁ x = m' x) →
    ∃ m₂, kfree L m₁ p = some m₂ ∧ HeapState L L.heapEnd m₂ ns' live ∧
      (∀ x, x < L.heapStart ∨ L.heapEnd ≤ x → m₂ x = m₁ x) ∧
      ∀ b ∈ live, AgreeOn m₁ m₂ b.addr b.size

section
variable {L : Layout} {lim : Nat} {m m' : Mem} {ns ns' : List FirstFit.Node} {live : List Block}
  {n p : Nat}

/-! ## Taking a block -/

theorem Rooted.find_zero (hr : Rooted L ns) :
    ns.find? (FirstFit.fits 0) = some ⟨L.heapStart, 0, true⟩ := by
  obtain ⟨rest, rfl⟩ := hr
  rfl

/-- The address that `kmalloc` returns is the one first fit finds, wherever the block ends. -/
theorem kmalloc_addr (h : IsHeap L lim m ns) (hr : Rooted L ns) (hlim : lim < 2 ^ 32)
    (hk : kmalloc L m n = some (p, m')) :
    ∃ q ns', p = q + headerSize ∧
      FirstFit.malloc headerSize L.heapStart L.heapEnd n ns = some (q, ns') := by
  obtain ⟨pre, z, hz, hend⟩ := h.exists_last
  unfold FirstFit.malloc
  cases hx : ns.find? (FirstFit.fits n) with
  | some x =>
      rw [kmalloc_reuse h hx] at hk
      cases hk
      exact ⟨_, _, rfl, rfl⟩
  | none =>
      have hn : 0 < n := by
        refine Nat.pos_of_ne_zero (fun h0 => ?_)
        rw [h0, hr.find_zero] at hx
        cases hx
      rw [kmalloc_append h hx hz hn hlim] at hk
      split at hk
      case isFalse => cases hk
      case isTrue hlt =>
          cases hk
          simp only [hend, if_pos hlt]
          exact ⟨_, _, rfl, rfl⟩

/-- `kmalloc` refines first fit for the size zero as well. -/
theorem HeapState.take (h : HeapState L lim m ns live) (hr : Rooted L ns) (hn : n < 2 ^ 32)
    (hlim : lim < 2 ^ 32) (hk : kmalloc L m n = some (p, m')) (hb : p + n ≤ lim) :
    ∃ q ns', p = q + headerSize ∧
      FirstFit.malloc headerSize L.heapStart L.heapEnd n ns = some (q, ns') ∧
      IsHeap L lim m' ns' ∧ ∀ a, ¬ kmallocWrites ns n a → m' a = m a := by
  by_cases hz : n = 0
  · subst hz
    have hx := hr.find_zero
    rw [kmalloc_reuse h.heap hx] at hk
    cases hk
    refine ⟨L.heapStart, FirstFit.setFree L.heapStart false ns, rfl, ?_,
      isHeap_setFree h.heap (List.mem_of_find?_eq_some hx) false, fun a ha => ?_⟩
    · simp only [FirstFit.malloc, hx]
    · simp only [kmallocWrites, hx] at ha
      show store32 m (L.heapStart + 4) 0 a = m a
      exact store32_of_outside (by omega)
  · exact kmalloc_refines h.heap (Nat.pos_of_ne_zero hz) hn hlim hk hb

/-- What an allocation inside the heap writes lies inside the heap. -/
theorem kmallocWrites_inside (h : IsHeap L lim m ns) (hlim : lim ≤ L.heapEnd) {q a : Nat}
    (hm : FirstFit.malloc headerSize L.heapStart L.heapEnd n ns = some (q, ns'))
    (hq : q + headerSize + n ≤ L.heapEnd) (ha : kmallocWrites ns n a) :
    L.heapStart ≤ a ∧ a < L.heapEnd := by
  have h16 : headerSize = 16 := rfl
  have hinside : ∀ x ∈ ns, L.heapStart ≤ x.addr ∧ x.addr + 16 ≤ L.heapEnd := fun x hx => by
    have hfin := h.bound x hx
    simp only [FirstFit.Node.fin] at hfin
    exact ⟨h.laid.start_le hx, by omega⟩
  unfold kmallocWrites at ha
  rcases FirstFit.malloc_cases hm with ⟨x, hx, -, -⟩ | ⟨hx, -, rfl, -⟩
  · rw [hx] at ha
    have := hinside x (List.mem_of_find?_eq_some hx)
    simp only at ha
    omega
  · rw [hx] at ha
    obtain ⟨z, hz, hw⟩ := ha
    have := hinside z (List.mem_of_getLast? hz)
    have hfin := FirstFit.endOf_of_getLast? (h := headerSize) (a := L.heapStart) hz
    simp only [FirstFit.Node.fin] at hw hfin
    omega

/-! ## Giving it back -/

/-- **A block for the time of a call.** -/
theorem HeapState.buffer (h : HeapState L L.heapEnd m ns live) (hr : Rooted L ns)
    (hn : n < 2 ^ 32) (hk : kmalloc L m n = some (p, m')) (hb : p + n ≤ L.heapEnd) :
    ∃ q ns', p = q + headerSize ∧
      FirstFit.malloc headerSize L.heapStart L.heapEnd n ns = some (q, ns') ∧
      Rooted L (FirstFit.release q ns') ∧
      Buffer L m live n p m' (FirstFit.release q ns') := by
  have hL := L.heapEnd_le
  have h16 : headerSize = 16 := rfl
  obtain ⟨q, ns', rfl, hm, hheap, hwrites⟩ := h.take hr hn (by omega) hk hb
  have hserves := h.serves.malloc h.heap.laid (by decide) hm
  have happart := hserves.apart hheap.laid
  obtain ⟨y, hy, rfl, hyfree, hysize⟩ := FirstFit.malloc_mem hm
  have hroot : Rooted L (FirstFit.release y.addr ns') := by
    obtain ⟨rest, rfl⟩ := hr
    exact FirstFit.release_malloc_head hm rfl
  have hinside : ∀ x ∈ ns', L.heapStart ≤ x.addr ∧ x.addr + 16 ≤ L.heapEnd := fun x hx => by
    have hfin := hheap.bound x hx
    simp only [FirstFit.Node.fin] at hfin
    exact ⟨hheap.laid.start_le hx, by omega⟩
  have hystart := hinside y hy
  refine ⟨y.addr, ns', rfl, hm, hroot, by omega, hb, fun b hb => ?_, fun x hx => ?_,
    fun b hb x hx hx' => ?_, fun m₁ hagree => ?_⟩
  · exact (List.rel_of_pairwise_cons happart hb).symm
  · refine hwrites x (fun hw => ?_)
    have := kmallocWrites_inside h.heap le_rfl hm hb hw
    omega
  · exact hwrites x (h.malloc_keeps hb ⟨hx, hx'⟩)
  · -- the headers are out of reach of the bytes of the block
    have hheap₁ : IsHeap L L.heapEnd m₁ ns' := hheap.congr (fun x hx a ha ha' => by
      have hx' := hinside x hx
      have hap := hserves.apart_header hheap.laid List.mem_cons_self hx
      simp only [Block.Apart, FirstFit.Node.header] at hap
      exact hagree a (by omega) (by omega) (by omega))
    have hlt : y.addr + headerSize < L.heapEnd := by
      by_cases hz : n = 0
      · have hzero : y.addr = L.heapStart := by
          rcases FirstFit.malloc_cases hm with ⟨x, hx, hxy, -⟩ | ⟨hx, -⟩
          · rw [hz, hr.find_zero] at hx
            cases hx
            exact hxy
          · rw [hz, hr.find_zero] at hx
            cases hx
        have := L.heapEnd_eq
        omega
      · omega
    obtain ⟨m₂, hfree, hheap₂, hkeep⟩ := kfree_refines hheap₁ hy hlt
    have hback := hserves.release (a := y.addr) List.mem_cons_self rfl
    rw [List.erase_cons_head] at hback
    refine ⟨m₂, hfree, ⟨hheap₂, hback, h.pos⟩, fun x hx => hkeep x (by omega),
      fun b hb x hx hx' => hkeep x (fun hw => ?_)⟩
    have hap := hserves.apart_header hheap.laid (List.mem_cons_of_mem _ hb) hy
    simp only [Block.Apart, FirstFit.Node.header] at hap
    omega

/-- Whether the blocks end inside the heap does not depend on the bytes they hold. -/
theorem BuffersFit.congr {live' : List Block} {sizes : List Nat}
    (h : HeapState L L.heapEnd m ns live) (h' : HeapState L L.heapEnd m' ns live')
    (hr : Rooted L ns) (hsizes : ∀ n ∈ sizes, n < 2 ^ 32) (hfit : BuffersFit L m sizes) :
    BuffersFit L m' sizes := by
  have hL := L.heapEnd_le
  induction sizes generalizing m m' ns with
  | nil => trivial
  | cons n sizes ih =>
      intro p' m₁' hk'
      have hn := hsizes n List.mem_cons_self
      have hsizes' : ∀ k ∈ sizes, k < 2 ^ 32 := fun k hk => hsizes k (List.mem_cons_of_mem _ hk)
      obtain ⟨q', ns₁, rfl, hm'⟩ := kmalloc_addr h'.heap hr (by omega) hk'
      -- the other memory finds a block at the same place
      cases hk : kmalloc L m n with
      | none =>
          exfalso
          by_cases hz : n = 0
          · have hx := hr.find_zero
            rw [← hz] at hx
            rw [kmalloc_reuse h.heap hx] at hk
            cases hk
          · have hnone := (kmalloc_eq_none_iff h.heap (Nat.pos_of_ne_zero hz) (by omega)).mp hk
            rw [hm'] at hnone
            cases hnone
      | some r =>
          obtain ⟨p, m₁⟩ := r
          obtain ⟨q, ns₂, rfl, hm⟩ := kmalloc_addr h.heap hr (by omega) hk
          rw [hm'] at hm
          cases hm
          obtain ⟨hend, hrest⟩ := hfit _ _ hk
          refine ⟨hend, fun m₂' hfree' => ?_⟩
          obtain ⟨q₁, ns₃, hq₁, hm₃, hroot, hbuf⟩ := h.buffer hr hn hk hend
          obtain ⟨q₂, ns₄, hq₂, hm₄, -, hbuf'⟩ := h'.buffer hr hn hk' hend
          rw [hm₃] at hm₄
          cases hm₄
          obtain ⟨m₂, hfree, hs₂, -⟩ := hbuf.free m₁ (fun _ _ _ _ => rfl)
          obtain ⟨m₃, hfree₃, hs₃, -⟩ := hbuf'.free m₁' (fun _ _ _ _ => rfl)
          rw [hfree₃] at hfree'
          cases hfree'
          exact ih hs₂ hs₃ hroot hsizes' (hrest m₂ hfree)

end

end DayOS
