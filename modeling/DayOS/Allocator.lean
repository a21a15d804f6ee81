import DayOS.HeapRun

set_option autoImplicit false

/-! # What the rest of the kernel relies on

Message nodes, process records and stacks come from `kmalloc` and go back through `kfree`.
Their code relies on little: a new block overlaps no block in use, and neither function
touches a byte of a block in use. `Allocator` states this as an interface; a result proved
for every `Allocator` holds for any heap that keeps the bargain. `firstFit` shows that the
kernel's own heap does, for the request sizes the kernel uses.
-/

namespace DayOS

open ByteMemory

/-- A heap together with the bargain its clients rely on. `Holds m live` says that in the
memory `m` exactly the blocks `live` are in use; `arena` are the addresses the heap may
write. Page 0 is not part of the arena. -/
structure Allocator extends Heap where
  arena : Nat → Prop
  Holds : Mem → List Block → Prop
  arena_ge : ∀ {a : Nat}, arena a → 0x1000 ≤ a
  arena_lt : ∀ {a : Nat}, arena a → a < 2 ^ 32
  apart : ∀ {m : Mem} {live : List Block}, Holds m live → live.Pairwise Block.Apart
  inArena : ∀ {m : Mem} {live : List Block}, Holds m live →
    ∀ b ∈ live, 0 < b.size ∧ ∀ a, b.Has a → arena a
  /-- Clients may write into their blocks, and anything outside the arena. -/
  write : ∀ {m m' : Mem} {live : List Block}, Holds m live →
    (∀ a, arena a → (∀ b ∈ live, ¬ b.Has a) → m' a = m a) → Holds m' live
  kmalloc_holds : ∀ {m m' : Mem} {live : List Block} {n p : Nat}, Holds m live → 0 < n →
    kmalloc m n = some (p, m') → Holds m' (⟨p, n⟩ :: live)
  kmalloc_keeps : ∀ {m m' : Mem} {live : List Block} {n p : Nat}, Holds m live → 0 < n →
    kmalloc m n = some (p, m') → ∀ a, (¬ arena a ∨ ∃ b ∈ live, b.Has a) → m' a = m a
  kfree_null : ∀ (m : Mem), kfree m NULL = some m
  kfree_holds : ∀ {m m' : Mem} {live : List Block} {b : Block}, Holds m live → b ∈ live →
    kfree m b.addr = some m' → Holds m' (live.erase b)
  kfree_keeps : ∀ {m m' : Mem} {live : List Block} {b : Block}, Holds m live → b ∈ live →
    kfree m b.addr = some m' → ∀ a, (¬ arena a ∨ ∃ c ∈ live.erase b, c.Has a) → m' a = m a

namespace Allocator

variable {A : Allocator} {m m' : Mem} {live : List Block}

theorem apart_of_ne (h : A.Holds m live) {b c : Block} (hb : b ∈ live) (hc : c ∈ live)
    (hne : b ≠ c) : b.Apart c := by
  have : Std.Symm Block.Apart := ⟨fun _ _ => Block.Apart.symm⟩
  exact (A.apart h).forall hb hc hne

theorem addr_ge (h : A.Holds m live) {b : Block} (hb : b ∈ live) : 0x1000 ≤ b.addr := by
  obtain ⟨hpos, ha⟩ := A.inArena h b hb
  exact A.arena_ge (ha b.addr ⟨Nat.le_refl _, by omega⟩)

theorem fin_le (h : A.Holds m live) {b : Block} (hb : b ∈ live) : b.addr + b.size ≤ 2 ^ 32 := by
  obtain ⟨hpos, ha⟩ := A.inArena h b hb
  have := A.arena_lt (ha (b.addr + b.size - 1) ⟨by omega, by omega⟩)
  omega

theorem kmalloc_agree (h : A.Holds m live) {n p : Nat} (hn : 0 < n)
    (hk : A.kmalloc m n = some (p, m')) {b : Block} (hb : b ∈ live) :
    AgreeOn m m' b.addr b.size :=
  fun a ha ha' => A.kmalloc_keeps h hn hk a (Or.inr ⟨b, hb, ha, ha'⟩)

theorem kfree_agree (h : A.Holds m live) {b c : Block} (hb : b ∈ live)
    (hk : A.kfree m b.addr = some m') (hc : c ∈ live.erase b) : AgreeOn m m' c.addr c.size :=
  fun a ha ha' => A.kfree_keeps h hb hk a (Or.inr ⟨c, hc, ha, ha'⟩)

theorem kmalloc_apart (h : A.Holds m live) {n p : Nat} (hn : 0 < n)
    (hk : A.kmalloc m n = some (p, m')) {b : Block} (hb : b ∈ live) : b.Apart ⟨p, n⟩ :=
  ((List.pairwise_cons.mp (A.apart (A.kmalloc_holds h hn hk))).1 b hb).symm

theorem nodup (h : A.Holds m live) : live.Nodup := by
  refine List.Pairwise.imp_of_mem ?_ (A.apart h)
  rintro b c hb - hap rfl
  have := (A.inArena h b hb).1
  simp only [Block.Apart] at hap
  omega

end Allocator

/-! ## The kernel heap keeps the bargain

`kmalloc` checks only that a header starts below `HEAP_END`, so a block of `N` bytes ends at
most `0x10 + N` bytes above. The process records, message nodes, stacks and services are none
of them larger than a page; the file list of the ramdisk can be of any size. -/

section
variable {L : Layout} {m m' : Mem} {ns : List FirstFit.Node} {live : List Block}
  {n p N : Nat}

theorem kmalloc_le_limit (hN : L.heapEnd + (0x10 + N) < 2 ^ 32)
    (h : IsHeap L (L.heapEnd + (0x10 + N)) m ns) (hn : 0 < n) (hn' : n ≤ N)
    (hk : kmalloc L m n = some (p, m')) : p + n ≤ L.heapEnd + (0x10 + N) := by
  have h16 : headerSize = 16 := rfl
  obtain ⟨pre, z, hz, -⟩ := h.exists_last
  cases hx : ns.find? (FirstFit.fits n) with
  | some x =>
      have hb := h.bound x (List.mem_of_find?_eq_some hx)
      have hfit := List.find?_some hx
      simp only [FirstFit.fits, Bool.and_eq_true, decide_eq_true_eq] at hfit
      rw [kmalloc_reuse h hx] at hk
      simp only [Option.some.injEq, Prod.mk.injEq] at hk
      simp only [FirstFit.Node.fin] at hb
      omega
  | none =>
      rw [kmalloc_append h hx hz hn hN] at hk
      split at hk
      case isFalse => cases hk
      case isTrue hlt =>
          simp only [Option.some.injEq, Prod.mk.injEq] at hk
          omega

/-- Every block the heap serves lies between `HEAP_START` and the limit. -/
theorem HeapState.inHeap {lim : Nat} (h : HeapState L lim m ns live) {b : Block} (hb : b ∈ live) :
    L.heapStart ≤ b.addr ∧ b.addr + b.size ≤ lim := by
  obtain ⟨x, hx, -, hbx, hbs⟩ := h.serves.node b hb
  have hlo := h.heap.laid.start_le hx
  have hfin := h.heap.bound x hx
  simp only [FirstFit.Node.fin] at hfin
  omega

/-- The bytes an allocation may write lie in the heap and outside all blocks in use. -/
theorem HeapState.malloc_keeps_outside {lim : Nat} (hlim : L.heapEnd + 0x10 ≤ lim)
    (h : HeapState L lim m ns live) {a : Nat} (ha : a < L.heapStart ∨ lim ≤ a)
    (hlt : FirstFit.malloc headerSize L.heapStart L.heapEnd n ns ≠ none) :
    ¬ kmallocWrites ns n a := by
  have h16 : headerSize = 16 := rfl
  unfold kmallocWrites
  split
  case h_1 x hx =>
      have hmem := List.mem_of_find?_eq_some hx
      have := h.heap.laid.start_le hmem
      have := h.heap.below x hmem
      omega
  case h_2 hx =>
      rintro ⟨z, hz, hw⟩
      have hmem := List.mem_of_getLast? hz
      have h1 := h.heap.laid.start_le hmem
      have h2 := h.heap.below z hmem
      have hend : z.fin headerSize < L.heapEnd := by
        by_contra hge
        refine hlt ?_
        simp [FirstFit.malloc, hx, FirstFit.endOf_of_getLast? hz, hge]
      simp only [FirstFit.Node.fin] at hw hend
      omega

theorem HeapState.inArena {lim : Nat} (h : HeapState L lim m ns live) {b : Block} (hb : b ∈ live) :
    0 < b.size ∧ ∀ a, b.Has a → L.heapStart ≤ a ∧ a < lim := by
  refine ⟨h.pos b hb, fun a ha => ?_⟩
  have := h.inHeap hb
  simp only [Block.Has] at ha
  omega

/-- Clients write into their blocks, and outside the heap. -/
theorem HeapState.writeOutside {lim : Nat} (h : HeapState L lim m ns live)
    (hw : ∀ a, L.heapStart ≤ a ∧ a < lim → (∀ b ∈ live, ¬ b.Has a) → m' a = m a) :
    HeapState L lim m' ns live := by
  refine ⟨h.heap.congr (fun x hx a ha ha' => hw a ?_ (fun b hb => ?_)), h.serves, h.pos⟩
  · have := h.heap.laid.start_le hx
    have := h.heap.bound x hx
    simp only [FirstFit.Node.fin] at this
    omega
  · exact (h.header_apart hx hb).symm.not_has ⟨ha, ha'⟩

/-- A request of at most `N` bytes. -/
theorem HeapState.mallocUpTo (hN : L.heapEnd + (0x10 + N) < 2 ^ 32)
    (h : HeapState L (L.heapEnd + (0x10 + N)) m ns live) (hn : 0 < n)
    (hk : (if n ≤ N then kmalloc L m n else none) = some (p, m')) :
    (∃ ns', HeapState L (L.heapEnd + (0x10 + N)) m' ns' (⟨p, n⟩ :: live)) ∧
    ∀ a, (¬ (L.heapStart ≤ a ∧ a < L.heapEnd + (0x10 + N)) ∨ ∃ b ∈ live, b.Has a) →
      m' a = m a := by
  split at hk
  case isFalse => cases hk
  case isTrue hn' =>
      obtain ⟨q, ns', -, hm, hs, hf⟩ := h.malloc hn (by omega) hN hk
        (kmalloc_le_limit hN h.heap hn hn' hk)
      refine ⟨⟨ns', hs⟩, fun a ha => hf a ?_⟩
      rcases ha with ha | ⟨b, hb, hba⟩
      · exact h.malloc_keeps_outside (by omega) (by omega) (by simp [hm])
      · exact h.malloc_keeps hb hba

/-- Freeing a block in use. -/
theorem HeapState.freeUpTo {b : Block} (h : HeapState L (L.heapEnd + (0x10 + N)) m ns live)
    (hb : b ∈ live) (hk : kfree L m b.addr = some m') :
    (∃ ns', HeapState L (L.heapEnd + (0x10 + N)) m' ns' (live.erase b)) ∧
    ∀ a, (¬ (L.heapStart ≤ a ∧ a < L.heapEnd + (0x10 + N)) ∨ ∃ c ∈ live.erase b, c.Has a) →
      m' a = m a := by
  by_cases hlt : b.addr < L.heapEnd
  · obtain ⟨x, hx, -, m'', hk', hs, hf⟩ := h.free hb hlt
    obtain rfl : m'' = m' := by simpa [hk] using hk'.symm
    refine ⟨⟨_, hs⟩, fun a ha => hf a ?_⟩
    have hlo := h.heap.laid.start_le hx
    have hfin := h.heap.bound x hx
    have h16 : headerSize = 16 := rfl
    simp only [FirstFit.Node.fin] at hfin
    rcases ha with ha | ⟨c, hc, hca⟩
    · omega
    · have hap := h.header_apart hx (List.mem_of_mem_erase hc)
      simp only [Block.Apart, FirstFit.Node.header, Block.Has] at hap hca
      omega
  · have h0 := h.inHeap hb
    have := L.heapStart_ge
    rw [DayOS.kfree, if_neg (by simp only [NULL]; omega), if_pos hlt] at hk
    cases hk

theorem Layout.page_le {a : Nat} (h : L.heapStart ≤ a) : 0x1000 ≤ a := by
  have := L.heapStart_ge
  omega

end

/-- **The kernel heap is an allocator** for requests of at most `N` bytes. Its arena includes
the `N` bytes behind `HEAP_END` that the last block may cover, with its header. -/
def firstFitUpTo (L : Layout) (N : Nat) (hN : L.heapEnd + (0x10 + N) < 2 ^ 32) : Allocator where
  kmalloc m n := if n ≤ N then DayOS.kmalloc L m n else none
  kfree := DayOS.kfree L
  arena a := L.heapStart ≤ a ∧ a < L.heapEnd + (0x10 + N)
  Holds m live := ∃ ns, HeapState L (L.heapEnd + (0x10 + N)) m ns live
  arena_ge ha := Layout.page_le ha.1
  arena_lt ha := ha.2.trans hN
  apart h := h.elim (fun _ h => h.serves.apart h.heap.laid)
  inArena h _ hb := h.elim (fun _ h => h.inArena hb)
  write h hw := h.imp (fun _ h => h.writeOutside hw)
  kmalloc_holds h hn hk := h.elim (fun _ h => (h.mallocUpTo hN hn hk).1)
  kmalloc_keeps h hn hk := h.elim (fun _ h => (h.mallocUpTo hN hn hk).2)
  kfree_null _ := if_pos rfl
  kfree_holds h hb hk := h.elim (fun _ h => (h.freeUpTo hb hk).1)
  kfree_keeps h hb hk := h.elim (fun _ h => (h.freeUpTo hb hk).2)

/-- Where the last block of at most a page can end. -/
def heapLimit (L : Layout) : Nat := L.heapEnd + 0x1010

theorem heapLimit_lt (L : Layout) : heapLimit L < 2 ^ 32 := by
  have := L.heapEnd_le
  simp only [heapLimit]
  omega

/-- The kernel heap for requests of at most a page: records, nodes and stacks. -/
def firstFit (L : Layout) : Allocator := firstFitUpTo L 0x1000 (heapLimit_lt L)

theorem firstFit_kfree_eq (L : Layout) : (firstFit L).kfree = DayOS.kfree L := rfl

/-- After `kinit_heap` no block is in use. -/
theorem firstFit_init (L : Layout) (m : Mem) : (firstFit L).Holds (kinitHeap L m) [] := by
  have h16 : headerSize = 16 := rfl
  have hS := L.heapEnd_eq
  exact ⟨_, heapState_init m (by omega)⟩

/-- The first block of at most a page starts right behind the root node. -/
theorem firstFit_first (L : Layout) (m : Mem) {n : Nat} (hn : 0 < n) (hn' : n ≤ 0x1000) :
    ∃ m', (firstFit L).kmalloc (kinitHeap L m) n = some (L.heapStart + 32, m') ∧
      (firstFit L).Holds m' [⟨L.heapStart + 32, n⟩] := by
  have hk : (firstFit L).kmalloc (kinitHeap L m) n = some (L.heapStart + 32,
      appended (kinitHeap L m) L.heapStart (L.heapStart + 16) n) := by
    simp only [firstFit, firstFitUpTo, if_pos hn', kmalloc_kinitHeap L m hn]
  exact ⟨_, hk, (firstFit L).kmalloc_holds (firstFit_init L m) hn hk⟩

/-! ## Following a run on the kernel heap

Only headers are written, and which block is handed out is decided by the row of nodes. -/

section
variable {L : Layout} {m m' : Mem} {ns ns' : List FirstFit.Node} {live : List Block} {n q : Nat}

/-- An allocation writes to headers of the row it leaves behind. -/
theorem kmallocWrites_header
    (hm : FirstFit.malloc headerSize L.heapStart L.heapEnd n ns = some (q, ns')) {a : Nat}
    (hw : kmallocWrites ns n a) : ∃ x ∈ ns', (x.header headerSize).Has a := by
  have h16 : headerSize = 16 := rfl
  rcases FirstFit.malloc_cases hm with ⟨x, hx, rfl, rfl⟩ | ⟨hnone, -, rfl, rfl⟩
  · simp only [kmallocWrites, hx] at hw
    refine ⟨_, FirstFit.mem_setFree.mpr ⟨x, List.mem_of_find?_eq_some hx, rfl⟩, ?_⟩
    simp only [Block.Has, FirstFit.Node.header, FirstFit.Node.mark_addr]
    omega
  · simp only [kmallocWrites, hnone] at hw
    obtain ⟨z, hz, hw⟩ := hw
    rcases hw with hw | hw
    · refine ⟨z, List.mem_append_left _ (List.mem_of_getLast? hz), ?_⟩
      simp only [Block.Has, FirstFit.Node.header]
      omega
    · refine ⟨_, List.mem_append_right _ (List.mem_singleton_self _), ?_⟩
      simp only [Block.Has, FirstFit.Node.header, FirstFit.endOf_of_getLast? hz]
      omega

/-- Where first fit finds a block, `kmalloc` returns it and writes to headers only. -/
theorem firstFit_kmalloc (h : HeapState L (heapLimit L) m ns live) (hn : 0 < n)
    (hn' : n ≤ 0x1000)
    (hm : FirstFit.malloc headerSize L.heapStart L.heapEnd n ns = some (q, ns')) :
    ∃ m', (firstFit L).kmalloc m n = some (q + headerSize, m') ∧
      HeapState L (heapLimit L) m' ns' (⟨q + headerSize, n⟩ :: live) ∧
      ∀ a, (∀ x ∈ ns', ¬ (x.header headerSize).Has a) → m' a = m a := by
  have hlim := heapLimit_lt L
  cases hk : kmalloc L m n with
  | none =>
      rw [kmalloc_eq_none_iff h.heap hn hlim] at hk
      rw [hk] at hm
      cases hm
  | some x =>
      obtain ⟨p, m'⟩ := x
      obtain ⟨q', ns'', rfl, hm', hs, hf⟩ := h.malloc hn (by omega) hlim hk
        (kmalloc_le_limit hlim h.heap hn hn' hk)
      obtain ⟨rfl, rfl⟩ : q = q' ∧ ns' = ns'' := by simpa [hm] using hm'
      refine ⟨m', ?_, hs, fun a ha => hf a (fun hw => ?_)⟩
      · simp only [firstFit, firstFitUpTo, if_pos hn', hk]
      · obtain ⟨x, hx, hxa⟩ := kmallocWrites_header hm hw
        exact ha x hx hxa

/-- `kfree` of a block in use returns and writes to a header only. -/
theorem firstFit_kfree (h : HeapState L (heapLimit L) m ns live)
    (hb : ⟨q + headerSize, n⟩ ∈ live) (hlt : q + headerSize < L.heapEnd) :
    ∃ m', (firstFit L).kfree m (q + headerSize) = some m' ∧
      HeapState L (heapLimit L) m' (FirstFit.release q ns)
        (live.erase ⟨q + headerSize, n⟩) ∧
      ∀ a, (∀ x ∈ ns, ¬ (x.header headerSize).Has a) → m' a = m a := by
  have h16 : headerSize = 16 := rfl
  obtain ⟨x, hx, hqx, m', hk, hs, hf⟩ := h.free hb hlt
  obtain rfl : q = x.addr := Nat.add_right_cancel hqx
  refine ⟨m', hk, hs, fun a ha => hf a (fun hw => ha x hx ?_)⟩
  simp only [Block.Has, FirstFit.Node.header]
  omega

end

end DayOS
