import DayOS.Heap

set_option autoImplicit false

/-! # Runs of the kernel heap

A run starts from `kinit_heap` and interleaves `kmalloc` of a positive size, `kfree` of a
block in use and writes of the clients into the blocks they hold, as long as every block
handed out ends at or below `HEAP_END`. In every state reached the bytes represent a row of
nodes that serves exactly the blocks held (`HeapRun.state`).
-/

namespace DayOS

open ByteMemory Linked

variable (L : Layout)

/-- The memories reached by runs, each with the blocks held there: the address `kmalloc`
returned and the size asked for. -/
inductive HeapRun : Mem → List Block → Prop
  | init (m : Mem) : HeapRun (kinitHeap L m) []
  | malloc {m m' : Mem} {live : List Block} {n p : Nat} : HeapRun m live → 0 < n → n < 2 ^ 32 →
      kmalloc L m n = some (p, m') → p + n ≤ L.heapEnd → HeapRun m' (⟨p, n⟩ :: live)
  | free {m m' : Mem} {live : List Block} {b : Block} : HeapRun m live → b ∈ live →
      kfree L m b.addr = some m' → HeapRun m' (live.erase b)
  | write {m m' : Mem} {live : List Block} : HeapRun m live →
      (∀ a, (∀ b ∈ live, ¬ b.Has a) → m' a = m a) → HeapRun m' live

/-- The heap `ns` in memory serves the blocks `live`. -/
structure HeapState (lim : Nat) (m : Mem) (ns : List FirstFit.Node) (live : List Block) :
    Prop where
  heap : IsHeap L lim m ns
  serves : FirstFit.Serves headerSize ns live
  pos : ∀ b ∈ live, 0 < b.size

variable {L} {lim : Nat} {m m' : Mem} {ns ns' : List FirstFit.Node} {live : List Block}

/-! ## One step -/

theorem HeapState.header_apart (h : HeapState L lim m ns live) {x : FirstFit.Node} (hx : x ∈ ns)
    {b : Block} (hb : b ∈ live) : b.Apart (x.header headerSize) :=
  h.serves.apart_header h.heap.laid hb hx

/-- Headers are out of reach of writes into the blocks held. -/
theorem HeapState.write (h : HeapState L lim m ns live)
    (hw : ∀ a, L.heapStart ≤ a → (∀ b ∈ live, ¬ b.Has a) → m' a = m a) :
    HeapState L lim m' ns live := by
  refine ⟨h.heap.congr (fun x hx a ha ha' => hw a ?_ (fun b hb => ?_)), h.serves, h.pos⟩
  · exact le_trans (h.heap.laid.start_le hx) ha
  · exact (h.header_apart hx hb).symm.not_has ⟨ha, ha'⟩

theorem HeapState.malloc (h : HeapState L lim m ns live) {n p : Nat} (hn : 0 < n)
    (hn' : n < 2 ^ 32) (hlim : lim < 2 ^ 32) (hk : kmalloc L m n = some (p, m'))
    (hb : p + n ≤ lim) :
    ∃ q ns', p = q + headerSize ∧
      FirstFit.malloc headerSize L.heapStart L.heapEnd n ns = some (q, ns') ∧
      HeapState L lim m' ns' (⟨p, n⟩ :: live) ∧ ∀ a, ¬ kmallocWrites ns n a → m' a = m a := by
  obtain ⟨q, ns', rfl, hm, hi, hf⟩ := kmalloc_refines h.heap hn hn' hlim hk hb
  refine ⟨q, ns', rfl, hm, ⟨hi, h.serves.malloc h.heap.laid (by decide) hm, ?_⟩, hf⟩
  intro b hb'
  rcases List.mem_cons.mp hb' with rfl | hb'
  · exact hn
  · exact h.pos b hb'

/-- A held block starts at the payload of a node; freeing it succeeds when that payload
starts below `HEAP_END`. -/
theorem HeapState.free (h : HeapState L lim m ns live) {b : Block} (hb : b ∈ live)
    (hlt : b.addr < L.heapEnd) :
    ∃ x ∈ ns, b.addr = x.addr + headerSize ∧ ∃ m', kfree L m b.addr = some m' ∧
      HeapState L lim m' (FirstFit.release x.addr ns) (live.erase b) ∧
      ∀ a, ¬ (x.addr + 4 ≤ a ∧ a < x.addr + 8) → m' a = m a := by
  obtain ⟨x, hx, -, hbx, -⟩ := h.serves.node b hb
  rw [hbx] at hlt
  obtain ⟨m', hk, hi, hf⟩ := kfree_refines h.heap hx hlt
  refine ⟨x, hx, hbx, m', hbx ▸ hk, ⟨hi, h.serves.release hb hbx, ?_⟩, hf⟩
  exact fun c hc => h.pos c (List.mem_of_mem_erase hc)

theorem HeapState.addr_lt (h : HeapState L lim m ns live) {b : Block} (hb : b ∈ live) :
    b.addr < lim := by
  obtain ⟨x, hx, -, hbx, hbs⟩ := h.serves.node b hb
  have hpos := h.pos b hb
  have hfin := h.heap.bound x hx
  simp only [FirstFit.Node.fin] at hfin
  omega

/-- The bytes an allocation may write belong to headers, old or new, so none of them is in a
block held before. -/
theorem IsHeap.malloc_keeps (h : IsHeap L lim m ns) (hs : FirstFit.Serves headerSize ns live)
    {n a : Nat} {b : Block} (hb : b ∈ live) (hba : b.Has a) : ¬ kmallocWrites ns n a := by
  have h16 : headerSize = 16 := rfl
  unfold kmallocWrites
  split
  case h_1 x hx =>
      have hap := hs.apart_header h.laid hb (List.mem_of_find?_eq_some hx)
      simp only [Block.Apart, FirstFit.Node.header, Block.Has] at hap hba
      omega
  case h_2 =>
      rintro ⟨z, hz, hw⟩
      have hzm := List.mem_of_getLast? hz
      have hap := hs.apart_header h.laid hb hzm
      obtain ⟨y, hy, -, hby, hbs⟩ := hs.node b hb
      have hyz := h.laid.fin_le_endOf hy
      rw [FirstFit.endOf_of_getLast? hz] at hyz
      simp only [Block.Apart, FirstFit.Node.header, FirstFit.Node.fin, Block.Has] at *
      omega

theorem HeapState.malloc_keeps (h : HeapState L lim m ns live) {n a : Nat} {b : Block}
    (hb : b ∈ live) (hba : b.Has a) : ¬ kmallocWrites ns n a :=
  h.heap.malloc_keeps h.serves hb hba

/-- The heap at boot: the root node alone, and no block in use. -/
theorem heapState_init (m : Mem) (hlim : L.heapStart + headerSize ≤ lim) :
    HeapState L lim (kinitHeap L m) [⟨L.heapStart, 0, true⟩] [] :=
  ⟨(isHeap_init m).mono hlim, ⟨by simp, by simp, by simp⟩, by simp⟩

/-! ## Runs -/

/-- The row starts with the root node, which holds no bytes and is free. -/
def Rooted (L : Layout) (ns : List FirstFit.Node) : Prop :=
  ∃ rest, ns = ⟨L.heapStart, 0, true⟩ :: rest

/-- **The heap invariant holds along every run**, and no run takes the root node. -/
theorem HeapRun.rooted (h : HeapRun L m live) :
    ∃ ns, HeapState L L.heapEnd m ns live ∧ Rooted L ns := by
  have hL := L.heapEnd_le
  have hS := L.heapEnd_eq
  induction h with
  | init m =>
      have h16 : headerSize = 16 := rfl
      exact ⟨_, heapState_init m (by omega), [], rfl⟩
  | malloc _ hn hn' hk hb ih =>
      obtain ⟨ns, hs, rest, rfl⟩ := ih
      obtain ⟨q, ns', -, hm, hs', -⟩ := hs.malloc hn hn' (by omega) hk hb
      exact ⟨ns', hs', FirstFit.malloc_head hm hn hs.heap.laid (by decide)⟩
  | @free m m' live b _ hb hk ih =>
      obtain ⟨ns, hs, rest, rfl⟩ := ih
      obtain ⟨x, -, -, m'', hk', hs', -⟩ := hs.free hb (hs.addr_lt hb)
      obtain rfl : m'' = m' := by simpa [hk] using hk'.symm
      exact ⟨_, hs', FirstFit.release_head rfl⟩
  | write _ hw ih =>
      obtain ⟨ns, hs, hr⟩ := ih
      exact ⟨ns, hs.write (fun a _ => hw a), hr⟩

theorem HeapRun.state (h : HeapRun L m live) : ∃ ns, HeapState L L.heapEnd m ns live := by
  obtain ⟨ns, hs, -⟩ := h.rooted
  exact ⟨ns, hs⟩

/-- The heap in `m` is one that a run has led to; the memory outside it is anything. -/
def HeapReached (L : Layout) (m : Mem) (live : List Block) : Prop :=
  ∃ m₀, HeapRun L m₀ live ∧ ∀ x, L.heapStart ≤ x → x < L.heapEnd → m x = m₀ x

theorem HeapState.congr (h : HeapState L L.heapEnd m ns live)
    (hm : ∀ x, L.heapStart ≤ x → x < L.heapEnd → m' x = m x) :
    HeapState L L.heapEnd m' ns live := by
  have h16 : headerSize = 16 := rfl
  refine ⟨h.heap.congr (fun x hx a ha ha' => hm a ?_ ?_), h.serves, h.pos⟩
  · exact le_trans (h.heap.laid.start_le hx) ha
  · have hfin := h.heap.bound x hx
    simp only [FirstFit.Node.fin] at hfin
    omega

theorem HeapReached.rooted (h : HeapReached L m live) :
    ∃ ns, HeapState L L.heapEnd m ns live ∧ Rooted L ns := by
  obtain ⟨m₀, hrun, hm⟩ := h
  obtain ⟨ns, hs, hr⟩ := hrun.rooted
  exact ⟨ns, hs.congr hm, hr⟩

/-- What an allocation of `n` bytes does to the heap `ns` serving `live`: it takes the first
free node of at least `n` bytes, or appends one of exactly `n` bytes when there is none, and
writes only that node's free flag, or the last link and the new header. -/
def KmallocStep (L : Layout) (m : Mem) (ns : List FirstFit.Node) (live : List Block) (n p : Nat)
    (m' : Mem) : Prop :=
  ∃ q ns', p = q + headerSize ∧
    FirstFit.malloc headerSize L.heapStart L.heapEnd n ns = some (q, ns') ∧
    HeapState L L.heapEnd m' ns' (⟨p, n⟩ :: live) ∧
    (∀ a, ¬ kmallocWrites ns n a → m' a = m a) ∧
    ∀ b ∈ live, AgreeOn m m' b.addr b.size

/-- What freeing `b` does: only the free flag of the node whose payload `b` is changes. -/
def KfreeStep (L : Layout) (m : Mem) (ns : List FirstFit.Node) (live : List Block) (b : Block)
    (m' : Mem) : Prop :=
  ∃ x ∈ ns, b.addr = x.addr + headerSize ∧
    HeapState L L.heapEnd m' (FirstFit.release x.addr ns) (live.erase b) ∧
    (∀ a, ¬ (x.addr + 4 ≤ a ∧ a < x.addr + 8) → m' a = m a) ∧
    ∀ c ∈ live, AgreeOn m m' c.addr c.size

/-- What holds of a memory `m` in which the nodes `ns` serve the blocks `live`. -/
structure HeapRepresents (L : Layout) (m : Mem) (ns : List FirstFit.Node) (live : List Block) :
    Prop where
  /-- Each node but the last is followed by the next one without a gap. -/
  laid : FirstFit.Laid headerSize L.heapStart ns
  /-- The links from `root` run through exactly these nodes and then end. -/
  chain : Chain (nodeNext m) L.heapStart (ns.map FirstFit.Node.addr)
  /-- Every header carries the magic number, its node's size and its node's flag. -/
  node : ∀ x ∈ ns, NodeAt m x ∧ x.fin headerSize ≤ L.heapEnd
  apart : live.Pairwise Block.Apart
  payload : ∀ b ∈ live, ∃ x ∈ ns, x.free = false ∧ b.addr = x.addr + headerSize ∧ b.size ≤ x.size
  header : ∀ b ∈ live, ∀ x ∈ ns, b.Apart (x.header headerSize)
  /-- `kmalloc` fails to return only when nothing fits and no header can start below
  `HEAP_END`. -/
  kmalloc_none : ∀ n, 0 < n → n < 2 ^ 32 → (kmalloc L m n = none ↔
    ns.find? (FirstFit.fits n) = none ∧ L.heapEnd ≤ FirstFit.endOf headerSize L.heapStart ns)
  kmalloc_some : ∀ n, 0 < n → n < 2 ^ 32 → ∀ p m', kmalloc L m n = some (p, m') →
    p + n ≤ L.heapEnd → KmallocStep L m ns live n p m'
  kfree : ∀ b ∈ live, ∃ m', kfree L m b.addr = some m' ∧ KfreeStep L m ns live b m'

/-- **Heap representation.** In every state of a run the memory represents a row of nodes
that serves the blocks held, and both operations step to such a state. -/
theorem heap_representation (h : HeapRun L m live) : ∃ ns, HeapRepresents L m ns live := by
  have hL := L.heapEnd_le
  obtain ⟨ns, hs⟩ := h.state
  refine ⟨ns, hs.heap.laid, hs.heap.chain, fun x hx => ⟨hs.heap.node x hx, hs.heap.bound x hx⟩,
    hs.serves.apart hs.heap.laid, hs.serves.node, fun b hb x hx => hs.header_apart hx hb,
    fun n hn _ => ?_, fun n hn hn' p m' hk hb => ?_, fun b hb => ?_⟩
  · rw [kmalloc_eq_none_iff hs.heap hn (by omega)]
    unfold FirstFit.malloc
    split
    case h_1 x hx => simp [hx]
    case h_2 hx => simp [hx]
  · obtain ⟨q, ns', hp, hm, hs', hf⟩ := hs.malloc hn hn' (by omega) hk hb
    exact ⟨q, ns', hp, hm, hs', hf, fun b hb a ha ha' => hf a (hs.malloc_keeps hb ⟨ha, ha'⟩)⟩
  · obtain ⟨x, hx, hbx, m', hk, hs', hf⟩ := hs.free hb (hs.addr_lt hb)
    refine ⟨m', hk, x, hx, hbx, hs', hf, fun c hc a ha ha' => hf a ?_⟩
    have hap := hs.header_apart hx hc
    have h16 : headerSize = 16 := rfl
    simp only [Block.Apart, FirstFit.Node.header] at hap
    omega

/-- The root node serves no request. -/
theorem find_root {n : Nat} (hn : 0 < n) :
    [(⟨L.heapStart, 0, true⟩ : FirstFit.Node)].find? (FirstFit.fits n) = none := by
  simp [FirstFit.fits]
  omega

/-- The first allocation after `kinit_heap` is served right behind the root node. -/
theorem kmalloc_kinitHeap (L : Layout) (m : Mem) {n : Nat} (hn : 0 < n) :
    kmalloc L (kinitHeap L m) n = some (L.heapStart + 32,
      appended (kinitHeap L m) L.heapStart (L.heapStart + 16) n) := by
  have hL := L.heapEnd_le
  have hS := L.heapEnd_eq
  have h16 : headerSize = 16 := rfl
  rw [kmalloc_append (isHeap_init m) (find_root hn) (List.nil_append _).symm hn (by omega), if_pos]
  · rfl
  · simp only [FirstFit.Node.fin]
    omega

/-- A run that has allocated the 15 bytes of the boot self-test. -/
theorem heap_representation_first : ∃ m ns,
    HeapRepresents Layout.least m ns [⟨Layout.least.heapStart + 32, 15⟩] := by
  have hrun := HeapRun.malloc (HeapRun.init (fun _ => 0)) (by decide : 0 < 15) (by decide)
    (kmalloc_kinitHeap Layout.least (fun _ => 0) (by decide)) (by decide)
  obtain ⟨ns, h⟩ := heap_representation hrun
  exact ⟨_, ns, h⟩

end DayOS
