import DayOS.HeapRun

set_option autoImplicit false

/-! # How far a block may reach

`kmalloc` asserts that a new header starts below `HEAP_END`. It asserts nothing about the bytes
behind the header, and for the size zero `kcreateBlock` creates no header at all and `kmalloc`
goes on with the null pointer. `Room` says when neither can happen.

A run serves requests of any size, zero included, as long as there is room for each.
-/

namespace DayOS

open ByteMemory Linked

/-- A free node is large enough. Or else a node can be appended: its header and its bytes end
inside the heap, or its header starts outside, which the assertion rejects. -/
def Room (L : Layout) (ns : List FirstFit.Node) (n : Nat) : Prop :=
  (∃ x ∈ ns, FirstFit.fits n x = true) ∨
  n ≠ 0 ∧ (L.heapEnd ≤ FirstFit.endOf headerSize L.heapStart ns ∨
    FirstFit.endOf headerSize L.heapStart ns + headerSize + n ≤ L.heapEnd)

/-- The memories reached from `kinit_heap` by requests for which there is room, and the blocks
held. Clients write into their blocks. -/
inductive RoomyRun (L : Layout) : Mem → List Block → Prop
  | init (m : Mem) : RoomyRun L (kinitHeap L m) []
  | malloc {m m' : Mem} {live : List Block} {n p : Nat} : RoomyRun L m live → n < 2 ^ 32 →
      (∀ ns, IsHeap L L.heapEnd m ns → Room L ns n) → kmalloc L m n = some (p, m') →
      RoomyRun L m' (⟨p, n⟩ :: live)
  | free {m m' : Mem} {live : List Block} {b : Block} : RoomyRun L m live → b ∈ live →
      kfree L m b.addr = some m' → RoomyRun L m' (live.erase b)
  | write {m m' : Mem} {live : List Block} : RoomyRun L m live →
      (∀ a, (∀ b ∈ live, ¬ b.Has a) → m' a = m a) → RoomyRun L m' live

/-- What the kernel heap goes through behind a boot with the memory `m₁`: `kinit_heap`, requests
that `asked` allows, releases, and writes of the holders into their blocks. -/
inductive HeapUse (L : Layout) (asked : Mem → Nat → Prop) (m₁ : Mem) : Mem → List Block → Prop
  | init : HeapUse L asked m₁ (kinitHeap L m₁) []
  | malloc {m m' : Mem} {live : List Block} {n p : Nat} : HeapUse L asked m₁ m live →
      n < 2 ^ 32 → asked m n → kmalloc L m n = some (p, m') →
      HeapUse L asked m₁ m' (⟨p, n⟩ :: live)
  | free {m m' : Mem} {live : List Block} {b : Block} : HeapUse L asked m₁ m live → b ∈ live →
      kfree L m b.addr = some m' → HeapUse L asked m₁ m' (live.erase b)
  | write {m m' : Mem} {live : List Block} : HeapUse L asked m₁ m live →
      (∀ a, (∀ b ∈ live, ¬ b.Has a) → m' a = m a) → HeapUse L asked m₁ m' live

/-- Any request. -/
def AnySize (_ : Mem) (_ : Nat) : Prop := True

/-- A request for which there is room. -/
def HasRoom (L : Layout) (m : Mem) (n : Nat) : Prop := ∀ ns, IsHeap L L.heapEnd m ns → Room L ns n

/-- The search finds no block, and `kcreateBlock` hands `kmalloc` the null pointer. -/
def CreatesNull (L : Layout) (m : Mem) (n : Nat) : Prop :=
  ∃ last, kmallocScan L m n walkLimit L.heapStart L.heapStart = some (NULL, last) ∧
    kcreateBlock L m last n = some (NULL, m)

/-- The search finds no block, and the next header would not start below `HEAP_END`. -/
def Asserts (L : Layout) (m : Mem) (n : Nat) : Prop :=
  ∃ last, kmallocScan L m n walkLimit L.heapStart L.heapStart = some (NULL, last) ∧
    ¬ nextBlock m last < L.heapEnd

/-- A request goes through no null pointer, and it stops in the assertion or returns a block
whose header and bytes lie inside the heap and meet no block held. -/
structure InBounds (L : Layout) (m : Mem) (live : List Block) (n : Nat) : Prop where
  node : ¬ CreatesNull L m n
  stops : kmalloc L m n = none → Asserts L m n
  block : ∀ p m', kmalloc L m n = some (p, m') →
    L.heapStart + headerSize ≤ p ∧ p + n ≤ L.heapEnd ∧ ∀ b ∈ live, b.Apart ⟨p, n⟩

/-- The bytes represent the nodes `ns`, and these serve the blocks `live`. -/
structure HeapRow (L : Layout) (m : Mem) (ns : List FirstFit.Node) (live : List Block) : Prop where
  heap : IsHeap L L.heapEnd m ns
  serves : FirstFit.Serves headerSize ns live

section
variable {L : Layout} {m m' : Mem} {ns : List FirstFit.Node} {live : List Block} {n p : Nat}

/-! ## One request -/

theorem IsHeap.last (h : IsHeap L L.heapEnd m ns) : ∃ pre z, ns = pre ++ [z] ∧ z.addr ≠ NULL ∧
    FirstFit.endOf headerSize L.heapStart ns = z.fin headerSize ∧
    nextBlock m z.addr = z.fin headerSize := by
  have hL := L.heapEnd_le
  obtain ⟨pre, z, hz, hend⟩ := h.exists_last
  have hmem : z ∈ ns := by
    rw [hz]
    exact List.mem_append_right pre (List.mem_singleton_self z)
  have hbound := h.bound z hmem
  refine ⟨pre, z, hz, h.chain.ne_zero_of_mem (List.mem_map_of_mem hmem), hend, ?_⟩
  unfold nextBlock blockStart
  rw [(h.node z hmem).size]
  simp only [FirstFit.Node.fin, headerSize] at hbound ⊢
  omega

/-- The bytes determine the row. -/
theorem IsHeap.eq_map {lim : Nat} (h : IsHeap L lim m ns) : ns = (ns.map FirstFit.Node.addr).map
    (fun a => ⟨a, nodeSize m a, decide (nodeFree m a = 1)⟩) := by
  rw [List.map_map]
  refine (List.map_id ns).symm.trans (List.map_congr_left (fun x hx => ?_))
  have hnode := h.node x hx
  show x = ⟨x.addr, nodeSize m x.addr, decide (nodeFree m x.addr = 1)⟩
  rw [hnode.size, hnode.free]
  cases x with
  | mk addr size free => cases free <;> rfl

theorem IsHeap.unique {lim lim' : Nat} {ns' : List FirstFit.Node} (h : IsHeap L lim m ns)
    (h' : IsHeap L lim' m ns') : ns = ns' := by
  rw [h.eq_map, h'.eq_map, h.chain.unique h'.chain]

theorem fits_iff_find :
    (∃ x ∈ ns, FirstFit.fits n x = true) ↔ ∃ x, ns.find? (FirstFit.fits n) = some x := by
  rw [← List.find?_isSome, Option.isSome_iff_exists]

theorem find_none (hfit : ¬ ∃ x ∈ ns, FirstFit.fits n x = true) :
    ns.find? (FirstFit.fits n) = none := by
  rw [fits_iff_find, not_exists] at hfit
  exact Option.eq_none_iff_forall_ne_some.mpr hfit

/-- A request for nothing that no free node serves ends in the null pointer. -/
theorem createsNull_iff (h : IsHeap L L.heapEnd m ns) :
    CreatesNull L m n ↔ n = 0 ∧ ¬ ∃ x ∈ ns, FirstFit.fits n x = true := by
  have hL := L.heapEnd_le
  obtain ⟨pre, z, hz, hz0, hend, hnext⟩ := h.last
  constructor
  · rintro ⟨last, hscan, hcreate⟩
    -- a search that runs off the chain has found no node
    have hnone : ¬ ∃ x ∈ ns, FirstFit.fits n x = true := fun hfit => by
      obtain ⟨x, hx⟩ := fits_iff_find.mp hfit
      obtain ⟨q, hq⟩ := (kmallocScan_eq L.heapStart h.chain h.node h.below h.length_lt).1 x hx
      rw [hq] at hscan
      have haddr : x.addr = NULL := congrArg Prod.fst (Option.some.inj hscan)
      exact h.chain.ne_zero_of_mem (List.mem_map_of_mem (List.mem_of_find?_eq_some hx)) haddr
    refine ⟨?_, hnone⟩
    by_contra hn
    rw [kmallocScan_none h (find_none hnone) hz] at hscan
    cases hscan
    have hmem : z ∈ ns := by
      rw [hz]
      exact List.mem_append_right pre (List.mem_singleton_self z)
    have hbound := h.bound z hmem
    rw [kcreateBlock_eq (h.node z hmem) hz0 (Nat.pos_of_ne_zero hn) (by omega)] at hcreate
    split at hcreate
    case isTrue =>
        have hfin : z.fin headerSize = NULL := congrArg Prod.fst (Option.some.inj hcreate)
        simp only [FirstFit.Node.fin, headerSize, NULL] at hfin
        omega
    case isFalse => cases hcreate
  · rintro ⟨rfl, hnone⟩
    refine ⟨z.addr, kmallocScan_none h (find_none hnone) hz, ?_⟩
    unfold kcreateBlock
    exact if_pos (Or.inr rfl)

/-- **When a request is served within bounds.** -/
theorem HeapRow.inBounds_iff (h : HeapRow L m ns live) : InBounds L m live n ↔ Room L ns n := by
  have hL := L.heapEnd_le
  have h16 : headerSize = 16 := rfl
  obtain ⟨pre, z, hz, hz0, hend, hnext⟩ := h.heap.last
  unfold Room
  by_cases hfit : ∃ x ∈ ns, FirstFit.fits n x = true
  · -- the first free node that is large enough
    refine ⟨fun _ => Or.inl hfit, fun _ => ?_⟩
    obtain ⟨x, hx⟩ := fits_iff_find.mp hfit
    have hmem := List.mem_of_find?_eq_some hx
    have hlarge := List.find?_some hx
    simp only [FirstFit.fits, Bool.and_eq_true, decide_eq_true_eq] at hlarge
    have hk := kmalloc_reuse h.heap hx
    refine ⟨fun hnull => ((createsNull_iff h.heap).mp hnull).2 hfit, fun hnone => ?_, fun p m' hp => ?_⟩
    · rw [hk] at hnone
      cases hnone
    · rw [hk] at hp
      cases hp
      have hstart := h.heap.laid.start_le hmem
      have hfin := h.heap.bound x hmem
      simp only [FirstFit.Node.fin] at hfin
      refine ⟨by omega, by omega, fun b hb => ?_⟩
      -- a block held is the payload of another node
      obtain ⟨y, hy, hyfree, hby, hsize⟩ := h.serves.node b hb
      have hne : y ≠ x := fun he => by
        rw [he, hlarge.2] at hyfree
        cases hyfree
      have hor := h.heap.laid.fin_le_or hy hmem hne
      simp only [FirstFit.Node.fin] at hor
      show b.addr + b.size ≤ _ ∨ _ ≤ b.addr
      simp only
      omega
  · have hnone := find_none hfit
    by_cases hn : n = 0
    · -- no node is created
      constructor
      · intro hin
        exact absurd ((createsNull_iff h.heap).mpr ⟨hn, hfit⟩) hin.node
      · rintro (hf | ⟨hn0, -⟩)
        · exact absurd hf hfit
        · exact absurd hn hn0
    · -- a node behind the last one
      have hk := kmalloc_append h.heap hnone hz (Nat.pos_of_ne_zero hn) (by omega : L.heapEnd < 2 ^ 32)
      have hcreate : ¬ CreatesNull L m n := fun hc => hn ((createsNull_iff h.heap).mp hc).1
      rw [hend]
      by_cases hlt : z.fin headerSize < L.heapEnd
      · rw [if_pos hlt] at hk
        constructor
        · intro hin
          obtain ⟨-, hfin, -⟩ := hin.block _ _ hk
          exact Or.inr ⟨hn, Or.inr hfin⟩
        · rintro (hf | ⟨-, hge | hroom⟩)
          · exact absurd hf hfit
          · omega
          · refine ⟨hcreate, fun hno => ?_, fun p m' hp => ?_⟩
            · rw [hk] at hno
              cases hno
            · rw [hk] at hp
              cases hp
              have hle := h.heap.laid.le_endOf
              rw [hend] at hle
              refine ⟨by omega, hroom, fun b hb => ?_⟩
              obtain ⟨y, hy, -, hby, hsize⟩ := h.serves.node b hb
              have hfin := h.heap.laid.fin_le_endOf hy
              rw [hend] at hfin
              refine Or.inl ?_
              have hyfin : y.fin headerSize = y.addr + headerSize + y.size := rfl
              show b.addr + b.size ≤ z.fin headerSize + headerSize
              omega
      · rw [if_neg hlt] at hk
        refine ⟨fun _ => Or.inr ⟨hn, Or.inl (by omega)⟩, fun _ => ⟨hcreate, fun _ => ?_, fun p m' hp => ?_⟩⟩
        · exact ⟨z.addr, kmallocScan_none h.heap hnone hz, by rw [hnext]; exact hlt⟩
        · rw [hk] at hp
          cases hp

/-- An allocation writes into the heap's range and into the header of its block. -/
theorem IsHeap.kmalloc_writes {lim : Nat} (h : IsHeap L lim m ns) (hlim : lim < 2 ^ 32)
    (hn : 0 < n ∨ ∃ x ∈ ns, FirstFit.fits n x = true) (hk : kmalloc L m n = some (p, m')) :
    (L.heapStart + headerSize ≤ p ∧ p < L.heapEnd + headerSize) ∧
    ∀ x, ¬ (L.heapStart ≤ x ∧ x < L.heapEnd) → ¬ (p - headerSize ≤ x ∧ x < p) → m' x = m x := by
  have h16 : headerSize = 16 := rfl
  by_cases hfit : ∃ x ∈ ns, FirstFit.fits n x = true
  · obtain ⟨x, hfind⟩ := fits_iff_find.mp hfit
    have hmem := List.mem_of_find?_eq_some hfind
    have hstart := h.laid.start_le hmem
    have hbelow := h.below x hmem
    rw [kmalloc_reuse h hfind] at hk
    cases hk
    refine ⟨by omega, fun y _ hy => ?_⟩
    exact store32_of_outside (by omega)
  · obtain ⟨pre, z, hz, hend⟩ := h.exists_last
    rw [kmalloc_append h (find_none hfit) hz (hn.resolve_right hfit) hlim] at hk
    split at hk
    case isFalse => cases hk
    case isTrue hlt =>
        cases hk
        have hmem : z ∈ ns := by
          rw [hz]
          exact List.mem_append_right pre (List.mem_singleton_self z)
        have hstart := h.laid.start_le hmem
        have hfin : z.fin headerSize = z.addr + headerSize + z.size := rfl
        refine ⟨by omega, fun y hy hy' => ?_⟩
        exact appended_of_outside (by omega) (by omega)

/-- Where there is room, an allocation writes into the heap's range only. -/
theorem HeapRow.kmalloc_inside (h : HeapRow L m ns live) (hroom : Room L ns n)
    (hk : kmalloc L m n = some (p, m')) {x : Nat} (hx : ¬ (L.heapStart ≤ x ∧ x < L.heapEnd)) :
    m' x = m x := by
  have hL := L.heapEnd_le
  have hn : 0 < n ∨ ∃ x ∈ ns, FirstFit.fits n x = true := by
    rcases hroom with hfit | ⟨hn, -⟩
    · exact Or.inr hfit
    · exact Or.inl (Nat.pos_of_ne_zero hn)
  obtain ⟨-, hfin, -⟩ := (h.inBounds_iff.mpr hroom).block p m' hk
  obtain ⟨⟨hge, -⟩, hkeep⟩ := h.heap.kmalloc_writes (by omega) hn hk
  exact hkeep x hx (by omega)

/-- A block held lies inside the heap, and so does its header. -/
theorem HeapRow.block_inside (h : HeapRow L m ns live) {b : Block} (hb : b ∈ live) :
    L.heapStart + headerSize ≤ b.addr ∧ b.addr + b.size ≤ L.heapEnd := by
  obtain ⟨x, hx, -, hbx, hsize⟩ := h.serves.node b hb
  have hstart := h.heap.laid.start_le hx
  have hfin := h.heap.bound x hx
  simp only [FirstFit.Node.fin] at hfin
  omega

/-- Freeing a block held writes into its header. -/
theorem HeapRow.kfree_inside (h : HeapRow L m ns live) {b : Block} (hb : b ∈ live)
    (hk : kfree L m b.addr = some m') {x : Nat} (hx : ¬ (L.heapStart ≤ x ∧ x < L.heapEnd)) :
    m' x = m x := by
  have h16 : headerSize = 16 := rfl
  have hL := L.heapEnd_le
  have hpos := L.heapStart_ge
  obtain ⟨hge, hle⟩ := h.block_inside hb
  unfold kfree headerStart at hk
  rw [if_neg (show ¬ b.addr = NULL by simp only [NULL]; omega)] at hk
  split at hk
  case isTrue => cases hk
  case isFalse =>
      simp only at hk
      split at hk
      case isTrue => cases hk
      case isFalse =>
          cases hk
          exact store32_of_outside (by omega)

/-- A request that is in bounds leads to a row that serves the new block as well. -/
theorem HeapRow.malloc (h : HeapRow L m ns live) (hn : n < 2 ^ 32) (hroom : Room L ns n)
    (hk : kmalloc L m n = some (p, m')) :
    ∃ q ns', p = q + headerSize ∧
      FirstFit.malloc headerSize L.heapStart L.heapEnd n ns = some (q, ns') ∧
      HeapRow L m' ns' (⟨p, n⟩ :: live) := by
  have hL := L.heapEnd_le
  obtain ⟨-, hfin, -⟩ := (h.inBounds_iff.mpr hroom).block p m' hk
  by_cases hfit : ∃ x ∈ ns, FirstFit.fits n x = true
  · obtain ⟨x, hx⟩ := fits_iff_find.mp hfit
    rw [kmalloc_reuse h.heap hx] at hk
    cases hk
    have hm : FirstFit.malloc headerSize L.heapStart L.heapEnd n ns =
        some (x.addr, FirstFit.setFree x.addr false ns) := by
      unfold FirstFit.malloc
      rw [hx]
    exact ⟨_, _, rfl, hm, isHeap_setFree h.heap (List.mem_of_find?_eq_some hx) false,
      h.serves.malloc h.heap.laid (by decide) hm⟩
  · have hpos : 0 < n := by
      rcases hroom with hf | ⟨hn0, -⟩
      · exact absurd hf hfit
      · exact Nat.pos_of_ne_zero hn0
    obtain ⟨q, ns', rfl, hm, hheap, -⟩ := kmalloc_refines h.heap hpos hn (by omega) hk hfin
    exact ⟨q, ns', rfl, hm, hheap, h.serves.malloc h.heap.laid (by decide) hm⟩

theorem HeapRow.free {b : Block} (h : HeapRow L m ns live) (hb : b ∈ live)
    (hk : kfree L m b.addr = some m') : ∃ ns', HeapRow L m' ns' (live.erase b) := by
  obtain ⟨x, hx, -, hbx, -⟩ := h.serves.node b hb
  have hstart := h.heap.laid.start_le hx
  have hpos := L.heapStart_ge
  rw [hbx] at hk
  by_cases hlt : x.addr + headerSize < L.heapEnd
  · obtain ⟨m'', hk', hheap, -⟩ := kfree_refines h.heap hx hlt
    rw [hk'] at hk
    cases hk
    exact ⟨_, hheap, h.serves.release hb hbx⟩
  · unfold kfree at hk
    rw [if_neg (show ¬ x.addr + headerSize = 0 by omega), if_pos hlt] at hk
    cases hk

theorem HeapRow.write (h : HeapRow L m ns live)
    (hw : ∀ a, (∀ b ∈ live, ¬ b.Has a) → m' a = m a) : HeapRow L m' ns live := by
  refine ⟨h.heap.congr (fun x hx a ha ha' => hw a (fun b hb => ?_)), h.serves⟩
  exact (h.serves.apart_header h.heap.laid hb hx).symm.not_has ⟨ha, ha'⟩

/-! ## A request that wraps around -/

/-- The memory after a header for `n` bytes whose size lies where the link of its parent `z` is:
the stores behind it go to the address `n`. -/
def strayHeader (m : Mem) (z n : Nat) : Mem :=
  store32 (store32 (store32 (store32 (store32 m (z + 12) (z + 4)) (z + 12) n) (n + 12) NULL)
    (n + 4) 1) n MAGIC

/-- A header four bytes behind its parent's own: `parent->next` is the size from the first store
on. -/
theorem kcreateBlock_overlap {z : Nat} (hz0 : z ≠ NULL) (hn : 0 < n) (hn' : n < 2 ^ 32)
    (hnext : nextBlock m z = z + 4) (hlt : z + 4 < L.heapEnd)
    (hapart : n + 16 ≤ z + 12 ∨ z + 16 ≤ n) :
    kcreateBlock L m z n = some (n, strayHeader m z n) := by
  have hL := L.heapEnd_le
  have h₁ : nodeNext (store32 m (z + 12) (z + 4)) z = z + 4 := by
    rw [nodeNext, load32_store32, Nat.mod_eq_of_lt (by omega)]
  have h₂ : nodeNext (store32 (store32 m (z + 12) (z + 4)) (z + 4 + 8) n) z = n := by
    rw [nodeNext, load32_store32, Nat.mod_eq_of_lt hn']
  have hl : ∀ m' : Mem, nodeNext m' z = n → ∀ k ≤ 12, ∀ v,
      nodeNext (store32 m' (n + k) v) z = n :=
    fun m' hm' k hk v => (load32_store32_of_ne (by omega)).trans hm'
  have h₃ := hl _ h₂ 12 le_rfl NULL
  have h₄ := hl _ h₃ 4 (by decide) 1
  have h₅ := hl _ h₄ 0 (by decide) MAGIC
  have hn0 : ¬ (z = NULL ∨ n = 0) := by
    rintro (h | h)
    · exact hz0 h
    · omega
  rw [kcreateBlock, if_neg hn0, hnext]
  simp only [h₁, if_pos hlt, h₂, h₃, h₄]
  rw [show nodeNext (store32 _ n MAGIC) z = n from h₅]
  rfl

/-- The header lies at the address that the size names. -/
theorem kmalloc_stray {lim : Nat} (h : IsHeap L lim m ns) (hno : ns.find? (FirstFit.fits n) = none)
    {pre : List FirstFit.Node} {z : FirstFit.Node} (hz : ns = pre ++ [z]) (hn : 0 < n)
    (hn' : n < 2 ^ 32) (hsize : z.size = 2 ^ 32 - 12) (hlt : z.addr + 4 < L.heapEnd)
    (hapart : n + 16 ≤ z.addr + 12 ∨ z.addr + 16 ≤ n) :
    kmalloc L m n = some (blockStart n, store32 (strayHeader m z.addr n) (n + 4) 0) := by
  have hL := L.heapEnd_le
  have hmem : z ∈ ns := by
    rw [hz]
    exact List.mem_append_right pre (List.mem_singleton_self z)
  have hz0 : z.addr ≠ NULL := h.chain.ne_zero_of_mem (List.mem_map_of_mem hmem)
  have hnext : nextBlock m z.addr = z.addr + 4 := by
    rw [nextBlock, blockStart, (h.node z hmem).size, hsize]
    omega
  rw [kmalloc, kmallocScan_none h hno hz]
  simp only [Option.bind_eq_bind, Option.bind_some, ne_eq, not_true, if_false,
    kcreateBlock_overlap hz0 hn hn' hnext hlt hapart]
  rfl

/-- A stray header starts with the bytes of the magic number. -/
theorem strayHeader_magic {z : Nat} : store32 (strayHeader m z n) (n + 4) 0 n = 0xBE ∧
    store32 (strayHeader m z n) (n + 4) 0 (n + 1) = 0xBA := by
  have hkeep : ∀ x, x < n + 4 → store32 (strayHeader m z n) (n + 4) 0 x = strayHeader m z n x :=
    fun x hx => store32_of_outside (Or.inl hx)
  constructor
  · rw [hkeep n (by omega)]
    simp [strayHeader, store32, MAGIC]
  · rw [hkeep (n + 1) (by omega)]
    simp [strayHeader, store32, MAGIC]

/-- The memory of a fresh heap after requests for `2 ^ 32 - 12` bytes and for `n`. -/
def strayed (L : Layout) (m : Mem) (n : Nat) : Mem :=
  store32 (strayHeader (appended (kinitHeap L m) L.heapStart (L.heapStart + 16) (2 ^ 32 - 12))
    (L.heapStart + 16) n) (n + 4) 0

/-- On a fresh heap, a request for `2 ^ 32 - 12` bytes lets the next one write a header to any
address it names. -/
theorem kmalloc_twice (L : Layout) (m : Mem) (hn : 0 < n) (hn' : n < 2 ^ 32)
    (hapart : n + 16 ≤ L.heapStart + 28 ∨ L.heapStart + 32 ≤ n) :
    ∃ m₁, kmalloc L (kinitHeap L m) (2 ^ 32 - 12) = some (L.heapStart + 32, m₁) ∧
      kmalloc L m₁ n = some (blockStart n, strayed L m n) := by
  have hS := L.heapEnd_eq
  have h16 : headerSize = 16 := rfl
  have hheap : IsHeap L (L.heapStart + headerSize + headerSize + (2 ^ 32 - 12))
      (appended (kinitHeap L m) L.heapStart (L.heapStart + 16) (2 ^ 32 - 12))
      [⟨L.heapStart, 0, true⟩, ⟨L.heapStart + 16, 2 ^ 32 - 12, false⟩] :=
    isHeap_append ((isHeap_init m).mono (by omega)) (List.nil_append _).symm (by decide)
      (show L.heapStart + headerSize + 0 < L.heapEnd by omega) le_rfl
  have hnone : [⟨L.heapStart, 0, true⟩, ⟨L.heapStart + 16, 2 ^ 32 - 12, false⟩].find?
      (FirstFit.fits n) = none := by
    simp [FirstFit.fits]
    omega
  refine ⟨_, kmalloc_kinitHeap L m (by decide), ?_⟩
  exact kmalloc_stray hheap hnone
    (show _ = [(⟨L.heapStart, 0, true⟩ : FirstFit.Node)] ++ [_] from rfl) hn hn' rfl
    (show L.heapStart + 16 + 4 < L.heapEnd by omega)
    (show n + 16 ≤ L.heapStart + 16 + 12 ∨ L.heapStart + 16 + 16 ≤ n by omega)

/-! ## Runs -/

theorem RoomyRun.row (h : RoomyRun L m live) : ∃ ns, HeapRow L m ns live := by
  have hL := L.heapEnd_le
  have hS := L.heapEnd_eq
  induction h with
  | init m =>
      have h16 : headerSize = 16 := rfl
      have hinit := heapState_init m (show L.heapStart + headerSize ≤ L.heapEnd by omega)
      exact ⟨_, hinit.heap, hinit.serves⟩
  | malloc _ hn hroom hk ih =>
      obtain ⟨ns, hrow⟩ := ih
      obtain ⟨q, ns', -, -, hrow'⟩ := hrow.malloc hn (hroom ns hrow.heap) hk
      exact ⟨ns', hrow'⟩
  | free _ hb hk ih =>
      obtain ⟨ns, hrow⟩ := ih
      exact hrow.free hb hk
  | write _ hw ih =>
      obtain ⟨ns, hrow⟩ := ih
      exact ⟨ns, hrow.write hw⟩

theorem HeapUse.roomyRun {m₁ : Mem} (h : HeapUse L (HasRoom L) m₁ m live) : RoomyRun L m live := by
  induction h with
  | init => exact .init m₁
  | malloc _ hn hroom hk ih => exact .malloc ih hn hroom hk
  | free _ hb hk ih => exact .free ih hb hk
  | write _ hw ih => exact .write ih hw

/-- **Heap bounds.** In every run that asks only where there is room, a request is served within
bounds exactly when there is room for it. -/
theorem heap_bounds (h : RoomyRun L m live) :
    ∃ ns, HeapRow L m ns live ∧ ∀ n < 2 ^ 32, (InBounds L m live n ↔ Room L ns n) := by
  obtain ⟨ns, hrow⟩ := h.row
  exact ⟨ns, hrow, fun n _ => hrow.inBounds_iff⟩

/-- A fresh heap serves a block of one page within bounds. -/
theorem heap_bounds_first :
    InBounds Layout.least (kinitHeap Layout.least (fun _ => 0)) [] 0x1000 := by
  obtain ⟨ns, hrow, hiff⟩ := heap_bounds (RoomyRun.init (L := Layout.least) (fun _ => 0))
  refine (hiff 0x1000 (by decide)).mpr ?_
  rw [hrow.heap.unique (isHeap_init (fun _ => 0))]
  unfold Room
  decide

/-- A fresh heap hands out a block as large as itself, which reaches behind its end. -/
theorem heap_bounds_fails : RoomyRun Layout.least (kinitHeap Layout.least (fun _ => 0)) [] ∧
    ¬ InBounds Layout.least (kinitHeap Layout.least (fun _ => 0)) [] 0x1400000 := by
  refine ⟨RoomyRun.init _, fun hin => ?_⟩
  obtain ⟨-, hfin, -⟩ := hin.block _ _ (kmalloc_kinitHeap Layout.least (fun _ => 0) (by decide))
  exact absurd hfin (by decide)

end

end DayOS
