import DayOS.Layout
import DayOS.Lib.FirstFit

set_option autoImplicit false

/-! # The kernel heap (`heap.c`)

`kmalloc` and `kfree` as the code computes them on bytes, and the refinement of both by the
first-fit heap of `Lib/FirstFit.lean`. A node of the chain is a 16-byte header (`node_t`:
magic, free flag, size, next link) followed by its payload; `root` is the address
`HEAP_START`, and the header of a new node is written just behind the last payload, at any
byte address.
-/

namespace DayOS

open ByteMemory Linked

/-! ## The code -/

def MAGIC : Nat := 0xCAFEBABE

/-- `HEADERSIZE`. -/
def headerSize : Nat := 16

def nodeMagic (m : Mem) (node : Nat) : Nat := load32 m node
def nodeFree (m : Mem) (node : Nat) : Nat := load32 m (node + 4)
def nodeSize (m : Mem) (node : Nat) : Nat := load32 m (node + 8)
def nodeNext (m : Mem) (node : Nat) : Nat := load32 m (node + 12)

def headerStart (x : Nat) : Nat := (x + 2 ^ 32 - 16) % 2 ^ 32
def blockStart (x : Nat) : Nat := (x + 16) % 2 ^ 32
def nextBlock (m : Mem) (x : Nat) : Nat := (blockStart x + nodeSize m x) % 2 ^ 32

variable (L : Layout)

/-- Write a header behind `parent`'s payload. Every access goes through `parent->next`. -/
def kcreateBlock (m : Mem) (parent sz : Nat) : Option (Nat × Mem) :=
  if parent = NULL ∨ sz = 0 then some (NULL, m)
  else
    let m₁ := store32 m (parent + 12) (nextBlock m parent)
    if nodeNext m₁ parent < L.heapEnd then
      let m₂ := store32 m₁ (nodeNext m₁ parent + 8) sz
      let m₃ := store32 m₂ (nodeNext m₂ parent + 12) NULL
      let m₄ := store32 m₃ (nodeNext m₃ parent + 4) 1
      let m₅ := store32 m₄ (nodeNext m₄ parent) MAGIC
      some (nodeNext m₅ parent, m₅)
    else none

/-- The scan of `kmalloc`: the node it stops at (`NULL` at the end of the chain) and the
last node before it. -/
def kmallocScan (m : Mem) (size : Nat) : Nat → Nat → Nat → Option (Nat × Nat)
  | 0, _, _ => none
  | fuel + 1, node, last =>
      if node = NULL then some (NULL, last)
      else if ¬ node < L.heapEnd then none
      else if nodeMagic m node ≠ MAGIC then none
      else if size ≤ nodeSize m node ∧ nodeFree m node = 1 then some (node, last)
      else kmallocScan m size fuel (nodeNext m node) node

def kmalloc (m : Mem) (size : Nat) : Option (Nat × Mem) := do
  let (node, last) ← kmallocScan L m size walkLimit L.heapStart L.heapStart
  if node ≠ NULL then
    return (blockStart node, store32 m (node + 4) 0)
  else
    let (node, m) ← kcreateBlock L m last size
    return (blockStart node, store32 m (node + 4) 0)

def kfree (m : Mem) (addr : Nat) : Option Mem :=
  if addr = NULL then some m
  else if ¬ addr < L.heapEnd then none
  else
    let node := headerStart addr
    if nodeMagic m node ≠ MAGIC then none
    else some (store32 m (node + 4) 1)

def kinitHeap (m : Mem) : Mem :=
  let root := L.heapStart
  let m := store32 m (root + 8) 0
  let m := store32 m (root + 12) NULL
  let m := store32 m (root + 4) 1
  store32 m root MAGIC

/-- The kernel's own heap. -/
def kernelHeap : Heap := ⟨kmalloc L, kfree L⟩

/-! ## The bytes represent a row of nodes -/

/-- The header at `x.addr` says what `x` says. -/
structure NodeAt (m : Mem) (x : FirstFit.Node) : Prop where
  magic : nodeMagic m x.addr = MAGIC
  free : nodeFree m x.addr = if x.free then 1 else 0
  size : nodeSize m x.addr = x.size

/-- **The heap invariant.** The chain from `root` runs through the nodes `ns`, which stand
side by side from `HEAP_START` on; every header says what its node says, starts below
`HEAP_END`, and every node ends at or below `lim`. -/
structure IsHeap (lim : Nat) (m : Mem) (ns : List FirstFit.Node) : Prop where
  laid : FirstFit.Laid headerSize L.heapStart ns
  chain : Chain (nodeNext m) L.heapStart (ns.map FirstFit.Node.addr)
  node : ∀ x ∈ ns, NodeAt m x
  below : ∀ x ∈ ns, x.addr < L.heapEnd
  bound : ∀ x ∈ ns, x.fin headerSize ≤ lim

variable {L}

/-- What a header says depends on its first three words. -/
theorem NodeAt.congr_words {m m' : Mem} {x : FirstFit.Node} (h : NodeAt m x)
    (ha : AgreeOn m m' x.addr 12) : NodeAt m' x where
  magic := (load32_congr (ha.mono (by omega) (by omega))).trans h.magic
  free := (load32_congr (ha.mono (by omega) (by omega))).trans h.free
  size := (load32_congr (ha.mono (by omega) (by omega))).trans h.size

theorem NodeAt.congr {m m' : Mem} {x : FirstFit.Node} (h : NodeAt m x)
    (ha : AgreeOn m m' x.addr headerSize) : NodeAt m' x :=
  h.congr_words (ha.mono le_rfl (by simp [headerSize]))

theorem nodeNext_congr {m m' : Mem} {a : Nat} (ha : AgreeOn m m' a headerSize) :
    nodeNext m' a = nodeNext m a :=
  load32_congr (ha.mono (by omega) (by simp [headerSize]))

/-- The invariant depends on the headers only. -/
theorem IsHeap.congr {lim : Nat} {m m' : Mem} {ns : List FirstFit.Node} (h : IsHeap L lim m ns)
    (ha : ∀ x ∈ ns, AgreeOn m m' x.addr headerSize) : IsHeap L lim m' ns where
  laid := h.laid
  chain := by
    refine h.chain.congr (fun a hmem => ?_)
    obtain ⟨x, hx, rfl⟩ := List.mem_map.mp hmem
    exact nodeNext_congr (ha x hx)
  node := fun x hx => (h.node x hx).congr (ha x hx)
  below := h.below
  bound := h.bound

theorem IsHeap.mono {lim lim' : Nat} {m : Mem} {ns : List FirstFit.Node} (h : IsHeap L lim m ns)
    (hle : lim ≤ lim') : IsHeap L lim' m ns :=
  { h with bound := fun x hx => (h.bound x hx).trans hle }

theorem IsHeap.exists_last {lim : Nat} {m : Mem} {ns : List FirstFit.Node}
    (h : IsHeap L lim m ns) :
    ∃ pre z, ns = pre ++ [z] ∧ FirstFit.endOf headerSize L.heapStart ns = z.fin headerSize := by
  rcases List.eq_nil_or_concat ns with rfl | ⟨pre, z, rfl⟩
  · have h0 : L.heapStart = 0 := h.chain
    have := L.heapStart_ge
    omega
  · exact ⟨pre, z, List.concat_eq_append, by simp⟩

theorem IsHeap.length_lt {lim : Nat} {m : Mem} {ns : List FirstFit.Node}
    (h : IsHeap L lim m ns) : ns.length < walkLimit := by
  have hnd : (ns.map FirstFit.Node.addr).Nodup := h.chain.nodup
  have hsub : ns.map FirstFit.Node.addr ⊆ List.range L.heapEnd := by
    intro a ha
    obtain ⟨x, hx, rfl⟩ := List.mem_map.mp ha
    exact List.mem_range.mpr (h.below x hx)
  have hle := (List.subperm_of_subset hnd hsub).length_le
  have := L.heapEnd_le
  simp only [List.length_map, List.length_range] at hle
  simp only [walkLimit]
  omega

/-! ## The scan -/

theorem fits_iff {m : Mem} {x : FirstFit.Node} {n : Nat} (h : NodeAt m x) :
    FirstFit.fits n x = true ↔ n ≤ nodeSize m x.addr ∧ nodeFree m x.addr = 1 := by
  rw [h.size, h.free]
  cases hf : x.free <;> simp [FirstFit.fits, hf]

/-- The scan stops at the first node that fits, or runs off the chain behind the last one. -/
theorem kmallocScan_eq {m : Mem} {n fuel p : Nat} {ns : List FirstFit.Node} (last : Nat)
    (hc : Chain (nodeNext m) p (ns.map FirstFit.Node.addr)) (hn : ∀ x ∈ ns, NodeAt m x)
    (hb : ∀ x ∈ ns, x.addr < L.heapEnd) (hf : ns.length < fuel) :
    (∀ x, ns.find? (FirstFit.fits n) = some x →
      ∃ q, kmallocScan L m n fuel p last = some (x.addr, q)) ∧
    (ns.find? (FirstFit.fits n) = none →
      kmallocScan L m n fuel p last
        = some (NULL, (ns.map FirstFit.Node.addr).getLastD last)) := by
  induction ns generalizing p last fuel with
  | nil =>
      obtain ⟨f, rfl⟩ : ∃ f, fuel = f + 1 := ⟨fuel - 1, by simp at hf; omega⟩
      have hp : p = 0 := hc
      simp [kmallocScan, hp, NULL]
  | cons x ns ih =>
      obtain ⟨f, rfl⟩ : ∃ f, fuel = f + 1 := ⟨fuel - 1, by simp at hf; omega⟩
      have ht := Chain.tail hc
      obtain ⟨rfl, hx0, -⟩ := hc
      have hx := hn x (by simp)
      have hlt := hb x (by simp)
      have hstep : kmallocScan L m n (f + 1) x.addr last
          = if FirstFit.fits n x then some (x.addr, last)
            else kmallocScan L m n f (nodeNext m x.addr) x.addr := by
        simp only [kmallocScan, NULL, hx0, hlt, hx.magic, if_false, not_true, ne_eq]
        by_cases hfit : FirstFit.fits n x = true
        · rw [if_pos hfit, if_pos ((fits_iff hx).mp hfit)]
        · rw [if_neg hfit, if_neg (fun h => hfit ((fits_iff hx).mpr h))]
      rw [List.length_cons] at hf
      have hi := ih x.addr ht (fun y hy => hn y (by simp [hy]))
        (fun y hy => hb y (by simp [hy])) (Nat.lt_of_succ_lt_succ hf)
      rw [hstep]
      by_cases hfit : FirstFit.fits n x = true
      · simp [hfit]
      · rw [if_neg hfit, List.find?_cons_of_neg hfit]
        refine ⟨fun y hy => hi.1 y hy, fun hno => ?_⟩
        rw [hi.2 hno]
        cases ns <;> rfl

/-! ## Allocating -/

section
variable {lim : Nat} {m : Mem} {ns : List FirstFit.Node} {n : Nat} {x : FirstFit.Node}

theorem kmalloc_reuse (h : IsHeap L lim m ns) (hx : ns.find? (FirstFit.fits n) = some x) :
    kmalloc L m n = some (x.addr + headerSize, store32 m (x.addr + 4) 0) := by
  have hmem := List.mem_of_find?_eq_some hx
  have hlt := h.below x hmem
  have hx0 : x.addr ≠ NULL := h.chain.ne_zero_of_mem (List.mem_map_of_mem hmem)
  have hL := L.heapEnd_le
  obtain ⟨q, hq⟩ :=
    (kmallocScan_eq L.heapStart h.chain h.node h.below h.length_lt).1 x hx
  have hb : blockStart x.addr = x.addr + headerSize := by
    simp only [blockStart, headerSize]
    omega
  simp [kmalloc, hq, hx0, hb]

/-- Taking a free node changes its free flag only. -/
theorem isHeap_setFree (h : IsHeap L lim m ns) (hmem : x ∈ ns) (b : Bool) :
    IsHeap L lim (store32 m (x.addr + 4) (if b then 1 else 0))
      (FirstFit.setFree x.addr b ns) := by
  have hkeep : ∀ y ∈ ns, y ≠ x → AgreeOn m (store32 m (x.addr + 4) (if b then 1 else 0))
      y.addr headerSize := by
    intro y hy hne
    have := h.laid.fin_le_or hy hmem hne
    simp only [FirstFit.Node.fin, headerSize] at this
    exact agreeOn_store32 (by simp only [headerSize]; omega)
  refine ⟨h.laid.setFree, ?_, ?_, ?_, ?_⟩
  · rw [FirstFit.setFree_addrs]
    refine h.chain.congr (fun a ha => ?_)
    obtain ⟨y, hy, rfl⟩ := List.mem_map.mp ha
    by_cases hyx : y = x
    · subst hyx
      exact load32_store32_of_ne (by omega)
    · exact nodeNext_congr (hkeep y hy hyx)
  · intro y hy
    obtain ⟨z, hz, rfl⟩ := FirstFit.mem_setFree.mp hy
    have hnz := h.node z hz
    by_cases hzx : z = x
    · subst hzx
      refine ⟨?_, ?_, ?_⟩
      · rw [FirstFit.Node.mark_addr, ← hnz.magic]
        exact load32_store32_of_ne (by omega)
      · rw [FirstFit.Node.mark_addr, FirstFit.Node.mark_free_of_eq rfl]
        simp only [nodeFree, load32_store32]
        split <;> rfl
      · rw [FirstFit.Node.mark_addr, FirstFit.Node.mark_size, ← hnz.size]
        exact load32_store32_of_ne (by omega)
    · have hne : z.addr ≠ x.addr := fun he =>
        hzx (h.laid.eq_of_addr (by decide) hz hmem he)
      rw [FirstFit.Node.mark_of_ne hne]
      exact hnz.congr (hkeep z hz hzx)
  · intro y hy
    obtain ⟨z, hz, rfl⟩ := FirstFit.mem_setFree.mp hy
    simpa using h.below z hz
  · intro y hy
    obtain ⟨z, hz, rfl⟩ := FirstFit.mem_setFree.mp hy
    simpa using h.bound z hz

/-- The memory after a header for `n` bytes has been written at `e`, linked from `z`. -/
def newHeader (m : Mem) (z e n : Nat) : Mem :=
  store32 (store32 (store32 (store32 (store32 m (z + 12) e) (e + 8) n) (e + 12) NULL) (e + 4) 1)
    e MAGIC

theorem kcreateBlock_eq (hz : NodeAt m x) (hx0 : x.addr ≠ NULL) (hn : 0 < n)
    (he : x.fin headerSize < 2 ^ 32) :
    kcreateBlock L m x.addr n
      = if x.fin headerSize < L.heapEnd then
          some (x.fin headerSize, newHeader m x.addr (x.fin headerSize) n)
        else none := by
  have hnb : nextBlock m x.addr = x.fin headerSize := by
    simp only [nextBlock, blockStart, hz.size, FirstFit.Node.fin, headerSize] at *
    omega
  have hmod : x.fin headerSize % 2 ^ 32 = x.fin headerSize := Nat.mod_eq_of_lt he
  have hle : x.addr + 16 ≤ x.fin headerSize := by
    simp only [FirstFit.Node.fin, headerSize]
    omega
  -- the stores into the new header leave the parent's link alone
  have hl : ∀ m' : Mem, nodeNext m' x.addr = x.fin headerSize → ∀ k v,
      nodeNext (store32 m' (x.fin headerSize + k) v) x.addr = x.fin headerSize :=
    fun m' hm' k v => (load32_store32_of_ne (by omega)).trans hm'
  have h₁ : nodeNext (store32 m (x.addr + 12) (x.fin headerSize)) x.addr = x.fin headerSize := by
    rw [nodeNext, load32_store32, hmod]
  have h₂ := hl _ h₁ 8 n
  have h₃ := hl _ h₂ 12 NULL
  have h₄ := hl _ h₃ 4 1
  have h₅ := hl _ h₄ 0 MAGIC
  have hn0 : ¬ (x.addr = NULL ∨ n = 0) := by simp only [hx0, false_or]; omega
  simp only [kcreateBlock, hn0, if_false, hnb, h₁, h₂, h₃, h₄, newHeader]
  rw [show nodeNext (store32 _ (x.fin headerSize) MAGIC) x.addr = x.fin headerSize from h₅]

theorem newHeader_of_outside {z e a : Nat} (h₁ : a < z + 12 ∨ z + 16 ≤ a)
    (h₂ : a < e ∨ e + 16 ≤ a) : newHeader m z e n a = m a := by
  simp only [newHeader]
  repeat rw [store32_of_outside (by omega)]

theorem newHeader_nodeAt {z e : Nat} (hn : n < 2 ^ 32) : NodeAt (newHeader m z e n) ⟨e, n, true⟩ := by
  refine ⟨?_, ?_, ?_⟩
  · simp only [nodeMagic, newHeader, load32_store32]
    rfl
  · simp only [nodeFree, newHeader]
    rw [load32_store32_of_ne (by omega), load32_store32]
    rfl
  · simp only [nodeSize, newHeader]
    rw [load32_store32_of_ne (by omega), load32_store32_of_ne (by omega),
      load32_store32_of_ne (by omega), load32_store32, Nat.mod_eq_of_lt hn]

theorem newHeader_nodeNext {z e : Nat} : nodeNext (newHeader m z e n) e = 0 := by
  simp only [nodeNext, newHeader]
  rw [load32_store32_of_ne (by omega), load32_store32_of_ne (by omega), load32_store32]
  rfl

theorem newHeader_nodeNext_last {z e : Nat} (hz : z + 16 ≤ e) (he : e < 2 ^ 32) :
    nodeNext (newHeader m z e n) z = e := by
  simp only [nodeNext, newHeader]
  repeat rw [load32_store32_of_ne (by omega)]
  rw [load32_store32, Nat.mod_eq_of_lt he]

/-- The memory after `kmalloc` has appended a node of `n` bytes at `e` behind the node `z`. -/
def appended (m : Mem) (z e n : Nat) : Mem := store32 (newHeader m z e n) (e + 4) 0

/-- Appending writes the new header and the link to it, nothing else. -/
theorem appended_of_outside {z e a : Nat} (h₁ : a < z + 12 ∨ z + 16 ≤ a)
    (h₂ : a < e ∨ e + 16 ≤ a) : appended m z e n a = m a :=
  (store32_of_outside (by omega)).trans (newHeader_of_outside h₁ h₂)

theorem appended_nodeAt {z e : Nat} (hn : n < 2 ^ 32) :
    NodeAt (appended m z e n) ⟨e, n, false⟩ := by
  obtain ⟨hmagic, -, hsize⟩ := @newHeader_nodeAt m n z e hn
  refine ⟨?_, ?_, ?_⟩
  · exact (load32_store32_of_ne (by simp only; omega)).trans hmagic
  · simp [nodeFree, appended]
  · exact (load32_store32_of_ne (by simp only; omega)).trans hsize

theorem appended_nodeNext {z e : Nat} : nodeNext (appended m z e n) e = 0 :=
  (load32_store32_of_ne (by omega)).trans newHeader_nodeNext

theorem appended_nodeNext_last {z e : Nat} (hz : z + 16 ≤ e) (he : e < 2 ^ 32) :
    nodeNext (appended m z e n) z = e :=
  (load32_store32_of_ne (by omega)).trans (newHeader_nodeNext_last hz he)

theorem kmallocScan_none (h : IsHeap L lim m ns) (hno : ns.find? (FirstFit.fits n) = none)
    {pre : List FirstFit.Node} {z : FirstFit.Node} (hz : ns = pre ++ [z]) :
    kmallocScan L m n walkLimit L.heapStart L.heapStart = some (NULL, z.addr) := by
  rw [(kmallocScan_eq L.heapStart h.chain h.node h.below h.length_lt).2 hno, hz]
  simp

theorem kmalloc_append (h : IsHeap L lim m ns) (hno : ns.find? (FirstFit.fits n) = none)
    {pre : List FirstFit.Node} {z : FirstFit.Node} (hz : ns = pre ++ [z]) (hn : 0 < n)
    (hlim : lim < 2 ^ 32) :
    kmalloc L m n
      = if z.fin headerSize < L.heapEnd then
          some (z.fin headerSize + headerSize, appended m z.addr (z.fin headerSize) n)
        else none := by
  have hmem : z ∈ ns := by simp [hz]
  have hz0 : z.addr ≠ NULL := h.chain.ne_zero_of_mem (List.mem_map_of_mem hmem)
  have hfin := h.bound z hmem
  have hL := L.heapEnd_le
  simp only [kmalloc, kmallocScan_none h hno hz, kcreateBlock_eq (h.node z hmem) hz0 hn
    (by omega), Option.bind_eq_bind, Option.bind_some, ne_eq, not_true, if_false]
  split
  case isTrue hlt =>
      have hb : blockStart (z.fin headerSize) = z.fin headerSize + headerSize := by
        simp only [blockStart, headerSize] at *
        omega
      simp [hb, appended]
  case isFalse => rfl

/-- A node behind the last one: its header, and the link to it. -/
theorem IsHeap.snoc (h : IsHeap L lim m ns) {m' : Mem} {b : Bool} {pre : List FirstFit.Node}
    {z : FirstFit.Node} (hz : ns = pre ++ [z]) (hlt : z.fin headerSize < L.heapEnd)
    (hb : z.fin headerSize + headerSize + n ≤ lim)
    (hout : ∀ a, (a < z.addr + 12 ∨ z.addr + 16 ≤ a) →
      (a < z.fin headerSize ∨ z.fin headerSize + 16 ≤ a) → m' a = m a)
    (hlink : nodeNext m' z.addr = z.fin headerSize) (hnew : NodeAt m' ⟨z.fin headerSize, n, b⟩)
    (hlast : nodeNext m' (z.fin headerSize) = 0) :
    IsHeap L lim m' (ns ++ [⟨z.fin headerSize, n, b⟩]) := by
  have hmem : z ∈ ns := by simp [hz]
  have hend : FirstFit.endOf headerSize L.heapStart ns = z.fin headerSize := by simp [hz]
  have hle : z.addr + 16 ≤ z.fin headerSize := by
    simp only [FirstFit.Node.fin, headerSize]
    omega
  -- every old header but the last one's link is untouched
  have hpre : ∀ y ∈ pre, AgreeOn m m' y.addr headerSize := by
    intro y hy
    have hp := h.laid.pairwise
    rw [hz] at hp
    have hyz := (List.pairwise_append.mp hp).2.2 y hy z (by simp)
    simp only [FirstFit.Node.fin, headerSize] at hyz hle ⊢
    intro a _ _
    exact hout a (by omega) (by simp only [FirstFit.Node.fin, headerSize]; omega)
  refine ⟨?_, ?_, ?_, ?_, ?_⟩
  · exact FirstFit.laid_append.mpr ⟨h.laid, hend.symm ▸ rfl, trivial⟩
  · have hc := h.chain
    rw [hz, List.map_append] at hc ⊢
    rw [List.map_append]
    refine hc.snoc hlink hlast (by simp; omega) (fun a ha => ?_)
    obtain ⟨y, hy, rfl⟩ := List.mem_map.mp ha
    exact nodeNext_congr (hpre y hy)
  · intro y hy
    rw [hz, List.append_assoc, List.mem_append] at hy
    rcases hy with hy | hy
    · exact (h.node y (by simp [hz, hy])).congr (hpre y hy)
    · simp only [List.cons_append, List.nil_append, List.mem_cons, List.not_mem_nil,
        or_false] at hy
      rcases hy with rfl | rfl
      · exact (h.node y hmem).congr_words (fun a _ _ => hout a (by omega) (by omega))
      · exact hnew
  · intro y hy
    rcases List.mem_append.mp hy with hy | hy
    · exact h.below y hy
    · rw [List.mem_singleton.mp hy]
      exact hlt
  · intro y hy
    rcases List.mem_append.mp hy with hy | hy
    · exact h.bound y hy
    · rw [List.mem_singleton.mp hy]
      exact hb

theorem isHeap_append (h : IsHeap L lim m ns) {pre : List FirstFit.Node} {z : FirstFit.Node}
    (hz : ns = pre ++ [z]) (hn : n < 2 ^ 32) (hlt : z.fin headerSize < L.heapEnd)
    (hb : z.fin headerSize + headerSize + n ≤ lim) :
    IsHeap L lim (appended m z.addr (z.fin headerSize) n)
      (ns ++ [⟨z.fin headerSize, n, false⟩]) := by
  have hL := L.heapEnd_le
  have hle : z.addr + 16 ≤ z.fin headerSize := by
    simp only [FirstFit.Node.fin, headerSize]
    omega
  exact h.snoc hz hlt hb (fun a => appended_of_outside) (appended_nodeNext_last hle (by omega))
    (appended_nodeAt hn) appended_nodeNext

/-! ## Freeing and initialising -/

theorem kfree_node (h : IsHeap L lim m ns) (hx : x ∈ ns) (hlt : x.addr + headerSize < L.heapEnd) :
    kfree L m (x.addr + headerSize) = some (store32 m (x.addr + 4) 1) := by
  have hL := L.heapEnd_le
  have hs : headerStart (x.addr + headerSize) = x.addr := by
    simp only [headerStart, headerSize] at *
    omega
  have h0 : x.addr + headerSize ≠ NULL := by simp [headerSize]
  rw [kfree, if_neg h0, if_neg (not_not.mpr hlt)]
  simp [hs, (h.node x hx).magic]

theorem kinitHeap_of_outside {x : Nat} (h : x < L.heapStart ∨ L.heapStart + 16 ≤ x) :
    kinitHeap L m x = m x := by
  unfold kinitHeap
  rw [store32_of_outside (by omega), store32_of_outside (by omega),
    store32_of_outside (by omega), store32_of_outside (by omega)]

theorem isHeap_init (m : Mem) :
    IsHeap L (L.heapStart + headerSize) (kinitHeap L m) [⟨L.heapStart, 0, true⟩] := by
  have h0 := L.heapStart_ge
  refine ⟨⟨rfl, trivial⟩, ⟨rfl, by simp; omega, ?_⟩, ?_, ?_, ?_⟩
  · show nodeNext (kinitHeap L m) L.heapStart = 0
    simp only [nodeNext, kinitHeap]
    rw [load32_store32_of_ne (by omega), load32_store32_of_ne (by omega), load32_store32]
    rfl
  · intro x hx
    rw [List.mem_singleton.mp hx]
    refine ⟨?_, ?_, ?_⟩
    · simp only [nodeMagic, kinitHeap, load32_store32]
      rfl
    · simp only [nodeFree, kinitHeap]
      rw [load32_store32_of_ne (by omega), load32_store32]
      rfl
    · simp only [nodeSize, kinitHeap]
      rw [load32_store32_of_ne (by omega), load32_store32_of_ne (by omega),
        load32_store32_of_ne (by omega), load32_store32, Nat.zero_mod]
  · intro x hx
    rw [List.mem_singleton.mp hx, L.heapEnd_eq]
    show L.heapStart < _
    omega
  · intro x hx
    rw [List.mem_singleton.mp hx]
    exact Nat.le_refl _

/-! ## The refinement -/

/-- The bytes a `kmalloc` may write: the free flag of the node it takes, or the link of the
last node and the header appended behind it. -/
def kmallocWrites (ns : List FirstFit.Node) (n a : Nat) : Prop :=
  match ns.find? (FirstFit.fits n) with
  | some x => x.addr + 4 ≤ a ∧ a < x.addr + 8
  | none => ∃ z, ns.getLast? = some z ∧
      ((z.addr + 12 ≤ a ∧ a < z.addr + 16) ∨
        (z.fin headerSize ≤ a ∧ a < z.fin headerSize + headerSize))

/-- `kmalloc` does not return exactly when nothing fits and the next header would start at or
beyond `HEAP_END`. -/
theorem kmalloc_eq_none_iff (h : IsHeap L lim m ns) (hn : 0 < n) (hlim : lim < 2 ^ 32) :
    kmalloc L m n = none ↔
      FirstFit.malloc headerSize L.heapStart L.heapEnd n ns = none := by
  obtain ⟨pre, z, hz, hend⟩ := h.exists_last
  cases hx : ns.find? (FirstFit.fits n) with
  | some x => simp [FirstFit.malloc, hx, kmalloc_reuse h hx]
  | none =>
      rw [kmalloc_append h hx hz hn hlim]
      simp only [FirstFit.malloc, hx, hend]
      split <;> simp

/-- **`kmalloc` refines first fit**, as long as the block it creates ends at or below the
limit. -/
theorem kmalloc_refines (h : IsHeap L lim m ns) (hn : 0 < n) (hn' : n < 2 ^ 32)
    (hlim : lim < 2 ^ 32) {p : Nat} {m' : Mem} (hk : kmalloc L m n = some (p, m'))
    (hb : p + n ≤ lim) :
    ∃ q ns', p = q + headerSize ∧
      FirstFit.malloc headerSize L.heapStart L.heapEnd n ns = some (q, ns') ∧
      IsHeap L lim m' ns' ∧ ∀ a, ¬ kmallocWrites ns n a → m' a = m a := by
  obtain ⟨pre, z, hz, hend⟩ := h.exists_last
  cases hx : ns.find? (FirstFit.fits n) with
  | some x =>
      rw [kmalloc_reuse h hx] at hk
      obtain ⟨rfl, rfl⟩ : x.addr + headerSize = p ∧ store32 m (x.addr + 4) 0 = m' := by
        simpa using hk
      refine ⟨x.addr, FirstFit.setFree x.addr false ns, rfl, by simp [FirstFit.malloc, hx],
        isHeap_setFree h (List.mem_of_find?_eq_some hx) false, fun a ha => ?_⟩
      simp only [kmallocWrites, hx] at ha
      exact store32_of_outside (by omega)
  | none =>
      rw [kmalloc_append h hx hz hn hlim] at hk
      split at hk
      case isFalse => cases hk
      case isTrue hlt =>
          obtain ⟨rfl, rfl⟩ : z.fin headerSize + headerSize = p ∧
              appended m z.addr (z.fin headerSize) n = m' := by
            simpa using hk
          refine ⟨z.fin headerSize, ns ++ [⟨z.fin headerSize, n, false⟩], rfl,
            by simp [FirstFit.malloc, hx, hend, hlt], isHeap_append h hz hn' hlt hb,
            fun a ha => ?_⟩
          simp only [kmallocWrites, hx] at ha
          have hlast : ns.getLast? = some z := by simp [hz]
          have hout := not_or.mp (fun hc => ha ⟨z, hlast, hc⟩)
          have h16 : headerSize = 16 := rfl
          exact appended_of_outside (by omega) (by omega)

/-- **`kfree` refines release** on every node in use whose payload starts below `HEAP_END`. -/
theorem kfree_refines (h : IsHeap L lim m ns) (hx : x ∈ ns)
    (hlt : x.addr + headerSize < L.heapEnd) :
    ∃ m', kfree L m (x.addr + headerSize) = some m' ∧
      IsHeap L lim m' (FirstFit.release x.addr ns) ∧
      ∀ a, ¬ (x.addr + 4 ≤ a ∧ a < x.addr + 8) → m' a = m a :=
  ⟨_, kfree_node h hx hlt, isHeap_setFree h hx true,
    fun _ ha => store32_of_outside (by omega)⟩

end

end DayOS
