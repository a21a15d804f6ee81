import DayOS.HeapBounds

set_option autoImplicit false

/-! # The boot self-test's law

Blocks are asked for, given back in any order, and asked for again. The heap hands out the same
blocks, and its chain is as long as after the first time. This is a fact about first fit
(`FirstFit.mallocAll_replay`); here it is carried over to the bytes.
-/

namespace DayOS

open ByteMemory Linked

/-- `kmalloc` of the sizes, one after the other. -/
def kmallocAll (L : Layout) : Mem → List Nat → Option (List Nat × Mem)
  | m, [] => some ([], m)
  | m, n :: sizes => do
      let (p, m) ← kmalloc L m n
      let (ps, m) ← kmallocAll L m sizes
      return (p :: ps, m)

/-- `kfree` of the blocks, one after the other. -/
def kfreeAll (L : Layout) : Mem → List Nat → Option Mem
  | m, [] => some m
  | m, p :: ps => do
      let m ← kfree L m p
      kfreeAll L m ps

/-- Where the payload of a node starts. -/
def payloadAt (q : Nat) : Nat := q + headerSize

section
variable {L : Layout} {m m' : Mem} {ns ns' : List FirstFit.Node} {live : List Block}
  {sizes ps qs : List Nat} {n p : Nat}

/-- A request whose block ends inside the heap had room. -/
theorem HeapRow.room (h : HeapRow L m ns live) (hn : 0 < n) (hk : kmalloc L m n = some (p, m'))
    (hfin : p + n ≤ L.heapEnd) : Room L ns n := by
  have hL := L.heapEnd_le
  by_cases hfit : ∃ x ∈ ns, FirstFit.fits n x = true
  · exact Or.inl hfit
  · obtain ⟨pre, z, hz, -, hend, -⟩ := h.heap.last
    rw [kmalloc_append h.heap (find_none hfit) hz hn (by omega)] at hk
    split at hk
    case isTrue =>
        cases hk
        exact Or.inr ⟨by omega, Or.inr (by rw [hend]; exact hfin)⟩
    case isFalse => cases hk

/-- The requests, as first fit serves them. -/
theorem kmallocAll_row (h : HeapRow L m ns live) (hsizes : ∀ n ∈ sizes, 0 < n ∧ n < 2 ^ 32)
    (hk : kmallocAll L m sizes = some (ps, m'))
    (hfin : ∀ b ∈ List.zipWith Block.mk ps sizes, b.addr + b.size ≤ L.heapEnd) :
    ∃ qs ns' live', ps = qs.map payloadAt ∧
      FirstFit.mallocAll headerSize L.heapStart L.heapEnd sizes ns = some (qs, ns') ∧
      HeapRow L m' ns' live' ∧
      (∀ b, b ∈ live' ↔ b ∈ List.zipWith Block.mk ps sizes ∨ b ∈ live) ∧
      ∀ q ∈ qs, ∃ b ∈ live', b.addr = payloadAt q ∧ 0 < b.size := by
  induction sizes generalizing m ns live ps with
  | nil =>
      cases hk
      exact ⟨[], ns, live, rfl, rfl, h, fun b => by simp, fun q hq => absurd hq (by simp)⟩
  | cons n sizes ih =>
      unfold kmallocAll at hk
      simp only [Option.bind_eq_bind, Option.bind_eq_some_iff, Prod.exists, Option.pure_def,
        Option.some.injEq, Prod.mk.injEq] at hk
      obtain ⟨p, m₁, hp, ps, m₂, hps, rfl, rfl⟩ := hk
      obtain ⟨hpos, hlt⟩ := hsizes n List.mem_cons_self
      have hroom := h.room hpos hp (hfin ⟨p, n⟩ List.mem_cons_self)
      obtain ⟨q, ns₁, rfl, hm, hrow⟩ := h.malloc hlt hroom hp
      obtain ⟨qs, ns', live', rfl, hms, hrow', hlive, hheld⟩ := ih hrow
        (fun k hk => hsizes k (List.mem_cons_of_mem _ hk)) hps
        (fun b hb => hfin b (List.mem_cons_of_mem _ hb))
      refine ⟨q :: qs, ns', live', rfl, ?_, hrow', fun b => ?_, fun q' hq' => ?_⟩
      · rw [FirstFit.mallocAll, hm, Option.bind_some]
        show Option.map _ (FirstFit.mallocAll _ _ _ sizes ns₁) = _
        rw [hms]
        rfl
      · rw [hlive b, List.mem_cons, List.zipWith_cons_cons, List.mem_cons]
        exact or_left_comm.trans (or_assoc.symm)
      · rcases List.mem_cons.mp hq' with rfl | hq'
        · exact ⟨_, (hlive _).mpr (Or.inr List.mem_cons_self), rfl, hpos⟩
        · exact hheld q' hq'

/-- Where first fit serves the requests inside the heap, `kmalloc` does. -/
theorem kmallocAll_returns (h : IsHeap L L.heapEnd m ns)
    (hsizes : ∀ n ∈ sizes, 0 < n ∧ n < 2 ^ 32)
    (hm : FirstFit.mallocAll headerSize L.heapStart L.heapEnd sizes ns = some (qs, ns'))
    (hend : FirstFit.endOf headerSize L.heapStart ns' ≤ L.heapEnd) :
    ∃ m', kmallocAll L m sizes = some (qs.map payloadAt, m') ∧ IsHeap L L.heapEnd m' ns' := by
  have hL := L.heapEnd_le
  induction sizes generalizing m ns qs with
  | nil =>
      cases hm
      exact ⟨m, rfl, h⟩
  | cons n sizes ih =>
      obtain ⟨q, ns₁, qs, hq, hqs, rfl⟩ := FirstFit.mallocAll_cons hm
      obtain ⟨hpos, hlt⟩ := hsizes n List.mem_cons_self
      cases hk : kmalloc L m n with
      | none =>
          rw [kmalloc_eq_none_iff h hpos (by omega), hq] at hk
          cases hk
      | some r =>
          obtain ⟨p, m₁⟩ := r
          -- the node it takes ends before the row does
          have hfin : p + n ≤ L.heapEnd := by
            cases hx : ns.find? (FirstFit.fits n) with
            | some x =>
                rw [kmalloc_reuse h hx] at hk
                cases hk
                have hbound := h.bound x (List.mem_of_find?_eq_some hx)
                have hfit := List.find?_some hx
                simp only [FirstFit.fits, Bool.and_eq_true, decide_eq_true_eq] at hfit
                simp only [FirstFit.Node.fin] at hbound
                omega
            | none =>
                obtain ⟨pre, z, hz, -, hlast, -⟩ := h.last
                rw [kmalloc_append h hx hz hpos (by omega)] at hk
                split at hk
                case isTrue =>
                    cases hk
                    have hgrown := (FirstFit.malloc_endOf hq).2 hx
                    have := FirstFit.mallocAll_endOf hqs
                    omega
                case isFalse => cases hk
          obtain ⟨q', ns₂, rfl, hq', hheap, -⟩ := kmalloc_refines h hpos hlt (by omega) hk hfin
          rw [hq] at hq'
          cases hq'
          obtain ⟨m', hrest, hheap'⟩ := ih hheap
            (fun k hk => hsizes k (List.mem_cons_of_mem _ hk)) hqs
          refine ⟨m', ?_, hheap'⟩
          simp only [kmallocAll, hk, hrest, Option.bind_eq_bind, Option.bind_some]
          rfl

theorem kfreeAll_returns (h : IsHeap L L.heapEnd m ns)
    (hqs : ∀ q ∈ qs, ∃ x ∈ ns, x.addr = q ∧ x.addr + headerSize < L.heapEnd) :
    ∃ m', kfreeAll L m (qs.map payloadAt) = some m' ∧
      IsHeap L L.heapEnd m' (FirstFit.releaseAll qs ns) := by
  induction qs generalizing m ns with
  | nil => exact ⟨m, rfl, h⟩
  | cons q qs ih =>
      obtain ⟨x, hx, rfl, hlt⟩ := hqs q List.mem_cons_self
      obtain ⟨m₁, hk, hheap, -⟩ := kfree_refines h hx hlt
      obtain ⟨m', hrest, hheap'⟩ := ih hheap (fun q' hq' => by
        obtain ⟨y, hy, rfl, hlt'⟩ := hqs q' (List.mem_cons_of_mem _ hq')
        refine ⟨_, FirstFit.mem_setFree.mpr ⟨y, hy, rfl⟩, FirstFit.Node.mark_addr, ?_⟩
        rw [FirstFit.Node.mark_addr]
        exact hlt')
      refine ⟨m', ?_, hheap'⟩
      show (kfree L m (x.addr + headerSize)).bind _ = _
      rw [hk]
      exact hrest

/-- A list of payloads is one of headers. -/
theorem payloads_perm {rs : List Nat} (hperm : rs.Perm (qs.map payloadAt)) :
    ∃ rs' : List Nat, rs = rs'.map payloadAt ∧ rs'.Perm qs := by
  have hsub : ∀ q, payloadAt q - headerSize = q := fun q => Nat.add_sub_cancel q headerSize
  have hback : (qs.map payloadAt).map (fun p => p - headerSize) = qs := by
    rw [List.map_map]
    exact (List.map_congr_left (fun q _ => hsub q)).trans (List.map_id qs)
  refine ⟨rs.map (fun p => p - headerSize), ?_, ?_⟩
  · rw [List.map_map]
    refine (List.map_id rs).symm.trans (List.map_congr_left (fun p hp => ?_))
    obtain ⟨q, -, rfl⟩ := List.mem_map.mp (hperm.mem_iff.mp hp)
    show payloadAt q = payloadAt (payloadAt q - headerSize)
    rw [hsub]
  · rw [← hback]
    exact hperm.map _

/-! ## A request that wraps around -/

/-- Nothing on the chain fits, and a header is written behind its last node. -/
theorem kmalloc_behind (pre : List FirstFit.Node) (z : FirstFit.Node)
    (hc : Chain (nodeNext m) L.heapStart ((pre ++ [z]).map FirstFit.Node.addr))
    (hnode : ∀ x ∈ pre ++ [z], NodeAt m x) (hbelow : ∀ x ∈ pre ++ [z], x.addr < L.heapEnd)
    (hlen : (pre ++ [z]).length < walkLimit) (hno : (pre ++ [z]).find? (FirstFit.fits n) = none)
    (hn : 0 < n) (hz : z.fin headerSize < L.heapEnd) :
    kmalloc L m n = some (blockStart (z.fin headerSize), appended m z.addr (z.fin headerSize) n) := by
  have hL := L.heapEnd_le
  have hmem : z ∈ pre ++ [z] := List.mem_append_right pre (List.mem_singleton_self z)
  have hz0 : z.addr ≠ NULL := hc.ne_zero_of_mem (List.mem_map_of_mem hmem)
  have hscan := (kmallocScan_eq L.heapStart hc hnode hbelow hlen).2 hno
  rw [List.map_append, List.map_singleton, List.getLastD_concat] at hscan
  have hcreate := kcreateBlock_eq (L := L) (hnode z hmem) hz0 hn (by omega)
  rw [if_pos hz] at hcreate
  rw [kmalloc, hscan]
  simp only [Option.bind_eq_bind, Option.bind_some, ne_eq, not_true, if_false, hcreate]
  rfl

/-- **Replay stability.** Blocks served inside a reachable heap, written to and given back in any
order, are served again in the same places, and the chain of the heap is the same. -/
theorem replay_stable {m₁ m₂ : Mem} {rs : List Nat} (hrun : RoomyRun L m live)
    (hsizes : ∀ n ∈ sizes, 0 < n ∧ n < 2 ^ 32) (hfirst : kmallocAll L m sizes = some (ps, m₁))
    (hfin : ∀ b ∈ List.zipWith Block.mk ps sizes, b.addr + b.size ≤ L.heapEnd)
    (hwrite : ∀ a, (∀ b ∈ List.zipWith Block.mk ps sizes ++ live, ¬ b.Has a) → m₂ a = m₁ a)
    (hperm : rs.Perm ps) :
    ∃ m₃ m₄, kfreeAll L m₂ rs = some m₃ ∧ kmallocAll L m₃ sizes = some (ps, m₄) ∧
      ∃ nodes, Chain (nodeNext m₁) L.heapStart nodes ∧ Chain (nodeNext m₄) L.heapStart nodes := by
  obtain ⟨ns, hrow⟩ := hrun.row
  obtain ⟨qs, ns', live', rfl, hm, hrow', hlive, hheld⟩ := kmallocAll_row hrow hsizes hfirst hfin
  obtain ⟨rs, rfl, hperm'⟩ := payloads_perm hperm
  have hrow₂ : HeapRow L m₂ ns' live' := hrow'.write (fun a ha => hwrite a (fun b hb => by
    rw [List.mem_append, ← hlive b] at hb
    exact ha b hb))
  -- every block handed out is the payload of a node
  have hnodes : ∀ q ∈ rs, ∃ x ∈ ns', x.addr = q ∧ x.addr + headerSize < L.heapEnd := by
    intro q hq
    obtain ⟨b, hb, hbq, hpos⟩ := hheld q (hperm'.mem_iff.mp hq)
    obtain ⟨x, hx, -, hbx, hsize⟩ := hrow'.serves.node b hb
    have hxq : x.addr = q := by
      rw [hbq] at hbx
      exact (Nat.add_right_cancel hbx).symm
    have hbound := hrow'.heap.bound x hx
    simp only [FirstFit.Node.fin] at hbound
    exact ⟨x, hx, hxq, by omega⟩
  obtain ⟨m₃, hfree, hheap₃⟩ := kfreeAll_returns hrow₂.heap hnodes
  obtain ⟨extra, hrelease, -, hagain⟩ := FirstFit.mallocAll_replay hrow.heap.laid (by decide) hm
  rw [FirstFit.releaseAll_perm hperm', hrelease] at hheap₃
  have hend : FirstFit.endOf headerSize L.heapStart ns' ≤ L.heapEnd := by
    obtain ⟨pre, z, hz, -, hlast, -⟩ := hrow'.heap.last
    rw [hlast]
    exact hrow'.heap.bound z (by rw [hz]; exact List.mem_append_right pre (List.mem_singleton_self z))
  obtain ⟨m₄, hsecond, hheap₄⟩ := kmallocAll_returns hheap₃ hsizes hagain hend
  exact ⟨m₃, m₄, hfree, hsecond, _, hrow'.heap.chain, hheap₄.chain⟩

/-- The self-test: 15 and 12 bytes on a fresh heap, given back the other way round. -/
theorem replay_stable_selfTest : ∃ m₁ m₃ m₄ : Mem,
    kmallocAll Layout.least (kinitHeap Layout.least (fun _ => 0)) [15, 12] =
      some ([0x301020, 0x30103F], m₁) ∧
    kfreeAll Layout.least m₁ [0x30103F, 0x301020] = some m₃ ∧
    kmallocAll Layout.least m₃ [15, 12] = some ([0x301020, 0x30103F], m₄) := by
  have hS := Layout.least.heapEnd_eq
  have h16 : headerSize = 16 := rfl
  have hsizes : ∀ n ∈ [15, 12], 0 < n ∧ n < 2 ^ 32 := by decide
  have hheap : IsHeap Layout.least Layout.least.heapEnd (kinitHeap Layout.least (fun _ => 0))
      [⟨Layout.least.heapStart, 0, true⟩] := (heapState_init _ (by omega)).heap
  have hm : FirstFit.mallocAll headerSize Layout.least.heapStart Layout.least.heapEnd [15, 12]
      [⟨Layout.least.heapStart, 0, true⟩] = some ([0x301010, 0x30102F],
        [⟨0x301000, 0, true⟩, ⟨0x301010, 15, false⟩, ⟨0x30102F, 12, false⟩]) := by decide
  obtain ⟨m₁, hfirst, -⟩ := kmallocAll_returns hheap hsizes hm (by decide)
  have hsame : ∀ a, (∀ b ∈ List.zipWith Block.mk [0x301020, 0x30103F] [15, 12] ++ [],
      ¬ b.Has a) → m₁ a = m₁ a := fun _ _ => rfl
  have hperm : [0x30103F, 0x301020].Perm [0x301020, 0x30103F] := by decide
  obtain ⟨m₃, m₄, hfree, hsecond, -⟩ := replay_stable (RoomyRun.init _) hsizes hfirst (by decide)
    hsame hperm
  exact ⟨m₁, m₃, m₄, hfirst, hfree, hsecond⟩

/-- The chain behind the two requests: the last header lies in the middle of the heap and holds no
size, since the stores of `kcreate_block` went over the link that leads to it. -/
def strayNodes : List FirstFit.Node :=
  [⟨0x301000, 0, true⟩, ⟨0x301010, 2 ^ 32 - 12, false⟩, ⟨0x400000, 0, true⟩]

/-- A heap that has been asked for `2 ^ 32 - 12` bytes serves 4 MB inside its range. Given back and
asked for again, the same bytes are served elsewhere, and the chain grows. -/
theorem replay_stable_fails : ∃ m m₁ m₃ m₄ : Mem,
    HeapUse Layout.least AnySize (fun _ => 0) m [⟨0x301020, 2 ^ 32 - 12⟩] ∧
    kmallocAll Layout.least m [0x400000] = some ([0x400010], m₁) ∧
    0x400010 + 0x400000 ≤ Layout.least.heapEnd ∧
    kfreeAll Layout.least m₁ [0x400010] = some m₃ ∧
    kmallocAll Layout.least m₃ [0x400000] = some ([0x400020], m₄) ∧
    Chain (nodeNext m₁) Layout.least.heapStart [0x301000, 0x301010, 0x400000] ∧
    Chain (nodeNext m₄) Layout.least.heapStart [0x301000, 0x301010, 0x400000, 0x400010] := by
  obtain ⟨m, hlarge, hserved⟩ := kmalloc_twice (n := 0x400000) Layout.least (fun _ => 0) (by decide)
    (by decide) (by decide)
  set m₁ := strayed Layout.least (fun _ => 0) 0x400000 with hm₁
  have hfree : kfree Layout.least m₁ 0x400010 = some (store32 m₁ 0x400004 1) := by
    have hmagic : nodeMagic m₁ 0x400000 = MAGIC := by decide
    rw [kfree, if_neg (by decide), if_neg (by decide)]
    exact if_neg (not_not.mpr hmagic)
  set m₃ := store32 m₁ 0x400004 1 with hm₃
  have hchain : Chain (nodeNext m₃) Layout.least.heapStart
      (strayNodes.map FirstFit.Node.addr) := by decide
  have hagain := kmalloc_behind (L := Layout.least) (m := m₃) (n := 0x400000)
    [⟨0x301000, 0, true⟩, ⟨0x301010, 2 ^ 32 - 12, false⟩] ⟨0x400000, 0, true⟩ hchain
    (fun x hx => by fin_cases hx <;> exact ⟨by decide, by decide, by decide⟩)
    (by decide) (by decide) (by decide) (by decide) (by decide)
  refine ⟨m, m₁, m₃, appended m₃ 0x400000 0x400010 0x400000,
    .malloc .init (by decide) trivial hlarge, ?_, by decide, ?_, ?_, ?_, ?_⟩
  · simp only [kmallocAll, hserved, Option.bind_eq_bind, Option.bind_some]
    rfl
  · simp only [kfreeAll, hfree, Option.bind_eq_bind, Option.bind_some]
  · simp only [kmallocAll, hagain, Option.bind_eq_bind, Option.bind_some]
    rfl
  · decide
  · decide

end

end DayOS
