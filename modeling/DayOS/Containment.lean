import DayOS.Loaded

set_option autoImplicit false

/-! # How far an image reaches

`ParseElf` believes what the program headers say. While the segments lie under words that the
kernel's directory does not use, and are no larger in the image than in memory, a round changes
the new context only, and writes into frames it has taken for the pages of its segment, besides
the context's tables and the temporary block (`elf_containment`).

A context shares the kernel's tables, though. A segment at a low address gets its frames through
them, and the page is replaced for the kernel as well.
-/

namespace DayOS

open ByteMemory Linked Paging

/-- The bytes that a round for the header `P` has changed, outside the heap and the tables of
`c`, are where `c` finds addresses of the segment, in frames that were free before the round. -/
def Confined (L : Layout) (c : Nat) (P : Program) (K K' : Kernel Pmm) : Prop :=
  ∀ x, (x < L.heapStart ∨ L.heapEnd ≤ x) → ¬ OwnTable K'.mem c (x / 0x1000) →
    K'.mem x ≠ K.mem x → ∃ va < 2 ^ 32, P.Page (va / 0x1000) ∧
      translate K'.mem (pagedir K'.mem c) va = some x ∧ ¬ K.frames.Used (x / 0x1000) ∧
      K'.frames.Used (x / 0x1000)

section
variable {L : Layout} {cs : List Nat} {KC c d addr program count entry : Nat} {R : Nat → Prop}
  {Ps : Nat → Program} {P : Program} {K K' : Kernel Pmm} {m m' : Mem} {s s' : Pmm}
  {live : List Block}

/-! ## One round -/

theorem RoundDone.confined (h : RoundDone L c R addr P K K')
    (hend : P.Loads addr → P.vaddr + P.msize ≤ 0xFFFFF000) : Confined L c P K K' := by
  intro x hx hno hne
  by_cases hl : P.Loads addr
  · obtain ⟨f, hplaced, -⟩ := h.places hl
    -- the byte lies in the frame of one of the segment's pages
    by_cases hframe : ∃ v, InRange P.vaddr (P.vaddr + P.msize) v ∧ f v = x / 0x1000
    · obtain ⟨v, hv, hfx⟩ := hframe
      obtain ⟨-, hfree, hused⟩ := hplaced.frame v hv
      have hlt := hv.2
      have hend' := hend hl
      have hpage : (0x1000 * v + x % 0x1000) / 0x1000 = v := by omega
      have hbyte : (0x1000 * v + x % 0x1000) % 0x1000 = x % 0x1000 := by omega
      have hmapped := hplaced.mapped (0x1000 * v + x % 0x1000) (by omega) (by rwa [hpage])
      rw [hpage, hbyte, hfx, Nat.div_add_mod] at hmapped
      rw [hfx] at hfree hused
      exact ⟨_, by omega, by rwa [hpage], hmapped, hfree, hused⟩
    · exact absurd (hplaced.writes x hx hno (fun v hv he => hframe ⟨v, hv, he⟩)) hne
  · rw [h.skips hl] at hne
    exact absurd rfl hne

/-! ## The law -/

/-- **`ParseElf` stays inside the new context**, for an image whose headers stay what they are
and whose segments are no larger in the image than in memory and lie below the last page, under
words that the kernel's directory does not use, when the temporary blocks end inside the heap.
Behind any number of its rounds, no other context has changed, and the next round is confined to
its segment. -/
theorem elf_containment (h : ContextsApart L K.mem K.frames cs) (hK : KC ∈ cs)
    (hcur : K.currentContext ∈ cs) (hmapped : ∀ x ∈ cs, ∀ a, L.heapStart ≤ a → a < L.heapEnd →
      translate K.mem (pagedir K.mem x) a = some a) (hheap : HeapReached L K.mem live)
    (hcreate : createUsermodeContext L KC K.mem K.frames = .ok (c, m, s))
    (himg : Image { K with mem := m, frames := s } addr program count entry Ps)
    (hld : Loadable L KC c { K with mem := m, frames := s } addr program count Ps)
    (hfit : BuffersFit L m (bufferSizes addr Ps 0 count)) :
    parseElf L (kernelHeap L) { K with mem := m, frames := s } addr c = (do
      let K' ← rounds L (kernelHeap L) addr c program count { K with mem := m, frames := s }
      return (entry, K')) ∧
    ∀ n ≤ count, ∀ K', rounds L (kernelHeap L) addr c program n
        { K with mem := m, frames := s } = .ok K' →
      (∀ x ∈ cs, ∀ va < 2 ^ 32, translate K'.mem (pagedir K'.mem x) va =
        translate m (pagedir m x) va) ∧
      (n < count → ∀ K'', loadProgram L (kernelHeap L) addr c (programAt program n) K' = .ok K'' →
        Confined L c (Ps n) K' K'') := by
  obtain ⟨d, hnew⟩ := createUsermodeContext_new (h.walkable KC hK) hcreate
  have hspaces := LoaderSpaces.create h hK hcur hmapped hnew
  -- the heap is not touched by the new context
  have hreached : HeapReached L m live := by
    obtain ⟨m₀, hrun, hm⟩ := hheap
    refine ⟨m₀, hrun, fun x hx hx' => ?_⟩
    have hc := hnew.context.below
    have hd := hnew.dir.below
    rw [hnew.keeps x (by omega) (by omega)]
    exact hm x hx hx'
  obtain ⟨ns, hstate, hroot⟩ := hreached.rooted
  have hl : Loader L KC (c :: cs) c { K with mem := m, frames := s } ns live :=
    ⟨hspaces, hstate, hroot⟩
  refine ⟨hl.parseElf himg hld hfit, fun n hn K' hK' => ?_⟩
  have hafter := hl.afterRounds himg hld hfit hn hK'
  refine ⟨fun x hx va hva => ?_, fun hlt K'' hround => ?_⟩
  · have hne : x ≠ c := fun he =>
      hnew.contextFree (he ▸ (h.walkable x hx).contextUsed)
    exact (hafter.keeps.others x (List.mem_cons_of_mem c hx) hne).translates hva
  · rcases hafter.step himg hld hl.current hlt with ⟨fault, he, -⟩ | ⟨K₂, hok, -, -, hdone⟩
    · rw [he] at hround
      cases hround
    · rw [hok] at hround
      cases hround
      exact hdone.confined (hld.stop n hlt)

/-- Four bytes at the start of the user space leave the kernel's space as it is. -/
theorem elf_containment_first : ∃ KC c : Nat, ∃ K : Kernel Pmm, ∃ m s,
    createUsermodeContext Layout.least KC K.mem K.frames = .ok (c, m, s) ∧
    ∀ K', rounds Layout.least (kernelHeap Layout.least) 0x2000 c 0x2034 1
        { K with mem := m, frames := s } = .ok K' →
      ∀ va < 2 ^ 32, translate K'.mem (pagedir K'.mem KC) va = translate m (pagedir m KC) va := by
  have hend : Layout.least.heapEnd = 0x1701000 := rfl
  obtain ⟨KC, m₁, s₁, c, d, m, s, h⟩ := exists_firstContext
    (kinitHeap Layout.least (imageMem (wholeImage 4 8))) imagePmm
    (le_trans poolCount_imagePmm (by decide))
  have hKC := List.mem_singleton_self KC
  obtain ⟨-, hround⟩ := elf_containment (K := idleKernel KC m₁ s₁) h.contexts hKC hKC
    (fun x hx a _ ha => by
      obtain rfl := List.mem_singleton.mp hx
      exact h.identity₁ (by omega))
    ⟨_, HeapRun.init _, h.bytes₁⟩ h.create (h.image kinitHeap_image (by decide))
    (h.goodImage (by decide) (by decide)).loadable (h.buffersFit (by decide) (by decide))
  refine ⟨KC, c, idleKernel KC m₁ s₁, m, s, h.create, fun K' hK' => ?_⟩
  exact (hround 1 le_rfl K' hK').1 KC hKC

end

/-! ## A segment at a low address -/

section
variable {L : Layout} {KC c d dK v w t va : Nat} {m m' : Mem} {s s' : Pmm}

/-- A word stored in a shared table is stored for the other directory too. -/
theorem StoresWord.shared (h : StoresWord L m s d v w 7 t m' s') (hK : L.PoolPage dK)
    (hd : L.PoolPage d) (hne : dK ≠ d) (hnet : dK ≠ t) (hv : v / 1024 < 1024)
    (hword : entry m dK (v / 1024) = entry m d (v / 1024)) (hodd : entry m d (v / 1024) % 2 = 1)
    {u : Nat} (hu : u / 1024 = v / 1024) :
    pte m' dK u = Function.update (pte m dK) v w u := by
  have hapd := hK.apart hd hne
  have hapt := hK.apart h.table hnet
  have hsame : entry m' dK (v / 1024) = entry m dK (v / 1024) :=
    entry_congr (fun x _ _ => h.keeps x (by omega) (by omega))
  have htable : frameBase (entry m d (v / 1024)) = t := by
    rcases h.pages with ⟨-, ht, -⟩ | ⟨heven, -⟩
    · exact ht
    · omega
  have hafter : pte m' dK u = entry m' t (u % 1024) := by
    rw [pte_of_entry (by rw [hu, hsame, hword]) hodd, htable]
  have hbefore : pte m dK u = entry m t (u % 1024) := by
    rw [pte_of_entry (by rw [hu, hword]) hodd, htable]
  rw [hafter, h.words _ (Nat.mod_lt _ (by decide))]
  by_cases huv : u = v
  · rw [huv, if_pos rfl, Function.update_self]
  · rw [if_neg (by omega), if_neg (by omega), Function.update_of_ne huv, hbefore]

/-- For one byte, `vmm_alloc` takes one frame and maps one page. -/
theorem vmmAlloc_one (hva : va ≤ 0xFFFFE000) (h : vmmAlloc L m s c va 1 = .ok (m', s')) :
    ∃ q, L.heapEnd ≤ 0x1000 * q ∧ q < 2 ^ 20 ∧
      mapPage L m (use s (0x1000 * q)) c va (0x1000 * q) 1 = .ok (m', s') := by
  have hlimit : walkLimit = 0xFFFFFFFF + 1 := rfl
  have hnext : (va + PAGESIZE) % 2 ^ 32 = va + 0x1000 := Nat.mod_eq_of_lt (by
    simp only [PAGESIZE]
    omega)
  unfold vmmAlloc at h
  rw [Nat.mod_eq_of_lt (by omega), hlimit, vmmAllocLoop, if_pos (Nat.lt_succ_self va)] at h
  obtain ⟨⟨phys, s₁⟩, hframe, h⟩ := bind_eq_ok.mp h
  obtain ⟨⟨m₂, s₂⟩, hmap, hrest⟩ := bind_eq_ok.mp h
  rw [hnext] at hrest
  obtain ⟨rfl, rfl⟩ := vmmAllocLoop_stop (by omega) hrest
  obtain ⟨q, ⟨⟨hhigh, hlt⟩, -⟩, rfl, rfl⟩ := userFrame_ok hframe
  exact ⟨q, hhigh, hlt, hmap⟩

/-- A context is walkable as long as its page and its directory stay as they are. -/
theorem Walkable.congr (h : Walkable L m s c d) (hc : AgreeOn m m' c 0x1000)
    (hd : AgreeOn m m' d 0x1000) (hs : ∀ r, s.Used r → s'.Used r) : Walkable L m' s' c d := by
  have hwords : ∀ i < 1024, entry m' d i = entry m d i := fun i hi =>
    entry_congr (hd.mono (by omega) (by omega))
  refine ⟨h.context, h.dir, hs _ h.contextUsed, hs _ h.dirUsed, h.ne, ?_, fun i hi hodd => ?_,
    fun i hi j hj hodd hodd' he => ?_⟩
  · rw [← h.pagedir]
    exact load32_congr (hc.mono le_rfl (by omega))
  · rw [hwords i hi] at hodd ⊢
    obtain ⟨hp, hu, hne⟩ := h.tables i hi hodd
    exact ⟨hp, hs _ hu, hne⟩
  · rw [hwords i hi] at hodd he
    rw [hwords j hj] at hodd' he
    exact h.inj i hi j hj hodd hodd' he

end

/-- A segment of one zero in the page behind the null page. -/
def lowSegment : Program := ⟨1, 0, 0x1000, 0, 1⟩

section
variable {m₀ m₁ m : Mem} {s₀ s₁ s : Pmm} {KC c d : Nat}

theorem FirstContext.room (h : FirstContext m₀ imagePmm KC m₁ s₁ c d m s) :
    1 ≤ framesLeft Layout.least s := by
  have hend : Layout.least.heapEnd = 0x1701000 := rfl
  refine le_framesLeft (fun j hj => ?_)
  rw [hend, h.frames _ (by omega), used_imagePmm]
  omega

/-- In the new context the page behind the null page is mapped in the kernel's table. -/
theorem FirstContext.lowWord (h : FirstContext m₀ s₀ KC m₁ s₁ c d m s) :
    entry m (pagedir m KC) 0 = entry m (pagedir m c) 0 ∧ entry m (pagedir m c) 0 % 2 = 1 := by
  have hsame : entry m (pagedir m KC) 0 = entry m (pagedir m c) 0 := by
    rw [h.sameWalks.dir, h.sameWalks.words 0 (by decide), h.new.pagedir, h.new.words 0 (by decide)]
  have hodd : entry m (pagedir m KC) (0x1000 / 0x1000 / 1024) % 2 = 1 :=
    odd_of_translate (h.identity (by decide))
  exact ⟨hsame, hsame ▸ hodd⟩

/-- `vmm_alloc` for the low segment replaces a page of the kernel. -/
theorem FirstContext.lowPage (h : FirstContext m₀ imagePmm KC m₁ s₁ c d m s) {m' : Mem}
    (hsame : ∀ x ∈ [c, KC], SameWalks m m' x) : ∃ q m₃ s₃,
      vmmAlloc Layout.least m' s c 0x1000 1 = .ok (m₃, s₃) ∧ 0x1701000 ≤ 0x1000 * q ∧
      Walkable Layout.least m₃ s₃ c (pagedir m₃ c) ∧
      Walkable Layout.least m₃ s₃ KC (pagedir m₃ KC) ∧
      translate m₃ (pagedir m₃ c) 0x1000 = some (0x1000 * q) ∧
      (∀ v < 1024, pte m₃ (pagedir m₃ KC) v =
        Function.update (pte m (pagedir m KC)) 1 (0x1000 * q + 7) v) ∧
      ∀ x, (x < 0x101000 ∨ 0x301000 ≤ x) → m₃ x = m' x := by
  have hstart : Layout.least.pagepoolStart = 0x101000 := rfl
  have hheap : Layout.least.heapStart = 0x301000 := rfl
  have hpage : 0x1000 / 0x1000 = 1 := rfl
  have hflags : mapFlags 1 = 7 := rfl
  have hs := h.spaces
  have hsK := hsame KC hs.kernel
  have hsc := hsame c hs.target
  obtain ⟨m₃, s₃, halloc, -⟩ := vmmAlloc_returns m' s c 0x1000 1 1 (by decide) (by decide)
    (by decide) h.room (by
      have := h.pool
      omega)
  obtain ⟨q, hhigh, hlt, hmap⟩ := vmmAlloc_one (by decide) halloc
  have hmono : ∀ r, s.Used r → (use s (0x1000 * q)).Used r := fun r hu =>
    use_page.mpr (Or.inr hu)
  have hw : Walkable Layout.least m' (use s (0x1000 * q)) c (pagedir m' c) :=
    hsc.walkable (hs.contexts.walkable c hs.target) (fun p _ hu => hmono _ hu)
  have hwK : Walkable Layout.least m' (use s (0x1000 * q)) KC (pagedir m' KC) :=
    hsK.walkable (hs.contexts.walkable KC hs.kernel) (fun p _ hu => hmono _ hu)
  obtain ⟨-, -, ⟨t, hst⟩, hw₃, hpte⟩ := mapPage_walk hw (by decide) (by omega) hmap
  rw [hpage, hflags] at hst hpte
  -- the table is the kernel's
  obtain ⟨hword, hodd⟩ := h.lowWord
  have hwordK : entry m' (pagedir m' KC) 0 = entry m (pagedir m KC) 0 := by
    rw [hsK.dir]
    exact hsK.words 0 (by decide)
  have hwordc : entry m' (pagedir m' c) 0 = entry m (pagedir m c) 0 := by
    rw [hsc.dir]
    exact hsc.words 0 (by decide)
  have hshared : entry m' (pagedir m' KC) (1 / 1024) = entry m' (pagedir m' c) (1 / 1024) :=
    hwordK.trans (hword.trans hwordc.symm)
  have hodd' : entry m' (pagedir m' c) (1 / 1024) % 2 = 1 := (congrArg (· % 2) hwordc).trans hodd
  have htable : frameBase (entry m' (pagedir m' c) (1 / 1024)) = t := by
    rcases hst.pages with ⟨-, ht, -⟩ | ⟨heven, -⟩
    · exact ht
    · omega
  obtain ⟨-, -, hnet, hnetd⟩ := hwK.tables (1 / 1024) (by decide) (hshared ▸ hodd')
  rw [hshared, htable] at hnet hnetd
  -- the context's page and directory and the kernel's are different pages
  obtain ⟨hdd, hcd, -⟩ := hs.contexts.apart KC hs.kernel c hs.target hs.ne
  have hdd' : pagedir m' KC ≠ pagedir m' c := by
    rw [hsK.dir, hsc.dir]
    exact hdd
  have hcd' : KC ≠ pagedir m' c := by
    rw [hsc.dir]
    exact hcd
  have hkeep : ∀ p, Layout.least.PoolPage p → p ≠ pagedir m' c → p ≠ t →
      AgreeOn m' m₃ p 0x1000 := by
    intro p hp hpd hpt x hx hx'
    have hapd := hp.apart hw.dir hpd
    have hapt := hp.apart hst.table hpt
    exact hst.keeps x (by omega) (by omega)
  have hwK₃ : Walkable Layout.least m₃ s₃ KC (pagedir m' KC) :=
    hwK.congr (hkeep KC hwK.context hcd' hnet.symm) (hkeep _ hwK.dir hdd' hnetd.symm)
      (fun r hr => hst.used_iff.mpr (Or.inl hr))
  refine ⟨q, m₃, s₃, halloc, hhigh, ?_, ?_, ?_, fun v hv => ?_, fun x hx => hst.keeps x ?_ ?_⟩
  · rw [hw₃.pagedir]
    exact hw₃
  · rw [hwK₃.pagedir]
    exact hwK₃
  · have hone : pte m₃ (pagedir m' c) 1 = 0x1000 * q + 7 := by
      rw [hpte 1 (by decide), Function.update_self]
    rw [hw₃.pagedir]
    exact translate_of_pte hone (Nat.mul_mod_right _ _) (by decide) (by decide)
  · rw [hwK₃.pagedir, hst.shared hwK.dir hw.dir hdd' hnetd.symm (by decide) hshared hodd'
      (show v / 1024 = 1 / 1024 by omega)]
    by_cases hv1 : v = 1
    · rw [hv1, Function.update_self, Function.update_self]
    · rw [Function.update_of_ne hv1, Function.update_of_ne hv1, hsK.dir, hsK.ptes v (by omega)]
  · have := hw.dir.start
    have := hw.dir.below
    omega
  · have := hst.table.start
    have := hst.table.below
    omega

/-- **The round for the low segment** comes back. -/
theorem FirstContext.lowSegment_round
    (h : FirstContext (kinitHeap Layout.least (imageMem lowSegment)) imagePmm KC m₁ s₁ c d m s) :
    ∃ m' s' q, loadProgram Layout.least (kernelHeap Layout.least) 0x2000 c (programAt 0x2034 0)
        (idleKernel KC m s) = .ok (idleKernel KC m' s') ∧
      (∀ x < 0x101000, m' x = m x) ∧ 0x1701000 ≤ 0x1000 * q ∧
      ∀ v < 1024, pte m' (pagedir m' KC) v =
        Function.update (pte m (pagedir m KC)) 1 (0x1000 * q + 7) v := by
  have hheap : Layout.least.heapStart = 0x301000 := rfl
  have hend : Layout.least.heapEnd = 0x1701000 := rfl
  have himg := h.image kinitHeap_image (by decide)
  have hP := himg.programs 0 (by decide)
  have hinit : HeapState Layout.least Layout.least.heapEnd
      (kinitHeap Layout.least (imageMem lowSegment)) _ [] := heapState_init _ (by decide)
  have hl : Loader Layout.least KC [c, KC] c (idleKernel KC m s) _ _ :=
    ⟨h.spaces, hinit.congr (fun x hx _ => h.bytes x (by omega)), [], rfl⟩
  -- the block for nothing is the root node's
  have hfit : [(⟨Layout.least.heapStart, 0, true⟩ : FirstFit.Node)].find? (FirstFit.fits 0) =
      some ⟨Layout.least.heapStart, 0, true⟩ := rfl
  obtain ⟨buf, m', hk, hstop⟩ : ∃ buf m', kmalloc Layout.least m 0 = some (buf, m') ∧
      buf + 0 ≤ Layout.least.heapEnd := ⟨_, _, kmalloc_reuse hl.heap.heap hfit, by decide⟩
  obtain ⟨q₀, ns, -, -, -, hbuf⟩ := hl.heap.buffer hl.rooted (by decide) hk hstop
  have hcall : heapCall ((kernelHeap Layout.least).kmalloc (idleKernel KC m s).mem 0) =
      .ok (buf, m') := heapCall_ok.mpr hk
  have hstable : Stable Layout.least c (fun _ => False) (idleKernel KC m s)
      (programAt 0x2034 0) 32 := h.stable rfl (by decide) (by decide)
  have hf := hP.keeps hstable (hl.heapKeeps hbuf.writes) (fun _ hv => hv) hl.current
  -- one page, with one zero in it
  obtain ⟨q, m₃, s₃, halloc, hhigh, hw, hwK, hplace, hptes, hkeep⟩ :=
    h.lowPage (hl.sameWalks hbuf.writes)
  have hbelow : ∀ {m₄}, OnlyAt (fun i => 0x1000 * q + i) 1 m₃ m₄ →
      ∀ y < 0x1701000, m₄ y = m₃ y := fun honly y hy =>
    honly y (fun i _ (he : 0x1000 * q + i = y) => by omega)
  have hstore : ∀ i < 1, ∀ m₄, OnlyAt (fun i => 0x1000 * q + i) 1 m₃ m₄ →
      resolve m₄ (pagedir m₃ c) (0x1000 + i) = some (0x1000 * q + i) := by
    intro i hi m₄ honly
    have hs := hw.sameWalks (fun y hy => hbelow honly y (by omega))
    obtain rfl : i = 0 := by omega
    have ht : translate m₄ (pagedir m₄ c) 0x1000 = translate m₃ (pagedir m₃ c) 0x1000 :=
      hs.translates (by decide)
    rw [hs.dir] at ht
    exact ht.trans hplace
  obtain ⟨m₄, hfill, -, honly⟩ := fillAt_ok (b := 0) hstore (fun i _ j _ => Nat.add_left_cancel)
  obtain ⟨m₅, hfree, -, hout, -⟩ := hbuf.free m₄ (fun x hx hx' _ => by
    rw [hbelow honly x (by omega), hkeep x (by omega)])
  have hgive : heapCall ((kernelHeap Layout.least).kfree m₄ buf) = .ok m₅ :=
    heapCall_ok.mpr hfree
  have hlow : ∀ x < Layout.least.heapStart, m₅ x = m₃ x := fun x hx => by
    rw [hout x (Or.inl hx), hbelow honly x (by omega)]
  refine ⟨m₅, s₃, q, ?_, fun x hx => ?_, hhigh, fun v hv => ?_⟩
  · have hload : lowSegment.Loads 0x2000 := by decide
    -- nothing is copied
    have hin : touch (copyAt (pagedir m' KC) buf (lowSegment.src 0x2000) 0 m') = .ok m' := rfl
    have hback : touch (copyAt (pagedir m₄ c) 0x1000 buf 0 m₄) = .ok m₄ := rfl
    rw [loadProgram_load hP hload]
    exact (bind_of_ok hP.fsize).trans ((bind_of_ok hcall).trans ((bind_of_ok hf.msize).trans
      ((bind_of_ok hf.fsize).trans ((bind_of_ok hf.fsize).trans ((bind_of_ok hin).trans
      ((bind_of_ok hf.vaddr).trans ((bind_of_ok hf.msize).trans
      ((bind_of_ok (vmmCall_ok.mpr halloc)).trans ((bind_of_ok (touch_ok.mpr hfill)).trans
      ((bind_of_ok hback).trans ((bind_of_ok hgive).trans rfl)))))))))))
  · rw [hlow x (by omega), hkeep x (Or.inl hx)]
    exact hbuf.writes x (Or.inl (by omega))
  · have hs := hwK.sameWalks hlow
    rw [hs.dir, hs.ptes v (by omega), hptes v hv]

/-- A segment at the page behind the null page replaces that page of the kernel context. -/
theorem elf_containment_fails : ∃ KC c : Nat, ∃ K : Kernel Pmm, ∃ m s K',
    ContextsApart Layout.least K.mem K.frames [KC] ∧ K.currentContext = KC ∧
    createUsermodeContext Layout.least KC K.mem K.frames = .ok (c, m, s) ∧
    Image { K with mem := m, frames := s } 0x2000 0x2034 1 0x40000000 (fun _ => lowSegment) ∧
    parseElf Layout.least (kernelHeap Layout.least) { K with mem := m, frames := s } 0x2000 c =
      .ok (0x40000000, K') ∧
    translate m (pagedir m KC) 0x1000 = some 0x1000 ∧
    translate K'.mem (pagedir K'.mem KC) 0x1000 ≠ some 0x1000 := by
  obtain ⟨KC, m₁, s₁, c, d, m, s, h⟩ := exists_firstContext
    (kinitHeap Layout.least (imageMem lowSegment)) imagePmm
    (le_trans poolCount_imagePmm (by decide))
  have himg := h.image kinitHeap_image (by decide)
  obtain ⟨m', s', q, hround, hbytes, hhigh, hptes⟩ := h.lowSegment_round
  -- the image reads as before
  have hpeek : ∀ va n, 0x2000 ≤ va → va + n ≤ 0x3000 →
      (idleKernel KC m' s').peek va n = (idleKernel KC m s).peek va n := by
    intro va n hva hn
    refine congrArg touch (readAt_congr (fun i hi =>
      ⟨va + i, h.resolves (by omega), ?_, hbytes _ (by omega)⟩))
    have hpte : pte m' (pagedir m' KC) ((va + i) / 0x1000) =
        pte m (pagedir m KC) ((va + i) / 0x1000) := by
      rw [hptes _ (by omega), Function.update_of_ne (by omega)]
    have hid : translate m (pagedir m KC) (va + i) = some (va + i) := h.identity (by omega)
    show translate m' (pagedir m' KC) ((va + i) % 2 ^ 32) = some (va + i)
    unfold Paging.translate at hid ⊢
    rw [Nat.mod_eq_of_lt (by omega), hpte]
    exact hid
  have hcount := (hpeek 0x202C 2 (by decide) (by decide)).trans himg.pentryCount
  have hstart := (hpeek 0x2018 4 (by decide) (by decide)).trans himg.start
  refine ⟨KC, c, idleKernel KC m₁ s₁, m, s, idleKernel KC m' s', h.contexts, rfl, h.create, himg,
    ?_, h.identity (by decide), fun hid => ?_⟩
  · have hlast : loadPrograms Layout.least (kernelHeap Layout.least) 0x2000 c 0x2034 65535 1
        (idleKernel KC m' s') = .ok (idleKernel KC m' s') :=
      (bind_of_ok hcount).trans (if_neg (Nat.lt_irrefl 1))
    have hloop : loadPrograms Layout.least (kernelHeap Layout.least) 0x2000 c 0x2034 (2 ^ 16) 0
        (idleKernel KC m s) = .ok (idleKernel KC m' s') :=
      (bind_of_ok himg.pentryCount).trans ((if_pos Nat.zero_lt_one).trans
        ((bind_of_ok hround).trans hlast))
    exact (parseElf_loop himg h.spaces.target_ne).trans ((bind_of_ok hloop).trans
      ((bind_of_ok hstart).trans rfl))
  · have hone : pte m' (pagedir m' KC) (0x1000 / 0x1000) = 0x1000 * q + 7 := by
      rw [hptes _ (by decide)]
      exact Function.update_self 1 _ _
    have hmoved : translate m' (pagedir m' KC) 0x1000 = some (0x1000 * q + 0x1000 % 0x1000) :=
      translate_of_pte hone (Nat.mul_mod_right _ _) (by decide) (by decide)
    have hq : 0x1000 * q + 0x1000 % 0x1000 = 0x1000 := Option.some.inj (hmoved.symm.trans hid)
    omega

end

end DayOS
