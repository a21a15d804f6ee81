import DayOS.HeapBounds
import DayOS.Isolation
import DayOS.Loaded
import DayOS.OwnSpaces

set_option autoImplicit false

/-! # Launching a program

`launch_elf_program` makes a context, loads the image into it and makes a process of it. Each
round of the loader takes a block of the heap, asks `vmm.c` for pages, and writes to these; the
blocks in use and what lies below the page pool stay as they are. So a launch is one that the
running kernel can bear (`OwnSpaces.launches`).
-/

namespace DayOS

open ByteMemory Paging

/-- No block of the heap has passed its end. -/
def HeapWithin (L : Layout) (m : Mem) : Prop :=
  ∃ ns blocks, HeapState L L.heapEnd m ns blocks ∧ Rooted L ns

section
variable {L : Layout} {cs live : List Nat} {KC c addr program count start n : Nat}
  {R : Nat → Prop} {Ps : Nat → Program} {P : Program} {m m₁ : Mem} {s s₁ : Pmm}
  {K K₀ K' : Kernel Pmm} {ns : List FirstFit.Node} {blocks : List Block}

/-! ## The heap -/

/-- The blocks that the kernel holds are served by a row that ends inside the heap. -/
theorem HeapWithin.state (h : HeapWithin L m) (hblocks : (firstFit L).Holds m blocks) :
    ∃ ns, HeapState L L.heapEnd m ns blocks ∧ Rooted L ns := by
  obtain ⟨ns, _, hs, hroot⟩ := h
  obtain ⟨ns', hs'⟩ := hblocks
  obtain rfl : ns = ns' := hs.heap.unique hs'.heap
  exact ⟨ns, ⟨hs.heap, hs'.serves, hs'.pos⟩, hroot⟩

theorem HeapState.holds (h : HeapState L L.heapEnd m ns blocks) : (firstFit L).Holds m blocks :=
  ⟨ns, h.heap.mono (Nat.le_add_right _ _), h.serves, h.pos⟩

/-! ## One round -/

/-- What a round has done when it comes back: up to `vmm_alloc` it has written to the heap only,
and from there on to the heap and to pages above it. -/
structure RoundWrites (L : Layout) (c vaddr msize : Nat) (blocks : List Block) (K : Kernel Pmm)
    (m₂ m₃ : Mem) (K' : Kernel Pmm) : Prop where
  before : ∀ x, x < L.heapStart ∨ L.heapEnd ≤ x → m₂ x = K.mem x
  alloc : vmmAlloc L m₂ K.frames c vaddr msize = .ok (m₃, K'.frames)
  behind : ∀ x < L.heapStart, K'.mem x = m₃ x
  blocks : ∀ b ∈ blocks, AgreeOn K.mem K'.mem b.addr b.size
  globals : K' = { K with mem := K'.mem, frames := K'.frames }

/-- Behind `vmm_alloc` the segment goes to pages above the heap, and to nowhere else. -/
theorem Loader.fills {m₂ m₃ m₄ m₅ : Mem} {s₃ : Pmm} {buf : Nat} (h : Loader L KC cs c K ns blocks)
    (h₂ : ∀ x, x < L.heapStart ∨ L.heapEnd ≤ x → m₂ x = K.mem x)
    (hle : P.fsize ≤ P.msize) (hend : P.vaddr + P.msize ≤ 0xFFFFF000)
    (huser : ∀ v, P.Page v → UserPage KC K v) (hstart : L.heapStart ≤ buf)
    (hstop : buf + P.fsize ≤ L.heapEnd)
    (halloc : vmmAlloc L m₂ K.frames c P.vaddr P.msize = .ok (m₃, s₃))
    (hfill : fillAt (pagedir m₃ c) P.vaddr 0 P.msize m₃ = some m₄)
    (hcopy : copyAt (pagedir m₄ c) P.vaddr buf P.fsize m₄ = some m₅) :
    (∀ x < L.heapEnd, m₅ x = m₃ x) ∧ ∀ x, L.heapStart ≤ x → m₃ x = m₂ x := by
  have hL := L.heapEnd_le
  have hheap := L.heapEnd_eq
  have hsame₂ := h.sameWalks h₂
  have hpriv : ∀ v, P.Page v → AbsentOrPrivate m₂ cs c (v / 1024) := fun v hv => by
    obtain ⟨hlt, heven⟩ := huser v hv
    exact AbsentOrPrivate.same hsame₂ h.target (by omega) (h.words _ (by omega) heven)
  obtain ⟨hctx, htables, f, a⟩ := (h.contexts.above (fun x hx => h₂ x (Or.inl hx))).alloc
    h.target hend hpriv halloc
  have hpage : ∀ i < P.msize, P.Page ((P.vaddr + i) / 0x1000) := fun i hi =>
    vmmAlloc_page hend halloc hi
  have hhigh : ∀ i < P.msize, L.heapEnd ≤ place f (P.vaddr + i) := fun i hi =>
    (a.frame _ (hpage i hi)).1.trans (Nat.le_add_right _ _)
  have hplace : ∀ i < P.msize,
      resolve m₃ (pagedir m₃ c) (P.vaddr + i) = some (place f (P.vaddr + i)) := by
    intro i hi
    rw [resolve, Nat.mod_eq_of_lt (by omega), a.dir]
    exact translate_of_pte (a.mapped _ (by omega) (hpage i hi)) (Nat.mul_mod_right _ _) (by decide)
      (by decide)
  have hinj : ∀ i < P.msize, ∀ j < P.msize,
      place f (P.vaddr + i) = place f (P.vaddr + j) → i = j := by
    intro i hi j hj he
    unfold place at he
    have hframe := a.inj _ _ (hpage i hi) (hpage j hj) (by omega)
    rw [hframe] at he
    omega
  have hblock : ∀ i < P.fsize, buf + i < L.heapEnd ∧
      resolve m₃ (pagedir m₃ c) (buf + i) = some (buf + i) := by
    intro i hi
    have hout : ¬ P.Page ((buf + i) / 0x1000) := fun hv =>
      h.heap_page (by omega) (by omega) (huser _ hv)
    refine ⟨by omega, ?_⟩
    have hmapped := h.mapped c h.target (buf + i) (by omega) (by omega)
    rw [resolve, Nat.mod_eq_of_lt (by omega), a.dir, translate_congr (a.kept _ (by omega) hout),
      (hsame₂ c h.target).translates (by omega)]
    exact hmapped
  obtain ⟨m₄', m₅', hfill', hcopy', -, -, honly⟩ :=
    copyOut hctx h.target hle hplace hhigh hinj hblock
  rw [hfill] at hfill'
  cases hfill'
  rw [hcopy] at hcopy'
  cases hcopy'
  refine ⟨fun x hx => honly x (fun i hi (he : place f (P.vaddr + i) = x) => ?_), htables.high⟩
  have := hhigh i hi
  omega

/-- **What a round writes.** -/
theorem Loader.segment_writes {src : Nat} {sizes : List Nat} (h : Loader L KC cs c K ns blocks)
    (hP : HasProgram K program P) (hst : Stable L c R K program 32) (hle : P.fsize ≤ P.msize)
    (hend : P.vaddr + P.msize ≤ 0xFFFFF000) (huser : ∀ v, P.Page v → UserPage KC K v)
    (hfit : BuffersFit L K.mem (P.fsize :: sizes))
    (hk : loadSegment L (kernelHeap L) c P.vaddr src program K = .ok K') :
    ∃ m₂ m₃, RoundWrites L c P.vaddr P.msize blocks K m₂ m₃ K' := by
  have hfields : ∀ {m' : Mem}, (∀ x, (x < L.heapStart ∨ L.heapEnd ≤ x) → m' x = K.mem x) →
      HasProgram { K with mem := m' } program P := fun hm =>
    hP.keeps hst (h.heapKeeps hm) (fun v hv => hv) h.current
  unfold loadSegment at hk
  rw [bind_of_ok hP.fsize] at hk
  obtain ⟨⟨buf, m₁⟩, hcall, hk⟩ := bind_eq_ok.mp hk
  have hmalloc : kmalloc L K.mem P.fsize = some (buf, m₁) := heapCall_ok.mp hcall
  obtain ⟨hstop, -⟩ := hfit _ _ hmalloc
  obtain ⟨q, ns₁, -, -, hroot, hbuf⟩ := h.heap.buffer h.rooted hP.fsize_lt hmalloc hstop
  have h₁ := hfields hbuf.writes
  have hstart := hbuf.start
  -- the copy of the segment
  dsimp only at hk
  rw [bind_of_ok h₁.msize, bind_of_ok h₁.fsize, bind_of_ok h₁.fsize] at hk
  obtain ⟨m₂, hin, hk⟩ := bind_eq_ok.mp hk
  have honly := (h.copyIn R src hbuf).1 m₂ (touch_ok.mp hin)
  have hout₂ : ∀ x, x < L.heapStart ∨ L.heapEnd ≤ x → m₂ x = K.mem x := fun x hx => by
    have hout : ∀ i < P.fsize, buf + i ≠ x := fun i _ => by omega
    rw [honly x hout, hbuf.writes x hx]
  have h₂ := @hfields m₂ hout₂
  rw [bind_of_ok h₂.vaddr, bind_of_ok h₂.msize] at hk
  -- its pages
  obtain ⟨⟨m₃, s₃⟩, hvmm, hk⟩ := bind_eq_ok.mp hk
  have halloc := vmmCall_ok.mp hvmm
  obtain ⟨m₄, hfill, hk⟩ := bind_eq_ok.mp hk
  obtain ⟨m₅, hcopy, hk⟩ := bind_eq_ok.mp hk
  obtain ⟨m₆, hgive, hk⟩ := bind_eq_ok.mp hk
  cases hk
  obtain ⟨h₅, h₃⟩ := h.fills hout₂ hle hend huser hstart hstop halloc (touch_ok.mp hfill)
    (touch_ok.mp hcopy)
  -- the block goes back to the heap
  obtain ⟨m₆', hfree, -, hout₆, hheld⟩ := hbuf.free m₅ (fun x hx hx' hno => by
    have hout : ∀ i < P.fsize, buf + i ≠ x := fun i _ => by omega
    rw [h₅ x hx', h₃ x hx, honly x hout])
  have hgive' : kfree L m₅ buf = some m₆ := heapCall_ok.mp hgive
  rw [hfree] at hgive'
  cases hgive'
  refine ⟨m₂, m₃, hout₂, halloc, fun x hx => ?_, fun b hb => ?_, rfl⟩
  · show m₆ x = m₃ x
    rw [hout₆ x (Or.inl hx)]
    exact h₅ x (by have := L.heapEnd_eq; omega)
  · have hin := h.heap.inHeap hb
    have hap := hbuf.apart b hb
    refine (hbuf.held b hb).trans (AgreeOn.trans (fun x hx hx' => ?_) (hheld b hb))
    have hout : ∀ i < P.fsize, buf + i ≠ x := fun i _ => by
      simp only [Block.Apart] at hap
      omega
    rw [h₅ x (by omega), h₃ x (by omega), honly x hout]

/-! ## Any number of rounds -/

/-- What loading into `c` does: it calls `vmm_alloc` for `c`, and leaves alone what lies below the
page pool and the blocks in use. -/
structure LoadWrites (L : Layout) (KC c : Nat) (live : List Nat) (blocks : List Block)
    (K K' : Kernel Pmm) : Prop where
  pool : PoolRun L KC (fun op => ∃ vaddr sz, op = .alloc c vaddr sz) (K.vmm live) (K'.vmm live)
  below : ∀ x < L.pagepoolStart, K'.mem x = K.mem x
  blocks : ∀ b ∈ blocks, AgreeOn K.mem K'.mem b.addr b.size
  globals : K' = { K with mem := K'.mem, frames := K'.frames }

theorem LoadWrites.refl : LoadWrites L KC c live blocks K K :=
  ⟨.start, fun _ _ => rfl, fun _ _ => AgreeOn.refl _ _ _, rfl⟩

theorem LoadWrites.trans {K₁ : Kernel Pmm} (h : LoadWrites L KC c live blocks K K₁)
    (h' : LoadWrites L KC c live blocks K₁ K') : LoadWrites L KC c live blocks K K' := by
  refine ⟨h.pool.trans h'.pool, fun x hx => (h'.below x hx).trans (h.below x hx),
    fun b hb => (h.blocks b hb).trans (h'.blocks b hb), ?_⟩
  rw [h'.globals, h.globals]

/-- What `vmm_alloc` is asked for in a round is a user range. -/
theorem UserPage.range {vaddr sz : Nat} (hK : KernelSpace L m₁ s₁ KC)
    (hs : Spaces L (entry m₁ (pagedir m₁ KC)) m₁ s₁ K.mem K.frames live)
    (hm : ∀ x, x < L.heapStart ∨ L.heapEnd ≤ x → m x = K.mem x)
    (hal : vaddr % 0x1000 = 0) (hend : vaddr + sz ≤ 0xFFFFF000)
    (huser : ∀ v, InRange vaddr (vaddr + sz) v → UserPage KC K v) : UserRange m KC vaddr sz := by
  have hs₂ : Spaces L (entry m₁ (pagedir m₁ KC)) m₁ s₁ m K.frames live :=
    hs.outside (fun x _ hx' => hm x (Or.inl hx'))
  have hsame := hK.same hs
  have hsame₂ := hK.same hs₂
  refine ⟨hal, by omega, fun v hv => ?_⟩
  obtain ⟨hlt, heven⟩ := huser v hv
  rw [hsame.dir, hsame.words _ (by omega)] at heven
  rw [hsame₂.dir, hsame₂.words _ (by omega)]
  rcases hK.words _ (show v / 1024 < 1024 by omega) with h0 | ⟨t, ht, he, -⟩
  · exact h0
  · have := ht.aligned
    omega

/-- One round. -/
theorem RoundWrites.loads {vaddr msize : Nat} {m₂ m₃ : Mem}
    (h : RoundWrites L c vaddr msize blocks K m₂ m₃ K') (hK : KernelSpace L m₁ s₁ KC)
    (hs : Spaces L (entry m₁ (pagedir m₁ KC)) m₁ s₁ K.mem K.frames live) (hc : c ∈ live)
    (hend : vaddr + msize ≤ 0xFFFFF000)
    (huser : ∀ v, InRange vaddr (vaddr + msize) v → UserPage KC K v) :
    LoadWrites L KC c live blocks K K' := by
  have hheap := L.heapEnd_eq
  have hpool : L.pagepoolEnd = L.heapStart := rfl
  have hlow : L.pagepoolStart ≤ L.pagepoolEnd := Nat.le_add_right _ _
  have hbefore : ∀ x, L.InPool x → m₂ x = K.mem x := fun x hx =>
    h.before x (Or.inl (hpool ▸ hx.2))
  have hbehind : ∀ x, L.InPool x → K'.mem x = m₃ x := fun x hx => h.behind x (hpool ▸ hx.2)
  have hfirst : PoolRun L KC (fun op => ∃ vaddr sz, op = .alloc c vaddr sz) (K.vmm live)
      ⟨m₂, K.frames, live⟩ := .outside .start hbefore
  -- up to the stores, a round is the call
  have hcall : PoolRun L KC (fun op => ∃ vaddr sz, op = .alloc c vaddr sz) (K.vmm live)
      ⟨m₃, K'.frames, live⟩ ∧ ∀ x < L.pagepoolStart, m₃ x = m₂ x := by
    by_cases hsize : msize = 0
    · have halloc := h.alloc
      unfold vmmAlloc at halloc
      rw [hsize, Nat.add_zero, Nat.mod_eq_of_lt (by omega)] at halloc
      obtain ⟨hm, hframes⟩ := vmmAllocLoop_stop (Nat.lt_irrefl _) halloc
      rw [hm, hframes]
      exact ⟨hfirst, fun _ _ => rfl⟩
    · have hpage := vmmAlloc_page hend h.alloc (Nat.pos_of_ne_zero hsize)
      have hal : vaddr % 0x1000 = 0 := by
        have hle := hpage.1
        omega
      have hperm : Permitted KC ⟨m₂, K.frames, live⟩ (.alloc c vaddr msize) :=
        ⟨hc, UserPage.range hK hs h.before hal hend huser⟩
      have hexec : VmmState.exec L KC ⟨m₂, K.frames, live⟩ (.alloc c vaddr msize)
          = .ok ⟨m₃, K'.frames, live⟩ := bind_of_ok h.alloc
      have hs₂ := hs.outside (fun x hx hx' => hbefore x ⟨hx, hx'⟩)
      exact ⟨.call hfirst hperm ⟨_, _, rfl⟩ hexec, fun x hx =>
        (VmmState.exec_step hK hs₂ hperm hexec).outside (Or.inl hx)⟩
  obtain ⟨hrun, hkeep⟩ := hcall
  refine ⟨.outside hrun hbehind, fun x hx => ?_, h.blocks, h.globals⟩
  rw [h.behind x (by omega), hkeep x hx]
  exact h.before x (Or.inl (by omega))

/-- **Any number of rounds.** -/
theorem Loader.rounds_write (h : Loader L KC cs c K₀ ns blocks)
    (himg : Image K₀ addr program count start Ps) (hld : Loadable L KC c K₀ addr program count Ps)
    (hfit : BuffersFit L K₀.mem (bufferSizes addr Ps 0 count)) (hK : KernelSpace L m₁ s₁ KC)
    (hs : Spaces L (entry m₁ (pagedir m₁ KC)) m₁ s₁ K₀.mem K₀.frames live) (hc : c ∈ live)
    (hn : n ≤ count) (hrun : DayOS.rounds L (kernelHeap L) addr c program n K₀ = .ok K) :
    LoadWrites L KC c live blocks K₀ K := by
  induction n generalizing K with
  | zero =>
      cases hrun
      exact LoadWrites.refl
  | succ n ih =>
      rw [DayOS.rounds] at hrun
      obtain ⟨K₁, hrun₁, hround⟩ := bind_eq_ok.mp hrun
      have hwrites := ih (by omega) hrun₁
      have hafter := h.afterRounds himg hld hfit (show n ≤ count by omega) hrun₁
      have hP := hafter.hasProgram himg hld h.current (by omega) (show n < count by omega)
      obtain ⟨ns₁, hloader⟩ := hafter.loader
      have hs₁ := (hwrites.pool.keeps hK hs).1
      by_cases hl : (Ps n).Loads addr
      · have hst := (hld.programs n hn).keeps hafter.keeps
          (fun v hv => hv.mono (by omega)) h.current
        have huser : ∀ v, (Ps n).Page v → UserPage KC K₁ v := fun v hv =>
          hafter.keeps.userPage hloader.kernel hloader.ne (hld.pages v ⟨n, hn, hl, hv⟩)
        have hbuf := hafter.fit
        rw [bufferSizes_step hn, if_pos hl] at hbuf
        rw [loadProgram_load hP hl] at hround
        obtain ⟨m₂, m₃, hw⟩ := hloader.segment_writes hP hst (hld.sizes n hn hl)
          (hld.stop n hn hl) huser hbuf hround
        exact hwrites.trans (hw.loads hK hs₁ hc (hld.stop n hn hl) huser)
      · rw [loadProgram_skip hP hl] at hround
        cases hround
        exact hwrites

/-! ## The context to load into -/

/-- Every context maps the heap to itself. -/
theorem Spaces.identity (hK : KernelSpace L m₁ s₁ KC)
    (hs : Spaces L (entry m₁ (pagedir m₁ KC)) m₁ s₁ m s live) {x a : Nat} (hx : x ∈ KC :: live)
    (ha : a < L.heapEnd) : translate m (pagedir m x) a = some a := by
  have hL := L.heapEnd_le
  have hv : a / 0x1000 < 2 ^ 20 := by omega
  have hmapped := hK.mapped (a / 0x1000) (by omega)
  have hpte : pte m (pagedir m x) (a / 0x1000) = 0x1000 * (a / 0x1000) + 7 := by
    rcases List.mem_cons.mp hx with rfl | hx
    · rw [(hK.same hs).dir, (hK.same hs).ptes _ hv, hmapped]
    · rw [hs.shared_word hx hv (fun h0 => ?_), hmapped]
      rw [pte_of_even (by rw [h0])] at hmapped
      omega
  rw [translate_of_pte hpte (Nat.mul_mod_right _ _) (by decide) (by decide), Nat.div_add_mod]

/-- **A new context is one to load into.** -/
theorem OwnSpaces.loader {alive : List Nat} {context : Nat}
    (hown : OwnSpaces L KC m₁ s₁ K alive live) (hK : KernelSpace L m₁ s₁ KC)
    (hw : Walkable L m₁ s₁ KC (pagedir m₁ KC)) (hcur : K.currentContext ∈ KC :: live)
    (hheap : HeapWithin L K.mem) (hblocks : (firstFit L).Holds K.mem blocks)
    (hcreate : createUsermodeContext L KC K.mem K.frames = .ok (context, m, s)) :
    ∃ ns, Loader L KC (context :: KC :: live) context { K with mem := m, frames := s } ns blocks := by
  have hctx := hown.spaces.contexts_kernel hK hw
  have hmem : KC ∈ KC :: live := List.mem_cons_self
  obtain ⟨d, hnew⟩ := createUsermodeContext_new (hctx.walkable KC hmem) hcreate
  obtain ⟨ns, hstate, hroot⟩ := hheap.state hblocks
  refine ⟨ns, LoaderSpaces.create hctx hmem hcur (fun x hx a _ ha => ?_) hnew, hstate.congr ?_, hroot⟩
  · exact hown.spaces.identity hK hx ha
  · intro x hx _
    have hc := hnew.context.below
    have hd := hnew.dir.below
    exact hnew.keeps x (by omega) (by omega)

/-- What a launch calls `vmm.c` for. -/
def LaunchCall (context : Nat) (op : VmmOp) : Prop :=
  op = .create ∨ ∃ vaddr sz, op = .alloc context vaddr sz

/-- **Up to the new process**, a launch is one that the running kernel can bear. -/
theorem OwnSpaces.loads {alive : List Nat} {context : Nat} {K₁ : Kernel Pmm}
    (hown : OwnSpaces L KC m₁ s₁ K alive live) (hK : KernelSpace L m₁ s₁ KC)
    (hw : Walkable L m₁ s₁ KC (pagedir m₁ KC)) (hcur : K.currentContext ∈ KC :: live)
    (hheap : HeapWithin L K.mem)
    (hcreate : createUsermodeContext L KC K.mem K.frames = .ok (context, m, s))
    (himg : Image { K with mem := m, frames := s } addr program count start Ps)
    (hld : Loadable L KC context { K with mem := m, frames := s } addr program count Ps)
    (hfit : BuffersFit L m (bufferSizes addr Ps 0 count))
    (hrun : rounds L (kernelHeap L) addr context program count { K with mem := m, frames := s }
      = .ok K₁) :
    PoolRun L KC (LaunchCall context) (K.vmm live) (K₁.vmm (context :: live)) ∧
    BlocksKept (firstFit L) K.mem K₁.mem ∧ (∀ x < L.pagepoolStart, K₁.mem x = K.mem x) ∧
    K₁ = { K with mem := K₁.mem, frames := K₁.frames } := by
  obtain ⟨-, -, hexec⟩ := createUsermodeContext_fresh hK hown.spaces hcreate
  have houtside := createUsermodeContext_outside hcreate
  have hperm : Permitted KC (K.vmm live) .create := trivial
  have hcreated : PoolRun L KC (LaunchCall context) (K.vmm live) ⟨m, s, context :: live⟩ :=
    .call .start hperm (Or.inl rfl) hexec
  have hs := (hcreated.keeps hK hown.spaces).1
  have hheapStart : L.pagepoolEnd = L.heapStart := rfl
  have hwrites : ∀ blocks, (firstFit L).Holds K.mem blocks →
      LoadWrites L KC context (context :: live) blocks { K with mem := m, frames := s } K₁ ∧
      (firstFit L).Holds K₁.mem blocks := fun blocks hblocks => by
    obtain ⟨ns, hl⟩ := hown.loader hK hw hcur hheap hblocks hcreate
    have hafter := hl.afterRounds himg hld hfit le_rfl hrun
    obtain ⟨ns', hl'⟩ := hafter.loader
    exact ⟨hl.rounds_write himg hld hfit hK hs List.mem_cons_self le_rfl hrun, hl'.heap.holds⟩
  obtain ⟨ns, blocks, hstate, -⟩ := hheap
  obtain ⟨hload, -⟩ := hwrites blocks hstate.holds
  refine ⟨hcreated.trans (hload.pool.mono (fun op hop => Or.inr hop)), fun blocks' hblocks' => ?_,
    fun x hx => ?_, ?_⟩
  · obtain ⟨hload', hholds⟩ := hwrites blocks' hblocks'
    refine ⟨[], hholds, fun b hb => AgreeOn.trans (fun x hx hx' => ?_) (hload'.blocks b hb)⟩
    have harena := ((firstFit L).inArena hblocks' b hb).2 x ⟨hx, hx'⟩
    refine houtside x (fun hpool => ?_)
    have hge : L.heapStart ≤ x := harena.1
    have hlt := hpool.2
    omega
  · exact (hload.below x hx).trans (houtside x (fun hpool => absurd hpool.1 (Nat.not_le.mpr hx)))
  · rw [hload.globals]

/-! ## The new process -/

/-- The heap of `firstFit` is the kernel's for blocks of at most a page. -/
theorem createUserProcess_firstFit (L : Layout) (K : Kernel Pmm) (entry context : Nat) :
    createUserProcess (firstFit L).toHeap K entry context
      = createUserProcess (kernelHeap L) K entry context := by
  have hpage : ∀ m n, n ≤ 0x1000 → (firstFit L).kmalloc m n = kmalloc L m n := fun _ _ hn =>
    if_pos hn
  have hstack : ∀ m, (firstFit L).kmalloc m STACK_SIZE = kmalloc L m STACK_SIZE := fun m =>
    hpage m _ le_rfl
  have hrecord : ∀ m, (firstFit L).kmalloc m sizeofProcess = kmalloc L m sizeofProcess := fun m =>
    hpage m _ (Nat.le_of_lt (by decide))
  unfold createUserProcess
  rw [hstack]
  simp only [hstack, hrecord]
  rfl

/-- A user process gets the context it is made with. -/
theorem createUserProcess_context {H : Heap} {p context : Nat}
    (hk : createUserProcess H K start context = some (p, K')) :
    procContext K'.mem p = context % 2 ^ 32 := by
  simp only [createUserProcess, Option.bind_eq_bind, Option.bind_eq_some_iff, Option.pure_def,
    Option.some.injEq, Prod.mk.injEq, Prod.exists] at hk
  obtain ⟨stack, w₁, -, ustack, w₂, -, process, w₃, -, rfl, rfl⟩ := hk
  simp only [procContext]
  rw [load32_store32_of_ne (by omega), load32_store32_of_ne (by omega),
    load32_store32_of_ne (by omega), load32_store32]

/-! ## The whole launch -/

/-- The image at `addr`, seen through the new context, is one that can be loaded: no block of the
heap has passed its end, the segments fit, and there is a pid and a clean block for the process. -/
structure FitsImage (L : Layout) (KC context : Nat) (K : Kernel Pmm) (c : Census)
    (addr program count start : Nat) (Ps : Nat → Program) : Prop where
  heap : HeapWithin L K.mem
  image : Image K addr program count start Ps
  loadable : Loadable L KC context K addr program count Ps
  buffers : BuffersFit L K.mem (bufferSizes addr Ps 0 count)
  process : ∀ K₁, rounds L (kernelHeap L) addr context program count K = .ok K₁ → start ≠ NULL →
    K₁.numProc ≠ 2 ^ 32 - 1 ∧ Clean (firstFit L).toHeap K₁
      ⟨c.alive, c.user, fun _ => [], fun _ => []⟩ (.createUser start context)

/-- `launch_elf_program` finds an image that it turns down, or one that can be loaded. -/
def LaunchFits (L : Layout) (KC : Nat) (K : Kernel Pmm) (c : Census) (addr : Nat) : Prop :=
  ∀ context m s, createUsermodeContext L KC K.mem K.frames = .ok (context, m, s) →
    Rejects { K with mem := m, frames := s } addr context ∨ ∃ program count start Ps,
      FitsImage L KC context { K with mem := m, frames := s } c addr program count start Ps

/-- What a launch leaves behind: one more context, and perhaps a process in it. -/
structure Launched (L : Layout) (KC : Nat) (K : Kernel Pmm) (c : Census) (live : List Nat)
    (context : Nat) (K' : Kernel Pmm) : Prop where
  fresh : context ∉ live
  pool : PoolRun L KC (LaunchCall context) (K.vmm live) (K'.vmm (context :: live))
  process : K'.firstProcess = K.firstProcess ∨ procContext K'.mem K'.firstProcess = context

/-- The new context is not in the heap. -/
theorem HeapWithin.created {context : Nat} (h : HeapWithin L m)
    (hcreate : createUsermodeContext L KC K.mem K.frames = .ok (context, m, s)) :
    HeapWithin L K.mem := by
  have houtside := createUsermodeContext_outside hcreate
  obtain ⟨ns, blocks, hs, hroot⟩ := h
  refine ⟨ns, blocks, hs.congr (fun x hx _ => (houtside x (fun hpool => ?_)).symm), hroot⟩
  have hlt : x < L.heapStart := hpool.2
  omega

/-- The end of a launch, behind the rounds. -/
theorem LoadsPages.launches {D : KernelData} {cen : Census} {context : Nat} {K₁ : Kernel Pmm}
    (hloads : LoadsPages (kernelHost L KC D) K K₁) (hD : D.Fits L)
    (hblocks : (firstFit L).Holds K₁.mem blocks) (hlt : context < 2 ^ 32) (hfresh : context ∉ live)
    (hrun : PoolRun L KC (LaunchCall context) (K.vmm live) (K₁.vmm (context :: live)))
    (hprocess : start ≠ NULL → K₁.numProc ≠ 2 ^ 32 - 1 ∧ Clean (firstFit L).toHeap K₁
      ⟨cen.alive, cen.user, fun _ => [], fun _ => []⟩ (.createUser start context))
    (hk : (if start = NULL then pure K₁ else do
      let (_, K) ← heapCall (createUserProcess (kernelHeap L) K₁ start context)
      return K) = Except.ok (ε := ElfFault) K') :
    Launches (kernelHost L KC D) K cen K' ∧ Launched L KC K cen live context K' := by
  have hX : (kernelHost L KC D).Separate := hD.separate
  by_cases hnull : start = NULL
  · rw [if_pos hnull] at hk
    obtain rfl : K₁ = K' := Except.ok.inj hk
    exact ⟨⟨K₁, hloads, Or.inl rfl⟩, hfresh, hrun, Or.inl (by rw [hloads.1])⟩
  · rw [if_neg hnull] at hk
    obtain ⟨⟨p, K₂⟩, hcreate, hk⟩ := bind_eq_ok.mp hk
    obtain rfl : K₂ = K' := Except.ok.inj hk
    have hcreate : createUserProcess (kernelHeap L) K₁ start context = some (p, K₂) :=
      heapCall_ok.mp hcreate
    have hcontext := createUserProcess_context hcreate
    obtain ⟨_, _, _, _, _, -, -, -, hK₂, -⟩ := createUserProcess_spec hcreate
    have hframes : K₂.frames = K₁.frames := by rw [hK₂]
    have hfirst : K₂.firstProcess = p := by rw [hK₂]
    rw [← createUserProcess_firstFit] at hcreate
    obtain ⟨hnum, hclean⟩ := hprocess hnull
    have hborn := createUser_born hblocks hcreate
    have hafter : PoolRun L KC (LaunchCall context) (K.vmm live) ⟨K₂.mem, K₁.frames, context :: live⟩ :=
      .outside hrun (fun x hx => hborn.outside x (fun ha => hX.area x ha hx) id)
    rw [← hframes] at hafter
    refine ⟨⟨K₁, hloads, Or.inr ⟨start, context, p, hnum, hclean, hcreate⟩⟩, hfresh, hafter, Or.inr ?_⟩
    rw [hfirst, hcontext, Nat.mod_eq_of_lt hlt]

/-- **A launch is one that the kernel can bear.** -/
theorem OwnSpaces.launches {alive : List Nat} {D : KernelData} {cen : Census} {ebx : Nat}
    (hown : OwnSpaces L KC m₁ s₁ K alive live) (hK : KernelSpace L m₁ s₁ KC)
    (hw : Walkable L m₁ s₁ KC (pagedir m₁ KC)) (hcur : K.currentContext ∈ KC :: live)
    (hD : D.Fits L) (hfits : LaunchFits L KC K cen ebx)
    (hk : launchElfProgram L (kernelHeap L) KC K ebx = .ok K') :
    Launches (kernelHost L KC D) K cen K' ∧ ∃ context, Launched L KC K cen live context K' := by
  have hX : (kernelHost L KC D).Separate := hD.separate
  have hlaunch := hk
  unfold launchElfProgram at hlaunch
  obtain ⟨⟨context, m, s⟩, hcreate, hlaunch⟩ := bind_eq_ok.mp hlaunch
  have hcreate : createUsermodeContext L KC K.mem K.frames = .ok (context, m, s) :=
    vmmCall_ok.mp hcreate
  obtain ⟨hfresh, hpage, hexec⟩ := createUsermodeContext_fresh hK hown.spaces hcreate
  have hlt := hpage.lt
  rcases hfits context m s hcreate with hrej | ⟨program, count, start, Ps, hfit⟩
  · -- the image is turned down
    rw [launchElfProgram_rejects hcreate hrej] at hk
    cases hk
    have houtside := createUsermodeContext_outside hcreate
    have hloads : LoadsPages (kernelHost L KC D) K { K with mem := m, frames := s } :=
      ⟨rfl, .of_agree (fun x hx => houtside x (hX.area x hx)), fun x hx =>
        houtside x (fun hin => absurd hin.1 (Nat.not_le.mpr (hD.table_below hx).2))⟩
    have hperm : Permitted KC (K.vmm live) .create := trivial
    exact ⟨⟨_, hloads, Or.inl rfl⟩, context, hfresh, .call .start hperm (Or.inl rfl) hexec, Or.inl rfl⟩
  · have hheap := hfit.heap.created hcreate
    obtain ⟨ns, blocks, hstate, -⟩ := id hheap
    obtain ⟨ns', hloader⟩ := hown.loader hK hw hcur hheap hstate.holds hcreate
    dsimp only at hlaunch
    rw [hloader.parseElf hfit.image hfit.loadable hfit.buffers] at hlaunch
    obtain ⟨⟨start', K₁⟩, hparse, hlaunch⟩ := bind_eq_ok.mp hlaunch
    obtain ⟨K₂, hrounds, hparse⟩ := bind_eq_ok.mp hparse
    cases hparse
    obtain ⟨hrun, hkept, hbelow, hglobals⟩ := hown.loads hK hw hcur hheap hcreate hfit.image
      hfit.loadable hfit.buffers hrounds
    have hloads : LoadsPages (kernelHost L KC D) K K₁ :=
      ⟨hglobals, hkept, fun x hx => hbelow x (hD.table_below hx).2⟩
    obtain ⟨new, hholds, -⟩ := hkept blocks hstate.holds
    obtain ⟨hlaunches, hlaunched⟩ := hloads.launches hD hholds (by omega) hfresh hrun
      (hfit.process K₁ hrounds) hlaunch
    exact ⟨hlaunches, context, hlaunched⟩

end

end DayOS
