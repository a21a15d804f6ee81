import DayOS.FreshContext

set_option autoImplicit false

/-! # What a loaded program finds

Read through its context, a loaded segment holds the bytes of the image and zeros behind them
(`InPlace`). A later round does not disturb it: it works on other pages, and on frames and tables
that were free. `ParseElf` reaches memory that is not mapped only when a temporary block does not
end inside the heap.
-/

namespace DayOS

open ByteMemory Paging

/-- The byte at `va`, read through the page tables of `context`. -/
def Kernel.byteIn {σ : Type} (K : Kernel σ) (context va : Nat) : Option UInt8 :=
  (resolve K.mem (pagedir K.mem context) va).map K.mem

/-- An image that lies in pages in use outside the heap and apart from the tables of `c`. Its
segments of type 1 go to pages of `c` that are not mapped, under words that the kernel's
directory does not use, and no two of them to the same page. -/
structure GoodImage (L : Layout) (KC c : Nat) (K : Kernel Pmm) (addr program count : Nat)
    (Ps : Nat → Program) : Prop where
  header : Stable L c (fun _ => False) K addr 52
  programs : ∀ i < count, Stable L c (fun _ => False) K (programAt program i) 32
  file : ∀ i < count, (Ps i).type = 1 → Stable L c (fun _ => False) K
    (addr + (Ps i).offset) (Ps i).fsize
  inside : ∀ i < count, (Ps i).type = 1 → addr + (Ps i).offset < 2 ^ 32
  vaddr : ∀ i < count, (Ps i).type = 1 → (Ps i).vaddr ≠ NULL
  aligned : ∀ i < count, (Ps i).type = 1 → (Ps i).vaddr % 0x1000 = 0
  sizes : ∀ i < count, (Ps i).type = 1 → (Ps i).fsize ≤ (Ps i).msize
  stop : ∀ i < count, (Ps i).type = 1 → (Ps i).vaddr + (Ps i).msize ≤ 0xFFFFF000
  disjoint : ∀ i < count, ∀ j < count, (Ps i).type = 1 → (Ps j).type = 1 → i ≠ j →
    ∀ v, (Ps i).Page v → ¬ (Ps j).Page v
  unmapped : ∀ i < count, (Ps i).type = 1 → ∀ v, (Ps i).Page v →
    pte K.mem (pagedir K.mem c) v % 2 = 0
  pages : ∀ i < count, (Ps i).type = 1 → ∀ v, (Ps i).Page v → UserPage KC K v

/-- The segment `P` of the image that `K₀` holds is in place: each byte is at a page behind the
heap that is in use, and is the image's or zero. -/
def InPlace (L : Layout) (c : Nat) (K₀ : Kernel Pmm) (addr : Nat) (P : Program) (K : Kernel Pmm) :
    Prop :=
  ∀ b < P.msize, ∃ q, translate K.mem (pagedir K.mem c) (P.vaddr + b) = some q ∧
    K.frames.Used (q / 0x1000) ∧ L.heapEnd ≤ q ∧
    (b < P.fsize → K₀.byteIn K₀.currentContext (P.src addr + b) = some (K.mem q)) ∧
    (P.fsize ≤ b → K.mem q = 0)

/-- What `ParseElf` has done when it returns `e` and leaves `K'`: it returns the entry, the context
that was active still is, the heap serves the blocks it served before, the segments of type 1
are there, read through the context `c`, and no other page of `c` has changed. -/
structure LoadedImage (L : Layout) (c : Nat) (K : Kernel Pmm) (addr count entry : Nat)
    (Ps : Nat → Program) (live : List Block) (e : Nat) (K' : Kernel Pmm) : Prop where
  start : e = entry
  current : K'.currentContext = K.currentContext
  heap : ∃ ns, HeapState L L.heapEnd K'.mem ns live
  file : ∀ i < count, (Ps i).type = 1 → ∀ b < (Ps i).fsize,
    K'.byteIn c ((Ps i).vaddr + b) = K.byteIn K.currentContext (addr + (Ps i).offset + b)
  zero : ∀ i < count, (Ps i).type = 1 → ∀ b, (Ps i).fsize ≤ b → b < (Ps i).msize →
    K'.byteIn c ((Ps i).vaddr + b) = some 0
  others : ∀ va < 2 ^ 32, (∀ i < count, (Ps i).type = 1 → ¬ (Ps i).Page (va / 0x1000)) →
    translate K'.mem (pagedir K'.mem c) va = translate K.mem (pagedir K.mem c) va

/-- `ParseElf` loads the image, unless an assertion stops it. -/
structure LoadsImage (L : Layout) (c : Nat) (K : Kernel Pmm) (addr count entry : Nat)
    (Ps : Nat → Program) (live : List Block) : Prop where
  stops : ∀ fault, parseElf L (kernelHeap L) K addr c = .error fault → fault.Assertion
  loaded : ∀ e K', parseElf L (kernelHeap L) K addr c = .ok (e, K') →
    LoadedImage L c K addr count entry Ps live e K'

section
variable {L : Layout} {H : Heap} {cs : List Nat} {KC c addr program count entry n i : Nat}
  {R : Nat → Prop} {Ps : Nat → Program} {P : Program} {K K₀ K' : Kernel Pmm}
  {ns : List FirstFit.Node} {live : List Block}

/-! ## The image -/

/-- A header of type 1 is loaded. -/
theorem GoodImage.loads (h : GoodImage L KC c K addr program count Ps) (hne : addr ≠ NULL)
    (hi : i < count) : (Ps i).Loads addr ↔ (Ps i).type = 1 := by
  refine ⟨fun hl => hl.1, fun ht => ⟨ht, h.vaddr i hi ht, ?_⟩⟩
  have hlt := h.inside i hi ht
  unfold Program.src
  rw [Nat.mod_eq_of_lt hlt]
  intro h0
  have hpos : 0 < addr := Nat.pos_of_ne_zero hne
  have h0' : addr + (Ps i).offset = 0 := h0
  omega

/-- Pages that get frames were not mapped, so nothing of the image was read through them. -/
theorem GoodImage.avoids (h : GoodImage L KC c K addr program count Ps) {va : Nat}
    (hst : Stable L c (fun _ => False) K va n) :
    Stable L c (SegmentPage addr Ps count) K va n := by
  intro i hi
  obtain ⟨p, hp, hu, hheap, hno, -⟩ := hst i hi
  refine ⟨p, hp, hu, hheap, hno, fun hcur => ?_⟩
  rintro ⟨j, hj, hl, hv⟩
  have heven := h.unmapped j hj hl.1 _ hv
  unfold resolve Kernel.activeDir Paging.translate at hp
  rw [hcur] at hp
  simp only [heven] at hp
  cases hp

theorem GoodImage.loadable (h : GoodImage L KC c K addr program count Ps) :
    Loadable L KC c K addr program count Ps where
  header := h.avoids h.header
  programs i hi := h.avoids (h.programs i hi)
  sizes i hi hl := h.sizes i hi hl.1
  stop i hi hl := h.stop i hi hl.1
  pages := by
    rintro v ⟨i, hi, hl, hv⟩
    exact h.pages i hi hl.1 v hv

/-- The bytes of a segment can be read. -/
theorem GoodImage.readable (h : GoodImage L KC c K addr program count Ps) (hi : i < count)
    (hl : (Ps i).Loads addr) :
    Stable L c (SegmentPage addr Ps count) K ((Ps i).src addr) (Ps i).fsize := by
  have hlt := h.inside i hi hl.1
  unfold Program.src
  rw [Nat.mod_eq_of_lt hlt]
  exact h.avoids (h.file i hi hl.1)

/-! ## A segment stays in place -/

/-- Another segment is loaded. -/
theorem InPlace.keeps (h : InPlace L c K₀ addr P K) (hs : LoaderSpaces L KC cs c K)
    (hk : Keeps L cs c R K K') (hend : P.vaddr + P.msize ≤ 0xFFFFF000)
    (hR : ∀ b < P.msize, ¬ R ((P.vaddr + b) / 0x1000)) : InPlace L c K₀ addr P K' := by
  intro b hb
  obtain ⟨q, hq, hu, hhigh, hfile, hzero⟩ := h b hb
  have hheap := L.heapEnd_eq
  have hbyte : K'.mem q = K.mem q := hk.bytes q (Or.inr hhigh) hu (fun ho => by
    have := (hs.poolPage ho).below
    omega)
  rw [hbyte.symm] at hfile hzero
  exact ⟨q, (hk.self _ (by omega) (hR b hb)).trans hq, hk.used _ hu, hhigh, hfile, hzero⟩

/-- A segment is in place once it is loaded. -/
theorem RoundDone.inPlace (h : RoundDone L c R addr P K K') (hl : P.Loads addr)
    (hal : P.vaddr % 0x1000 = 0) (hend : P.vaddr + P.msize ≤ 0xFFFFF000)
    (hcur : K₀.currentContext ∈ cs) (hsrc : Stable L c R K₀ (P.src addr) P.fsize)
    (hk : Keeps L cs c R K₀ K) : InPlace L c K₀ addr P K' := by
  obtain ⟨f, hplaced, hholds⟩ := h.places hl
  have himage := hholds (hsrc.keeps hk (fun _ => id) hcur)
  intro b hb
  have hpage : InRange P.vaddr (P.vaddr + P.msize) ((P.vaddr + b) / 0x1000) := by
    constructor <;> omega
  obtain ⟨hhigh, -, hused⟩ := hplaced.frame _ hpage
  have hq : place f (P.vaddr + b) / 0x1000 = f ((P.vaddr + b) / 0x1000) := by
    unfold place
    omega
  refine ⟨place f (P.vaddr + b), hplaced.mapped _ (by omega) hpage, ?_, ?_, fun hlt => ?_,
    fun hge => himage.zero b hge hb⟩
  · rw [hq]
    exact hused
  · exact hhigh.trans (Nat.le_add_right _ _)
  · obtain ⟨p, hp, hp', hbyte, -⟩ := hsrc.byte hk (fun _ => id) hcur hlt
    obtain ⟨p', hp'', hset⟩ := himage.file b hlt
    rw [hp'] at hp''
    cases hp''
    show (resolve K₀.mem K₀.activeDir (P.src addr + b)).map K₀.mem = _
    rw [hp, hset, hbyte]
    rfl

/-- **Behind any number of rounds** the segments of these are in place. -/
theorem Loader.inPlace (h : Loader L KC cs c K₀ ns live)
    (himg : Image K₀ addr program count entry Ps) (hgood : GoodImage L KC c K₀ addr program count Ps)
    (hfit : BuffersFit L K₀.mem (bufferSizes addr Ps 0 count)) (hn : n ≤ count)
    (hK : DayOS.rounds L (kernelHeap L) addr c program n K₀ = .ok K) :
    ∀ i < n, (Ps i).Loads addr → InPlace L c K₀ addr (Ps i) K := by
  have hld := hgood.loadable
  induction n generalizing K with
  | zero => exact fun i hi => absurd hi (Nat.not_lt_zero i)
  | succ n ih =>
      intro i hi hl
      rw [DayOS.rounds] at hK
      obtain ⟨K₁, hK₁, hround⟩ := bind_eq_ok.mp hK
      have hafter := h.afterRounds himg hld hfit (show n ≤ count by omega) hK₁
      rcases hafter.step himg hld h.current (show n < count by omega) with ⟨fault, he, -⟩ |
        ⟨K₂, hok, -, hkeeps, hdone⟩
      · rw [he] at hround
        cases hround
      · rw [hok] at hround
        cases hround
        rcases Nat.lt_succ_iff_lt_or_eq.mp hi with hlt | rfl
        · -- the segment was there before, and shares no page with the next one
          obtain ⟨ns₁, hloader⟩ := hafter.loader
          refine (ih (by omega) hK₁ i hlt hl).keeps hloader.toLoaderSpaces hkeeps
            (hgood.stop i (by omega) hl.1) (fun b hb hv => ?_)
          refine hgood.disjoint i (by omega) n (by omega) hl.1 hv.1.1 (by omega) _ ?_ hv.2
          have hal := hgood.aligned i (by omega) hl.1
          constructor <;> omega
        · exact hdone.inPlace hl (hgood.aligned i (by omega) hl.1) (hgood.stop i (by omega) hl.1)
            h.current (hgood.readable (by omega) hl)
            (hafter.keeps.mono (fun v hv => hv.mono (by omega)))

/-! ## The law -/

/-- **`ParseElf` loads the image** if the temporary blocks end inside the heap. -/
theorem elf_loading (hs : LoaderSpaces L KC cs c K) (hheap : HeapReached L K.mem live)
    (himg : Image K addr program count entry Ps) (hgood : GoodImage L KC c K addr program count Ps)
    (hfit : BuffersFit L K.mem (bufferSizes addr Ps 0 count)) :
    LoadsImage L c K addr count entry Ps live := by
  obtain ⟨ns, hstate, hroot⟩ := hheap.rooted
  have h : Loader L KC cs c K ns live := ⟨hs, hstate, hroot⟩
  have hld := hgood.loadable
  have hparse := h.parseElf himg hld hfit
  rcases h.rounds himg hld hfit le_rfl with ⟨fault, he, hfault⟩ | ⟨K', hok, hafter⟩
  · -- every byte of the image can be read, so an assertion has failed
    have hassert : fault.Assertion := hfault.resolve_right (fun ⟨i, hi, hl, hno⟩ =>
      hno (hgood.readable hi hl))
    rw [he] at hparse
    refine ⟨fun fault' he' => ?_, fun e K' hok => ?_⟩
    · rw [hparse] at he'
      cases he'
      exact hassert
    · rw [hparse] at hok
      cases hok
  · rw [hok] at hparse
    refine ⟨fun fault he => ?_, fun e K'' he => ?_⟩
    · rw [hparse] at he
      cases he
    rw [hparse] at he
    cases he
    obtain ⟨ns', hloader⟩ := hafter.loader
    have hplace : ∀ i < count, (Ps i).type = 1 → InPlace L c K addr (Ps i) K' := fun i hi ht =>
      h.inPlace himg hgood hfit le_rfl hok i hi ((hgood.loads himg.ne hi).mpr ht)
    refine ⟨rfl, hafter.keeps.current, ⟨ns', hloader.heap⟩, fun i hi ht b hb => ?_,
      fun i hi ht b hge hb => ?_, fun va hva hout => hafter.keeps.self va hva ?_⟩
    · have hle := hgood.sizes i hi ht
      have hend := hgood.stop i hi ht
      obtain ⟨q, hq, -, -, hfile, -⟩ := hplace i hi ht b (by omega)
      have hsrc := hfile hb
      unfold Program.src at hsrc
      rw [Nat.mod_eq_of_lt (hgood.inside i hi ht)] at hsrc
      rw [hsrc, Kernel.byteIn, resolve, Nat.mod_eq_of_lt (by omega), hq]
      rfl
    · have hend := hgood.stop i hi ht
      obtain ⟨q, hq, -, -, -, hzero⟩ := hplace i hi ht b hb
      rw [Kernel.byteIn, resolve, Nat.mod_eq_of_lt (by omega), hq, Option.map_some, hzero hge]
    · rintro ⟨i, hi, hl, hv⟩
      exact hout i hi hl.1 hv

end

/-! ## One segment -/

/-- A segment at the start of the user space, whose bytes in the image begin with the header. -/
def wholeImage (fsize msize : Nat) : Program := ⟨1, 0, 0x40000000, fsize, msize⟩

theorem FirstContext.goodImage {m₀ m₁ m : Mem} {s₁ s : Pmm} {KC c d fsize msize : Nat}
    (h : FirstContext m₀ imagePmm KC m₁ s₁ c d m s) (hle : fsize ≤ msize) (hmsize : msize ≤ 0x2000) :
    GoodImage Layout.least KC c (idleKernel KC m s) 0x2000 0x2034 1
      (fun _ => wholeImage fsize msize) := by
  have hpage : ∀ v, (wholeImage fsize msize).Page v → 0x1800 ≤ v ∧ v < 2 ^ 20 := by
    intro v hv
    obtain ⟨hlow, hhigh⟩ : 0x40000000 ≤ 0x1000 * v ∧ 0x1000 * v < 0x40000000 + msize := hv
    omega
  have hone : ∀ i < 1, ∀ j < 1, i ≠ j → False := fun i hi j hj hne => by omega
  have hstart : (0x40000000 : Nat) ≠ NULL ∧ 0x40000000 % 0x1000 = 0 := by decide
  refine ⟨h.stable rfl (by decide) (by decide), fun i hi => ?_, fun i _ _ => ?_,
    fun i _ _ => show 0x2000 + 0 < 2 ^ 32 by decide, fun i _ _ => hstart.1, fun i _ _ => hstart.2,
    fun i _ _ => hle, fun i _ _ => ?_, fun i hi j hj _ _ hne => (hone i hi j hj hne).elim, fun i _ _ v hv => ?_,
    fun i _ _ v hv => h.userPage (hpage v hv).1 (hpage v hv).2⟩
  · obtain rfl : i = 0 := by omega
    exact h.stable rfl (by decide) (by decide)
  · show Stable Layout.least c (fun _ => False) (idleKernel KC m s) 0x2000 fsize
    exact h.stable rfl le_rfl (by omega)
  · show 0x40000000 + msize ≤ 0xFFFFF000
    omega
  · show pte m (pagedir m c) v % 2 = 0
    rw [h.unmapped (hpage v hv).1 (hpage v hv).2]

/-- The heap behind `kinit_heap` has room for the block of a page at most. -/
theorem FirstContext.buffersFit {m₁ m : Mem} {s₀ s₁ s : Pmm} {KC c d fsize msize : Nat} {P : Program}
    (h : FirstContext (kinitHeap Layout.least (imageMem P)) s₀ KC m₁ s₁ c d m s)
    (hpos : 0 < fsize) (hle : fsize ≤ 0x1000) :
    BuffersFit Layout.least m (bufferSizes 0x2000 (fun _ => wholeImage fsize msize) 0 1) := by
  have hend : Layout.least.heapEnd = 0x1701000 := rfl
  have hheap : Layout.least.heapStart = 0x301000 := rfl
  have hsizes : bufferSizes 0x2000 (fun _ => wholeImage fsize msize) 0 1 = [fsize] := rfl
  have hinit : HeapState Layout.least Layout.least.heapEnd
      (kinitHeap Layout.least (imageMem P)) _ [] := heapState_init _ (by decide)
  rw [hsizes]
  refine BuffersFit.congr hinit (hinit.congr (fun x hx _ => h.bytes x (by omega))) ⟨[], rfl⟩
    (fun n hn => ?_) (fun p m' hk => ?_)
  · rw [List.mem_singleton.mp hn]
    omega
  · rw [kmalloc_kinitHeap Layout.least _ hpos] at hk
    cases hk
    exact ⟨by omega, fun _ _ => trivial⟩

/-- Four bytes go to the start of a page, and four zeros behind them. -/
theorem elf_loading_first : ∃ KC c : Nat, ∃ K : Kernel Pmm,
    LoaderSpaces Layout.least KC [c, KC] c K ∧
    LoadsImage Layout.least c K 0x2000 1 0x40000000 (fun _ => wholeImage 4 8) [] := by
  have hheap : Layout.least.heapStart = 0x301000 := rfl
  obtain ⟨KC, m₁, s₁, c, d, m, s, h⟩ := exists_firstContext
    (kinitHeap Layout.least (imageMem (wholeImage 4 8))) imagePmm
    (le_trans poolCount_imagePmm (by decide))
  have hreached : HeapReached Layout.least m [] :=
    ⟨_, HeapRun.init (imageMem (wholeImage 4 8)), fun x hx _ => h.bytes x (by omega)⟩
  exact ⟨KC, c, idleKernel KC m s, h.spaces, elf_loading h.spaces hreached
    (h.image kinitHeap_image (by decide)) (h.goodImage (by decide) (by decide))
    (h.buffersFit (by decide) (by decide))⟩

/-- The heap of the smallest layout with one block, up to 32 bytes below its end. -/
def nearlyFull (m : Mem) : Mem := appended (kinitHeap Layout.least m) 0x301000 0x301010 0x13FFFC0

theorem nearlyFull_run (m : Mem) :
    HeapRun Layout.least (nearlyFull m) [⟨0x301020, 0x13FFFC0⟩] :=
  (HeapRun.init m).malloc (by decide) (by decide) (kmalloc_kinitHeap Layout.least m (by decide))
    (by decide)

theorem nearlyFull_state (m : Mem) : HeapState Layout.least Layout.least.heapEnd (nearlyFull m)
    [⟨0x301000, 0, true⟩, ⟨0x301010, 0x13FFFC0, false⟩] [⟨0x301020, 0x13FFFC0⟩] := by
  have hinit : HeapState Layout.least Layout.least.heapEnd (kinitHeap Layout.least m)
      [⟨Layout.least.heapStart, 0, true⟩] [] := heapState_init m (by decide)
  obtain ⟨q, ns, hq, hm, hstate, -⟩ := hinit.malloc (by decide) (by decide) (by decide)
    (kmalloc_kinitHeap Layout.least m (show 0 < 0x13FFFC0 by decide)) (by decide)
  rcases FirstFit.malloc_cases hm with ⟨x, hx, -⟩ | ⟨-, -, -, rfl⟩
  · rw [find_root (by decide)] at hx
    cases hx
  · exact hstate

/-- In the nearly full heap the block of 6 KB for a segment runs over the page behind the heap,
and the copy into it comes to an address that is not mapped. -/
theorem elf_loading_fails : ∃ KC c : Nat, ∃ K : Kernel Pmm, ∃ live,
    LoaderSpaces Layout.least KC [c, KC] c K ∧ HeapReached Layout.least K.mem live ∧
    Image K 0x2000 0x2034 1 0x40000000 (fun _ => wholeImage 0x1800 0x1800) ∧
    GoodImage Layout.least KC c K 0x2000 0x2034 1 (fun _ => wholeImage 0x1800 0x1800) ∧
    ¬ LoadsImage Layout.least c K 0x2000 1 0x40000000 (fun _ => wholeImage 0x1800 0x1800) live := by
  have hheap : Layout.least.heapStart = 0x301000 := rfl
  have hend : Layout.least.heapEnd = 0x1701000 := rfl
  obtain ⟨KC, m₁, s₁, c, d, m, s, h⟩ := exists_firstContext
    (nearlyFull (imageMem (wholeImage 0x1800 0x1800))) imagePmm
    (le_trans poolCount_imagePmm (by decide))
  have hm₀ : ∀ x < 0x101000, nearlyFull (imageMem (wholeImage 0x1800 0x1800)) x =
      imageMem (wholeImage 0x1800 0x1800) x := fun x hx => by
    unfold nearlyFull
    rw [appended_of_outside (by omega) (by omega)]
    exact kinitHeap_of_outside (Or.inl (show x < 0x301000 by omega))
  have hsame : ∀ x, Layout.least.heapStart ≤ x → x < Layout.least.heapEnd →
      m x = nearlyFull (imageMem (wholeImage 0x1800 0x1800)) x := fun x hx _ =>
    h.bytes x (by omega)
  have himg := h.image hm₀ (by decide)
  have hgood := h.goodImage (le_refl 0x1800) (by decide)
  have hstate := (nearlyFull_state (imageMem (wholeImage 0x1800 0x1800))).congr hsame
  have hl : Loader Layout.least KC [c, KC] c (idleKernel KC m s) _ _ :=
    ⟨h.spaces, hstate, [⟨0x301010, 0x13FFFC0, false⟩], rfl⟩
  refine ⟨KC, c, idleKernel KC m s, _, h.spaces, ⟨_, nearlyFull_run _, hsame⟩, himg, hgood,
    fun hloads => ?_⟩
  -- the block
  have hfit : [(⟨0x301000, 0, true⟩ : FirstFit.Node), ⟨0x301010, 0x13FFFC0, false⟩].find?
      (FirstFit.fits 0x1800) = none := by decide
  have hlast : [(⟨0x301000, 0, true⟩ : FirstFit.Node), ⟨0x301010, 0x13FFFC0, false⟩] =
      [⟨0x301000, 0, true⟩] ++ [⟨0x301010, 0x13FFFC0, false⟩] := rfl
  have hlt : (⟨0x301010, 0x13FFFC0, false⟩ : FirstFit.Node).fin headerSize < 0x1701000 := by decide
  have hk : kmalloc Layout.least m 0x1800 =
      some (0x1700FF0, appended m 0x301010 0x1700FE0 0x1800) :=
    (kmalloc_append hstate.heap hfit hlast (by decide) (by decide)).trans (if_pos hlt)
  obtain ⟨m', hm'⟩ : ∃ m', appended m 0x301010 0x1700FE0 0x1800 = m' := ⟨_, rfl⟩
  rw [hm'] at hk
  have hout : ∀ x, (x < Layout.least.heapStart ∨ Layout.least.heapEnd ≤ x) → m' x = m x := by
    intro x hx
    rw [← hm', appended_of_outside (by omega) (by omega)]
  have hdir : pagedir m' KC = pagedir m KC := (hl.sameWalks hout KC hl.kernel).dir
  have hP := (himg.programs 0 (by decide)).keeps (hgood.programs 0 (by decide))
    (hl.heapKeeps hout) (fun _ hv => hv) hl.current
  -- the copy stops behind the last page that is mapped
  have hbelow : ∀ {k m''}, OnlyAt (fun i => 0x1700FF0 + i) k m' m'' →
      ∀ y < Layout.least.heapStart, m'' y = m y := by
    intro k m'' honly y hy
    have hne : ∀ i < k, 0x1700FF0 + i ≠ y := fun i _ => by omega
    rw [honly y hne, hout y (Or.inl hy)]
  have hcopy : copyAt (pagedir m' KC) 0x1700FF0 0x2000 0x1800 m' = none := by
    refine storeAt_fault (d := fun i => 0x1700FF0 + i) (show 0x1010 < 0x1800 by decide)
      (fun i hi m'' honly => ?_) (fun m'' honly => ?_)
    · rw [hdir]
      exact (hl.contexts.resolves hl.kernel (hbelow honly)).trans (h.resolves (by omega))
    · rw [hdir]
      exact (hl.contexts.resolves hl.kernel (hbelow honly)).trans (h.above (by decide) (by decide))
  have htouch : touch (copyAt (idleKernel KC m' s).activeDir 0x1700FF0 0x2000 0x1800
      (idleKernel KC m' s).mem) = .error .pageFault := by
    show touch (copyAt (pagedir m' KC) 0x1700FF0 0x2000 0x1800 m') = _
    rw [hcopy]
    rfl
  have hcall : heapCall ((kernelHeap Layout.least).kmalloc (idleKernel KC m s).mem 0x1800) =
      .ok (0x1700FF0, m') := heapCall_ok.mpr hk
  have hsegment : loadProgram Layout.least (kernelHeap Layout.least) 0x2000 c (programAt 0x2034 0)
      (idleKernel KC m s) = .error .pageFault := by
    have hload : (wholeImage 0x1800 0x1800).Loads 0x2000 := by decide
    rw [loadProgram_load (himg.programs 0 (by decide)) hload]
    exact (bind_of_ok (himg.programs 0 (by decide)).fsize).trans ((bind_of_ok hcall).trans
      ((bind_of_ok hP.msize).trans ((bind_of_ok hP.fsize).trans ((bind_of_ok hP.fsize).trans
      (bind_of_error htouch)))))
  have hparse : parseElf Layout.least (kernelHeap Layout.least) (idleKernel KC m s) 0x2000 c =
      .error .pageFault := by
    rw [parseElf_loop himg h.spaces.target_ne]
    refine bind_of_error ?_
    exact (bind_of_ok himg.pentryCount).trans ((if_pos Nat.zero_lt_one).trans
      (bind_of_error hsegment))
  exact hloads.stops _ hparse

end DayOS
