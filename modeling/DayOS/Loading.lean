import DayOS.Elf
import DayOS.VmmAlloc

set_option autoImplicit false

/-! # One segment

What the memory, the page tables and the heap are after a round of `ParseElf`'s loop that loads
a segment under words of the directory the kernel context does not use. The copies work through
the active page tables, so each of them is followed down to physical bytes: the temporary block
lies in the heap, which every context maps to itself, and the segment in frames that `vmm_alloc`
has just taken. The image is read again and again, and stays what it is when it lies in pages in
use outside the heap that are no tables of the context (`Stable`).
-/

namespace DayOS

open ByteMemory Paging

/-! ## Memory above the pool -/

section
variable {L : Layout} {m m' : Mem} {s : Pmm} {cs : List Nat} {c i r va : Nat}

/-- Page tables lie below the heap. -/
theorem Walkable.sameWalks (h : Walkable L m s c (DayOS.pagedir m c))
    (hm : ∀ x < L.heapStart, m' x = m x) : SameWalks m m' c := by
  have hpage : ∀ p, L.PoolPage p → AgreeOn m m' p 0x1000 := by
    intro p hp x hx hx'
    have := hp.below
    exact hm x (by omega)
  have hwords : ∀ i < 1024, entry m' (DayOS.pagedir m c) i =
      entry m (DayOS.pagedir m c) i := fun i hi =>
    entry_congr ((hpage _ h.dir).mono (by omega) (by omega))
  refine ⟨load32_congr ((hpage c h.context).mono le_rfl (by omega)), hwords,
    fun v hv => pte_eq_of_tables hwords (fun i hi hodd j hj => ?_) hv⟩
  exact entry_congr ((hpage _ (h.tables i hi hodd).1).mono (by omega) (by omega))

theorem ContextsApart.above (h : ContextsApart L m s cs) (hm : ∀ x < L.heapStart, m' x = m x) :
    ContextsApart L m' s cs := by
  have hsame : ∀ x ∈ cs, SameWalks m m' x := fun x hx => (h.walkable x hx).sameWalks hm
  refine ⟨fun x hx => (hsame x hx).walkable (h.walkable x hx) (fun _ _ => id),
    fun x hx x' hx' hne => ?_⟩
  obtain ⟨h₁, h₂, htables⟩ := h.apart x hx x' hx' hne
  rw [(hsame x hx).dir, (hsame x' hx').dir]
  refine ⟨h₁, h₂, fun j hj hodd => ?_⟩
  rw [(hsame x' hx').words j hj] at hodd ⊢
  exact htables j hj hodd

theorem SameWalks.translates (h : SameWalks m m' c) (hva : va < 2 ^ 32) :
    translate m' (pagedir m' c) va = translate m (pagedir m c) va := by
  rw [h.dir]
  exact translate_congr (h.ptes _ (by omega))

theorem SameWalks.ownTable (h : SameWalks m m' c) : OwnTable m' c r ↔ OwnTable m c r := by
  unfold OwnTable
  rw [h.dir]
  refine or_congr_right ⟨?_, ?_⟩
  · rintro ⟨j, hj, hodd, he⟩
    rw [h.words j hj] at hodd he
    exact ⟨j, hj, hodd, he⟩
  · rintro ⟨j, hj, hodd, he⟩
    refine ⟨j, hj, ?_, ?_⟩
    · rwa [h.words j hj]
    · rwa [h.words j hj]

theorem AbsentOrPrivate.same (hs : ∀ x ∈ cs, SameWalks m m' x) (hc : c ∈ cs) (hi : i < 1024)
    (h : AbsentOrPrivate m cs c i) : AbsentOrPrivate m' cs c i := by
  unfold AbsentOrPrivate
  rw [(hs c hc).dir, (hs c hc).words i hi]
  refine h.imp_right (fun ⟨hflags, hother⟩ => ⟨hflags, fun x hx hne j hj hodd => ?_⟩)
  rw [(hs x hx).dir, (hs x hx).words j hj] at hodd ⊢
  exact hother x hx hne j hj hodd

end

/-! ## The loader's state -/

/-- The contexts when segments are loaded into `c`: apart from each other, the kernel's among
them, and mapping the heap to itself. Under the words that the kernel's directory does not use
are tables of `c` alone. -/
structure LoaderSpaces (L : Layout) (KC : Nat) (cs : List Nat) (c : Nat) (K : Kernel Pmm) :
    Prop where
  contexts : ContextsApart L K.mem K.frames cs
  kernel : KC ∈ cs
  target : c ∈ cs
  ne : KC ≠ c
  current : K.currentContext ∈ cs
  words : ∀ i < 1024, entry K.mem (pagedir K.mem KC) i % 2 = 0 → AbsentOrPrivate K.mem cs c i
  mapped : ∀ x ∈ cs, ∀ a, L.heapStart ≤ a → a < L.heapEnd →
    translate K.mem (pagedir K.mem x) a = some a

/-- The state in which segments are loaded: the contexts, and a heap that serves `live`. -/
structure Loader (L : Layout) (KC : Nat) (cs : List Nat) (c : Nat) (K : Kernel Pmm)
    (ns : List FirstFit.Node) (live : List Block) : Prop extends LoaderSpaces L KC cs c K where
  heap : HeapState L L.heapEnd K.mem ns live
  rooted : Rooted L ns

/-- The page `v` is under a word that the kernel's directory does not use. -/
def UserPage (KC : Nat) (K : Kernel Pmm) (v : Nat) : Prop :=
  v < 2 ^ 20 ∧ entry K.mem (pagedir K.mem KC) (v / 1024) % 2 = 0

/-- What has not changed from `K` to `K'`, where the pages `R` of the context `c` have got
frames: the walks of the other contexts, the other pages of `c`, and the bytes of all pages that
were in use, outside the heap and the tables of `c`. -/
structure Keeps (L : Layout) (cs : List Nat) (c : Nat) (R : Nat → Prop) (K K' : Kernel Pmm) :
    Prop where
  current : K'.currentContext = K.currentContext
  used : ∀ r, K.frames.Used r → K'.frames.Used r
  bytes : ∀ x, (x < L.heapStart ∨ L.heapEnd ≤ x) → K.frames.Used (x / 0x1000) →
    ¬ OwnTable K.mem c (x / 0x1000) → K'.mem x = K.mem x
  tables : ∀ r, K.frames.Used r → OwnTable K'.mem c r → OwnTable K.mem c r
  others : ∀ x ∈ cs, x ≠ c → SameWalks K.mem K'.mem x
  self : ∀ va < 2 ^ 32, ¬ R (va / 0x1000) →
    translate K'.mem (pagedir K'.mem c) va = translate K.mem (pagedir K.mem c) va

/-- The `n` bytes at `va`, read through the active page tables, lie in pages in use, outside the
heap and the tables of `c`; and where `c` is active itself, not in the pages `R`. -/
def Stable (L : Layout) (c : Nat) (R : Nat → Prop) (K : Kernel Pmm) (va n : Nat) : Prop :=
  ∀ i < n, ∃ p, resolve K.mem K.activeDir (va + i) = some p ∧ K.frames.Used (p / 0x1000) ∧
    (p < L.heapStart ∨ L.heapEnd ≤ p) ∧ ¬ OwnTable K.mem c (p / 0x1000) ∧
    (K.currentContext = c → ¬ R ((va + i) % 2 ^ 32 / 0x1000))

section
variable {L : Layout} {cs : List Nat} {KC c n va a p : Nat} {R R' : Nat → Prop}
  {K K₁ K' : Kernel Pmm} {m₁ m₂ m₃ m₄ m₅ m' : Mem} {s₃ : Pmm} {ns ns' : List FirstFit.Node}
  {live : List Block}

theorem Keeps.refl : Keeps L cs c R K K :=
  ⟨rfl, fun _ => id, fun _ _ _ _ => rfl, fun _ _ => id, fun x _ _ => SameWalks.refl K.mem x,
    fun _ _ _ => rfl⟩

theorem SameWalks.trans {m : Mem} (h₁ : SameWalks m m₁ c) (h₂ : SameWalks m₁ m' c) :
    SameWalks m m' c := by
  refine ⟨h₂.dir.trans h₁.dir, fun i hi => ?_, fun v hv => ?_⟩
  · rw [← h₁.dir, h₂.words i hi, h₁.dir, h₁.words i hi]
  · rw [← h₁.dir, h₂.ptes v hv, h₁.dir, h₁.ptes v hv]

theorem Keeps.trans (h₁ : Keeps L cs c R K K₁) (h₂ : Keeps L cs c R' K₁ K') :
    Keeps L cs c (fun v => R v ∨ R' v) K K' where
  current := h₂.current.trans h₁.current
  used r hr := h₂.used r (h₁.used r hr)
  bytes x hx hu hno := by
    rw [h₂.bytes x hx (h₁.used _ hu) (fun ht => hno (h₁.tables _ hu ht)), h₁.bytes x hx hu hno]
  tables r hr ht := h₁.tables r hr (h₂.tables r (h₁.used r hr) ht)
  others x hx hne := (h₁.others x hx hne).trans (h₂.others x hx hne)
  self va hva hR := by
    rw [not_or] at hR
    exact (h₂.self va hva hR.2).trans (h₁.self va hva hR.1)

theorem Keeps.mono (h : Keeps L cs c R K K') (hR : ∀ v, R v → R' v) : Keeps L cs c R' K K' :=
  { h with self := fun va hva hno => h.self va hva (fun hr => hno (hR _ hr)) }

/-- The pages of a context are where they were, unless they got a frame. -/
theorem Keeps.translates (h : Keeps L cs c R K K') {x : Nat} (hx : x ∈ cs) (hva : va < 2 ^ 32)
    (hR : x = c → ¬ R (va / 0x1000)) :
    translate K'.mem (pagedir K'.mem x) va = translate K.mem (pagedir K.mem x) va := by
  by_cases hxc : x = c
  · subst hxc
    exact h.self va hva (hR rfl)
  · exact (h.others x hx hxc).translates hva

theorem Keeps.userPage (h : Keeps L cs c R K K') (hK : KC ∈ cs) (hne : KC ≠ c) {v : Nat}
    (hv : UserPage KC K v) : UserPage KC K' v := by
  obtain ⟨hlt, heven⟩ := hv
  have hs := h.others KC hK hne
  refine ⟨hlt, ?_⟩
  rw [hs.dir, hs.words _ (by omega)]
  exact heven

/-! ## Program headers -/

/-- The words of a program header that `ParseElf` reads. -/
structure Program where
  type : Nat
  offset : Nat
  vaddr : Nat
  fsize : Nat
  msize : Nat

/-- The program header at `program`, as the kernel reads it. -/
structure HasProgram {σ : Type} (K : Kernel σ) (program : Nat) (P : Program) : Prop where
  type : programType K program = .ok P.type
  offset : programOffset K program = .ok P.offset
  vaddr : programVaddr K program = .ok P.vaddr
  fsize : programFsize K program = .ok P.fsize
  msize : programMsize K program = .ok P.msize

/-- The page `v` is one of the segment's. -/
def Program.Page (P : Program) (v : Nat) : Prop := InRange P.vaddr (P.vaddr + P.msize) v

/-- The failed assertions among the faults. -/
def ElfFault.Assertion : ElfFault → Prop
  | .vmm fault => fault ≠ .endless
  | .heap => True
  | .pageFault => False

/-! ## What stays readable -/

theorem Stable.sub (h : Stable L c R K va n) {b k : Nat} (hk : b + k ≤ n) :
    Stable L c R K (va + b) k := by
  intro i hi
  rw [Nat.add_assoc]
  exact h (b + i) (by omega)

/-- Each byte is where it was, and what it was. -/
theorem Stable.byte (h : Stable L c R K va n) (hk : Keeps L cs c R' K K')
    (hR : ∀ v, R' v → R v) (hcur : K.currentContext ∈ cs) {i : Nat} (hi : i < n) :
    ∃ p, resolve K.mem K.activeDir (va + i) = some p ∧
      resolve K'.mem K'.activeDir (va + i) = some p ∧ K'.mem p = K.mem p ∧
      K.frames.Used (p / 0x1000) ∧ (p < L.heapStart ∨ L.heapEnd ≤ p) ∧
      ¬ OwnTable K.mem c (p / 0x1000) := by
  obtain ⟨p, hp, hu, hheap, hno, hself⟩ := h i hi
  refine ⟨p, hp, ?_, hk.bytes p hheap hu hno, hu, hheap, hno⟩
  rw [← hp]
  unfold resolve Kernel.activeDir
  rw [hk.current]
  exact hk.translates hcur (Nat.mod_lt _ (by decide)) (fun hc hv => hself hc (hR _ hv))

theorem Stable.peek (h : Stable L c R K va n) (hk : Keeps L cs c R' K K')
    (hR : ∀ v, R' v → R v) (hcur : K.currentContext ∈ cs) : K'.peek va n = K.peek va n := by
  unfold Kernel.peek
  rw [readAt_congr (fun i hi => ?_)]
  obtain ⟨p, hp, hp', hbyte, -⟩ := h.byte hk hR hcur hi
  exact ⟨p, hp, hp', hbyte⟩

theorem HasProgram.keeps {program : Nat} {P : Program} (h : HasProgram K program P)
    (hst : Stable L c R K program 32) (hk : Keeps L cs c R' K K') (hR : ∀ v, R' v → R v)
    (hcur : K.currentContext ∈ cs) : HasProgram K' program P := by
  have hpeek : ∀ b, b + 4 ≤ 32 → K'.peek (program + b) 4 = K.peek (program + b) 4 := fun b hb =>
    (hst.sub hb).peek hk hR hcur
  exact ⟨(hpeek 0 (by omega)).trans h.type, (hpeek 4 (by omega)).trans h.offset,
    (hpeek 8 (by omega)).trans h.vaddr, (hpeek 16 (by omega)).trans h.fsize,
    (hpeek 20 (by omega)).trans h.msize⟩

theorem Stable.keeps (h : Stable L c R K va n) (hk : Keeps L cs c R' K K')
    (hR : ∀ v, R' v → R v) (hcur : K.currentContext ∈ cs) : Stable L c R K' va n := by
  intro i hi
  obtain ⟨p, hp, hp', -, hu, hheap, hno⟩ := h.byte hk hR hcur hi
  refine ⟨p, hp', hk.used _ hu, hheap, fun ht => hno (hk.tables _ hu ht), fun hc => ?_⟩
  obtain ⟨-, -, -, -, -, hself⟩ := h i hi
  exact hself (hk.current ▸ hc)

/-! ## One round, memory by memory -/

/-- The pages from `dest` to `dest + msize` of the context `c` are at the frames `f`, free
before, and no byte outside these, the heap and the tables of `c` has changed. -/
structure Placed (L : Layout) (c dest msize : Nat) (f : Nat → Nat) (K K' : Kernel Pmm) : Prop where
  frame : ∀ v, InRange dest (dest + msize) v →
    L.heapEnd ≤ 0x1000 * f v ∧ ¬ K.frames.Used (f v) ∧ K'.frames.Used (f v)
  inj : ∀ v w, InRange dest (dest + msize) v → InRange dest (dest + msize) w → f v = f w → v = w
  mapped : ∀ va < 2 ^ 32, InRange dest (dest + msize) (va / 0x1000) →
    translate K'.mem (pagedir K'.mem c) va = some (0x1000 * f (va / 0x1000) + va % 0x1000)
  writes : ∀ x, (x < L.heapStart ∨ L.heapEnd ≤ x) → ¬ OwnTable K'.mem c (x / 0x1000) →
    (∀ v, InRange dest (dest + msize) v → f v ≠ x / 0x1000) → K'.mem x = K.mem x

theorem odd_of_translate {m : Mem} {dir : Nat} (h : translate m dir va = some p) :
    entry m dir (va / 0x1000 / 1024) % 2 = 1 := by
  by_contra heven
  rw [Paging.translate, pte_of_even (by omega)] at h
  cases h

/-- The tables of a context are pages of the pool. -/
theorem LoaderSpaces.poolPage (h : LoaderSpaces L KC cs c K) {r : Nat}
    (ho : OwnTable K.mem c r) : L.PoolPage (0x1000 * r) := by
  have hw := h.contexts.walkable c h.target
  rcases ho with hd | ⟨j, hj, hodd, ht⟩
  · rw [hd]
    exact hw.dir
  · rw [← ht]
    exact (hw.tables j hj hodd).1

/-- The heap's pages are under words that the kernel's directory uses. -/
theorem Loader.heap_page (h : Loader L KC cs c K ns live) (ha : L.heapStart ≤ a)
    (ha' : a < L.heapEnd) : ¬ UserPage KC K (a / 0x1000) := by
  rintro ⟨-, heven⟩
  have hodd := odd_of_translate (h.mapped KC h.kernel a ha ha')
  omega

/-- What happens inside the heap is seen nowhere else. -/
theorem Loader.sameWalks (h : Loader L KC cs c K ns live)
    (hm : ∀ x, (x < L.heapStart ∨ L.heapEnd ≤ x) → m' x = K.mem x) :
    ∀ x ∈ cs, SameWalks K.mem m' x := fun x hx =>
  (h.contexts.walkable x hx).sameWalks (fun y hy => hm y (Or.inl hy))

theorem Loader.heapKeeps (h : Loader L KC cs c K ns live)
    (hm : ∀ x, (x < L.heapStart ∨ L.heapEnd ≤ x) → m' x = K.mem x) :
    Keeps L cs c R K { K with mem := m' } := by
  have hs := h.sameWalks hm
  exact ⟨rfl, fun _ => id, fun x hx _ _ => hm x hx, fun r _ => (hs c h.target).ownTable.mp,
    fun x hx _ => hs x hx, fun va hva _ => (hs c h.target).translates hva⟩

/-- The heap is where it was in every context, after any change to memory above it. -/
theorem Loader.resolves (h : Loader L KC cs c K ns live) {x : Nat} (hx : x ∈ cs)
    (hm : ∀ y < L.heapStart, m' y = K.mem y) (ha : L.heapStart ≤ a) (ha' : a < L.heapEnd) :
    resolve m' (pagedir K.mem x) a = some a := by
  have hend := L.heapEnd_le
  have hs := (h.contexts.walkable x hx).sameWalks hm
  have ht : translate m' (pagedir m' x) a = translate K.mem (pagedir K.mem x) a :=
    hs.translates (by omega)
  rw [hs.dir] at ht
  rw [resolve, Nat.mod_eq_of_lt (by omega), ht]
  exact h.mapped x hx a ha ha'

/-- **One round.** `m₂` is the memory once the segment is in the temporary block, `m₃` and `s₃`
what `vmm_alloc` leaves, `m₅` the memory with the segment in place, and `m₆` that with the
block given back. -/
theorem Loader.round {dest msize : Nat} {f : Nat → Nat} {m₆ : Mem}
    (h : Loader L KC cs c K ns live) (hend : dest + msize ≤ 0xFFFFF000)
    (huser : ∀ v, InRange dest (dest + msize) v → UserPage KC K v)
    (h₂ : ∀ x, (x < L.heapStart ∨ L.heapEnd ≤ x) → m₂ x = K.mem x)
    (hctx : ContextsApart L m₃ s₃ cs) (ht : WritesTables L cs c m₂ K.frames m₃ s₃)
    (a : GetsFrames L cs c (InRange dest (dest + msize)) f m₂ K.frames m₃ s₃)
    (h₅ : ∀ x, (∀ v, InRange dest (dest + msize) v → f v ≠ x / 0x1000) → m₅ x = m₃ x)
    (h₆ : ∀ x, (x < L.heapStart ∨ L.heapEnd ≤ x) → m₆ x = m₅ x)
    (hheap : HeapState L L.heapEnd m₆ ns' live) (hroot : Rooted L ns') :
    Loader L KC cs c { K with mem := m₆, frames := s₃ } ns' live ∧
      Keeps L cs c (InRange dest (dest + msize)) K { K with mem := m₆, frames := s₃ } ∧
      Placed L c dest msize f K { K with mem := m₆, frames := s₃ } := by
  have hlow := L.heapEnd_eq
  have hsame₂ := h.sameWalks h₂
  -- frames lie above the heap, so the tables are those that `vmm_alloc` left
  have h₃₆ : ∀ x < L.heapStart, m₆ x = m₃ x := by
    intro x hx
    rw [h₆ x (Or.inl hx), h₅ x (fun v hv he => ?_)]
    have := (a.frame v hv).1
    omega
  have hsame₆ : ∀ x ∈ cs, SameWalks m₃ m₆ x := fun x hx => (hctx.walkable x hx).sameWalks h₃₆
  have hrange : ∀ {va : Nat}, InRange dest (dest + msize) (va / 0x1000) → va / 0x1000 < 2 ^ 20 :=
    fun hv => by
      have := hv.2
      omega
  have hkeeps : Keeps L cs c (InRange dest (dest + msize)) K
      { K with mem := m₆, frames := s₃ } := by
    have htables : ∀ r, K.frames.Used r → OwnTable m₆ c r → OwnTable K.mem c r := fun r hr ho =>
      (hsame₂ c h.target).ownTable.mp (ht.tables r hr ((hsame₆ c h.target).ownTable.mp ho))
    refine ⟨rfl, ht.used, fun x hx hu hno => ?_, htables, fun x hx hne => ?_,
      fun va hva hout => ?_⟩
    · show m₆ x = K.mem x
      rw [h₆ x hx, h₅ x (fun v hv he => (a.frame v hv).2.2 (he ▸ hu)), ht.bytes x (fun ho => hno ?_),
        h₂ x hx]
      exact (hsame₂ c h.target).ownTable.mp (ht.tables _ hu ho)
    · exact ((hsame₂ x hx).trans (a.others x hx hne)).trans (hsame₆ x hx)
    · show translate m₆ (pagedir m₆ c) va = translate K.mem (pagedir K.mem c) va
      rw [(hsame₆ c h.target).translates hva, ← (hsame₂ c h.target).translates hva, a.dir]
      exact translate_congr (a.kept _ (by omega) hout)
  refine ⟨⟨⟨hctx.above h₃₆, h.kernel, h.target, h.ne, h.current, fun i hi heven => ?_,
    fun x hx y hy hy' => ?_⟩, hheap, hroot⟩, hkeeps, ⟨fun v hv => ?_, a.inj, fun va hva hv => ?_,
    fun x hx hno hout => ?_⟩⟩
  · have hs := hkeeps.others KC h.kernel h.ne
    have heven' : entry K.mem (pagedir K.mem KC) i % 2 = 0 := by
      rw [← hs.words i hi, ← hs.dir]
      exact heven
    refine AbsentOrPrivate.same hsame₆ h.target hi (ht.words i hi ?_)
    exact AbsentOrPrivate.same hsame₂ h.target hi (h.words i hi heven')
  · have hheap' := L.heapEnd_le
    rw [hkeeps.translates hx (by omega) (fun _ hv => h.heap_page hy hy' (huser _ hv))]
    exact h.mapped x hx y hy hy'
  · obtain ⟨hhigh, -, hfree⟩ := a.frame v hv
    exact ⟨hhigh, hfree, (a.used _).mpr (Or.inr (Or.inl ⟨v, hv, rfl⟩))⟩
  · show translate m₆ (pagedir m₆ c) va = _
    rw [(hsame₆ c h.target).translates hva, a.dir]
    exact translate_of_pte (a.mapped _ (hrange hv) hv) (Nat.mul_mod_right _ _) (by decide) (by decide)
  · show m₆ x = K.mem x
    rw [h₆ x hx, h₅ x hout, ht.bytes x (fun ho => hno ((hsame₆ c h.target).ownTable.mpr ho)), h₂ x hx]

/-! ## One round, step by step -/

/-- Where the byte `va` of a segment at the frames `f` lies. -/
def place (f : Nat → Nat) (va : Nat) : Nat := 0x1000 * f (va / 0x1000) + va % 0x1000

/-- A segment with something in it starts on a page, or `map_page` stops the loader. -/
theorem vmmAlloc_page {m m' : Mem} {s s' : Pmm} {vaddr sz i : Nat} (hend : vaddr + sz ≤ 0xFFFFF000)
    (hok : vmmAlloc L m s c vaddr sz = .ok (m', s')) (hi : i < sz) :
    InRange vaddr (vaddr + sz) ((vaddr + i) / 0x1000) := by
  have hal : vaddr % 0x1000 = 0 := by
    by_contra hne
    unfold vmmAlloc at hok
    rw [Nat.mod_eq_of_lt (by omega)] at hok
    exact vmmAllocLoop_unaligned hne (by omega) hok
  constructor <;> omega

/-- What a loaded segment holds: the bytes behind `src`, and zeros behind them. -/
structure HoldsImage (K K' : Kernel Pmm) (src : Nat) (P : Program) (f : Nat → Nat) : Prop where
  file : ∀ b < P.fsize, ∃ p, resolve K.mem K.activeDir (src + b) = some p ∧
    K'.mem (place f (P.vaddr + b)) = K.mem p
  zero : ∀ b, P.fsize ≤ b → b < P.msize → K'.mem (place f (P.vaddr + b)) = 0

/-- Nothing above the pool decides where an address leads. -/
theorem ContextsApart.resolves {m : Mem} {s : Pmm} (h : ContextsApart L m s cs) (hc : c ∈ cs)
    (hm : ∀ y < L.heapStart, m' y = m y) : resolve m' (pagedir m c) va = resolve m (pagedir m c) va := by
  have hs := (h.walkable c hc).sameWalks hm
  have ht : translate m' (pagedir m' c) (va % 2 ^ 32) = translate m (pagedir m c) (va % 2 ^ 32) :=
    hs.translates (Nat.mod_lt _ (by decide))
  rw [hs.dir] at ht
  exact ht

/-- **The way into the temporary block.** -/
theorem Loader.copyIn (R : Nat → Prop) (src : Nat) {buf : Nat} (h : Loader L KC cs c K ns live)
    (hbuf : Buffer L K.mem live n buf m₁ ns') :
    (∀ m₂, copyAt (pagedir m₁ K.currentContext) buf src n m₁ = some m₂ →
      OnlyAt (fun i => buf + i) n m₁ m₂) ∧
    (Stable L c R K src n → ∃ m₂, copyAt (pagedir m₁ K.currentContext) buf src n m₁ = some m₂ ∧
      ∀ i < n, ∃ p, resolve K.mem K.activeDir (src + i) = some p ∧ m₂ (buf + i) = K.mem p) := by
  have hstart := hbuf.start
  have hstop := hbuf.stop
  have hdir : pagedir m₁ K.currentContext = pagedir K.mem K.currentContext :=
    (h.sameWalks hbuf.writes _ h.current).dir
  -- the copy writes inside the heap
  have hbelow : ∀ {m'}, OnlyAt (fun i => buf + i) n m₁ m' → ∀ y < L.heapStart, m' y = K.mem y := by
    intro m' honly y hy
    have hout : ∀ i < n, buf + i ≠ y := fun i _ => by omega
    rw [honly y hout, hbuf.writes y (Or.inl hy)]
  have hdst : ∀ i < n, ∀ m', OnlyAt (fun i => buf + i) n m₁ m' →
      resolve m' (pagedir m₁ K.currentContext) (buf + i) = some (buf + i) := by
    intro i hi m' honly
    rw [hdir]
    exact h.resolves h.current (hbelow honly) (by omega) (by omega)
  refine ⟨fun m₂ hc => storeAt_only hdst hc, fun hsrc => ?_⟩
  -- where the bytes of the image lie
  have hread : ∀ i < n, ∃ p, resolve K.mem K.activeDir (src + i) = some p ∧
      (resolve K.mem K.activeDir (src + i)).getD 0 = p ∧ (p < L.heapStart ∨ L.heapEnd ≤ p) := by
    intro i hi
    obtain ⟨p, hp, -, hheap, -⟩ := hsrc i hi
    exact ⟨p, hp, by rw [hp]; rfl, hheap⟩
  have hload : ∀ i < n, ∀ m', OnlyAt (fun i => buf + i) n m₁ m' →
      resolve m' (pagedir m₁ K.currentContext) (src + i) =
        some ((resolve K.mem K.activeDir (src + i)).getD 0) := by
    intro i hi m' honly
    obtain ⟨p, hp, he, -⟩ := hread i hi
    rw [he, ← hp, hdir]
    exact h.contexts.resolves h.current (hbelow honly)
  have happart : ∀ i < n, ∀ j < n, buf + i ≠ (resolve K.mem K.activeDir (src + j)).getD 0 := by
    intro i hi j hj
    obtain ⟨p, -, he, hheap⟩ := hread j hj
    rw [he]
    omega
  obtain ⟨m₂, hm₂, hset, -⟩ := copyAt_ok hdst hload (fun i _ j _ => Nat.add_left_cancel) happart
  refine ⟨m₂, hm₂, fun i hi => ?_⟩
  obtain ⟨p, hp, he, hheap⟩ := hread i hi
  refine ⟨p, hp, ?_⟩
  rw [hset i hi, he, hbuf.writes p hheap]

/-- **The way into the frames.** -/
theorem copyOut {buf dest msize fsize : Nat} {f : Nat → Nat} (hctx : ContextsApart L m₃ s₃ cs)
    (hc : c ∈ cs) (hle : fsize ≤ msize)
    (hplace : ∀ i < msize, resolve m₃ (pagedir m₃ c) (dest + i) = some (place f (dest + i)))
    (hhigh : ∀ i < msize, L.heapEnd ≤ place f (dest + i))
    (hinj : ∀ i < msize, ∀ j < msize, place f (dest + i) = place f (dest + j) → i = j)
    (hbuf : ∀ i < fsize, buf + i < L.heapEnd ∧
      resolve m₃ (pagedir m₃ c) (buf + i) = some (buf + i)) :
    ∃ m₄ m₅, fillAt (pagedir m₃ c) dest 0 msize m₃ = some m₄ ∧
      copyAt (pagedir m₄ c) dest buf fsize m₄ = some m₅ ∧
      (∀ i < fsize, m₅ (place f (dest + i)) = m₃ (buf + i)) ∧
      (∀ i, fsize ≤ i → i < msize → m₅ (place f (dest + i)) = 0) ∧
      OnlyAt (fun i => place f (dest + i)) msize m₃ m₅ := by
  have hheap := L.heapEnd_eq
  have hbelow : ∀ {m'}, OnlyAt (fun i => place f (dest + i)) msize m₃ m' →
      ∀ y < L.heapStart, m' y = m₃ y := by
    intro m' honly y hy
    refine honly y (fun i hi (he : place f (dest + i) = y) => ?_)
    have := hhigh i hi
    omega
  obtain ⟨m₄, hm₄, hzero, honly₄⟩ := fillAt_ok (b := 0) (fun i hi m' honly =>
    (hctx.resolves hc (hbelow honly)).trans (hplace i hi)) hinj
  have hdir : pagedir m₄ c = pagedir m₃ c :=
    ((hctx.walkable c hc).sameWalks (hbelow honly₄)).dir
  have hbelow₅ : ∀ {m'}, OnlyAt (fun i => place f (dest + i)) fsize m₄ m' →
      ∀ y < L.heapStart, m' y = m₃ y := by
    intro m' honly y hy
    have hout : ∀ i < fsize, place f (dest + i) ≠ y := fun i hi he => by
      have := hhigh i (by omega)
      omega
    rw [honly y hout, hbelow honly₄ y hy]
  have happart : ∀ i < fsize, ∀ j < msize, place f (dest + j) ≠ buf + i := fun i hi j hj => by
    have := hhigh j hj
    have := (hbuf i hi).1
    omega
  obtain ⟨m₅, hm₅, hset, honly₅⟩ := copyAt_ok (d := fun i => place f (dest + i))
    (fun i hi m' honly => (hctx.resolves hc (hbelow₅ honly)).trans (hplace i (by omega)))
    (fun i hi m' honly => (hctx.resolves hc (hbelow₅ honly)).trans (hbuf i hi).2)
    (fun i hi j hj => hinj i (by omega) j (by omega))
    (fun i hi j hj => happart j hj i (by omega))
  refine ⟨m₄, m₅, hm₄, by rw [hdir]; exact hm₅, fun i hi => ?_, fun i hi hi' => ?_, fun x hx => ?_⟩
  · rw [hset i hi]
    exact honly₄ _ (happart i hi)
  · have hne : ∀ j < fsize, place f (dest + j) ≠ place f (dest + i) := fun j hj he => by
      have := hinj j (by omega) i hi' he
      omega
    rw [honly₅ _ hne, hzero i hi']
  · rw [honly₅ x (fun j hj => hx j (by omega)), honly₄ x hx]

/-- **From the block into the frames**, when `vmm_alloc` has come back. -/
theorem Loader.transfer {buf : Nat} {P : Program} (h : Loader L KC cs c K ns live)
    (hle : P.fsize ≤ P.msize) (hend : P.vaddr + P.msize ≤ 0xFFFFF000)
    (huser : ∀ v, P.Page v → UserPage KC K v) (hbuf : Buffer L K.mem live P.fsize buf m₁ ns')
    (hroot : Rooted L ns') (honly : OnlyAt (fun i => buf + i) P.fsize m₁ m₂)
    (halloc : vmmAlloc L m₂ K.frames c P.vaddr P.msize = .ok (m₃, s₃)) :
    ∃ m₄ m₅ m₆ f, fillAt (pagedir m₃ c) P.vaddr 0 P.msize m₃ = some m₄ ∧
      copyAt (pagedir m₄ c) P.vaddr buf P.fsize m₄ = some m₅ ∧ kfree L m₅ buf = some m₆ ∧
      Loader L KC cs c { K with mem := m₆, frames := s₃ } ns' live ∧
      Keeps L cs c P.Page K { K with mem := m₆, frames := s₃ } ∧
      Placed L c P.vaddr P.msize f K { K with mem := m₆, frames := s₃ } ∧
      (∀ i < P.fsize, m₆ (place f (P.vaddr + i)) = m₂ (buf + i)) ∧
      ∀ i, P.fsize ≤ i → i < P.msize → m₆ (place f (P.vaddr + i)) = 0 := by
  have hL := L.heapEnd_le
  have hheap := L.heapEnd_eq
  have hstart := hbuf.start
  have hstop := hbuf.stop
  have h₂ : ∀ x, (x < L.heapStart ∨ L.heapEnd ≤ x) → m₂ x = K.mem x := by
    intro x hx
    have hout : ∀ i < P.fsize, buf + i ≠ x := fun i _ => by omega
    rw [honly x hout, hbuf.writes x hx]
  have hsame₂ := h.sameWalks h₂
  -- `vmm_alloc` works under words that are absent or the context's own
  have hpriv : ∀ v, P.Page v → AbsentOrPrivate m₂ cs c (v / 1024) := by
    intro v hv
    obtain ⟨hlt, heven⟩ := huser v hv
    exact AbsentOrPrivate.same hsame₂ h.target (by omega) (h.words _ (by omega) heven)
  obtain ⟨hctx, htables, f, a⟩ := (h.contexts.above (fun x hx => h₂ x (Or.inl hx))).alloc
    h.target hend hpriv halloc
  -- the segment's bytes lie in its frames
  have hpage : ∀ i < P.msize, P.Page ((P.vaddr + i) / 0x1000) := fun i hi =>
    vmmAlloc_page hend halloc hi
  have hplace : ∀ i < P.msize,
      resolve m₃ (pagedir m₃ c) (P.vaddr + i) = some (place f (P.vaddr + i)) := by
    intro i hi
    rw [resolve, Nat.mod_eq_of_lt (by omega), a.dir]
    exact translate_of_pte (a.mapped _ (by omega) (hpage i hi)) (Nat.mul_mod_right _ _) (by decide)
      (by decide)
  have hhigh : ∀ i < P.msize, L.heapEnd ≤ place f (P.vaddr + i) := fun i hi =>
    (a.frame _ (hpage i hi)).1.trans (Nat.le_add_right _ _)
  have hinj : ∀ i < P.msize, ∀ j < P.msize,
      place f (P.vaddr + i) = place f (P.vaddr + j) → i = j := by
    intro i hi j hj he
    unfold place at he
    have hframe := a.inj _ _ (hpage i hi) (hpage j hj) (by omega)
    rw [hframe] at he
    omega
  -- and the block is where it was
  have hblock : ∀ i < P.fsize, buf + i < L.heapEnd ∧
      resolve m₃ (pagedir m₃ c) (buf + i) = some (buf + i) := by
    intro i hi
    have hout : ¬ P.Page ((buf + i) / 0x1000) := fun hv =>
      h.heap_page (by omega) (by omega) (huser _ hv)
    refine ⟨by omega, ?_⟩
    have hmapped := h.mapped c h.target (buf + i) (by omega) (by omega)
    rw [resolve, Nat.mod_eq_of_lt (by omega), a.dir, translate_congr (a.kept _ (by omega) hout),
      (hsame₂ c h.target).translates (by omega)]
    exact hmapped
  obtain ⟨m₄, m₅, hfill, hcopy, hset, hzero, honly₅⟩ :=
    copyOut hctx h.target hle hplace hhigh hinj hblock
  have h₅ : ∀ x, (∀ v, P.Page v → f v ≠ x / 0x1000) → m₅ x = m₃ x := by
    intro x hx
    refine honly₅ x (fun i hi (he : place f (P.vaddr + i) = x) => hx _ (hpage i hi) ?_)
    rw [← he]
    unfold place
    omega
  have hbelow : ∀ x < L.heapEnd, m₅ x = m₃ x := by
    intro x hx
    refine h₅ x (fun v hv he => ?_)
    have := (a.frame v hv).1
    omega
  -- the block goes back to the heap
  obtain ⟨m₆, hfree, hstate, h₆, -⟩ := hbuf.free m₅ (fun x hx hx' hno => by
    have hout : ∀ i < P.fsize, buf + i ≠ x := fun i _ => by omega
    rw [hbelow x hx', htables.high x hx, honly x hout])
  obtain ⟨hloader, hkeeps, hplaced⟩ := h.round hend huser h₂ hctx htables a h₅ h₆ hstate hroot
  refine ⟨m₄, m₅, m₆, f, hfill, hcopy, hfree, hloader, hkeeps, hplaced, fun i hi => ?_,
    fun i hi hi' => ?_⟩
  · rw [h₆ _ (Or.inr (hhigh i (by omega))), hset i hi, htables.high _ (by omega)]
  · rw [h₆ _ (Or.inr (hhigh i hi')), hzero i hi hi']

/-- What is wrong when a segment is not loaded: an assertion has failed, or its bytes in the
image cannot be read. -/
def LoadFault (L : Layout) (c : Nat) (R : Nat → Prop) (K : Kernel Pmm) (src n : Nat)
    (fault : ElfFault) : Prop :=
  fault.Assertion ∨ ¬ Stable L c R K src n

/-- **One segment.** Either it does not come back, or the state is a loader's again, with the
segment in new frames. -/
theorem Loader.segment {src program : Nat} {P : Program} {sizes : List Nat}
    (h : Loader L KC cs c K ns live) (hP : HasProgram K program P)
    (hst : Stable L c R K program 32) (hle : P.fsize ≤ P.msize)
    (hend : P.vaddr + P.msize ≤ 0xFFFFF000) (huser : ∀ v, P.Page v → UserPage KC K v)
    (hsizes : ∀ n ∈ P.fsize :: sizes, n < 2 ^ 32) (hfit : BuffersFit L K.mem (P.fsize :: sizes)) :
    (∃ fault, loadSegment L (kernelHeap L) c P.vaddr src program K = .error fault ∧
      LoadFault L c R K src P.fsize fault) ∨
    ∃ K' ns' f, loadSegment L (kernelHeap L) c P.vaddr src program K = .ok K' ∧
      Loader L KC cs c K' ns' live ∧ Keeps L cs c P.Page K K' ∧
      Placed L c P.vaddr P.msize f K K' ∧ BuffersFit L K'.mem sizes ∧
      (Stable L c R K src P.fsize → HoldsImage K K' src P f) := by
  have hL := L.heapEnd_le
  have hheap := L.heapEnd_eq
  have hn : P.fsize < 2 ^ 32 := hsizes _ List.mem_cons_self
  -- the fields read the same whatever happens inside the heap
  have hfields : ∀ {m' : Mem}, (∀ x, (x < L.heapStart ∨ L.heapEnd ≤ x) → m' x = K.mem x) →
      HasProgram { K with mem := m' } program P := fun hm =>
    hP.keeps hst (h.heapKeeps hm) (fun v hv => hv) h.current
  unfold loadSegment
  rw [bind_of_ok hP.fsize]
  -- the temporary block
  cases hk : kmalloc L K.mem P.fsize with
  | none =>
      have hcall : heapCall ((kernelHeap L).kmalloc K.mem P.fsize) = .error .heap := by
        show heapCall (kmalloc L K.mem P.fsize) = _
        rw [hk]
        rfl
      exact Or.inl ⟨.heap, bind_of_error hcall, Or.inl trivial⟩
  | some r =>
  obtain ⟨buf, m₁⟩ := r
  obtain ⟨hstop, hrest⟩ := hfit _ _ hk
  obtain ⟨q, ns₁, -, -, hroot, hbuf⟩ := h.heap.buffer h.rooted hn hk hstop
  have hcall : heapCall ((kernelHeap L).kmalloc K.mem P.fsize) = .ok (buf, m₁) :=
    heapCall_ok.mpr hk
  have h₁ := hfields hbuf.writes
  obtain ⟨hwrites, hreads⟩ := h.copyIn R src hbuf
  -- the copy of the segment
  cases hcopy : copyAt (pagedir m₁ K.currentContext) buf src P.fsize m₁ with
  | none =>
      have htouch : touch (copyAt (pagedir m₁ K.currentContext) buf src P.fsize m₁) =
          .error .pageFault := by
        rw [hcopy]
        rfl
      refine Or.inl ⟨.pageFault, (bind_of_ok hcall).trans ((bind_of_ok h₁.msize).trans
        ((bind_of_ok h₁.fsize).trans ((bind_of_ok h₁.fsize).trans (bind_of_error htouch)))),
        Or.inr (fun hsrc => ?_)⟩
      obtain ⟨m₂, hm₂, -⟩ := hreads hsrc
      rw [hcopy] at hm₂
      cases hm₂
  | some m₂ =>
  have htouch := touch_ok.mpr hcopy
  have honly := hwrites m₂ hcopy
  have h₂ := @hfields m₂ (fun x hx => by
    have hout : ∀ i < P.fsize, buf + i ≠ x := fun i _ => by
      have := hbuf.start
      omega
    rw [honly x hout, hbuf.writes x hx])
  cases halloc : vmmAlloc L m₂ K.frames c P.vaddr P.msize with
  | error fault =>
      have hvmm : vmmCall (vmmAlloc L m₂ K.frames c P.vaddr P.msize) = .error (.vmm fault) := by
        rw [halloc]
        rfl
      refine Or.inl ⟨.vmm fault, (bind_of_ok hcall).trans ((bind_of_ok h₁.msize).trans
        ((bind_of_ok h₁.fsize).trans ((bind_of_ok h₁.fsize).trans ((bind_of_ok htouch).trans
        ((bind_of_ok h₂.vaddr).trans ((bind_of_ok h₂.msize).trans (bind_of_error hvmm))))))),
        Or.inl (fun he => ?_)⟩
      rw [he] at halloc
      exact vmmAlloc_ends hend halloc
  | ok r =>
  obtain ⟨m₃, s₃⟩ := r
  have hvmm := vmmCall_ok.mpr halloc
  obtain ⟨m₄, m₅, m₆, f, hfill, hout, hfree, hloader, hkeeps, hplaced, hfile, hzero⟩ :=
    h.transfer hle hend huser hbuf hroot honly halloc
  have hgive : heapCall ((kernelHeap L).kfree m₅ buf) = .ok m₆ := heapCall_ok.mpr hfree
  refine Or.inr ⟨{ K with mem := m₆, frames := s₃ }, _, f, (bind_of_ok hcall).trans
    ((bind_of_ok h₁.msize).trans ((bind_of_ok h₁.fsize).trans ((bind_of_ok h₁.fsize).trans
    ((bind_of_ok htouch).trans ((bind_of_ok h₂.vaddr).trans ((bind_of_ok h₂.msize).trans
    ((bind_of_ok hvmm).trans ((bind_of_ok (touch_ok.mpr hfill)).trans
    ((bind_of_ok (touch_ok.mpr hout)).trans ((bind_of_ok hgive).trans rfl)))))))))),
    hloader, hkeeps, hplaced, ?_, fun hsrc => ⟨fun i hi => ?_, hzero⟩⟩
  · obtain ⟨m', hm', hstate, -⟩ := hbuf.free m₁ (fun _ _ _ _ => rfl)
    exact BuffersFit.congr hstate hloader.heap hroot
      (fun n hn => hsizes n (List.mem_cons_of_mem _ hn)) (hrest m' hm')
  · obtain ⟨m, hm, hbytes⟩ := hreads hsrc
    rw [hcopy] at hm
    cases hm
    obtain ⟨p, hp, hbyte⟩ := hbytes i hi
    exact ⟨p, hp, (hfile i hi).trans hbyte⟩

end

end DayOS
