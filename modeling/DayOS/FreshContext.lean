import DayOS.Launch
import DayOS.LoadRun

set_option autoImplicit false

/-! # A fresh context to load into

`CreateUsermodeContext` copies the words of the kernel's directory, so the new context shares the
kernel's tables and has nothing under the other words: it is one that segments can be loaded into
(`LoaderSpaces.create`).
-/

namespace DayOS

open ByteMemory Linked Paging

section
variable {L : Layout} {m m' : Mem} {s s' : Pmm} {cs : List Nat} {KC c d : Nat} {K : Kernel Pmm}

/-! ## One more context -/

theorem NewContext.used_iff {base : Nat → Nat} (h : NewContext L base m s c d m' s') {q : Nat} :
    s'.Used q ↔ q = d / 0x1000 ∨ q = c / 0x1000 ∨ s.Used q := by
  rw [h.pages, used_use, used_use]

/-- A context copied from the kernel's is apart from all others. -/
theorem ContextsApart.create (h : ContextsApart L m s cs) (hK : KC ∈ cs)
    (hnew : NewContext L (entry m (pagedir m KC)) m s c d m' s') :
    ContextsApart L m' s' (c :: cs) := by
  have hmono : ∀ q, s.Used q → s'.Used q := fun q hu => hnew.used_iff.mpr (Or.inr (Or.inr hu))
  have hsame : ∀ x ∈ cs, SameWalks m m' x := fun x hx => hnew.sameWalks (h.walkable x hx)
  have hwK := h.walkable KC hK
  have hwc : Walkable L m' s' c d := hnew.walkable
    (fun i hi hodd => ⟨(hwK.tables i hi hodd).1, (hwK.tables i hi hodd).2.1⟩) hwK.inj
  -- the new pages were free, the others' were in use
  have hfree : ∀ p, s.Used (p / 0x1000) → p ≠ c ∧ p ≠ d := fun p hu =>
    ⟨fun he => hnew.contextFree (he ▸ hu), fun he => hnew.dirFree (he ▸ hu)⟩
  refine ⟨fun x hx => ?_, fun x hx x' hx' hne => ?_⟩
  · rcases List.mem_cons.mp hx with rfl | hx
    · rw [hnew.pagedir]
      exact hwc
    · exact (hsame x hx).walkable (h.walkable x hx) (fun _ _ => hmono _)
  · rcases List.mem_cons.mp hx with rfl | hmem <;> rcases List.mem_cons.mp hx' with rfl | hmem'
    · exact absurd rfl hne
    · have hw' := h.walkable x' hmem'
      rw [hnew.pagedir, (hsame x' hmem').dir]
      obtain ⟨hdc, hdd⟩ := hfree _ hw'.dirUsed
      refine ⟨hdd.symm, hdc.symm, fun j hj hodd => ?_⟩
      rw [(hsame x' hmem').words j hj] at hodd ⊢
      exact hfree _ (hw'.tables j hj hodd).2.1
    · have hw := h.walkable x hmem
      rw [hnew.pagedir, (hsame x hmem).dir]
      refine ⟨(hfree _ hw.dirUsed).2, (hfree _ hw.contextUsed).2, fun j hj hodd => ?_⟩
      rw [hnew.words j hj] at hodd ⊢
      by_cases hxK : x = KC
      · rw [hxK]
        exact (hwK.tables j hj hodd).2.2
      · exact (h.apart x hmem KC hK hxK).2.2 j hj hodd
    · obtain ⟨h₁, h₂, htables⟩ := h.apart x hmem x' hmem' hne
      rw [(hsame x hmem).dir, (hsame x' hmem').dir]
      refine ⟨h₁, h₂, fun j hj hodd => ?_⟩
      rw [(hsame x' hmem').words j hj] at hodd ⊢
      exact htables j hj hodd

/-- **A fresh context can be loaded into.** -/
theorem LoaderSpaces.create (h : ContextsApart L K.mem K.frames cs) (hK : KC ∈ cs)
    (hcur : K.currentContext ∈ cs) (hmapped : ∀ x ∈ cs, ∀ a, L.heapStart ≤ a → a < L.heapEnd →
      translate K.mem (pagedir K.mem x) a = some a)
    (hnew : NewContext L (entry K.mem (pagedir K.mem KC)) K.mem K.frames c d m' s') :
    LoaderSpaces L KC (c :: cs) c { K with mem := m', frames := s' } := by
  have hheap := L.heapEnd_le
  have hsame : ∀ x ∈ cs, SameWalks K.mem m' x := fun x hx => hnew.sameWalks (h.walkable x hx)
  have hwK := h.walkable KC hK
  refine ⟨h.create hK hnew, List.mem_cons_of_mem c hK, List.mem_cons_self, fun he => ?_,
    List.mem_cons_of_mem c hcur, fun i hi heven => Or.inl ?_, fun x hx a ha ha' => ?_⟩
  · exact hnew.contextFree (he ▸ hwK.contextUsed)
  · have hword : entry m' (pagedir m' KC) i = entry K.mem (pagedir K.mem KC) i := by
      rw [(hsame KC hK).dir, (hsame KC hK).words i hi]
    show entry m' (pagedir m' c) i % 2 = 0
    rw [hnew.pagedir, hnew.words i hi, ← hword]
    exact heven
  · rcases List.mem_cons.mp hx with rfl | hx
    · show translate m' (pagedir m' x) a = some a
      have hpte : pte m' d (a / 0x1000) = pte K.mem (pagedir K.mem KC) (a / 0x1000) :=
        hnew.translates (fun i hi hodd => hnew.agree (hwK.tables i hi hodd).1
          (hwK.tables i hi hodd).2.1) (by omega)
      have hmap := hmapped KC hK a ha ha'
      unfold Paging.translate at hmap ⊢
      rw [hnew.pagedir, hpte]
      exact hmap
    · exact ((hsame x hx).translates (by omega)).trans (hmapped x hx a ha ha')

end

/-! ## The first context -/

/-- The kernel while no process runs. -/
def idleKernel (KC : Nat) (m : Mem) (s : Pmm) : Kernel Pmm := ⟨m, s, 0, 0, 0, 0, KC⟩

/-- A boot on the smallest layout, over the memory `m₀` and the bitmap `s₀`, and the context `c`
made behind it. -/
structure FirstContext (m₀ : Mem) (s₀ : Pmm) (KC : Nat) (m₁ : Mem) (s₁ : Pmm) (c d : Nat) (m : Mem)
    (s : Pmm) : Prop where
  boot : initVmm Layout.least m₀ s₀ = .ok (KC, m₁, s₁)
  create : createUsermodeContext Layout.least KC m₁ s₁ = .ok (c, m, s)
  new : NewContext Layout.least (entry m₁ (pagedir m₁ KC)) m₁ s₁ c d m s
  bytes : ∀ x, x < 0x101000 ∨ 0x301000 ≤ x → m x = m₀ x
  used : ∀ r, s₀.Used r → s.Used r
  frames : ∀ q, 0x1701000 ≤ 0x1000 * q → (s.Used q ↔ s₀.Used q)
  pool : poolCount Layout.least s ≤ 200

theorem exists_firstContext (m₀ : Mem) (s₀ : Pmm) (hpool : poolCount Layout.least s₀ ≤ 100) :
    ∃ KC m₁ s₁ c d m s, FirstContext m₀ s₀ KC m₁ s₁ c d m s := by
  have hstart : Layout.least.pagepoolStart = 0x101000 := rfl
  have hheap : Layout.least.heapStart = 0x301000 := rfl
  have hend : Layout.least.heapEnd = 0x1701000 := rfl
  obtain ⟨KC, m₁, s₁, hboot, hcount, hsame⟩ := initVmm_returns Layout.least m₀ s₀ (by omega)
  obtain ⟨hK, R, b⟩ := initVmm_ok hboot
  obtain ⟨c, m, s, hcreate, hcount', -⟩ : ∃ c m s,
      createUsermodeContext Layout.least KC m₁ s₁ = .ok (c, m, s) ∧
      poolCount Layout.least s ≤ poolCount Layout.least s₁ + 2 ∧
      framesLeft Layout.least s = framesLeft Layout.least s₁ :=
    createUsermodeContext_returns (by omega)
  obtain ⟨d, hnew⟩ := createUsermodeContext_new (initVmm_walkable hboot) hcreate
  have hpool' : ∀ q, 0x1701000 ≤ 0x1000 * q → q ≠ d / 0x1000 ∧ q ≠ c / 0x1000 := by
    intro q hq
    have := hnew.context.below
    have := hnew.dir.below
    omega
  refine ⟨KC, m₁, s₁, c, d, m, s, hboot, hcreate, hnew, fun x hx => ?_, fun r hr => ?_,
    fun q hq => ?_, by omega⟩
  · have hc := hnew.context.start
    have hc' := hnew.context.below
    have hd := hnew.dir.start
    have hd' := hnew.dir.below
    rw [hnew.keeps x (by omega) (by omega), b.keeps x (by omega)]
  · refine hnew.used_iff.mpr (Or.inr (Or.inr ?_))
    by_cases hp : Layout.least.PoolPage (0x1000 * r)
    · have hu := (b.spaces.used _ hp).mpr
      rw [Nat.mul_div_cancel_left r (by decide)] at hu
      exact hu (Or.inl hr)
    · exact (b.frames r hp).mpr hr
  · obtain ⟨hd, hc⟩ := hpool' q hq
    rw [hnew.used_iff, ← hsame q (by omega)]
    exact ⟨fun hu => (hu.resolve_left hd).resolve_left hc, fun hu => Or.inr (Or.inr hu)⟩

namespace FirstContext

variable {m₀ m₁ m : Mem} {s₀ s₁ s : Pmm} {KC c d v va : Nat}
  (h : FirstContext m₀ s₀ KC m₁ s₁ c d m s)
include h

theorem kernel : KernelSpace Layout.least m₁ s₁ KC := (initVmm_ok h.boot).1

theorem bytes₁ (x : Nat) (hx : Layout.least.heapStart ≤ x) (_ : x < Layout.least.heapEnd) :
    m₁ x = m₀ x := by
  obtain ⟨-, R, b⟩ := initVmm_ok h.boot
  exact b.keeps x (Or.inr hx)

theorem contexts : ContextsApart Layout.least m₁ s₁ [KC] := by
  refine ⟨fun x hx => ?_, fun x hx x' hx' hne => ?_⟩
  · obtain rfl := List.mem_singleton.mp hx
    exact initVmm_walkable h.boot
  · exact absurd ((List.mem_singleton.mp hx).trans (List.mem_singleton.mp hx').symm) hne

theorem sameWalks : SameWalks m₁ m KC := h.new.sameWalks (initVmm_walkable h.boot)

/-- Where the boot has mapped a page, it leads to itself. -/
theorem identity₁ (hva : va < 0x1702000) : translate m₁ (pagedir m₁ KC) va = some va := by
  have hend : Layout.least.heapEnd = 0x1701000 := rfl
  have hword := h.kernel.mapped (va / 0x1000) (by omega)
  rw [translate_of_pte hword (Nat.mul_mod_right _ _) (by decide) (by decide), Nat.div_add_mod]

theorem identity (hva : va < 0x1702000) : translate m (pagedir m KC) va = some va := by
  rw [h.sameWalks.translates (by omega)]
  exact h.identity₁ hva

theorem spaces : LoaderSpaces Layout.least KC [c, KC] c (idleKernel KC m s) := by
  have hend : Layout.least.heapEnd = 0x1701000 := rfl
  have hKC := List.mem_singleton_self KC
  have hmapped : ∀ x ∈ [KC], ∀ a, Layout.least.heapStart ≤ a → a < Layout.least.heapEnd →
      translate (idleKernel KC m₁ s₁).mem (pagedir (idleKernel KC m₁ s₁).mem x) a = some a := by
    intro x hx a _ ha
    obtain rfl := List.mem_singleton.mp hx
    exact h.identity₁ (by omega)
  have hctx : ContextsApart Layout.least (idleKernel KC m₁ s₁).mem (idleKernel KC m₁ s₁).frames
    [KC] := h.contexts
  exact LoaderSpaces.create hctx hKC hKC hmapped h.new

/-- The kernel's directory has no word for the pages behind the one at `HEAP_END`. -/
theorem word (hv : 0x1800 ≤ v) (hv' : v < 2 ^ 20) : entry m (pagedir m KC) (v / 1024) = 0 := by
  have hend : Layout.least.heapEnd = 0x1701000 := rfl
  rw [h.sameWalks.dir, h.sameWalks.words _ (by omega)]
  by_contra hne
  have := h.kernel.low _ (by omega) hne
  omega

theorem userPage (hv : 0x1800 ≤ v) (hv' : v < 2 ^ 20) : UserPage KC (idleKernel KC m s) v := by
  refine ⟨hv', ?_⟩
  show entry m (pagedir m KC) (v / 1024) % 2 = 0
  rw [h.word hv hv']

/-- Nothing is mapped there in the new context either. -/
theorem unmapped (hv : 0x1800 ≤ v) (hv' : v < 2 ^ 20) : pte m (pagedir m c) v = 0 := by
  have hword := h.word hv hv'
  rw [h.sameWalks.dir, h.sameWalks.words _ (by omega)] at hword
  refine pte_of_even ?_
  rw [h.new.pagedir, h.new.words _ (by omega), hword]

theorem above (hva : 0x1702000 ≤ va) (hva' : va < 2 ^ 32) : translate m (pagedir m KC) va = none := by
  have hend : Layout.least.heapEnd = 0x1701000 := rfl
  rw [h.sameWalks.translates hva']
  exact translate_of_zero (h.kernel.unmapped (va / 0x1000) (by omega) (by omega))

end FirstContext

/-! ## A small image -/

/-- The words of an image with the one program header `P`, right behind the header. -/
def imageWord (P : Program) : Nat → Nat
  | 0 => ELF_MAGIC
  | 6 => 0x40000000
  | 7 => 0x34
  | 11 => 1
  | 13 => P.type
  | 14 => P.offset
  | 15 => P.vaddr
  | 17 => P.fsize
  | 18 => P.msize
  | _ => 0

/-- A memory with this image at `0x2000`. -/
def imageMem (P : Program) : Mem := fun x =>
  UInt8.ofNat (imageWord P ((x - 0x2000) / 4) / 256 ^ (x % 4))

theorem kinitHeap_image {P : Program} (x : Nat) (hx : x < 0x101000) :
    kinitHeap Layout.least (imageMem P) x = imageMem P x :=
  kinitHeap_of_outside (Or.inl (show x < 0x301000 by omega))

theorem littleEndian_two (w : Nat) :
    littleEndian (fun i => UInt8.ofNat (w / 256 ^ i)) 0 2 = w % 2 ^ 16 := by
  simp only [littleEndian, UInt8.toNat_ofNat']
  omega

theorem littleEndian_four (w : Nat) :
    littleEndian (fun i => UInt8.ofNat (w / 256 ^ i)) 0 4 = w % 2 ^ 32 := by
  simp only [littleEndian, UInt8.toNat_ofNat']
  omega

/-- The bitmap in which the two pages of the image are in use. -/
def imagePmm : Pmm := use (use emptyPmm 0x2000) 0x3000

theorem used_imagePmm {r : Nat} : imagePmm.Used r ↔ r = 3 ∨ r = 2 := by
  have hnone : ¬ emptyPmm.Used r := used_emptyPmm
  unfold imagePmm
  rw [used_use, used_use]
  show r = 3 ∨ r = 2 ∨ emptyPmm.Used r ↔ _
  rw [or_iff_left hnone]

theorem poolCount_imagePmm : poolCount Layout.least imagePmm ≤ 2 := by
  have hzero : poolCount Layout.least emptyPmm = 0 := poolCount_emptyPmm
  have hone : poolCount Layout.least (use emptyPmm 0x2000) ≤ poolCount Layout.least emptyPmm + 1 :=
    poolCount_use
  have htwo : poolCount Layout.least imagePmm ≤ poolCount Layout.least (use emptyPmm 0x2000) + 1 :=
    poolCount_use
  omega

namespace FirstContext

variable {m₀ m₁ m : Mem} {s₀ s₁ s : Pmm} {KC c d va n k : Nat} {P : Program}
  (h : FirstContext m₀ s₀ KC m₁ s₁ c d m s)
include h

theorem resolves (hva : va < 0x1702000) :
    resolve (idleKernel KC m s).mem (idleKernel KC m s).activeDir va = some va := by
  rw [resolve, Nat.mod_eq_of_lt (by omega)]
  exact h.identity hva

/-- The bytes of the image's pages stay what they are, and are readable. -/
theorem stable (hs₀ : s₀ = imagePmm) (hva : 0x2000 ≤ va) (hn : va + n ≤ 0x4000) :
    Stable Layout.least c (fun _ => False) (idleKernel KC m s) va n := by
  have hstart : Layout.least.pagepoolStart = 0x101000 := rfl
  have hheap : Layout.least.heapStart = 0x301000 := rfl
  intro i hi
  have hused : s₀.Used ((va + i) / 0x1000) := by
    rw [hs₀, used_imagePmm]
    omega
  refine ⟨va + i, h.resolves (by omega), h.used _ hused, Or.inl (by omega), fun ho => ?_, fun _ => id⟩
  have := (h.spaces.poolPage ho).start
  omega

variable (hm₀ : ∀ x < 0x101000, m₀ x = imageMem P x)
include hm₀

theorem byte (hk : k < 32) {i : Nat} (hi : i < 4) : ∃ p,
    resolve (idleKernel KC m s).mem (idleKernel KC m s).activeDir (0x2000 + 4 * k + i) = some p ∧
    (idleKernel KC m s).mem p = UInt8.ofNat (imageWord P k / 256 ^ (0 + i)) := by
  refine ⟨0x2000 + 4 * k + i, h.resolves (by omega), ?_⟩
  show m (0x2000 + 4 * k + i) = _
  rw [h.bytes _ (by omega), hm₀ _ (by omega), imageMem]
  have hword : (0x2000 + 4 * k + i - 0x2000) / 4 = k := by omega
  have hbyte : (0x2000 + 4 * k + i) % 4 = 0 + i := by omega
  rw [hword, hbyte]

theorem peek (hk : k < 32) :
    (idleKernel KC m s).peek (0x2000 + 4 * k) 4 = .ok (imageWord P k % 2 ^ 32) := by
  refine touch_ok.mpr ?_
  rw [← littleEndian_four]
  exact readAt_ok (fun i hi => h.byte hm₀ hk hi)

theorem peek_half (hk : k < 32) :
    (idleKernel KC m s).peek (0x2000 + 4 * k) 2 = .ok (imageWord P k % 2 ^ 16) := by
  refine touch_ok.mpr ?_
  rw [← littleEndian_two]
  exact readAt_ok (fun i hi => h.byte hm₀ hk (by omega))

/-- The kernel reads the image. -/
theorem image (hP : P.type < 2 ^ 32 ∧ P.offset < 2 ^ 32 ∧ P.vaddr < 2 ^ 32 ∧ P.fsize < 2 ^ 32 ∧
    P.msize < 2 ^ 32) : Image (idleKernel KC m s) 0x2000 0x2034 1 0x40000000 (fun _ => P) := by
  obtain ⟨htype, hoffset, hvaddr, hfsize, hmsize⟩ := hP
  refine ⟨by decide, h.peek hm₀ (k := 0) (by decide), ⟨0x34, h.peek hm₀ (k := 7) (by decide), rfl⟩,
    h.peek_half hm₀ (k := 11) (by decide), h.peek hm₀ (k := 6) (by decide), fun i hi => ?_⟩
  obtain rfl : i = 0 := by omega
  refine ⟨?_, ?_, ?_, ?_, ?_⟩
  · rw [← Nat.mod_eq_of_lt htype]
    exact h.peek hm₀ (k := 13) (by decide)
  · rw [← Nat.mod_eq_of_lt hoffset]
    exact h.peek hm₀ (k := 14) (by decide)
  · rw [← Nat.mod_eq_of_lt hvaddr]
    exact h.peek hm₀ (k := 15) (by decide)
  · rw [← Nat.mod_eq_of_lt hfsize]
    exact h.peek hm₀ (k := 17) (by decide)
  · rw [← Nat.mod_eq_of_lt hmsize]
    exact h.peek hm₀ (k := 18) (by decide)

end FirstContext

end DayOS
