import DayOS.Loading

set_option autoImplicit false

/-! # All segments

The loop of `ParseElf` over the program headers of an image that stays what it is while they are
read. `rounds` is the loop without its test: as the count reads the same in every round,
`ParseElf` is as many rounds as there are headers (`parseElf_eq`). A round that skips a header
leaves everything as it was, and a round that loads a segment is `Loader.segment`, so the state
behind any number of rounds is a loader's again (`Loader.rounds`).
-/

namespace DayOS

open ByteMemory Paging

/-! ## Images -/

/-- `src`, the segment's bytes in the image at `addr`. -/
def Program.src (P : Program) (addr : Nat) : Nat := (addr + P.offset) % 2 ^ 32

/-- The header is one of those that `ParseElf` loads. -/
def Program.Loads (P : Program) (addr : Nat) : Prop :=
  P.type = 1 ∧ P.vaddr ≠ NULL ∧ P.src addr ≠ NULL

instance (P : Program) (addr : Nat) : Decidable (P.Loads addr) :=
  inferInstanceAs (Decidable (_ ∧ _ ∧ _))

/-- The header `i` of those from `program` on. -/
def programAt (program i : Nat) : Nat := (program + sizeofProgram * i) % 2 ^ 32

/-- The image at `addr` as the kernel reads it: `count` program headers `Ps` from `program` on,
and the address `entry` to start at. -/
structure Image (K : Kernel Pmm) (addr program count entry : Nat) (Ps : Nat → Program) :
    Prop where
  ne : addr ≠ NULL
  magic : headerMagic K addr = .ok ELF_MAGIC
  offset : ∃ offset, headerOffset K addr = .ok offset ∧ program = (addr + offset) % 2 ^ 32
  pentryCount : headerPentryCount K addr = .ok count
  start : headerEntry K addr = .ok entry
  programs : ∀ i < count, HasProgram K (programAt program i) (Ps i)

/-- The page `v` belongs to one of the first `n` segments, if these are loaded. -/
def SegmentPage (addr : Nat) (Ps : Nat → Program) (n v : Nat) : Prop :=
  ∃ i < n, (Ps i).Loads addr ∧ (Ps i).Page v

/-- The sizes of the temporary blocks for the headers from `i` on. -/
def bufferSizes (addr : Nat) (Ps : Nat → Program) (i count : Nat) : List Nat :=
  ((List.range' i (count - i)).filter (fun k => (Ps k).Loads addr)).map (fun k => (Ps k).fsize)

/-- The headers of the image stay what they are, and the segments are no larger in the image
than in memory and lie below the last page, under words that the kernel's directory does not
use. -/
structure Loadable (L : Layout) (KC c : Nat) (K : Kernel Pmm) (addr program count : Nat)
    (Ps : Nat → Program) : Prop where
  header : Stable L c (SegmentPage addr Ps count) K addr 52
  programs : ∀ i < count, Stable L c (SegmentPage addr Ps count) K (programAt program i) 32
  sizes : ∀ i < count, (Ps i).Loads addr → (Ps i).fsize ≤ (Ps i).msize
  stop : ∀ i < count, (Ps i).Loads addr → (Ps i).vaddr + (Ps i).msize ≤ 0xFFFFF000
  pages : ∀ v, SegmentPage addr Ps count v → UserPage KC K v

section
variable (L : Layout) (H : Heap)

/-- The first `n` rounds of the loop of `ParseElf`. -/
def rounds (addr context program : Nat) : Nat → Kernel Pmm → Except ElfFault (Kernel Pmm)
  | 0, K => .ok K
  | n + 1, K => do
      let K ← rounds addr context program n K
      loadProgram L H addr context (programAt program n) K

end

/-- What a round has done for the header `P`. -/
structure RoundDone (L : Layout) (c : Nat) (R : Nat → Prop) (addr : Nat) (P : Program)
    (K K' : Kernel Pmm) : Prop where
  skips : ¬ P.Loads addr → K' = K
  places : P.Loads addr → ∃ f, Placed L c P.vaddr P.msize f K K' ∧
    (Stable L c R K (P.src addr) P.fsize → HoldsImage K K' (P.src addr) P f)

/-- The state `K` behind the first `n` rounds from `K₀` on. -/
structure AfterRounds (L : Layout) (KC : Nat) (cs : List Nat) (c : Nat) (live : List Block)
    (addr : Nat) (Ps : Nat → Program) (count n : Nat) (K₀ K : Kernel Pmm) : Prop where
  loader : ∃ ns, Loader L KC cs c K ns live
  keeps : Keeps L cs c (SegmentPage addr Ps n) K₀ K
  fit : BuffersFit L K.mem (bufferSizes addr Ps n count)

section
variable {L : Layout} {H : Heap} {cs : List Nat} {KC c addr program count entry n i : Nat}
  {R : Nat → Prop} {Ps : Nat → Program} {P : Program} {K K₀ K' : Kernel Pmm}
  {ns : List FirstFit.Node} {live : List Block}

/-! ## Fields -/

theorem readAt_lt {m : Mem} {dir va k : Nat} (h : readAt m dir va n = some k) : k < 256 ^ n := by
  induction n generalizing va k with
  | zero =>
      cases h
      exact Nat.one_pos
  | succ n ih =>
      rw [readAt] at h
      simp only [Option.bind_eq_bind, Option.bind_eq_some_iff] at h
      obtain ⟨p, -, rest, hrest, hk⟩ := h
      cases hk
      have hhead := (m p).toNat_lt
      have htail := ih hrest
      rw [pow_succ]
      omega

theorem peek_lt {va k : Nat} (h : K.peek va n = .ok k) : k < 256 ^ n :=
  readAt_lt (touch_ok.mp h)

theorem HasProgram.fsize_lt (h : HasProgram K program P) : P.fsize < 2 ^ 32 :=
  peek_lt h.fsize

theorem SegmentPage.mono {k v : Nat} (hk : n ≤ k) (h : SegmentPage addr Ps n v) :
    SegmentPage addr Ps k v := by
  obtain ⟨i, hi, hv⟩ := h
  exact ⟨i, by omega, hv⟩

theorem segmentPage_succ {v : Nat} : SegmentPage addr Ps (n + 1) v ↔
    SegmentPage addr Ps n v ∨ (Ps n).Loads addr ∧ (Ps n).Page v := by
  constructor
  · rintro ⟨i, hi, hv⟩
    rcases Nat.lt_succ_iff_lt_or_eq.mp hi with hlt | rfl
    · exact Or.inl ⟨i, hlt, hv⟩
    · exact Or.inr hv
  · rintro (h | hv)
    · exact h.mono (Nat.le_succ n)
    · exact ⟨n, Nat.lt_succ_self n, hv⟩

theorem bufferSizes_step (hi : i < count) : bufferSizes addr Ps i count =
    if (Ps i).Loads addr then (Ps i).fsize :: bufferSizes addr Ps (i + 1) count
    else bufferSizes addr Ps (i + 1) count := by
  have hcount : count - i = (count - (i + 1)) + 1 := by omega
  unfold bufferSizes
  rw [hcount, List.range'_succ, List.filter_cons]
  by_cases hl : (Ps i).Loads addr
  · rw [if_pos hl, if_pos (by simpa using hl)]
    rfl
  · rw [if_neg hl, if_neg (by simpa using hl)]

theorem mem_bufferSizes {k : Nat} (hk : k ∈ bufferSizes addr Ps i count) :
    ∃ j < count, k = (Ps j).fsize := by
  unfold bufferSizes at hk
  obtain ⟨j, hj, rfl⟩ := List.mem_map.mp hk
  have hmem := (List.mem_filter.mp hj).1
  rw [List.mem_range'_1] at hmem
  exact ⟨j, by omega, rfl⟩

/-! ## One round -/

/-- A header that is not loaded. -/
theorem loadProgram_skip (hP : HasProgram K program P) (hl : ¬ P.Loads addr) :
    loadProgram L H addr c program K = .ok K := by
  have hskip : P.type ≠ 1 ∨ P.vaddr = NULL ∨ (addr + P.offset) % 2 ^ 32 = NULL := by
    unfold Program.Loads Program.src at hl
    tauto
  unfold loadProgram
  rw [bind_of_ok hP.vaddr, bind_of_ok hP.offset]
  simp only
  rw [bind_of_ok hP.type, if_pos hskip]
  rfl

theorem loadProgram_load (hP : HasProgram K program P) (hl : P.Loads addr) :
    loadProgram L H addr c program K = loadSegment L H c P.vaddr (P.src addr) program K := by
  have hload : ¬ (P.type ≠ 1 ∨ P.vaddr = NULL ∨ (addr + P.offset) % 2 ^ 32 = NULL) := by
    unfold Program.Loads Program.src at hl
    tauto
  unfold loadProgram
  rw [bind_of_ok hP.vaddr, bind_of_ok hP.offset]
  simp only
  rw [bind_of_ok hP.type, if_neg hload]
  rfl

/-- **One round.** -/
theorem Loader.one {sizes : List Nat} (h : Loader L KC cs c K ns live)
    (hP : HasProgram K program P) (hst : Stable L c R K program 32)
    (hle : P.Loads addr → P.fsize ≤ P.msize)
    (hend : P.Loads addr → P.vaddr + P.msize ≤ 0xFFFFF000)
    (huser : P.Loads addr → ∀ v, P.Page v → UserPage KC K v) (hsizes : ∀ k ∈ sizes, k < 2 ^ 32)
    (hfit : BuffersFit L K.mem (if P.Loads addr then P.fsize :: sizes else sizes)) :
    (∃ fault, loadProgram L (kernelHeap L) addr c program K = .error fault ∧ P.Loads addr ∧
      LoadFault L c R K (P.src addr) P.fsize fault) ∨
    ∃ K' ns', loadProgram L (kernelHeap L) addr c program K = .ok K' ∧
      Loader L KC cs c K' ns' live ∧ Keeps L cs c (fun v => P.Loads addr ∧ P.Page v) K K' ∧
      BuffersFit L K'.mem sizes ∧ RoundDone L c R addr P K K' := by
  by_cases hl : P.Loads addr
  · rw [loadProgram_load hP hl]
    rw [if_pos hl] at hfit
    have hsizes' : ∀ k ∈ P.fsize :: sizes, k < 2 ^ 32 := by
      intro k hk
      rcases List.mem_cons.mp hk with rfl | hk
      · exact hP.fsize_lt
      · exact hsizes k hk
    rcases h.segment hP hst (hle hl) (hend hl) (huser hl) hsizes' hfit with
      ⟨fault, he, hfault⟩ | ⟨K', ns', f, hok, hloader, hkeeps, hplaced, hfit', hholds⟩
    · exact Or.inl ⟨fault, he, hl, hfault⟩
    · exact Or.inr ⟨K', ns', hok, hloader, hkeeps.mono (fun v hv => ⟨hl, hv⟩), hfit',
        fun hno => absurd hl hno, fun _ => ⟨f, hplaced, hholds⟩⟩
  · rw [if_neg hl] at hfit
    exact Or.inr ⟨K, ns, loadProgram_skip hP hl, h, Keeps.refl, hfit, fun _ => rfl,
      fun hyes => absurd hyes hl⟩

/-! ## Any number of rounds -/

/-- What holds of the headers at the start still does. -/
theorem AfterRounds.hasProgram (h : AfterRounds L KC cs c live addr Ps count n K₀ K)
    (himg : Image K₀ addr program count entry Ps) (hld : Loadable L KC c K₀ addr program count Ps)
    (hcur : K₀.currentContext ∈ cs) (hn : n ≤ count) (hi : i < count) :
    HasProgram K (programAt program i) (Ps i) :=
  (himg.programs i hi).keeps (hld.programs i hi) h.keeps (fun _ hv => hv.mono hn) hcur

theorem AfterRounds.step (h : AfterRounds L KC cs c live addr Ps count n K₀ K)
    (himg : Image K₀ addr program count entry Ps) (hld : Loadable L KC c K₀ addr program count Ps)
    (hcur : K₀.currentContext ∈ cs) (hn : n < count) :
    (∃ fault, loadProgram L (kernelHeap L) addr c (programAt program n) K = .error fault ∧
      (Ps n).Loads addr ∧ LoadFault L c (SegmentPage addr Ps count) K ((Ps n).src addr)
        (Ps n).fsize fault) ∨
    ∃ K', loadProgram L (kernelHeap L) addr c (programAt program n) K = .ok K' ∧
      AfterRounds L KC cs c live addr Ps count (n + 1) K₀ K' ∧
      Keeps L cs c (fun v => (Ps n).Loads addr ∧ (Ps n).Page v) K K' ∧
      RoundDone L c (SegmentPage addr Ps count) addr (Ps n) K K' := by
  have hsub : ∀ v, SegmentPage addr Ps n v → SegmentPage addr Ps count v := fun v hv =>
    hv.mono (Nat.le_of_lt hn)
  obtain ⟨ns, hloader⟩ := h.loader
  have hsizes : ∀ k ∈ bufferSizes addr Ps (n + 1) count, k < 2 ^ 32 := by
    intro k hk
    obtain ⟨j, hj, rfl⟩ := mem_bufferSizes hk
    exact (himg.programs j hj).fsize_lt
  have hfit := h.fit
  rw [bufferSizes_step hn] at hfit
  rcases hloader.one (h.hasProgram himg hld hcur (Nat.le_of_lt hn) hn)
      ((hld.programs n hn).keeps h.keeps hsub hcur) (hld.sizes n hn) (hld.stop n hn)
      (fun hl v hv => h.keeps.userPage hloader.kernel hloader.ne (hld.pages v ⟨n, hn, hl, hv⟩))
      hsizes hfit with hfault | ⟨K', ns', hok, hloader', hkeeps, hfit', hdone⟩
  · exact Or.inl hfault
  · refine Or.inr ⟨K', hok, ⟨⟨ns', hloader'⟩, ?_, hfit'⟩, hkeeps, hdone⟩
    exact (h.keeps.trans hkeeps).mono (fun v hv => segmentPage_succ.mpr hv)

/-- **Any number of rounds.** They do not come back because an assertion fails, or because the
bytes of a segment cannot be read; or they leave a loader's state. -/
theorem Loader.rounds (h : Loader L KC cs c K₀ ns live)
    (himg : Image K₀ addr program count entry Ps) (hld : Loadable L KC c K₀ addr program count Ps)
    (hfit : BuffersFit L K₀.mem (bufferSizes addr Ps 0 count)) (hn : n ≤ count) :
    (∃ fault, rounds L (kernelHeap L) addr c program n K₀ = .error fault ∧ (fault.Assertion ∨
      ∃ i < n, (Ps i).Loads addr ∧
        ¬ Stable L c (SegmentPage addr Ps count) K₀ ((Ps i).src addr) (Ps i).fsize)) ∨
    ∃ K, rounds L (kernelHeap L) addr c program n K₀ = .ok K ∧
      AfterRounds L KC cs c live addr Ps count n K₀ K := by
  induction n with
  | zero =>
      exact Or.inr ⟨K₀, rfl, ⟨ns, h⟩, Keeps.refl, hfit⟩
  | succ n ih =>
      rw [DayOS.rounds]
      rcases ih (by omega) with ⟨fault, he, hfault⟩ | ⟨K, hok, hafter⟩
      · refine Or.inl ⟨fault, bind_of_error he, hfault.imp_right ?_⟩
        rintro ⟨i, hi, hi'⟩
        exact ⟨i, by omega, hi'⟩
      · rcases hafter.step himg hld h.current (by omega) with ⟨fault, he, hl, hfault⟩ |
          ⟨K', hok', hafter', -⟩
        · refine Or.inl ⟨fault, (bind_of_ok hok).trans he, hfault.imp_right (fun hno => ?_)⟩
          refine ⟨n, by omega, hl, fun hst => hno ?_⟩
          exact hst.keeps hafter.keeps (fun v hv => hv.mono (by omega)) h.current
        · exact Or.inr ⟨K', (bind_of_ok hok).trans hok', hafter'⟩

theorem Loader.afterRounds (h : Loader L KC cs c K₀ ns live)
    (himg : Image K₀ addr program count entry Ps) (hld : Loadable L KC c K₀ addr program count Ps)
    (hfit : BuffersFit L K₀.mem (bufferSizes addr Ps 0 count)) (hn : n ≤ count)
    (hK : DayOS.rounds L (kernelHeap L) addr c program n K₀ = .ok K) :
    AfterRounds L KC cs c live addr Ps count n K₀ K := by
  rcases h.rounds himg hld hfit hn with ⟨fault, he, -⟩ | ⟨K', hok, hafter⟩
  · rw [he] at hK
    cases hK
  · rw [hok] at hK
    cases hK
    exact hafter

/-- What has not come back does not come back in a later round. -/
theorem rounds_error {fault : ElfFault} {k : Nat} (hk : n ≤ k)
    (h : rounds L H addr c program n K₀ = .error fault) :
    rounds L H addr c program k K₀ = .error fault := by
  induction hk with
  | refl => exact h
  | step _ ih =>
      rw [rounds]
      exact bind_of_error ih

/-! ## The whole call -/

/-- The loop, while the count reads the same, is as many rounds as there are headers. -/
theorem loadPrograms_eq {fuel : Nat}
    (hcount : ∀ k ≤ count, ∀ K, rounds L H addr c program k K₀ = .ok K →
      headerPentryCount K addr = .ok count)
    (hn : n ≤ count) (hfuel : count < n + fuel)
    (hK : rounds L H addr c program n K₀ = .ok K) :
    loadPrograms L H addr c program fuel n K = rounds L H addr c program count K₀ := by
  induction fuel generalizing n K with
  | zero => omega
  | succ fuel ih =>
      rw [loadPrograms, bind_of_ok (hcount n hn K hK)]
      by_cases hlt : n < count
      · rw [if_pos hlt]
        have hnext : rounds L H addr c program (n + 1) K₀ =
            loadProgram L H addr c (programAt program n) K := bind_of_ok hK
        cases hround : loadProgram L H addr c (programAt program n) K with
        | error fault =>
            have he := rounds_error (show n + 1 ≤ count from hlt) (hnext.trans hround)
            exact (bind_of_error hround).trans he.symm
        | ok K' =>
            exact (bind_of_ok hround).trans (ih hlt (by omega) (hnext.trans hround))
      · rw [if_neg hlt]
        obtain rfl : n = count := by omega
        exact hK.symm

theorem AfterRounds.image (h : AfterRounds L KC cs c live addr Ps count n K₀ K)
    (himg : Image K₀ addr program count entry Ps) (hld : Loadable L KC c K₀ addr program count Ps)
    (hcur : K₀.currentContext ∈ cs) (hn : n ≤ count) : Image K addr program count entry Ps := by
  have hpeek : ∀ b k, b + k ≤ 52 → K.peek (addr + b) k = K₀.peek (addr + b) k := fun b k hb =>
    (hld.header.sub hb).peek h.keeps (fun _ hv => hv.mono hn) hcur
  refine ⟨himg.ne, (hpeek 0 4 (by omega)).trans himg.magic, ?_,
    (hpeek 44 2 (by omega)).trans himg.pentryCount, (hpeek 24 4 (by omega)).trans himg.start,
    fun i hi => h.hasProgram himg hld hcur hn hi⟩
  obtain ⟨offset, hoffset, he⟩ := himg.offset
  exact ⟨offset, (hpeek 28 4 (by omega)).trans hoffset, he⟩

/-- An image with the magic number gets into the loop. -/
theorem parseElf_loop (himg : Image K addr program count entry Ps) (hc : c ≠ NULL) :
    DayOS.parseElf L H K addr c = do
      let K ← loadPrograms L H addr c program (2 ^ 16) 0 K
      let entry ← headerEntry K addr
      return (entry, K) := by
  have hnull : ¬ (addr = NULL ∨ c = NULL) := by
    rintro (h0 | h0)
    · exact himg.ne h0
    · exact hc h0
  obtain ⟨offset, hoffset, rfl⟩ := himg.offset
  unfold DayOS.parseElf
  rw [if_neg hnull, bind_of_ok hoffset]
  refine (bind_of_ok himg.magic).trans ?_
  rw [if_neg (not_not.mpr rfl)]

theorem LoaderSpaces.target_ne (h : LoaderSpaces L KC cs c K) : c ≠ NULL := by
  have hpage := (h.contexts.walkable c h.target).context.start
  have := L.pagepoolStart_ge
  intro (h0 : c = 0)
  omega

/-- **`ParseElf` is a round for each header.** -/
theorem Loader.parseElf (h : Loader L KC cs c K₀ ns live)
    (himg : Image K₀ addr program count entry Ps) (hld : Loadable L KC c K₀ addr program count Ps)
    (hfit : BuffersFit L K₀.mem (bufferSizes addr Ps 0 count)) :
    parseElf L (kernelHeap L) K₀ addr c = do
      let K ← DayOS.rounds L (kernelHeap L) addr c program count K₀
      return (entry, K) := by
  have hafter : ∀ k ≤ count, ∀ K, DayOS.rounds L (kernelHeap L) addr c program k K₀ = .ok K →
      AfterRounds L KC cs c live addr Ps count k K₀ K := fun k hk K hK =>
    h.afterRounds himg hld hfit hk hK
  have hlt : count < 2 ^ 16 := peek_lt himg.pentryCount
  have hloop : loadPrograms L (kernelHeap L) addr c program (2 ^ 16) 0 K₀ =
      DayOS.rounds L (kernelHeap L) addr c program count K₀ :=
    loadPrograms_eq (fun k hk K hK => ((hafter k hk K hK).image himg hld h.current hk).pentryCount)
      (Nat.zero_le _) (by omega) rfl
  rw [parseElf_loop himg h.target_ne, hloop]
  cases hK : DayOS.rounds L (kernelHeap L) addr c program count K₀ with
  | error fault => rfl
  | ok K => exact bind_of_ok ((hafter count le_rfl K hK).image himg hld h.current le_rfl).start

end

end DayOS
