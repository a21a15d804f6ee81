import DayOS.VmmRun

set_option autoImplicit false

/-! # Frames of different contexts

The words of a user context are the kernel's, under the words of the directory that the kernel
uses, and frames given to this context elsewhere (`Mapped`). As long as no frame is given back,
no frame is given twice (`Exclusive`).

The kernel maps one page too many, the one at `HEAP_END`, and the first frame that `vmm_alloc`
can hand out is that very page. So frames are isolated from each other but this one is not: it
is visible at `HEAP_END` in every context (`frame_isolation`).
-/

namespace DayOS

open ByteMemory Paging

/-- The page `v` is at the frame `q`. -/
def FrameAt (m : Mem) (dir v q : Nat) : Prop := translate m dir (0x1000 * v) = some (0x1000 * q)

instance (m : Mem) (dir v q : Nat) : Decidable (FrameAt m dir v q) :=
  inferInstanceAs (Decidable (_ = _))

/-- Every frame given to a context is mapped by it at one address, and by no other context
alive, the kernel's included, at any. -/
def FramesIsolated (K : Nat) (st : VmmState) (given : Nat → Nat → Prop) : Prop :=
  ∀ c ∈ st.live, ∀ q, given c q →
    (∀ c' ∈ K :: st.live, c' ≠ c → ∀ v < 2 ^ 20, ¬ FrameAt st.mem (pagedir st.mem c') v q) ∧
    ∃ v < 2 ^ 20, FrameAt st.mem (pagedir st.mem c) v q ∧
      ∀ u < 2 ^ 20, FrameAt st.mem (pagedir st.mem c) u q → u = v

/-- What the words of the contexts alive are, where the kernel's directory has no word. `m₁` is
the memory behind the boot. -/
structure Mapped (L : Layout) (K : Nat) (m₁ : Mem) (st : VmmState) (given : Nat → Nat → Prop) :
    Prop where
  own : ∀ c ∈ st.live, ∀ v < 2 ^ 20, entry m₁ (pagedir m₁ K) (v / 1024) = 0 →
    pte st.mem (pagedir st.mem c) v = 0 ∨
      ∃ q, given c q ∧ pte st.mem (pagedir st.mem c) v = 0x1000 * q + 7
  given : ∀ c q, given c q → c ∈ st.live ∧ L.heapEnd ≤ 0x1000 * q ∧ q < 2 ^ 20 ∧
    ∃ v < 2 ^ 20, entry m₁ (pagedir m₁ K) (v / 1024) = 0 ∧
      pte st.mem (pagedir st.mem c) v = 0x1000 * q + 7

/-- No frame has been given twice, and none that was in use at the end of the boot. -/
structure Exclusive (L : Layout) (K : Nat) (m₁ : Mem) (s₁ : Pmm) (st : VmmState)
    (given : Nat → Nat → Prop) : Prop where
  kept : ∀ q, L.heapEnd ≤ 0x1000 * q → s₁.Used q → st.pmm.Used q
  used : ∀ c q, given c q → st.pmm.Used q ∧ ¬ s₁.Used q
  inj : ∀ c c' q, given c q → given c' q → c = c'
  once : ∀ c ∈ st.live, ∀ u < 2 ^ 20, ∀ v < 2 ^ 20, entry m₁ (pagedir m₁ K) (u / 1024) = 0 →
    entry m₁ (pagedir m₁ K) (v / 1024) = 0 → pte st.mem (pagedir st.mem c) v ≠ 0 →
    pte st.mem (pagedir st.mem c) u = pte st.mem (pagedir st.mem c) v → u = v

/-- Runs that take frames, for pages that are not mapped yet, and return none. -/
def Taking (st : VmmState) (op : VmmOp) : Prop := Unmapped st op ∧ ∀ c, op ≠ .destroy c

section
variable {L : Layout} {K c q : Nat} {m₀ m₁ m m' : Mem} {s₀ s₁ s s' : Pmm} {st st' : VmmState}
  {Q : VmmState → VmmOp → Prop} {given : Nat → Nat → Prop} {op : VmmOp} {cs : List Nat}

/-! ## Words and frames -/

theorem frameAt_of_pte {dir v r : Nat} (hpte : pte m dir v = 0x1000 * r + 7) :
    FrameAt m dir v q ↔ q = r := by
  have hv : 0x1000 * v / 0x1000 = v := Nat.mul_div_cancel_left v (by decide)
  have htr : translate m dir (0x1000 * v) = some (0x1000 * r + 0x1000 * v % 0x1000) :=
    translate_of_pte (by rw [hv]; exact hpte) (Nat.mul_mod_right _ _) (by decide) (by decide)
  unfold FrameAt
  rw [htr, Nat.mul_mod_right, Nat.add_zero, Option.some.injEq]
  omega

theorem frameAt_of_zero {dir v : Nat} (hpte : pte m dir v = 0) : ¬ FrameAt m dir v q := by
  have hv : 0x1000 * v / 0x1000 = v := Nat.mul_div_cancel_left v (by decide)
  unfold FrameAt
  rw [translate_of_zero (by rw [hv]; exact hpte)]
  exact fun h => nomatch h

/-- A page that is not mapped has no word. -/
theorem pte_of_unmapped {dir v r : Nat} (h : translate m dir (0x1000 * v) = none) :
    pte m dir v ≠ 0x1000 * r + 7 := fun hpte => by
  have := (frameAt_of_pte (q := r) hpte).mpr rfl
  unfold FrameAt at this
  rw [h] at this
  cases this

/-- Under a shared word a context translates as the kernel does. -/
theorem Spaces.shared_pte {D : Nat} (hs : Spaces L (entry m₁ D) m₁ s₁ m s cs) {d v : Nat}
    (hv : v < 2 ^ 20) (he : entry m d (v / 1024) = entry m₁ D (v / 1024)) :
    pte m d v = pte m₁ D v := by
  have hi : v / 1024 < 1024 := by omega
  rcases hs.shared _ hi with h0 | ⟨t, ht, ht', hu⟩
  · rw [pte_of_even (by rw [he, h0]), pte_of_even (by rw [h0])]
  · have hal := ht.aligned
    have hbase : frameBase (t + 7) = t := frameBase_add hal (by decide)
    rw [pte_of_entry (he.trans ht') (by omega), pte_of_entry ht' (by omega), hbase]
    exact entry_congr ((hs.frozen t ht hu).mono (by omega) (by omega))

theorem Spaces.shared_word {D : Nat} (hs : Spaces L (entry m₁ D) m₁ s₁ m s cs) (hc : c ∈ cs)
    {v : Nat} (hv : v < 2 ^ 20) (hne : entry m₁ D (v / 1024) ≠ 0) :
    pte m (pagedir m c) v = pte m₁ D v := by
  refine hs.shared_pte hv (((hs.contexts c hc).words _ (by omega)).resolve_right ?_)
  rintro ⟨h0, -⟩
  exact hne h0

/-! ## One operation -/

theorem Mapped.init : Mapped L K m₁ ⟨m₁, s₁, []⟩ (fun _ _ => False) :=
  ⟨fun c hc => absurd hc (by simp), fun _ _ h => h.elim⟩

/-- The words of the contexts that an operation leaves alone are as before. -/
theorem VmmStep.word
    (hs : Spaces L (entry m₁ (pagedir m₁ K)) m₁ s₁ st.mem st.pmm st.live)
    (hstep : VmmStep L (entry m₁ (pagedir m₁ K)) (pagedir m₁ K) st op st') (hc : c ∈ st.live)
    (hop : ∀ vaddr sz, op ≠ .alloc c vaddr sz) {v : Nat} (hv : v < 2 ^ 20) :
    pte st'.mem (pagedir st'.mem c) v = pte st.mem (pagedir st.mem c) v := by
  cases hstep with
  | @create x d m' s' hx hnew =>
      have hsame := hs.same_of_grows (hnew.grows hx) hc (fun he => hx (he ▸ hc))
      show pte m' (pagedir m' c) v = _
      rw [hsame.dir, hsame.ptes v hv]
  | @alloc x vaddr sz f m' s' hx hrange ha =>
      have hsame := hs.same_of_grows ha.grows hc (fun he => hop vaddr sz (by rw [he]))
      show pte m' (pagedir m' c) v = _
      rw [hsame.dir, hsame.ptes v hv]
  | destroy hx hused => rfl

theorem Mapped.step
    (hs : Spaces L (entry m₁ (pagedir m₁ K)) m₁ s₁ st.mem st.pmm st.live)
    (hm : Mapped L K m₁ st given)
    (hstep : VmmStep L (entry m₁ (pagedir m₁ K)) (pagedir m₁ K) st op st')
    (hun : Unmapped st op) : Mapped L K m₁ st' (givenAfter L st st' given op) := by
  cases hstep with
  | @create x d m' s' hx hnew =>
      have hstep := VmmStep.create (D := pagedir m₁ K) hx hnew
      have hword : ∀ c ∈ st.live, ∀ v < 2 ^ 20, pte m' (pagedir m' c) v =
          pte st.mem (pagedir st.mem c) v :=
        fun c hc v hv => hstep.word hs hc (fun _ _ => by simp) hv
      refine ⟨fun c hc v hv h0 => ?_, ?_⟩
      · rcases List.mem_cons.mp hc with rfl | hc
        · -- the new context has only the kernel's words
          left
          show pte m' (pagedir m' c) v = 0
          rw [hnew.pagedir]
          exact pte_of_even (by rw [hnew.words _ (by omega), h0])
        · rw [hword c hc v hv]
          exact (hm.own c hc v hv h0).imp_right (fun ⟨q, hq, he⟩ => ⟨q, ⟨hc, hq⟩, he⟩)
      · rintro c q ⟨hc, hq⟩
        obtain ⟨-, hlow, hlt, v, hv, h0, he⟩ := hm.given c q hq
        refine ⟨List.mem_cons_of_mem x hc, hlow, hlt, v, hv, h0, ?_⟩
        rw [hword c hc v hv]
        exact he
  | @alloc x vaddr sz f m' s' hx hrange ha =>
      have hstep := VmmStep.alloc (D := pagedir m₁ K) hx hrange ha
      have hword : ∀ c ∈ st.live, c ≠ x → ∀ v < 2 ^ 20, pte m' (pagedir m' c) v =
          pte st.mem (pagedir st.mem c) v :=
        fun c hc hne v hv => hstep.word hs hc (fun _ _ he => hne (by injection he with h₁; exact h₁.symm)) hv
      have hlt : ∀ v, InRange vaddr ((vaddr + sz) % 2 ^ 32) v → v < 2 ^ 20 := fun v hv => by
        have := hv.2
        omega
      have hnew : ∀ v, InRange vaddr ((vaddr + sz) % 2 ^ 32) v → ¬ st.pmm.Used (f v) ∧
          s'.Used (f v) ∧ L.heapEnd ≤ 0x1000 * f v := fun v hv => by
        obtain ⟨hlow, -, hfree⟩ := ha.frame v hv
        exact ⟨hfree, (ha.frames _ (not_poolPage hlow)).mpr (Or.inr ⟨v, hv, rfl⟩), hlow⟩
      refine ⟨fun c hc v hv h0 => ?_, ?_⟩
      · by_cases hcx : c = x
        · subst hcx
          show pte m' (pagedir m' c) v = 0 ∨ _
          rw [ha.dir]
          by_cases hR : InRange vaddr ((vaddr + sz) % 2 ^ 32) v
          · obtain ⟨hfree, hused, hlow⟩ := hnew v hR
            exact Or.inr ⟨f v, Or.inr ⟨rfl, hlow, hfree, hused⟩, ha.mapped v hv hR⟩
          · rw [ha.kept v hv hR]
            exact (hm.own c hc v hv h0).imp_right (fun ⟨q, hq, he⟩ => ⟨q, Or.inl hq, he⟩)
        · rw [hword c hc hcx v hv]
          exact (hm.own c hc v hv h0).imp_right (fun ⟨q, hq, he⟩ => ⟨q, Or.inl hq, he⟩)
      · rintro c q (hq | ⟨rfl, hlow, hfree, hused⟩)
        · obtain ⟨hc, hlow, hlt, v, hv, h0, he⟩ := hm.given c q hq
          refine ⟨hc, hlow, hlt, v, hv, h0, ?_⟩
          by_cases hcx : c = x
          · subst hcx
            have hR : ¬ InRange vaddr ((vaddr + sz) % 2 ^ 32) v := fun hR =>
              pte_of_unmapped (hun v (hrange v hR).1) he
            show pte m' (pagedir m' c) v = _
            rw [ha.dir, ha.kept v hv hR]
            exact he
          · rw [hword c hc hcx v hv]
            exact he
        · rcases (ha.frames q (not_poolPage hlow)).mp hused with hu | ⟨v, hR, rfl⟩
          · exact absurd hu hfree
          · refine ⟨hx, hlow, (ha.frame v hR).2.1, v, hlt v hR, (hrange v hR).2, ?_⟩
            show pte m' (pagedir m' c) v = _
            rw [ha.dir]
            exact ha.mapped v (hlt v hR) hR
  | @destroy x s' hx hused =>
      refine ⟨fun c hc v hv h0 => ?_, ?_⟩
      · obtain ⟨hc, hne⟩ := List.mem_filter.mp hc
        exact (hm.own c hc v hv h0).imp_right (fun ⟨q, hq, he⟩ => ⟨q, ⟨by simpa using hne, hq⟩, he⟩)
      · rintro c q ⟨hne, hq⟩
        obtain ⟨hc, hrest⟩ := hm.given c q hq
        exact ⟨List.mem_filter.mpr ⟨hc, by simpa using hne⟩, hrest⟩

theorem Exclusive.init : Exclusive L K m₁ s₁ ⟨m₁, s₁, []⟩ (fun _ _ => False) :=
  ⟨fun _ _ => id, fun _ _ h => h.elim, fun _ _ _ h => h.elim, fun c hc => absurd hc (by simp)⟩

theorem Exclusive.step
    (hs : Spaces L (entry m₁ (pagedir m₁ K)) m₁ s₁ st.mem st.pmm st.live)
    (hm : Mapped L K m₁ st given) (hx : Exclusive L K m₁ s₁ st given)
    (hstep : VmmStep L (entry m₁ (pagedir m₁ K)) (pagedir m₁ K) st op st')
    (hop : ∀ c, op ≠ .destroy c) : Exclusive L K m₁ s₁ st' (givenAfter L st st' given op) := by
  cases hstep with
  | @create x d m' s' hc hnew =>
      have hstep := VmmStep.create (D := pagedir m₁ K) hc hnew
      have hword : ∀ c ∈ st.live, ∀ v < 2 ^ 20, pte m' (pagedir m' c) v =
          pte st.mem (pagedir st.mem c) v :=
        fun c hc v hv => hstep.word hs hc (fun _ _ => by simp) hv
      have hmono : ∀ q, st.pmm.Used q → s'.Used q := fun q hu => by
        rw [hnew.pages, used_use, used_use]
        exact Or.inr (Or.inr hu)
      refine ⟨fun q hq hu => hmono q (hx.kept q hq hu), ?_, ?_, fun c hc u hu v hv hu0 hv0 => ?_⟩
      · rintro c q ⟨-, hq⟩
        exact ⟨hmono q (hx.used c q hq).1, (hx.used c q hq).2⟩
      · rintro c c' q ⟨-, hq⟩ ⟨-, hq'⟩
        exact hx.inj c c' q hq hq'
      · rcases List.mem_cons.mp hc with rfl | hc
        · -- the new context has no words of its own
          intro hne
          refine absurd ?_ hne
          show pte m' (pagedir m' c) v = 0
          rw [hnew.pagedir]
          exact pte_of_even (by rw [hnew.words _ (by omega), hv0])
        · rw [hword c hc u hu, hword c hc v hv]
          exact hx.once c hc u hu v hv hu0 hv0
  | @alloc x vaddr sz f m' s' hc hrange ha =>
      have hstep := VmmStep.alloc (D := pagedir m₁ K) hc hrange ha
      have hword : ∀ c ∈ st.live, c ≠ x → ∀ v < 2 ^ 20, pte m' (pagedir m' c) v =
          pte st.mem (pagedir st.mem c) v := fun c hc hne v hv =>
        hstep.word hs hc (fun _ _ he => hne (by injection he with h₁; exact h₁.symm)) hv
      have hmono : ∀ q, L.heapEnd ≤ 0x1000 * q → st.pmm.Used q → s'.Used q := fun q hq hu =>
        (ha.frames q (not_poolPage hq)).mpr (Or.inl hu)
      -- a frame that is given now was given to no one before
      have hfirst : ∀ c q, given c q → L.heapEnd ≤ 0x1000 * q ∧ st.pmm.Used q := fun c q hq =>
        ⟨(hm.given c q hq).2.1, (hx.used c q hq).1⟩
      refine ⟨fun q hq hu => hmono q hq (hx.kept q hq hu), ?_, ?_, fun c hc u hu v hv hu0 hv0 => ?_⟩
      · rintro c q (hq | ⟨-, hlow, hfree, hused⟩)
        · exact ⟨hmono q (hfirst c q hq).1 (hx.used c q hq).1, (hx.used c q hq).2⟩
        · exact ⟨hused, fun hu => hfree (hx.kept q hlow hu)⟩
      · rintro c c' q (hq | ⟨rfl, -, hfree, -⟩) (hq' | ⟨rfl, -, hfree', -⟩)
        · exact hx.inj c c' q hq hq'
        · exact absurd (hfirst c q hq).2 hfree'
        · exact absurd (hfirst c' q hq').2 hfree
        · rfl
      · by_cases hcx : c = x
        case neg =>
            rw [hword c hc hcx u hu, hword c hc hcx v hv]
            exact hx.once c hc u hu v hv hu0 hv0
        subst hcx
        -- an old word of the context is a frame given before, so not a new one
        have hdiff : ∀ u < 2 ^ 20, ∀ w, entry m₁ (pagedir m₁ K) (u / 1024) = 0 →
            InRange vaddr ((vaddr + sz) % 2 ^ 32) w → pte st.mem (pagedir st.mem c) u ≠ 0 →
            pte st.mem (pagedir st.mem c) u ≠ 0x1000 * f w + 7 := fun u hu w hu0 hw hne he => by
          rcases hm.own c hc u hu hu0 with h0 | ⟨q, hq, he'⟩
          · exact hne h0
          · have hfq : f w = q := by omega
            exact (ha.frame w hw).2.2 (hfq ▸ (hfirst c q hq).2)
        show pte m' (pagedir m' c) v ≠ 0 → pte m' (pagedir m' c) u = pte m' (pagedir m' c) v → u = v
        rw [ha.dir]
        intro hne he
        by_cases hRu : InRange vaddr ((vaddr + sz) % 2 ^ 32) u <;>
          by_cases hRv : InRange vaddr ((vaddr + sz) % 2 ^ 32) v
        · rw [ha.mapped u hu hRu, ha.mapped v hv hRv] at he
          exact ha.inj u v hRu hRv (by omega)
        · rw [ha.kept v hv hRv] at hne he
          rw [ha.mapped u hu hRu] at he
          exact absurd he.symm (hdiff v hv u hv0 hRu hne)
        · rw [ha.mapped v hv hRv, ha.kept u hu hRu] at he
          exact absurd he (hdiff u hu v hu0 hRv (by omega))
        · rw [ha.kept u hu hRu, ha.kept v hv hRv] at he
          rw [ha.kept v hv hRv] at hne
          exact hx.once c hc u hu v hv hu0 hv0 hne he
  | @destroy x s' hc hused => exact absurd rfl (hop x)

/-! ## Runs -/

theorem VmmRun.mapped (h : KernelSpace L m₁ s₁ K) (hQ : ∀ st op, Q st op → Unmapped st op)
    (hrun : VmmRun L K Q ⟨m₁, s₁, []⟩ st given) : Mapped L K m₁ st given := by
  induction hrun with
  | start => exact Mapped.init
  | step hrun hp hq he ih =>
      have hs := hrun.spaces h
      exact ih.step hs (VmmState.exec_step h hs hp he) (hQ _ _ hq)

theorem VmmRun.exclusive (h : KernelSpace L m₁ s₁ K)
    (hrun : VmmRun L K Taking ⟨m₁, s₁, []⟩ st given) : Exclusive L K m₁ s₁ st given := by
  induction hrun with
  | start => exact Exclusive.init
  | step hrun hp hq he ih =>
      have hs := hrun.spaces h
      exact ih.step hs (hrun.mapped h (fun _ _ h => h.1)) (VmmState.exec_step h hs hp he) hq.2

/-- The word of a page of the kernel in any later state. -/
theorem KernelSpace.frameAt (h : KernelSpace L m₁ s₁ K)
    (hs : Spaces L (entry m₁ (pagedir m₁ K)) m₁ s₁ m s cs) {v : Nat} (hv : v < 2 ^ 20) :
    FrameAt m (pagedir m K) v q ↔ 0x1000 * v ≤ L.heapEnd ∧ q = v := by
  have hsame := h.same hs
  have hpte : pte m (pagedir m K) v = pte m₁ (pagedir m₁ K) v := by
    rw [hsame.dir, hsame.ptes v hv]
  by_cases hle : 0x1000 * v ≤ L.heapEnd
  · rw [frameAt_of_pte (hpte.trans (h.mapped v hle))]
    exact ⟨fun he => ⟨hle, he⟩, fun he => he.2⟩
  · constructor
    · intro hf
      exact absurd hf (frameAt_of_zero (hpte.trans (h.unmapped v hv (by omega))))
    · exact fun hf => absurd hf.1 hle

/-- **Frame isolation.** In every state a run that only takes memory reaches, the frames given
to contexts are isolated exactly when none of them is the one at `HEAP_END`; and so they are in
the whole run when that frame is in use before `InitVmm`. -/
theorem frame_isolation (L : Layout) (m₀ : Mem) (s₀ : Pmm) {K : Nat} {m₁ : Mem} {s₁ : Pmm}
    (hboot : initVmm L m₀ s₀ = .ok (K, m₁, s₁)) {st : VmmState} {given : Nat → Nat → Prop}
    (hrun : VmmRun L K Taking ⟨m₁, s₁, []⟩ st given) :
    (FramesIsolated K st given ↔ ∀ c ∈ st.live, ¬ given c (L.heapEnd / 0x1000)) ∧
    (s₀.Used (L.heapEnd / 0x1000) → FramesIsolated K st given) := by
  obtain ⟨h, R, b⟩ := initVmm_ok hboot
  have hs := hrun.spaces h
  have hm := hrun.mapped h (fun _ _ h => h.1)
  have hx := hrun.exclusive h
  have hfits := L.heapEnd_le
  have hpage : 0x1000 * (L.heapEnd / 0x1000) = L.heapEnd := by
    have := L.heapEnd_aligned
    omega
  have hiff : FramesIsolated K st given ↔ ∀ c ∈ st.live, ¬ given c (L.heapEnd / 0x1000) := by
    constructor
    · intro hiso c hc hgiven
      -- the kernel maps that frame
      have hK : K ≠ c := fun he => h.not_mem hs (he ▸ hc)
      refine (hiso c hc _ hgiven).1 K List.mem_cons_self hK (L.heapEnd / 0x1000) (by omega) ?_
      exact (h.frameAt hs (by omega)).mpr ⟨by omega, rfl⟩
    · intro hnone c hc q hgiven
      obtain ⟨-, hlow, hlt, v, hv, h0, he⟩ := hm.given c q hgiven
      have hhigh : ∀ w, 0x1000 * w ≤ L.heapEnd → q ≠ w := fun w hw he' => by
        have hq : q = L.heapEnd / 0x1000 := by omega
        exact hnone c hc (hq ▸ hgiven)
      -- under the kernel's words there is no frame but the kernel's
      have hshared : ∀ x ∈ st.live, ∀ u < 2 ^ 20, entry m₁ (pagedir m₁ K) (u / 1024) ≠ 0 →
          ¬ FrameAt st.mem (pagedir st.mem x) u q := fun x hx' u hu hne hf => by
        have hword := hs.shared_word hx' hu hne
        by_cases hle : 0x1000 * u ≤ L.heapEnd
        · exact hhigh u hle ((frameAt_of_pte (hword.trans (h.mapped u hle))).mp hf)
        · exact frameAt_of_zero (hword.trans (h.unmapped u hu (by omega))) hf
      refine ⟨fun c' hc' hne u hu hf => ?_, v, hv, (frameAt_of_pte he).mpr rfl, fun u hu hf => ?_⟩
      · rcases List.mem_cons.mp hc' with rfl | hc'
        · obtain ⟨hle, he'⟩ := (h.frameAt hs hu).mp hf
          exact hhigh u hle he'
        · by_cases hu0 : entry m₁ (pagedir m₁ K) (u / 1024) = 0
          · rcases hm.own c' hc' u hu hu0 with hz | ⟨r, hr, hw⟩
            · exact frameAt_of_zero hz hf
            · have hqr := (frameAt_of_pte hw).mp hf
              exact hne (hx.inj c' c q (hqr ▸ hr) hgiven)
          · exact hshared c' hc' u hu hu0 hf
      · by_cases hu0 : entry m₁ (pagedir m₁ K) (u / 1024) = 0
        · rcases hm.own c hc u hu hu0 with hz | ⟨r, hr, hw⟩
          · exact absurd hf (frameAt_of_zero hz)
          · have hqr := (frameAt_of_pte hw).mp hf
            exact hx.once c hc u hu v hv hu0 h0 (by omega) (by rw [hw, he, hqr])
        · exact absurd hf (hshared c hc u hu hu0)
  refine ⟨hiff, fun hused => hiff.mpr (fun c hc hgiven => ?_)⟩
  exact (hx.used c _ hgiven).2 ((b.frames _ (not_poolPage (by omega))).mpr hused)

/-- With the frame at `HEAP_END` in use, a page given to the first context is its own. -/
theorem frame_isolation_first : ∃ K m₁ s₁, ∃ st : VmmState, ∃ given c q,
    initVmm Layout.least (fun _ => 0) (use emptyPmm 0x1701000) = .ok (K, m₁, s₁) ∧
    VmmRun Layout.least K Taking ⟨m₁, s₁, []⟩ st given ∧ given c q ∧
    FramesIsolated K st given := by
  have hcount := poolCount_use (L := Layout.least) (s := emptyPmm) (p := 0x1701000)
  have hempty : poolCount Layout.least emptyPmm = 0 := poolCount_emptyPmm
  have hend : Layout.least.heapEnd = 0x1701000 := rfl
  have hleft : 2 ≤ framesLeft Layout.least emptyPmm :=
    le_framesLeft (fun j hj => ⟨by omega, used_emptyPmm⟩)
  have hleft' := framesLeft_use (L := Layout.least) (s := emptyPmm) (p := 0x1701000)
  obtain ⟨K, m₁, s₁, c, st₁, st, f, hboot, hrun, -⟩ :=
    first_run (use emptyPmm 0x1701000) 1 (by decide) (by omega) (by omega)
  have hrun' := hrun Taking (fun _ _ hun hop => ⟨hun, hop⟩)
  have hused : (use emptyPmm 0x1701000).Used (Layout.least.heapEnd / 0x1000) :=
    used_use.mpr (Or.inl (by rw [hend]))
  exact ⟨K, m₁, s₁, st, _, c, f 0x40000, hboot, hrun', ⟨rfl, 0x40000, by decide, rfl⟩,
    (frame_isolation Layout.least (fun _ => 0) _ hboot hrun').2 hused⟩

/-- With an empty bitmap the first page given is the frame at `HEAP_END`, which the kernel maps
as well. -/
theorem frame_isolation_fails : ∃ K m₁ s₁, ∃ st : VmmState, ∃ given,
    initVmm Layout.least (fun _ => 0) emptyPmm = .ok (K, m₁, s₁) ∧
    VmmRun Layout.least K Taking ⟨m₁, s₁, []⟩ st given ∧ ¬ FramesIsolated K st given := by
  have hend : Layout.least.heapEnd = 0x1701000 := rfl
  obtain ⟨K, m₁, s₁, c, st₁, st, f, hboot, hrun, hlive, ha, hsame, -⟩ := first_run emptyPmm
    1 (by decide) (by rw [poolCount_emptyPmm]; decide)
    (le_framesLeft (fun j _ => ⟨by omega, used_emptyPmm⟩))
  have hrun' := hrun Taking (fun _ _ hun hop => ⟨hun, hop⟩)
  obtain ⟨h, -⟩ := initVmm_ok hboot
  have hs := hrun'.spaces h
  have hmem : c ∈ st.live := by
    rw [hlive]
    exact List.mem_singleton_self c
  have hpage : InRange 0x40000000 (0x40000000 + 0x1000 * 1) 0x40000 := by decide
  -- the frame is the lowest free one
  have hframe : f 0x40000 = 0x1701 := by
    obtain ⟨hlow, -, -⟩ := ha.frame _ hpage
    by_contra hne
    have hused := ha.least _ hpage 0x1701 (by omega) (by omega)
    rcases (ha.frames 0x1701 (not_poolPage (by omega))).mp hused with hu | ⟨v, hv, he⟩
    · exact used_emptyPmm ((hsame _ (by omega)).mp hu)
    · have hv' : v = 0x40000 := by
        have := hv.1
        have := hv.2
        omega
      exact hne (hv' ▸ he)
  refine ⟨K, m₁, s₁, st, _, hboot, hrun', fun hiso => ?_⟩
  have hK : K ≠ c := fun he => h.not_mem hs (he ▸ hmem)
  refine (hiso c hmem 0x1701 ⟨rfl, 0x40000, hpage, hframe⟩).1 K List.mem_cons_self hK 0x1701
    (by decide) ?_
  exact (h.frameAt hs (by decide)).mpr ⟨by omega, rfl⟩

end

end DayOS
