import DayOS.Vmm

set_option autoImplicit false

/-! # Contexts side by side

A context owns pages of the pool: its own page, its directory, and the tables under those
words of the directory that are not shared. `Spaces` says of a list of contexts that they own
different pages, that the pool holds these pages besides the ones in use at some earlier
moment, and that the latter still have their contents of that moment.

Every operation works on one context and writes to pages of it only (`Grows`). Whatever does
so leaves the other contexts and their translations alone (`Spaces.grow`).
-/

namespace DayOS

open ByteMemory Paging

/-- The pages a context consists of. -/
inductive Slot where
  | context
  | dir
  | table (i : Nat)
  deriving DecidableEq

/-- The page in a slot of `c`. The words `base` of the directory are shared with others. -/
def pageAt (base : Nat → Nat) (m : Mem) (c : Nat) : Slot → Option Nat
  | .context => some c
  | .dir => some (pagedir m c)
  | .table i =>
      if i < 1024 ∧ entry m (pagedir m c) i ≠ base i
      then some (frameBase (entry m (pagedir m c) i)) else none

/-- At `c` there is a context: its directory's words are the shared ones, or tables of the pool
with the flags of a user page, under words that are not in use by the others. -/
structure ContextAt (L : Layout) (base : Nat → Nat) (m : Mem) (c : Nat) : Prop where
  context : L.PoolPage c
  dir : L.PoolPage (pagedir m c)
  words : ∀ i < 1024, entry m (pagedir m c) i = base i ∨
    base i = 0 ∧ ∃ t, L.PoolPage t ∧ entry m (pagedir m c) i = t + 7

/-- The contexts `cs`, in a state that a state `m₀`, `s₀` has led to. -/
structure Spaces (L : Layout) (base : Nat → Nat) (m₀ : Mem) (s₀ : Pmm) (m : Mem) (s : Pmm)
    (cs : List Nat) : Prop where
  shared : ∀ i < 1024, base i = 0 ∨ ∃ t, L.PoolPage t ∧ base i = t + 7 ∧ s₀.Used (t / 0x1000)
  contexts : ∀ c ∈ cs, ContextAt L base m c
  frozen : ∀ p, L.PoolPage p → s₀.Used (p / 0x1000) → AgreeOn m₀ m p 0x1000
  used : ∀ p, L.PoolPage p → (s.Used (p / 0x1000) ↔
    s₀.Used (p / 0x1000) ∨ ∃ c ∈ cs, ∃ k, pageAt base m c k = some p)
  fresh : ∀ c ∈ cs, ∀ k p, pageAt base m c k = some p → ¬ s₀.Used (p / 0x1000)
  apart : ∀ c ∈ cs, ∀ c' ∈ cs, ∀ k k' p, pageAt base m c k = some p →
    pageAt base m c' k' = some p → c = c' ∧ k = k'

/-- `m'` has the same context at `c` as `m`, with the same words of its directory and the same
translations. -/
structure SameSpace (base : Nat → Nat) (m m' : Mem) (c : Nat) : Prop where
  dir : pagedir m' c = pagedir m c
  words : ∀ i < 1024, entry m' (pagedir m c) i = entry m (pagedir m c) i
  pages : pageAt base m' c = pageAt base m c
  ptes : ∀ v < 2 ^ 20, pte m' (pagedir m c) v = pte m (pagedir m c) v

section
variable {L : Layout} {base : Nat → Nat} {m₀ m m' m'' : Mem} {s₀ s s' s'' : Pmm}
  {cs : List Nat} {c c' d p q : Nat} {k : Slot}

/-! ## One context -/

theorem pageAt_table {i : Nat} : pageAt base m c (.table i) = some p ↔
    i < 1024 ∧ entry m (pagedir m c) i ≠ base i ∧ frameBase (entry m (pagedir m c) i) = p := by
  unfold pageAt
  simp only [Option.ite_none_right_eq_some, Option.some.injEq, and_assoc]

theorem pageAt_congr {base' : Nat → Nat} (h : ∀ i < 1024, base' i = base i) :
    pageAt base' m c = pageAt base m c := by
  funext k
  refine Option.ext (fun p => ?_)
  cases k with
  | context => exact Iff.rfl
  | dir => exact Iff.rfl
  | table i =>
      rw [pageAt_table, pageAt_table]
      exact and_congr_right (fun hi => by rw [h i hi])

/-- A private table lies at the page its word names. -/
theorem ContextAt.table {i t : Nat} (h : ContextAt L base m c)
    (hp : pageAt base m c (.table i) = some t) :
    i < 1024 ∧ base i = 0 ∧ L.PoolPage t ∧ entry m (pagedir m c) i = t + 7 := by
  obtain ⟨hi, hne, rfl⟩ := pageAt_table.mp hp
  rcases h.words i hi with he | ⟨h0, t, ht, he⟩
  · exact absurd he hne
  · have hbase : frameBase (t + 7) = t := frameBase_add ht.aligned (by decide)
    rw [he, hbase]
    exact ⟨hi, h0, ht, rfl⟩

theorem pageAt_of_word {i t : Nat} (hi : i < 1024) (hbase : base i = 0) (ht : L.PoolPage t)
    (he : entry m (pagedir m c) i = t + 7) : pageAt base m c (.table i) = some t := by
  rw [pageAt_table, he, hbase, frameBase_add ht.aligned (by decide)]
  exact ⟨hi, by omega, rfl⟩

theorem ContextAt.poolPage (h : ContextAt L base m c) (hp : pageAt base m c k = some p) :
    L.PoolPage p := by
  cases k with
  | context =>
      cases hp
      exact h.context
  | dir =>
      cases hp
      exact h.dir
  | table i => exact (h.table hp).2.2.1

/-- A context is the same where the memory of its pages, and of the shared tables, is. -/
theorem SameSpace.of_agree
    (hpages : ∀ k p, pageAt base m c k = some p → AgreeOn m m' p 0x1000)
    (hshared : ∀ i < 1024, base i = 0 ∨
      ∃ t, L.PoolPage t ∧ base i = t + 7 ∧ AgreeOn m m' t 0x1000) :
    SameSpace base m m' c := by
  have hdir : pagedir m' c = pagedir m c :=
    load32_congr ((hpages .context c rfl).mono le_rfl (by omega))
  have hword : ∀ i < 1024, entry m' (pagedir m c) i = entry m (pagedir m c) i := fun i hi =>
    entry_congr ((hpages .dir _ rfl).mono (by omega) (by omega))
  refine ⟨hdir, hword, ?_, fun v hv => pte_eq_of_tables hword (fun i hi hodd j hj => ?_) hv⟩
  · funext k
    cases k with
    | context => rfl
    | dir => exact congrArg some hdir
    | table i =>
        refine Option.ext (fun p => ?_)
        rw [pageAt_table, pageAt_table, hdir]
        constructor
        · rintro ⟨hi, hp⟩
          rw [hword i hi] at hp
          exact ⟨hi, hp⟩
        · rintro ⟨hi, hp⟩
          rw [hword i hi]
          exact ⟨hi, hp⟩
  · -- the table is a page of the context, or shared
    have hagree : AgreeOn m m' (frameBase (entry m (pagedir m c) i)) 0x1000 := by
      by_cases hne : entry m (pagedir m c) i = base i
      · rcases hshared i hi with h0 | ⟨t, ht, he, hagree⟩
        · omega
        · rw [hne, he, frameBase_add ht.aligned (by decide)]
          exact hagree
      · exact hpages (.table i) _ (pageAt_table.mpr ⟨hi, hne, rfl⟩)
    exact entry_congr (hagree.mono (by omega) (by omega))

theorem SameSpace.contextAt (h : SameSpace base m m' c) (hc : ContextAt L base m c) :
    ContextAt L base m' c := by
  refine ⟨hc.context, ?_, fun i hi => ?_⟩
  · rw [h.dir]
    exact hc.dir
  · rw [h.dir, h.words i hi]
    exact hc.words i hi

/-! ## One context grows -/

/-- `m'` differs from `m` in pages of `c` only, which were its own before or free, and they are
the pages newly in use. -/
structure Grows (L : Layout) (base : Nat → Nat) (cs : List Nat) (c : Nat) (m : Mem) (s : Pmm)
    (m' : Mem) (s' : Pmm) : Prop where
  contextAt : ContextAt L base m' c
  keeps : ∀ x, (∀ k p, pageAt base m' c k = some p → x < p ∨ p + 0x1000 ≤ x) → m' x = m x
  old : ∀ k p, pageAt base m' c k = some p →
    c ∈ cs ∧ pageAt base m c k = some p ∨ ¬ s.Used (p / 0x1000)
  mono : c ∈ cs → ∀ k p, pageAt base m c k = some p → pageAt base m' c k = some p
  used : ∀ p, L.PoolPage p →
    (s'.Used (p / 0x1000) ↔ s.Used (p / 0x1000) ∨ ∃ k, pageAt base m' c k = some p)
  inj : ∀ k k' p, pageAt base m' c k = some p → pageAt base m' c k' = some p → k = k'

/-- A page in use that is none of the context's own is left alone when the context grows. -/
theorem Grows.agree (g : Grows L base cs c m s m' s') (hp : L.PoolPage p)
    (hu : s.Used (p / 0x1000)) (hother : c ∈ cs → ∀ k, pageAt base m c k ≠ some p) :
    AgreeOn m m' p 0x1000 := by
  intro x hx hx'
  refine g.keeps x (fun k q hq => ?_)
  have hne : p ≠ q := by
    rintro rfl
    rcases g.old k p hq with ⟨hc, hold⟩ | hfree
    · exact hother hc k hold
    · exact hfree hu
  have := hp.apart (g.contextAt.poolPage hq) hne
  omega

namespace Spaces

theorem pageUsed (h : Spaces L base m₀ s₀ m s cs) (hc : c ∈ cs)
    (hp : pageAt base m c k = some p) : s.Used (p / 0x1000) :=
  (h.used p ((h.contexts c hc).poolPage hp)).mpr (Or.inr ⟨c, hc, k, hp⟩)

theorem frozen_of_grows (h : Spaces L base m₀ s₀ m s cs) (g : Grows L base cs c m s m' s')
    (hp : L.PoolPage p) (hu : s₀.Used (p / 0x1000)) : AgreeOn m m' p 0x1000 :=
  g.agree hp ((h.used p hp).mpr (Or.inl hu))
    (fun hc k hk => h.fresh c hc k p hk hu)

/-- **Growing one context leaves the others alone.** -/
theorem same_of_grows (h : Spaces L base m₀ s₀ m s cs) (g : Grows L base cs c m s m' s')
    (hc' : c' ∈ cs) (hne : c' ≠ c) : SameSpace base m m' c' := by
  refine SameSpace.of_agree (L := L) (fun k p hp => ?_) (fun i hi => ?_)
  · exact g.agree ((h.contexts c' hc').poolPage hp) (h.pageUsed hc' hp)
      (fun hc k' hk => hne (h.apart c' hc' c hc k k' p hp hk).1)
  · rcases h.shared i hi with h0 | ⟨t, ht, he, hu⟩
    · exact Or.inl h0
    · exact Or.inr ⟨t, ht, he, h.frozen_of_grows g ht hu⟩

theorem grow (h : Spaces L base m₀ s₀ m s cs) (g : Grows L base cs c m s m' s')
    {cs' : List Nat} (hcs : ∀ x, x ∈ cs' ↔ x = c ∨ x ∈ cs) :
    Spaces L base m₀ s₀ m' s' cs' := by
  -- a page of a context of the new list is one of `c`, or one of another, as it was
  have hpage : ∀ x ∈ cs', ∀ k, x ≠ c → x ∈ cs ∧ pageAt base m' x k = pageAt base m x k :=
    fun x hx k hne => by
      have hmem := ((hcs x).mp hx).resolve_left hne
      exact ⟨hmem, by rw [(h.same_of_grows g hmem hne).pages]⟩
  have hnew : ∀ k p, pageAt base m' c k = some p → ¬ s₀.Used (p / 0x1000) := fun k p hp hu => by
    rcases g.old k p hp with ⟨hc, hold⟩ | hfree
    · exact h.fresh c hc k p hold hu
    · exact hfree ((h.used p (g.contextAt.poolPage hp)).mpr (Or.inl hu))
  have hapart : ∀ x ∈ cs, x ≠ c → ∀ k k' p, pageAt base m x k = some p →
      pageAt base m' c k' ≠ some p := fun x hx hne k k' p hp hp' => by
    rcases g.old k' p hp' with ⟨hc, hold⟩ | hfree
    · exact hne (h.apart x hx c hc k k' p hp hold).1
    · exact hfree (h.pageUsed hx hp)
  refine ⟨h.shared, fun x hx => ?_, fun p hp hu => ?_, fun p hp => ?_, fun x hx k p hk => ?_,
    fun x hx x' hx' k k' p hk hk' => ?_⟩
  · by_cases hxc : x = c
    · rw [hxc]
      exact g.contextAt
    · have hmem := ((hcs x).mp hx).resolve_left hxc
      exact (h.same_of_grows g hmem hxc).contextAt (h.contexts x hmem)
  · exact (h.frozen p hp hu).trans (h.frozen_of_grows g hp hu)
  · rw [g.used p hp, h.used p hp]
    constructor
    · rintro ((hu | ⟨x, hx, k, hk⟩) | ⟨k, hk⟩)
      · exact Or.inl hu
      · refine Or.inr ⟨x, (hcs x).mpr (Or.inr hx), k, ?_⟩
        by_cases hxc : x = c
        · subst hxc
          exact g.mono hx k p hk
        · rw [(h.same_of_grows g hx hxc).pages]
          exact hk
      · exact Or.inr ⟨c, (hcs c).mpr (Or.inl rfl), k, hk⟩
    · rintro (hu | ⟨x, hx, k, hk⟩)
      · exact Or.inl (Or.inl hu)
      · by_cases hxc : x = c
        · subst hxc
          exact Or.inr ⟨k, hk⟩
        · obtain ⟨hmem, heq⟩ := hpage x hx k hxc
          rw [heq] at hk
          exact Or.inl (Or.inr ⟨x, hmem, k, hk⟩)
  · by_cases hxc : x = c
    · subst hxc
      exact hnew k p hk
    · obtain ⟨hmem, heq⟩ := hpage x hx k hxc
      rw [heq] at hk
      exact h.fresh x hmem k p hk
  · by_cases hxc : x = c <;> by_cases hxc' : x' = c
    · subst hxc hxc'
      exact ⟨rfl, g.inj k k' p hk hk'⟩
    · obtain ⟨hmem, heq⟩ := hpage x' hx' k' hxc'
      rw [heq] at hk'
      subst hxc
      exact absurd hk (hapart x' hmem hxc' k' k p hk')
    · obtain ⟨hmem, heq⟩ := hpage x hx k hxc
      rw [heq] at hk
      subst hxc'
      exact absurd hk' (hapart x hmem hxc k k' p hk)
    · obtain ⟨hmem, heq⟩ := hpage x hx k hxc
      obtain ⟨hmem', heq'⟩ := hpage x' hx' k' hxc'
      rw [heq] at hk
      rw [heq'] at hk'
      exact h.apart x hmem x' hmem' k k' p hk hk'

end Spaces

/-! ## Memory outside the pool -/

theorem ContextAt.same_of_agree (h : ContextAt L base m c)
    (hm : ∀ p, L.PoolPage p → AgreeOn m m' p 0x1000)
    (hshared : ∀ i < 1024, base i = 0 ∨ ∃ t, L.PoolPage t ∧ base i = t + 7) :
    SameSpace base m m' c := by
  refine SameSpace.of_agree (L := L) (fun k p hp => hm p (h.poolPage hp)) (fun i hi => ?_)
  rcases hshared i hi with h0 | ⟨t, ht, he⟩
  · exact Or.inl h0
  · exact Or.inr ⟨t, ht, he, hm t ht⟩

/-- Writing to memory outside the pool changes no address space. -/
theorem Spaces.same_outside (h : Spaces L base m₀ s₀ m s cs)
    (hm : ∀ x, L.pagepoolStart ≤ x → x < L.pagepoolEnd → m' x = m x) (hc : c ∈ cs) :
    SameSpace base m m' c := by
  refine (h.contexts c hc).same_of_agree (fun p hp x hx hx' => ?_) (fun i hi => ?_)
  · have := hp.start
    have := hp.below
    have hend : L.pagepoolEnd = L.heapStart := rfl
    exact hm x (by omega) (by omega)
  · exact (h.shared i hi).imp_right (fun ⟨t, ht, he, _⟩ => ⟨t, ht, he⟩)

theorem Spaces.outside (h : Spaces L base m₀ s₀ m s cs)
    (hm : ∀ x, L.pagepoolStart ≤ x → x < L.pagepoolEnd → m' x = m x) :
    Spaces L base m₀ s₀ m' s cs := by
  have hsame : ∀ c ∈ cs, SameSpace base m m' c := fun c hc => h.same_outside hm hc
  have hpages : ∀ c ∈ cs, ∀ k p, pageAt base m' c k = some p ↔ pageAt base m c k = some p :=
    fun c hc k p => by rw [(hsame c hc).pages]
  refine ⟨h.shared, fun c hc => (hsame c hc).contextAt (h.contexts c hc), fun p hp hu => ?_,
    fun p hp => ?_, fun c hc k p hk => h.fresh c hc k p ((hpages c hc k p).mp hk),
    fun c hc c' hc' k k' p hk hk' => ?_⟩
  · refine (h.frozen p hp hu).trans (fun x hx hx' => ?_)
    have := hp.start
    have := hp.below
    have hend : L.pagepoolEnd = L.heapStart := rfl
    exact hm x (by omega) (by omega)
  · rw [h.used p hp]
    refine or_congr_right ⟨?_, ?_⟩
    · rintro ⟨c, hc, k, hk⟩
      exact ⟨c, hc, k, (hpages c hc k p).mpr hk⟩
    · rintro ⟨c, hc, k, hk⟩
      exact ⟨c, hc, k, (hpages c hc k p).mp hk⟩
  · exact h.apart c hc c' hc' k k' p ((hpages c hc k p).mp hk) ((hpages c' hc' k' p).mp hk')

/-! ## A new context -/

theorem NewContext.slot (h : NewContext L base m s c d m' s') :
    pageAt base m' c k = some p ↔ k = .context ∧ p = c ∨ k = .dir ∧ p = d := by
  cases k with
  | context => simp [pageAt, eq_comm]
  | dir => simp [pageAt, h.pagedir, eq_comm]
  | table i =>
      rw [pageAt_table, h.pagedir]
      constructor
      · rintro ⟨hi, hne, -⟩
        exact absurd (h.words i hi) hne
      · simp

theorem NewContext.grows (h : NewContext L base m s c d m' s') (hc : c ∉ cs) :
    Grows L base cs c m s m' s' := by
  have hfree : ∀ k p, pageAt base m' c k = some p → L.PoolPage p ∧ ¬ s.Used (p / 0x1000) :=
    fun k p hp => by
      rcases h.slot.mp hp with ⟨-, rfl⟩ | ⟨-, rfl⟩
      · exact ⟨h.context, h.contextFree⟩
      · exact ⟨h.dir, h.dirFree⟩
  refine ⟨⟨h.context, ?_, fun i hi => Or.inl ?_⟩, fun x hx => ?_,
    fun k p hp => Or.inr (hfree k p hp).2, fun hmem => absurd hmem hc, fun p hp => ?_,
    fun k k' p hk hk' => ?_⟩
  · rw [h.pagedir]
    exact h.dir
  · rw [h.pagedir]
    exact h.words i hi
  · exact h.keeps x (hx .context c (h.slot.mpr (Or.inl ⟨rfl, rfl⟩)))
      (hx .dir d (h.slot.mpr (Or.inr ⟨rfl, rfl⟩)))
  · have hdiv : ∀ q, L.PoolPage q → (p / 0x1000 = q / 0x1000 ↔ p = q) := fun q hq => by
      have := hq.aligned
      have := hp.aligned
      omega
    rw [h.pages, used_use, used_use, hdiv d h.dir, hdiv c h.context]
    constructor
    · rintro (rfl | rfl | hu)
      · exact Or.inr ⟨.dir, h.slot.mpr (Or.inr ⟨rfl, rfl⟩)⟩
      · exact Or.inr ⟨.context, h.slot.mpr (Or.inl ⟨rfl, rfl⟩)⟩
      · exact Or.inl hu
    · rintro (hu | ⟨k, hk⟩)
      · exact Or.inr (Or.inr hu)
      · rcases h.slot.mp hk with ⟨-, rfl⟩ | ⟨-, rfl⟩
        · exact Or.inr (Or.inl rfl)
        · exact Or.inl rfl
  · have hne := h.ne
    rcases h.slot.mp hk with ⟨rfl, rfl⟩ | ⟨rfl, rfl⟩ <;>
      rcases h.slot.mp hk' with ⟨rfl, he⟩ | ⟨rfl, he⟩
    · rfl
    · exact absurd he hne
    · exact absurd he.symm hne
    · rfl

/-- A new context translates as the directory it was copied from. -/
theorem NewContext.translates {D : Nat} (h : NewContext L (entry m D) m s c d m' s')
    (htable : ∀ i < 1024, entry m D i % 2 = 1 →
      AgreeOn m m' (frameBase (entry m D i)) 0x1000) {v : Nat} (hv : v < 2 ^ 20) :
    pte m' d v = pte m D v :=
  pte_eq_of_tables h.words
    (fun i hi hodd j _ => entry_congr ((htable i hi hodd).mono (by omega) (by omega))) hv

/-! ## A page is mapped -/

/-- The word of a page that is mapped lies in a table of the context itself. -/
theorem MapsPage.slot {v w t : Nat} (h : MapsPage L m s (pagedir m c) v w t m' s')
    (hdir : pagedir m' c = pagedir m c) (hbase : base (v / 1024) = 0) (hv : v / 1024 < 1024) :
    pageAt base m' c k = some p ↔
      (k = .table (v / 1024) ∧ p = t) ∨ (k ≠ .table (v / 1024) ∧ pageAt base m c k = some p) := by
  have hbaset : frameBase (t + 7) = t := frameBase_add h.table.aligned (by decide)
  cases k with
  | context => simp [pageAt]
  | dir => simp [pageAt, hdir]
  | table i =>
      rw [pageAt_table, pageAt_table, hdir]
      by_cases hi : i = v / 1024
      · subst hi
        rw [h.entries _ hv, if_pos rfl, hbase, hbaset]
        simp [hv, eq_comm]
      · have hk : Slot.table i ≠ Slot.table (v / 1024) := fun he => hi (Slot.table.inj he)
        constructor
        · rintro ⟨hlt, hp⟩
          rw [h.entries i hlt, if_neg hi] at hp
          exact Or.inr ⟨hk, hlt, hp⟩
        · rintro (⟨he, -⟩ | ⟨-, hlt, hp⟩)
          · exact absurd he hk
          · rw [h.entries i hlt, if_neg hi]
            exact ⟨hlt, hp⟩

namespace Spaces

/-- The context's own words for `map_page`. -/
theorem hasDir (h : Spaces L base m₀ s₀ m s cs) (hc : c ∈ cs) {i : Nat} (hi : i < 1024)
    (hbase : base i = 0) : HasDir L m s c (pagedir m c) i := by
  have hctx := h.contexts c hc
  refine ⟨hctx.context, hctx.dir, h.pageUsed hc (k := .context) rfl, h.pageUsed hc (k := .dir) rfl,
    fun he => ?_, rfl, ?_⟩
  · have := (h.apart c hc c hc .context .dir c rfl (congrArg some he.symm)).2
    cases this
  · rcases hctx.words i hi with he | ⟨-, t, ht, he⟩
    · exact Or.inl (he.trans hbase)
    · have hslot := pageAt_of_word hi hbase ht he
      refine Or.inr ⟨t, ht, he, ?_, ?_⟩
      · intro htc
        have := (h.apart c hc c hc (.table i) .context t hslot (congrArg some htc.symm)).2
        cases this
      · intro htd
        have := (h.apart c hc c hc (.table i) .dir t hslot (congrArg some htd.symm)).2
        cases this

end Spaces

/-- The table of a page that is mapped was the context's own before, or free. -/
theorem MapsPage.table_old {v w t : Nat} (hm : MapsPage L m s (pagedir m c) v w t m' s')
    (hbase : base (v / 1024) = 0) (hv : v / 1024 < 1024) :
    pageAt base m c (.table (v / 1024)) = some t ∧ s' = s ∨
      pageAt base m c (.table (v / 1024)) = none ∧ ¬ s.Used (t / 0x1000) ∧ s' = use s t := by
  rcases hm.pages with ⟨he, hs⟩ | ⟨h0, hfree, hs⟩
  · exact Or.inl ⟨pageAt_of_word hv hbase hm.table he, hs⟩
  · exact Or.inr ⟨if_neg (fun hne => hne.2 (h0.trans hbase.symm)), hfree, hs⟩

theorem MapsPage.grows {v w t : Nat} (h : Spaces L base m₀ s₀ m s cs) (hc : c ∈ cs)
    (hbase : base (v / 1024) = 0) (hv : v / 1024 < 1024)
    (hm : MapsPage L m s (pagedir m c) v w t m' s') :
    pagedir m' c = pagedir m c ∧ Grows L base cs c m s m' s' := by
  have hctx := h.contexts c hc
  have hdir := h.hasDir hc hv hbase
  have hold := hm.table_old hbase hv
  -- the table's page is in no other slot of the context
  have hslot : ∀ k, k ≠ .table (v / 1024) → pageAt base m c k ≠ some t := fun k hk hp => by
    rcases hold with ⟨hown, -⟩ | ⟨-, hfree, -⟩
    · exact hk (h.apart c hc c hc k _ t hp hown).2
    · exact hfree (h.pageUsed hc hp)
  have htc : c ≠ t := fun he => hslot .context (fun hk => nomatch hk) (congrArg some he)
  have hapc := hdir.context.apart hm.table htc
  have hapd := hdir.context.apart hdir.dir hdir.ne
  have hptr : pagedir m' c = pagedir m c :=
    load32_congr (fun x _ _ => hm.keeps x (by omega) (by omega))
  have hpage : ∀ k p, pageAt base m' c k = some p ↔
      (k = .table (v / 1024) ∧ p = t) ∨ (k ≠ .table (v / 1024) ∧ pageAt base m c k = some p) :=
    fun k p => hm.slot hptr hbase hv
  have hmono : ∀ k p, pageAt base m c k = some p → pageAt base m' c k = some p := fun k p hp => by
    rw [hpage]
    by_cases hk : k = .table (v / 1024)
    · subst hk
      refine Or.inl ⟨rfl, ?_⟩
      rcases hold with ⟨hown, -⟩ | ⟨hnone, -⟩
      · exact Option.some.inj (hp.symm.trans hown)
      · rw [hnone] at hp
        cases hp
    · exact Or.inr ⟨hk, hp⟩
  refine ⟨hptr, ⟨hctx.context, ?_, fun i hi => ?_⟩, fun x hx => ?_, fun k p hp => ?_,
    fun _ => hmono, fun p hp => ?_, fun k k' p hk hk' => ?_⟩
  · rw [hptr]
    exact hctx.dir
  · rw [hptr, hm.entries i hi]
    split
    case isTrue he => exact Or.inr ⟨by rw [he, hbase], t, hm.table, rfl⟩
    case isFalse => exact hctx.words i hi
  · refine hm.keeps x ?_ (hx _ t ((hpage _ t).mpr (Or.inl ⟨rfl, rfl⟩)))
    exact hx .dir _ (congrArg some hptr)
  · rcases (hpage k p).mp hp with ⟨rfl, rfl⟩ | ⟨-, hp'⟩
    · rcases hold with ⟨hown, -⟩ | ⟨-, hfree, -⟩
      · exact Or.inl ⟨hc, hown⟩
      · exact Or.inr hfree
    · exact Or.inl ⟨hc, hp'⟩
  · have hiff : (∃ k, pageAt base m' c k = some p) ↔ p = t ∨ ∃ k, pageAt base m c k = some p := by
      constructor
      · rintro ⟨k, hk⟩
        rcases (hpage k p).mp hk with ⟨-, rfl⟩ | ⟨-, hk'⟩
        · exact Or.inl rfl
        · exact Or.inr ⟨k, hk'⟩
      · rintro (rfl | ⟨k, hk⟩)
        · exact ⟨_, (hpage _ p).mpr (Or.inl ⟨rfl, rfl⟩)⟩
        · exact ⟨k, hmono k p hk⟩
    have hsub : (∃ k, pageAt base m c k = some p) → s.Used (p / 0x1000) :=
      fun ⟨k, hk⟩ => h.pageUsed hc hk
    rw [hiff]
    rcases hold with ⟨hown, rfl⟩ | ⟨-, hfree, rfl⟩
    · have htu := h.pageUsed hc hown
      constructor
      · exact Or.inl
      · rintro (hu | rfl | hk)
        · exact hu
        · exact htu
        · exact hsub hk
    · have hdiv : p / 0x1000 = t / 0x1000 ↔ p = t := by
        have := hm.table.aligned
        have := hp.aligned
        omega
      rw [used_use, hdiv]
      constructor
      · rintro (he | hu)
        · exact Or.inr (Or.inl he)
        · exact Or.inl hu
      · rintro (hu | he | hk)
        · exact Or.inr hu
        · exact Or.inl he
        · exact Or.inr (hsub hk)
  · rcases (hpage k p).mp hk with ⟨rfl, rfl⟩ | ⟨hne, hp⟩ <;>
      rcases (hpage k' _).mp hk' with ⟨rfl, he⟩ | ⟨hne', hp'⟩
    · rfl
    · exact absurd hp' (hslot k' hne')
    · rw [he] at hp
      exact absurd hp (hslot k hne)
    · exact (h.apart c hc c hc k k' p hp hp').2

/-- **Mapping a page replaces one word of one address space.** -/
theorem MapsPage.translates {v w t : Nat} (h : Spaces L base m₀ s₀ m s cs) (hc : c ∈ cs)
    (hbase : base (v / 1024) = 0) (hv : v / 1024 < 1024)
    (hm : MapsPage L m s (pagedir m c) v w t m' s') {u : Nat} (hu : u < 2 ^ 20) :
    pte m' (pagedir m c) u = Function.update (pte m (pagedir m c)) v w u := by
  have hctx := h.contexts c hc
  obtain ⟨-, g⟩ := hm.grows h hc hbase hv
  have hold := hm.table_old hbase hv
  have he : entry m' (pagedir m c) (v / 1024) = t + 7 := by
    rw [hm.entries _ hv, if_pos rfl]
  have hal := hm.table.aligned
  have hbase7 : frameBase (t + 7) = t := frameBase_add hal (by decide)
  refine pte_update (t := t) (by omega) (by rw [he, hbase7]) (fun u hu => ?_) (fun hne => ?_)
  · -- within the table: the words were there before, or it is new and they are zero
    have hj : u % 1024 < 1024 := Nat.mod_lt _ (by decide)
    have hidx : u % 1024 = v % 1024 ↔ u = v := by omega
    rw [hm.words _ hj]
    simp only [hidx]
    split
    case isTrue => rfl
    case isFalse =>
        rcases hm.pages with ⟨he', -⟩ | ⟨h0, -⟩
        · rw [if_neg (by omega), pte_of_entry (hu ▸ he') (by omega), hbase7]
        · rw [if_pos h0, pte_of_even (by rw [hu, h0])]
  · -- elsewhere: the table is a different page of the context, or shared
    have hi : u / 1024 < 1024 := by omega
    have hword : entry m' (pagedir m c) (u / 1024) = entry m (pagedir m c) (u / 1024) := by
      rw [hm.entries _ hi, if_neg hne]
    refine pte_congr hword (fun hodd => ?_)
    have hagree : AgreeOn m m' (frameBase (entry m (pagedir m c) (u / 1024))) 0x1000 := by
      by_cases hshared : entry m (pagedir m c) (u / 1024) = base (u / 1024)
      · rcases h.shared _ hi with h0 | ⟨t', ht', he', hu'⟩
        · omega
        · rw [hshared, he', frameBase_add ht'.aligned (by decide)]
          exact h.frozen_of_grows g ht' hu'
      · have hslot : pageAt base m c (.table (u / 1024))
            = some (frameBase (entry m (pagedir m c) (u / 1024))) :=
          pageAt_table.mpr ⟨hi, hshared, rfl⟩
        have hp := hctx.poolPage hslot
        have htne : frameBase (entry m (pagedir m c) (u / 1024)) ≠ t := fun heq => by
          rw [heq] at hslot
          rcases hold with ⟨hown, -⟩ | ⟨-, hfree, -⟩
          · have := (h.apart c hc c hc _ _ t hslot hown).2
            exact hne (Slot.table.inj this)
          · exact hfree (h.pageUsed hc hslot)
        have hdne : frameBase (entry m (pagedir m c) (u / 1024)) ≠ pagedir m c := fun heq => by
          rw [heq] at hslot
          have := (h.apart c hc c hc _ .dir _ hslot rfl).2
          cases this
        have hapt := hp.apart hm.table htne
        have hapd := hp.apart hctx.dir hdne
        exact fun x _ _ => hm.keeps x (by omega) (by omega)
    exact entry_congr (hagree.mono (by omega) (by omega))

/-! ## A context is destroyed -/

/-- Below the heap's end `destroy_context` finds the private tables of the context, and nothing
else. -/
theorem frees_low {D : Nat} (hctx : ContextAt L base m c) (hD : ∀ i < 1024, entry m D i = base i)
    (hq : 0x1000 * q < L.heapEnd) :
    Frees L m D (pagedir m c) q ↔ ∃ i, pageAt base m c (.table i) = some (0x1000 * q) := by
  have hal := L.heapEnd_aligned
  constructor
  · rintro ⟨i, hi, -, hne, hq'⟩
    rw [hD i hi] at hne
    have hslot : pageAt base m c (.table i) = some (frameBase (entry m (pagedir m c) i)) :=
      pageAt_table.mpr ⟨hi, hne, rfl⟩
    rcases hq' with rfl | ⟨j, -, hlow, rfl⟩
    · refine ⟨i, ?_⟩
      rw [hslot]
      exact congrArg some (Nat.mul_comm _ _)
    · -- a word above the heap's end names a page above it
      omega
  · rintro ⟨i, hslot⟩
    obtain ⟨hi, h0, ht, he⟩ := hctx.table hslot
    refine ⟨i, hi, by omega, ?_, Or.inl ?_⟩
    · rw [hD i hi, h0, he]
      omega
    · rw [he]
      omega

/-- Of the pages of the pool, `destroy_context` frees those of the context. -/
theorem used_destroyed {D : Nat} (hctx : ContextAt L base m c)
    (hD : ∀ i < 1024, entry m D i = base i)
    (hs' : ∀ q, s'.Used q ↔ s.Used q ∧ q ≠ c / 0x1000 ∧ q ≠ pagedir m c / 0x1000 ∧
      ¬ Frees L m D (pagedir m c) q) (hp : L.PoolPage p) :
    s'.Used (p / 0x1000) ↔ s.Used (p / 0x1000) ∧ ∀ k, pageAt base m c k ≠ some p := by
  have hdiv : ∀ q, L.PoolPage q → (p / 0x1000 = q / 0x1000 ↔ q = p) := fun q hq => by
    have := hq.aligned
    have := hp.aligned
    omega
  have hlow : 0x1000 * (p / 0x1000) < L.heapEnd := by
    have := hp.below
    have := L.heapEnd_eq
    omega
  rw [hs', frees_low hctx hD hlow, hp.page, Ne, hdiv c hctx.context, Ne, hdiv _ hctx.dir]
  constructor
  · rintro ⟨hu, hne, hned, hnot⟩
    refine ⟨hu, fun k hk => ?_⟩
    cases k with
    | context => exact hne (Option.some.inj hk)
    | dir => exact hned (Option.some.inj hk)
    | table i => exact hnot ⟨i, hk⟩
  · rintro ⟨hu, hnone⟩
    refine ⟨hu, fun he => hnone .context (congrArg some he),
      fun he => hnone .dir (congrArg some he), ?_⟩
    rintro ⟨i, hi⟩
    exact hnone _ hi

theorem Spaces.destroy {D : Nat} (h : Spaces L base m₀ s₀ m s cs) (hc : c ∈ cs)
    (hD : ∀ i < 1024, entry m D i = base i) {cs' : List Nat}
    (hcs : ∀ x, x ∈ cs' ↔ x ∈ cs ∧ x ≠ c)
    (hs' : ∀ q, s'.Used q ↔ s.Used q ∧ q ≠ c / 0x1000 ∧ q ≠ pagedir m c / 0x1000 ∧
      ¬ Frees L m D (pagedir m c) q) :
    Spaces L base m₀ s₀ m s' cs' := by
  refine ⟨h.shared, fun x hx => h.contexts x ((hcs x).mp hx).1, h.frozen, fun p hp => ?_,
    fun x hx => h.fresh x ((hcs x).mp hx).1,
    fun x hx x' hx' => h.apart x ((hcs x).mp hx).1 x' ((hcs x').mp hx').1⟩
  rw [used_destroyed (h.contexts c hc) hD hs' hp, h.used p hp]
  constructor
  · rintro ⟨hu | ⟨x, hx, k, hk⟩, hnone⟩
    · exact Or.inl hu
    · refine Or.inr ⟨x, (hcs x).mpr ⟨hx, ?_⟩, k, hk⟩
      rintro rfl
      exact hnone k hk
  · rintro (hu | ⟨x, hx, k, hk⟩)
    · exact ⟨Or.inl hu, fun k hk => h.fresh c hc k p hk hu⟩
    · obtain ⟨hx, hne⟩ := (hcs x).mp hx
      exact ⟨Or.inr ⟨x, hx, k, hk⟩, fun k' hk' => hne (h.apart x hx c hc k k' p hk hk').1⟩

end

end DayOS
