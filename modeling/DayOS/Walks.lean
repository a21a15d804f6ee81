import DayOS.Spaces

set_option autoImplicit false

/-! # Any context

`Spaces` describes the contexts that the kernel builds. Here a context may come from anywhere:
all that `map_page` needs is that the context, its directory and its tables are different pages
of the pool in use (`Walkable`). Such a context stays walkable, and one word of its address
space is replaced.
-/

namespace DayOS

open ByteMemory Paging

/-- The context `c`, its directory `d` and the tables in use are different pages of the pool,
all of them in use. -/
structure Walkable (L : Layout) (m : Mem) (s : Pmm) (c d : Nat) : Prop where
  context : L.PoolPage c
  dir : L.PoolPage d
  contextUsed : s.Used (c / 0x1000)
  dirUsed : s.Used (d / 0x1000)
  ne : c ≠ d
  pagedir : pagedir m c = d
  tables : ∀ i < 1024, entry m d i % 2 = 1 → L.PoolPage (frameBase (entry m d i)) ∧
    s.Used (frameBase (entry m d i) / 0x1000) ∧ frameBase (entry m d i) ≠ c ∧
    frameBase (entry m d i) ≠ d
  inj : ∀ i < 1024, ∀ j < 1024, entry m d i % 2 = 1 → entry m d j % 2 = 1 →
    frameBase (entry m d i) = frameBase (entry m d j) → i = j

section
variable {L : Layout} {m m' : Mem} {s s' : Pmm} {c d v w flags t : Nat}

theorem Walkable.dirWord (h : Walkable L m s c d) {i : Nat} (hi : i < 1024) :
    DirWord L m s c d i :=
  ⟨h.context, h.dir, h.contextUsed, h.dirUsed, h.ne, h.pagedir,
    fun hodd => ⟨(h.tables i hi hodd).1, (h.tables i hi hodd).2.2⟩⟩

namespace StoresWord

/-- A page in use stays in use, and the only page newly in use is the table. -/
theorem used_iff (h : StoresWord L m s d v w flags t m' s') {q : Nat} :
    s'.Used q ↔ s.Used q ∨ (entry m d (v / 1024) % 2 = 0 ∧ q = t / 0x1000) := by
  rcases h.pages with ⟨hodd, -, -, rfl⟩ | ⟨heven, -, -, rfl⟩
  · constructor
    · exact Or.inl
    · rintro (hu | ⟨h0, -⟩)
      · exact hu
      · omega
  · rw [used_use]
    constructor
    · rintro (rfl | hu)
      · exact Or.inr ⟨heven, rfl⟩
      · exact Or.inl hu
    · rintro (hu | ⟨-, rfl⟩)
      · exact Or.inr hu
      · exact Or.inl rfl

variable (hw : Walkable L m s c d) (hv : v / 1024 < 1024) (hflags : flags < 0x1000)
  (hodd : flags % 2 = 1) (h : StoresWord L m s d v w flags t m' s')
include hw hv hflags hodd h

omit hw hv in
/-- The table is under the word of the page's part of the directory. -/
theorem word : entry m' d (v / 1024) % 2 = 1 ∧ frameBase (entry m' d (v / 1024)) = t := by
  rcases h.pages with ⟨h1, ht, he, -⟩ | ⟨-, he, -⟩
  · rw [he]
    exact ⟨h1, ht⟩
  · have hal := h.table.aligned
    rw [he, frameBase_add hal hflags]
    exact ⟨by omega, rfl⟩

omit hflags hodd in
/-- The table is none of the context's other pages. -/
theorem table_ne : t ≠ c ∧ t ≠ d ∧ ∀ i < 1024, i ≠ v / 1024 → entry m d i % 2 = 1 →
    frameBase (entry m d i) ≠ t := by
  rcases h.pages with ⟨h1, ht, -, -⟩ | ⟨-, -, hfree, -⟩
  · obtain ⟨-, -, hc, hd⟩ := hw.tables _ hv h1
    rw [ht] at hc hd
    refine ⟨hc, hd, fun i hi hne hi1 he => hne ?_⟩
    exact hw.inj i hi _ hv hi1 h1 (he.trans ht.symm)
  · refine ⟨fun he => hfree (he ▸ hw.contextUsed), fun he => hfree (he ▸ hw.dirUsed),
      fun i hi _ hi1 he => hfree ?_⟩
    rw [← he]
    exact (hw.tables i hi hi1).2.1

omit hflags hodd in
/-- Another page of the context is as it was. -/
theorem agree {i : Nat} (hi : i < 1024) (hne : i ≠ v / 1024) (hi1 : entry m d i % 2 = 1) :
    AgreeOn m m' (frameBase (entry m d i)) 0x1000 := by
  obtain ⟨hp, -, -, hpd⟩ := hw.tables i hi hi1
  obtain ⟨-, -, hpt⟩ := h.table_ne hw hv
  have hapd := hp.apart hw.dir hpd
  have hapt := hp.apart h.table (hpt i hi hne hi1)
  exact fun x _ _ => h.keeps x (by omega) (by omega)

/-- The context stays walkable. -/
theorem walkable : Walkable L m' s' c d := by
  obtain ⟨htc, htd, hother⟩ := h.table_ne hw hv
  obtain ⟨hword, hbase⟩ := h.word hflags hodd
  have hapcd := hw.context.apart hw.dir hw.ne
  have hapct := hw.context.apart h.table (Ne.symm htc)
  have hmono : ∀ q, s.Used q → s'.Used q := fun q hu => h.used_iff.mpr (Or.inl hu)
  have htUsed : s'.Used (t / 0x1000) := by
    rcases h.pages with ⟨h1, ht, -, rfl⟩ | ⟨heven, -, -, -⟩
    · rw [← ht]
      exact (hw.tables _ hv h1).2.1
    · exact h.used_iff.mpr (Or.inr ⟨heven, rfl⟩)
  refine ⟨hw.context, hw.dir, hmono _ hw.contextUsed, hmono _ hw.dirUsed, hw.ne, ?_,
    fun i hi hi1 => ?_, fun i hi j hj hi1 hj1 he => ?_⟩
  · rw [← hw.pagedir]
    exact load32_congr (fun x _ _ => h.keeps x (by omega) (by omega))
  · by_cases hiv : i = v / 1024
    · rw [hiv, hbase]
      exact ⟨h.table, htUsed, htc, htd⟩
    · rw [h.entries i hi hiv] at hi1 ⊢
      obtain ⟨hp, hu, hne⟩ := hw.tables i hi hi1
      exact ⟨hp, hmono _ hu, hne⟩
  · by_cases hiv : i = v / 1024 <;> by_cases hjv : j = v / 1024
    · rw [hiv, hjv]
    · rw [hiv, hbase, h.entries j hj hjv] at he
      rw [h.entries j hj hjv] at hj1
      exact absurd he.symm (hother j hj hjv hj1)
    · rw [hjv, hbase, h.entries i hi hiv] at he
      rw [h.entries i hi hiv] at hi1
      exact absurd he (hother i hi hiv hi1)
    · rw [h.entries i hi hiv] at hi1 he
      rw [h.entries j hj hjv] at hj1 he
      exact hw.inj i hi j hj hi1 hj1 he

/-- **One word of the address space is replaced.** -/
theorem translates {u : Nat} (hu : u < 2 ^ 20) :
    pte m' d u = Function.update (pte m d) v w u := by
  obtain ⟨hword, hbase⟩ := h.word hflags hodd
  refine pte_update hword hbase (fun u hu => ?_) (fun hne => ?_)
  · -- within the table: the words were there before, or it is new and they are zero
    have hidx : u % 1024 = v % 1024 ↔ u = v := by omega
    rw [h.words _ (Nat.mod_lt _ (by decide))]
    simp only [hidx]
    split
    case isTrue => rfl
    case isFalse =>
        rcases h.pages with ⟨h1, ht, -, -⟩ | ⟨heven, -⟩
        · rw [if_neg (by omega), pte_of_entry (by rw [hu]) h1, ht]
        · rw [if_pos heven, pte_of_even (by rw [hu]; exact heven)]
  · have hi : u / 1024 < 1024 := by omega
    refine pte_congr (h.entries _ hi hne) (fun hodd' => entry_congr ?_)
    exact (h.agree hw hv hi hne hodd').mono (by omega) (by omega)

end StoresWord

/-- **`map_page` in a walkable context**: it stays walkable, and the page's word is replaced. -/
theorem mapPage_walk (hw : Walkable L m s c d) {virt phys userspace : Nat} (hvirt : virt < 2 ^ 32)
    (hphys : phys < 2 ^ 32) (h : mapPage L m s c virt phys userspace = .ok (m', s')) :
    virt % 0x1000 = 0 ∧ phys % 0x1000 = 0 ∧ (∃ t, StoresWord L m s d (virt / 0x1000)
      (phys + mapFlags userspace) (mapFlags userspace) t m' s') ∧ Walkable L m' s' c d ∧
    ∀ u < 2 ^ 20, pte m' d u
      = Function.update (pte m d) (virt / 0x1000) (phys + mapFlags userspace) u := by
  have hv : virt / 0x1000 / 1024 < 1024 := by omega
  obtain ⟨hf7, hfodd⟩ := mapFlags_le userspace
  obtain ⟨hal, hal', t, hstore⟩ := mapPage_word (hw.dirWord hv) hvirt hphys h
  exact ⟨hal, hal', ⟨t, hstore⟩, hstore.walkable hw hv (by omega) hfodd,
    fun u hu => hstore.translates hw hv (by omega) hfodd hu⟩

/-! ## Contexts the kernel makes -/

/-- A new context is walkable when the directory it is copied from names different tables. -/
theorem NewContext.walkable {base : Nat → Nat} (h : NewContext L base m s c d m' s')
    (htables : ∀ i < 1024, base i % 2 = 1 → L.PoolPage (frameBase (base i)) ∧
      s.Used (frameBase (base i) / 0x1000))
    (hinj : ∀ i < 1024, ∀ j < 1024, base i % 2 = 1 → base j % 2 = 1 →
      frameBase (base i) = frameBase (base j) → i = j) : Walkable L m' s' c d := by
  have hused : ∀ q, s'.Used q ↔ q = d / 0x1000 ∨ q = c / 0x1000 ∨ s.Used q := fun q => by
    rw [h.pages, used_use, used_use]
  refine ⟨h.context, h.dir, (hused _).mpr (Or.inr (Or.inl rfl)), (hused _).mpr (Or.inl rfl),
    h.ne, h.pagedir, fun i hi hodd => ?_, fun i hi j hj hodd hodd' he => ?_⟩
  · rw [h.words i hi] at hodd ⊢
    obtain ⟨hp, hu⟩ := htables i hi hodd
    exact ⟨hp, (hused _).mpr (Or.inr (Or.inr hu)), fun he => h.contextFree (he ▸ hu),
      fun he => h.dirFree (he ▸ hu)⟩
  · rw [h.words i hi] at hodd he
    rw [h.words j hj] at hodd' he
    exact hinj i hi j hj hodd hodd' he

/-- An empty context is walkable. -/
theorem NewContext.walkable_empty (h : NewContext L (fun _ => 0) m s c d m' s') :
    Walkable L m' s' c d :=
  h.walkable (fun _ _ hodd => absurd hodd (by decide)) (fun _ _ _ _ hodd => absurd hodd (by decide))

/-- Contexts side by side are walkable, when the words they share name different tables. -/
theorem Spaces.walkable {base : Nat → Nat} {m₀ : Mem} {s₀ : Pmm} {cs : List Nat}
    (h : Spaces L base m₀ s₀ m s cs) (hc : c ∈ cs)
    (hinj : ∀ i < 1024, ∀ j < 1024, base i ≠ 0 → base i = base j → i = j) :
    Walkable L m s c (pagedir m c) := by
  have hctx := h.contexts c hc
  -- a table is shared, and was in use before the context was made, or it is the context's own
  have htable : ∀ i < 1024, entry m (pagedir m c) i % 2 = 1 →
      L.PoolPage (frameBase (entry m (pagedir m c) i)) ∧
      (entry m (pagedir m c) i = base i ∧ s₀.Used (frameBase (entry m (pagedir m c) i) / 0x1000) ∨
        pageAt base m c (.table i) = some (frameBase (entry m (pagedir m c) i))) := by
    intro i hi hodd
    by_cases he : entry m (pagedir m c) i = base i
    · rcases h.shared i hi with h0 | ⟨t, ht, hbt, hu⟩
      · omega
      · have hbase : frameBase (entry m (pagedir m c) i) = t := by
          rw [he, hbt, frameBase_add ht.aligned (by decide)]
        rw [hbase]
        exact ⟨ht, Or.inl ⟨he, hu⟩⟩
    · have hslot := pageAt_table.mpr ⟨hi, he, rfl⟩
      exact ⟨hctx.poolPage hslot, Or.inr hslot⟩
  have hused : ∀ p, L.PoolPage p → s₀.Used (p / 0x1000) → s.Used (p / 0x1000) :=
    fun p hp hu => (h.used p hp).mpr (Or.inl hu)
  refine ⟨hctx.context, hctx.dir, h.pageUsed hc (k := .context) rfl, h.pageUsed hc (k := .dir) rfl,
    fun he => ?_, rfl, fun i hi hodd => ?_, fun i hi j hj hodd hodd' he => ?_⟩
  · have := (h.apart c hc c hc .context .dir c rfl (congrArg some he.symm)).2
    cases this
  · obtain ⟨hp, ⟨-, hu⟩ | hslot⟩ := htable i hi hodd
    · exact ⟨hp, hused _ hp hu, fun he => h.fresh c hc .context c rfl (he ▸ hu),
        fun he => h.fresh c hc .dir _ rfl (he ▸ hu)⟩
    · refine ⟨hp, h.pageUsed hc hslot, fun he => ?_, fun he => ?_⟩
      · have := (h.apart c hc c hc _ .context _ hslot (congrArg some he.symm)).2
        cases this
      · have := (h.apart c hc c hc _ .dir _ hslot (congrArg some he.symm)).2
        cases this
  · obtain ⟨-, hi'⟩ := htable i hi hodd
    obtain ⟨-, hj'⟩ := htable j hj hodd'
    rcases hi' with ⟨hei, hui⟩ | hsi <;> rcases hj' with ⟨hej, huj⟩ | hsj
    · -- both shared: the words are the tables with all flags
      have hword : ∀ k < 1024, entry m (pagedir m c) k % 2 = 1 → entry m (pagedir m c) k = base k →
          base k = frameBase (entry m (pagedir m c) k) + 7 := fun k hk hk1 hke => by
        rcases h.shared k hk with h0 | ⟨t, ht, hbt, -⟩
        · omega
        · rw [hke, hbt, frameBase_add ht.aligned (by decide)]
      have hbi := hword i hi hodd hei
      have hbj := hword j hj hodd' hej
      exact hinj i hi j hj (by omega) (by rw [hbi, hbj, he])
    · rw [he] at hui
      exact absurd hui (h.fresh c hc _ _ hsj)
    · rw [← he] at huj
      exact absurd huj (h.fresh c hc _ _ hsi)
    · rw [← he] at hsj
      exact Slot.table.inj (h.apart c hc c hc _ _ _ hsi hsj).2

end

end DayOS
