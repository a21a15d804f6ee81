import DayOS.Walks
import DayOS.VmmRun

set_option autoImplicit false

/-! # What `vmm_alloc` maps

The contexts in a state are pages of the pool with their directories and tables (`ContextsApart`).
Tables may be shared, but the part of the address space that `vmm_alloc` works in has tables of
the context alone, or none yet. Then every page of the range gets a frame of its own, and no
other page of any context is touched: the tables that the loop makes on its way come from the
same bitmap as the frames, but from the pool, and were free.
-/

namespace DayOS

open ByteMemory Paging

/-- The contexts of a state: each is walkable, and its page and its directory are no page of
another one. -/
structure ContextsApart (L : Layout) (m : Mem) (s : Pmm) (cs : List Nat) : Prop where
  walkable : ∀ c ∈ cs, Walkable L m s c (pagedir m c)
  apart : ∀ c ∈ cs, ∀ c' ∈ cs, c ≠ c' → pagedir m c ≠ pagedir m c' ∧ c ≠ pagedir m c' ∧
    ∀ i < 1024, entry m (pagedir m c') i % 2 = 1 →
      frameBase (entry m (pagedir m c') i) ≠ c ∧
      frameBase (entry m (pagedir m c') i) ≠ pagedir m c

/-- The word `i` of the directory of `c` is not in use, or it has all flags and its table is no
table of another context. -/
def AbsentOrPrivate (m : Mem) (cs : List Nat) (c i : Nat) : Prop :=
  entry m (pagedir m c) i % 2 = 0 ∨ entry m (pagedir m c) i % 8 = 7 ∧
    ∀ c' ∈ cs, c' ≠ c → ∀ j < 1024, entry m (pagedir m c') j % 2 = 1 →
      frameBase (entry m (pagedir m c') j) ≠ frameBase (entry m (pagedir m c) i)

/-- The context `c` has in `m'` the directory and the translations that it has in `m`. -/
structure SameWalks (m m' : Mem) (c : Nat) : Prop where
  dir : pagedir m' c = pagedir m c
  words : ∀ i < 1024, entry m' (pagedir m c) i = entry m (pagedir m c) i
  ptes : ∀ v < 2 ^ 20, pte m' (pagedir m c) v = pte m (pagedir m c) v

/-- `r` is the page of a table that the context `c` did not have before. -/
def NewTable (L : Layout) (m : Mem) (s : Pmm) (m' : Mem) (c r : Nat) : Prop :=
  ∃ i < 1024, entry m (pagedir m c) i % 2 = 0 ∧ entry m' (pagedir m c) i % 2 = 1 ∧
    frameBase (entry m' (pagedir m c) i) = 0x1000 * r ∧ L.PoolPage (0x1000 * r) ∧ ¬ s.Used r

/-- The pages `R` of the context `c` have got the frames `f`, and nothing else has changed but
for new tables of the context. -/
structure GetsFrames (L : Layout) (cs : List Nat) (c : Nat) (R : Nat → Prop) (f : Nat → Nat)
    (m : Mem) (s : Pmm) (m' : Mem) (s' : Pmm) : Prop where
  dir : pagedir m' c = pagedir m c
  frame : ∀ v, R v → L.heapEnd ≤ 0x1000 * f v ∧ f v < 2 ^ 20 ∧ ¬ s.Used (f v)
  inj : ∀ v w, R v → R w → f v = f w → v = w
  mapped : ∀ v < 2 ^ 20, R v → pte m' (pagedir m c) v = 0x1000 * f v + 7
  flags : ∀ v < 2 ^ 20, R v → entry m' (pagedir m c) (v / 1024) % 8 = 7
  kept : ∀ v < 2 ^ 20, ¬ R v → pte m' (pagedir m c) v = pte m (pagedir m c) v
  words : ∀ i < 1024, entry m (pagedir m c) i % 2 = 1 →
    entry m' (pagedir m c) i = entry m (pagedir m c) i
  used : ∀ r, s'.Used r ↔ s.Used r ∨ (∃ v, R v ∧ f v = r) ∨ NewTable L m s m' c r
  others : ∀ c' ∈ cs, c' ≠ c → SameWalks m m' c'

/-- The page `r` holds the directory of the context `c` or one of its tables. -/
def OwnTable (m : Mem) (c r : Nat) : Prop :=
  0x1000 * r = pagedir m c ∨ ∃ i < 1024, entry m (pagedir m c) i % 2 = 1 ∧
    frameBase (entry m (pagedir m c) i) = 0x1000 * r

/-- Only the directory and the tables of `c` have been written to, and nothing above the pool.
What has become a table was free. -/
structure WritesTables (L : Layout) (cs : List Nat) (c : Nat) (m : Mem) (s : Pmm) (m' : Mem)
    (s' : Pmm) : Prop where
  used : ∀ r, s.Used r → s'.Used r
  bytes : ∀ x, ¬ OwnTable m' c (x / 0x1000) → m' x = m x
  high : ∀ x, L.heapStart ≤ x → m' x = m x
  grows : ∀ r, OwnTable m c r → OwnTable m' c r
  tables : ∀ r, s.Used r → OwnTable m' c r → OwnTable m c r
  words : ∀ j < 1024, AbsentOrPrivate m cs c j → AbsentOrPrivate m' cs c j

section
variable {L : Layout} {m m₁ m' : Mem} {s s₁ s' : Pmm} {cs : List Nat}
  {c c' d v w t i endAddr fuel : Nat}

/-! ## More pages in use -/

/-- A context whose walks are the same is walkable while its pages are in use. -/
theorem SameWalks.walkable (h : SameWalks m m' c) (hw : Walkable L m s c (pagedir m c))
    (hs : ∀ p, L.PoolPage p → s.Used (p / 0x1000) → s'.Used (p / 0x1000)) :
    Walkable L m' s' c (pagedir m' c) := by
  rw [h.dir]
  refine ⟨hw.context, hw.dir, hs _ hw.context hw.contextUsed, hs _ hw.dir hw.dirUsed, hw.ne, h.dir,
    fun i hi hodd => ?_, fun i hi j hj hodd hodd' he => ?_⟩
  · rw [h.words i hi] at hodd ⊢
    obtain ⟨hp, hu, hne⟩ := hw.tables i hi hodd
    exact ⟨hp, hs _ hp hu, hne⟩
  · rw [h.words i hi] at hodd he
    rw [h.words j hj] at hodd' he
    exact hw.inj i hi j hj hodd hodd' he

theorem SameWalks.refl (m : Mem) (c : Nat) : SameWalks m m c :=
  ⟨rfl, fun _ _ => rfl, fun _ _ => rfl⟩

theorem ContextsApart.mono (h : ContextsApart L m s cs) (hs : ∀ r, s.Used r → s₁.Used r) :
    ContextsApart L m s₁ cs :=
  ⟨fun c hc => (SameWalks.refl m c).walkable (h.walkable c hc) (fun _ _ => hs _), h.apart⟩

/-! ## One word -/

/-- The table is no page of another context. -/
theorem ContextsApart.table_ne (h : ContextsApart L m s cs) (hc : c ∈ cs) (hv : v / 1024 < 1024)
    (hpriv : AbsentOrPrivate m cs c (v / 1024))
    (hst : StoresWord L m s (pagedir m c) v w 7 t m' s') (hc' : c' ∈ cs) (hne : c' ≠ c) :
    t ≠ c' ∧ t ≠ pagedir m c' ∧ ∀ i < 1024, entry m (pagedir m c') i % 2 = 1 →
      frameBase (entry m (pagedir m c') i) ≠ t := by
  have hw' := h.walkable c' hc'
  rcases hst.pages with ⟨hodd, rfl, -, -⟩ | ⟨-, -, hfree, -⟩
  · obtain ⟨-, -, htable⟩ := h.apart c' hc' c hc hne
    obtain ⟨h₁, h₂⟩ := htable _ hv hodd
    refine ⟨h₁, h₂, fun i hi hi1 => ?_⟩
    rcases hpriv with heven | ⟨-, hother⟩
    · omega
    · exact hother c' hc' hne i hi hi1
  · refine ⟨?_, ?_, fun i hi hi1 he => ?_⟩
    · rintro rfl
      exact hfree hw'.contextUsed
    · rintro rfl
      exact hfree hw'.dirUsed
    · rw [← he] at hfree
      exact hfree (hw'.tables i hi hi1).2.1

/-- **A word stored for one context is seen by no other.** -/
theorem ContextsApart.sameWalks (h : ContextsApart L m s cs) (hc : c ∈ cs) (hv : v / 1024 < 1024)
    (hpriv : AbsentOrPrivate m cs c (v / 1024))
    (hst : StoresWord L m s (pagedir m c) v w 7 t m' s') (hc' : c' ∈ cs) (hne : c' ≠ c) :
    SameWalks m m' c' := by
  have hw := h.walkable c hc
  have hw' := h.walkable c' hc'
  obtain ⟨htc, htd, htt⟩ := h.table_ne hc hv hpriv hst hc' hne
  obtain ⟨hdd, hcd, -⟩ := h.apart c' hc' c hc hne
  obtain ⟨-, -, htables⟩ := h.apart c hc c' hc' (Ne.symm hne)
  -- a page that is neither the directory nor the table is as it was
  have hagree : ∀ p, L.PoolPage p → p ≠ pagedir m c → p ≠ t → AgreeOn m m' p 0x1000 := by
    intro p hp hpd hpt x hx hx'
    have hapd := hp.apart hw.dir hpd
    have hapt := hp.apart hst.table hpt
    exact hst.keeps x (by omega) (by omega)
  have hdir : pagedir m' c' = pagedir m c' :=
    load32_congr ((hagree c' hw'.context hcd (Ne.symm htc)).mono le_rfl (by omega))
  have hwords : ∀ i < 1024, entry m' (pagedir m c') i = entry m (pagedir m c') i := fun i hi =>
    entry_congr ((hagree _ hw'.dir hdd (Ne.symm htd)).mono (by omega) (by omega))
  refine ⟨hdir, hwords, fun u hu => pte_eq_of_tables hwords (fun i hi hodd j hj => ?_) hu⟩
  have hp := (hw'.tables i hi hodd).1
  exact entry_congr ((hagree _ hp (htables i hi hodd).2 (htt i hi hodd)).mono (by omega) (by omega))

/-- The words of the other contexts' directories are as they were, and so are the words of this
one but for the table's. -/
theorem ContextsApart.store (h : ContextsApart L m s cs) (hc : c ∈ cs) (hv : v / 1024 < 1024)
    (hpriv : AbsentOrPrivate m cs c (v / 1024))
    (hst : StoresWord L m s (pagedir m c) v w 7 t m' s') : ContextsApart L m' s' cs := by
  have hw := hst.walkable (h.walkable c hc) hv (by decide) (by decide)
  have hmono : ∀ r, s.Used r → s'.Used r := fun r hu => hst.used_iff.mpr (Or.inl hu)
  have hsame : ∀ x ∈ cs, x ≠ c → SameWalks m m' x := fun x hx hne =>
    h.sameWalks hc hv hpriv hst hx hne
  have hdir : ∀ x ∈ cs, pagedir m' x = pagedir m x := by
    intro x hx
    by_cases hxc : x = c
    · rw [hxc, hw.pagedir]
    · exact (hsame x hx hxc).dir
  refine ⟨fun x hx => ?_, fun x hx x' hx' hne => ?_⟩
  · by_cases hxc : x = c
    · rw [hxc, hw.pagedir]
      exact hw
    · exact (hsame x hx hxc).walkable (h.walkable x hx) (fun _ _ => hmono _)
  · obtain ⟨h₁, h₂, htables⟩ := h.apart x hx x' hx' hne
    rw [hdir x hx, hdir x' hx']
    refine ⟨h₁, h₂, fun j hj hodd => ?_⟩
    by_cases hx'c : x' = c
    · subst hx'c
      by_cases hjv : j = v / 1024
      · obtain ⟨-, hbase⟩ := hst.word (by decide) (by decide)
        obtain ⟨htx, htd, -⟩ := h.table_ne hc hv hpriv hst hx hne
        rw [hjv, hbase]
        exact ⟨htx, htd⟩
      · rw [hst.entries j hj hjv] at hodd ⊢
        exact htables j hj hodd
    · rw [(hsame x' hx' hx'c).words j hj] at hodd ⊢
      exact htables j hj hodd

/-- The words that were absent or private still are. -/
theorem AbsentOrPrivate.store (h : ContextsApart L m s cs) (hc : c ∈ cs) (hv : v / 1024 < 1024)
    (hpriv : AbsentOrPrivate m cs c (v / 1024))
    (hst : StoresWord L m s (pagedir m c) v w 7 t m' s') {j : Nat} (hj : j < 1024)
    (hp : AbsentOrPrivate m cs c j) : AbsentOrPrivate m' cs c j := by
  have hw := hst.walkable (h.walkable c hc) hv (by decide) (by decide)
  have hsame : ∀ x ∈ cs, x ≠ c → SameWalks m m' x := fun x hx hne =>
    h.sameWalks hc hv hpriv hst hx hne
  unfold AbsentOrPrivate
  rw [hw.pagedir]
  by_cases hjv : j = v / 1024
  · right
    subst hjv
    obtain ⟨-, hbase⟩ := hst.word (by decide) (by decide)
    have hal := hst.table.aligned
    constructor
    · rcases hst.pages with ⟨hodd, -, he, -⟩ | ⟨-, he, -⟩
      · rw [he]
        exact (hpriv.resolve_left (by omega)).1
      · rw [he]
        omega
    · intro x hx hne k hk hodd
      rw [(hsame x hx hne).dir, (hsame x hx hne).words k hk] at hodd ⊢
      rw [hbase]
      exact (h.table_ne hc hv hpriv hst hx hne).2.2 k hk hodd
  · rw [hst.entries j hj hjv]
    refine hp.imp_right (fun ⟨hflags, hother⟩ => ⟨hflags, fun x hx hne k hk hodd => ?_⟩)
    rw [(hsame x hx hne).dir, (hsame x hx hne).words k hk] at hodd ⊢
    exact hother x hx hne k hk hodd

/-! ## The pages written to -/

theorem WritesTables.refl : WritesTables L cs c m s m s :=
  ⟨fun _ => id, fun _ _ => rfl, fun _ _ => rfl, fun _ => id, fun _ _ => id, fun _ _ => id⟩

theorem WritesTables.trans (h₁ : WritesTables L cs c m s m₁ s₁)
    (h₂ : WritesTables L cs c m₁ s₁ m' s') : WritesTables L cs c m s m' s' where
  used r hr := h₂.used r (h₁.used r hr)
  bytes x hno := by
    rw [h₂.bytes x hno, h₁.bytes x (fun ht => hno (h₂.grows _ ht))]
  high x hx := (h₂.high x hx).trans (h₁.high x hx)
  grows r ht := h₂.grows r (h₁.grows r ht)
  tables r hr ht := h₁.tables r hr (h₂.tables r (h₁.used r hr) ht)
  words j hj hp := h₂.words j hj (h₁.words j hj hp)

/-- A word stored for a context writes to its directory and to a table of its own. -/
theorem ContextsApart.writesTables (h : ContextsApart L m s cs) (hc : c ∈ cs)
    (hv : v / 1024 < 1024) (hpriv : AbsentOrPrivate m cs c (v / 1024))
    (hst : StoresWord L m s (pagedir m c) v w 7 t m' s') : WritesTables L cs c m s m' s' := by
  have hw := h.walkable c hc
  have hw' := hst.walkable hw hv (by decide) (by decide)
  obtain ⟨hodd, hbase⟩ := hst.word (by decide) (by decide)
  have hown : ∀ r, OwnTable m' c r ↔ OwnTable m c r ∨ 0x1000 * r = t := by
    intro r
    unfold OwnTable
    rw [hw'.pagedir]
    constructor
    · rintro (hd | ⟨j, hj, hodd', he⟩)
      · exact Or.inl (Or.inl hd)
      · by_cases hjv : j = v / 1024
        · rw [hjv, hbase] at he
          exact Or.inr he.symm
        · rw [hst.entries j hj hjv] at hodd' he
          exact Or.inl (Or.inr ⟨j, hj, hodd', he⟩)
    · rintro ((hd | ⟨j, hj, hodd', he⟩) | ht)
      · exact Or.inl hd
      · by_cases hjv : j = v / 1024
        · -- the word was there before, so the table is the old one
          subst hjv
          rcases hst.pages with ⟨-, ht, -⟩ | ⟨heven, -⟩
          · exact Or.inr ⟨_, hj, hodd, by rw [hbase, ← he, ht]⟩
          · omega
        · refine Or.inr ⟨j, hj, ?_, ?_⟩
          · rwa [hst.entries j hj hjv]
          · rwa [hst.entries j hj hjv]
      · exact Or.inr ⟨_, hv, hodd, hbase.trans ht.symm⟩
  refine ⟨fun r hr => hst.used_iff.mpr (Or.inl hr), fun x hno => hst.keeps x ?_ ?_,
    fun x hx => hst.keeps x ?_ ?_, fun r ht => (hown r).mpr (Or.inl ht), fun r hr ht => ?_,
    fun j hj hp => AbsentOrPrivate.store h hc hv hpriv hst hj hp⟩
  · have hne : 0x1000 * (x / 0x1000) ≠ pagedir m c := fun he => hno ((hown _).mpr (Or.inl (Or.inl he)))
    have hal := hw.dir.aligned
    omega
  · have hne : 0x1000 * (x / 0x1000) ≠ t := fun he => hno ((hown _).mpr (Or.inr he))
    have hal := hst.table.aligned
    omega
  · have := hw.dir.below
    omega
  · have := hst.table.below
    omega
  · rcases (hown r).mp ht with ht | rfl
    · exact ht
    · rcases hst.pages with ⟨hodd', ht, -⟩ | ⟨-, -, hfree, -⟩
      · exact Or.inr ⟨_, hv, hodd', ht⟩
      · rw [Nat.mul_div_cancel_left _ (by decide)] at hfree
        exact absurd hr hfree

/-! ## One page -/

theorem GetsFrames.nil {R : Nat → Prop} (hR : ∀ v, ¬ R v) (f : Nat → Nat) :
    GetsFrames L cs c R f m s m s := by
  refine ⟨rfl, fun v hv => absurd hv (hR v), fun v _ hv => absurd hv (hR v),
    fun v _ hv => absurd hv (hR v), fun v _ hv => absurd hv (hR v), fun _ _ _ => rfl,
    fun _ _ _ => rfl, fun r => ⟨Or.inl, ?_⟩, fun _ _ _ => SameWalks.refl m _⟩
  rintro (hu | ⟨v, hv, -⟩ | ⟨j, -, heven, hodd, -⟩)
  · exact hu
  · exact absurd hv (hR v)
  · omega

/-- One round of the loop. -/
theorem ContextsApart.allocPage (h : ContextsApart L m s cs) (hc : c ∈ cs) (hi : i < 2 ^ 32)
    (hpriv : AbsentOrPrivate m cs c (i / 0x1000 / 1024)) {phys : Nat}
    (hframe : userFrame L s = .ok (phys, s₁))
    (hmap : mapPage L m s₁ c i phys 1 = .ok (m', s')) :
    ContextsApart L m' s' cs ∧ WritesTables L cs c m s m' s' ∧
    ∃ q, GetsFrames L cs c (fun v => v = i / 0x1000) (fun _ => q) m s m' s' := by
  obtain ⟨q, ⟨⟨hhigh, hlt⟩, hfree, -⟩, rfl, rfl⟩ := userFrame_ok hframe
  have hv : i / 0x1000 / 1024 < 1024 := by omega
  have hflags : mapFlags 1 = 7 := rfl
  have h₁ : ContextsApart L m (use s (0x1000 * q)) cs := h.mono (fun r hu => use_page.mpr (Or.inr hu))
  have hw := h₁.walkable c hc
  obtain ⟨-, -, ⟨t, hst⟩, hw', hpte⟩ := mapPage_walk hw hi (by omega) hmap
  rw [hflags] at hst hpte
  have hprivate := AbsentOrPrivate.store h₁ hc hv hpriv hst hv hpriv
  obtain ⟨hodd, hbase⟩ := hst.word (by decide) (by decide)
  have htables := h₁.writesTables hc hv hpriv hst
  have hmono : ∀ r, s.Used r → (use s (0x1000 * q)).Used r := fun r hu =>
    use_page.mpr (Or.inr hu)
  refine ⟨h₁.store hc hv hpriv hst, ⟨fun r hr => htables.used r (hmono r hr),
      htables.bytes, htables.high, htables.grows, fun r hr => htables.tables r (hmono r hr),
      htables.words⟩, q, hw'.pagedir, fun _ _ => ⟨hhigh, hlt, hfree⟩, fun u u' hu hu' _ => hu.trans hu'.symm,
    fun u hu hR => ?_, fun u _ hR => ?_, fun u hu hR => ?_, fun j hj hodd' => ?_, fun r => ?_,
    fun x hx hne => h₁.sameWalks hc hv hpriv hst hx hne⟩
  · subst hR
    rw [hpte _ hu, Function.update_self]
  · subst hR
    have hword := hprivate
    unfold AbsentOrPrivate at hword
    rw [hw'.pagedir] at hword
    exact (hword.resolve_left (by omega)).1
  · rw [hpte u hu, Function.update_of_ne hR]
  · by_cases hjv : j = i / 0x1000 / 1024
    · rcases hst.pages with ⟨-, -, he, -⟩ | ⟨heven, -⟩
      · rw [hjv, he]
      · rw [hjv] at hodd'
        omega
    · exact hst.entries j hj hjv
  · -- the frame, and the table if it is new
    have hnew : NewTable L m s m' c r ↔
        entry m (pagedir m c) (i / 0x1000 / 1024) % 2 = 0 ∧ r = t / 0x1000 := by
      constructor
      · rintro ⟨j, hj, heven, hodd', he, -⟩
        by_cases hjv : j = i / 0x1000 / 1024
        · subst hjv
          refine ⟨heven, ?_⟩
          rw [← hbase, he, Nat.mul_div_cancel_left _ (by decide)]
        · rw [hst.entries j hj hjv] at hodd'
          omega
      · rintro ⟨heven, rfl⟩
        have hpage := hst.table.page
        refine ⟨_, hv, heven, hodd, by rw [hbase, hpage], by rw [hpage]; exact hst.table, ?_⟩
        rcases hst.pages with ⟨hodd', -⟩ | ⟨-, -, hfree', -⟩
        · omega
        · exact fun hu => hfree' (use_page.mpr (Or.inr hu))
    rw [hst.used_iff, use_page, hnew]
    constructor
    · rintro ((rfl | hu) | htable)
      · exact Or.inr (Or.inl ⟨_, rfl, rfl⟩)
      · exact Or.inl hu
      · exact Or.inr (Or.inr htable)
    · rintro (hu | ⟨u, -, rfl⟩ | htable)
      · exact Or.inl (Or.inr hu)
      · exact Or.inl (Or.inl rfl)
      · exact Or.inr htable

/-! ## The loop -/

/-- A page, and then others. -/
theorem GetsFrames.trans {R R' : Nat → Prop} [DecidablePred R] {f f' : Nat → Nat}
    (a : GetsFrames L cs c R f m s m₁ s₁) (a' : GetsFrames L cs c R' f' m₁ s₁ m' s')
    (hw : Walkable L m' s' c (pagedir m' c)) (hR : ∀ v, R v → ¬ R' v) :
    GetsFrames L cs c (fun v => R v ∨ R' v) (fun v => if R v then f v else f' v) m s m' s' := by
  have hfst : ∀ v, R v → (if R v then f v else f' v) = f v := fun v hv => if_pos hv
  have hsnd : ∀ v, R' v → (if R v then f v else f' v) = f' v :=
    fun v hv => if_neg (fun h => hR v h hv)
  have hmono : ∀ r, s.Used r → s₁.Used r := fun r hu => (a.used r).mpr (Or.inl hu)
  have hdiff : ∀ v w, R v → R' w → f v ≠ f' w := fun v w hv hw he =>
    (a'.frame w hw).2.2 (he ▸ (a.used (f v)).mpr (Or.inr (Or.inl ⟨v, hv, rfl⟩)))
  have hdir := a'.dir.trans a.dir
  refine ⟨hdir, ?_, ?_, ?_, ?_, ?_, fun j hj hodd => ?_, fun r => ?_, fun x hx hne => ?_⟩
  · rintro v (hv | hv)
    · rw [hfst v hv]
      exact a.frame v hv
    · obtain ⟨hhigh, hlt, hfree⟩ := a'.frame v hv
      rw [hsnd v hv]
      exact ⟨hhigh, hlt, fun hu => hfree (hmono _ hu)⟩
  · rintro v w (hv | hv) (hw | hw) he
    · rw [hfst v hv, hfst w hw] at he
      exact a.inj v w hv hw he
    · rw [hfst v hv, hsnd w hw] at he
      exact absurd he (hdiff v w hv hw)
    · rw [hsnd v hv, hfst w hw] at he
      exact absurd he.symm (hdiff w v hw hv)
    · rw [hsnd v hv, hsnd w hw] at he
      exact a'.inj v w hv hw he
  · rintro v hlt (hv | hv)
    · rw [← a.dir, a'.kept v hlt (hR v hv), a.dir, a.mapped v hlt hv, hfst v hv]
    · rw [← a.dir, a'.mapped v hlt hv, hsnd v hv]
  · rintro v hlt (hv | hv)
    · have hflags := a.flags v hlt hv
      have hword := a'.words (v / 1024) (by omega)
      rw [a.dir] at hword
      rw [hword (by omega)]
      exact hflags
    · rw [← a.dir]
      exact a'.flags v hlt hv
  · intro v hlt hv
    rw [not_or] at hv
    rw [← a.dir, a'.kept v hlt hv.2, a.dir, a.kept v hlt hv.1]
  · have hword := a'.words j hj
    rw [a.dir, a.words j hj hodd] at hword
    exact hword hodd
  · constructor
    · intro hu
      rcases (a'.used r).mp hu with hu | ⟨v, hv, rfl⟩ | ⟨j, hj, heven, hodd, hbase, hp, hfree⟩
      · rcases (a.used r).mp hu with hu | ⟨v, hv, rfl⟩ | ⟨j, hj, heven, hodd, hbase, hp, hfree⟩
        · exact Or.inl hu
        · exact Or.inr (Or.inl ⟨v, Or.inl hv, hfst v hv⟩)
        · -- a table of the first page is still there
          have hword := a'.words j hj
          rw [a.dir] at hword
          refine Or.inr (Or.inr ⟨j, hj, heven, ?_, ?_, hp, hfree⟩)
          · rw [hword hodd]
            exact hodd
          · rw [hword hodd]
            exact hbase
      · exact Or.inr (Or.inl ⟨v, Or.inr hv, hsnd v hv⟩)
      · rw [a.dir] at heven hodd hbase
        refine Or.inr (Or.inr ⟨j, hj, ?_, hodd, hbase, hp, fun hu => hfree (hmono r hu)⟩)
        by_contra hodd'
        rw [a.words j hj (by omega)] at heven
        exact hodd' heven
    · rintro (hu | ⟨v, hv | hv, rfl⟩ | ⟨j, hj, -, hodd, hbase, -⟩)
      · exact (a'.used r).mpr (Or.inl (hmono r hu))
      · rw [hfst v hv]
        exact (a'.used _).mpr (Or.inl ((a.used _).mpr (Or.inr (Or.inl ⟨v, hv, rfl⟩))))
      · rw [hsnd v hv]
        exact (a'.used _).mpr (Or.inr (Or.inl ⟨v, hv, rfl⟩))
      · -- every table of the context is in use
        rw [← hdir] at hodd hbase
        have hu := (hw.tables j hj hodd).2.1
        rw [hbase, Nat.mul_div_cancel_left _ (by decide)] at hu
        exact hu
  · have h₁ := a.others x hx hne
    have h₂ := a'.others x hx hne
    refine ⟨h₂.dir.trans h₁.dir, fun j hj => ?_, fun v hv => ?_⟩
    · rw [← h₁.dir, h₂.words j hj, h₁.dir, h₁.words j hj]
    · rw [← h₁.dir, h₂.ptes v hv, h₁.dir, h₁.ptes v hv]

theorem ContextsApart.allocLoop (h : ContextsApart L m s cs) (hc : c ∈ cs) (hi : i < 2 ^ 32)
    (hend : endAddr ≤ 0xFFFFF000)
    (hpriv : ∀ v, InRange i endAddr v → AbsentOrPrivate m cs c (v / 1024))
    (hok : vmmAllocLoop L c endAddr fuel i m s = .ok (m', s')) :
    ContextsApart L m' s' cs ∧ WritesTables L cs c m s m' s' ∧
      ∃ f, GetsFrames L cs c (InRange i endAddr) f m s m' s' := by
  induction fuel generalizing i m s with
  | zero => cases hok
  | succ fuel ih =>
      rw [vmmAllocLoop] at hok
      by_cases hlt : i < endAddr
      case neg =>
          rw [if_neg hlt] at hok
          cases hok
          exact ⟨h, WritesTables.refl, fun _ => 0,
            GetsFrames.nil (fun v hv => by unfold InRange at hv; omega) _⟩
      rw [if_pos hlt] at hok
      obtain ⟨⟨phys, s₁⟩, hframe, hok⟩ := bind_eq_ok.mp hok
      obtain ⟨⟨m₁, s₂⟩, hmap, hrest⟩ := bind_eq_ok.mp hok
      have hal : i % 0x1000 = 0 := mapPage_aligned hmap
      have hpage : InRange i endAddr (i / 0x1000) := by
        constructor <;> omega
      obtain ⟨h₁, htables, q, a⟩ := h.allocPage hc hi (hpriv _ hpage) hframe hmap
      have hmod : (i + PAGESIZE) % 2 ^ 32 = i + 0x1000 := Nat.mod_eq_of_lt (by
        simp only [PAGESIZE]
        omega)
      rw [hmod] at hrest
      have hpriv₁ : ∀ v, InRange (i + 0x1000) endAddr v → AbsentOrPrivate m₁ cs c (v / 1024) := by
        intro v hv
        have hlow := hv.1
        have hhigh := hv.2
        refine htables.words _ (by omega) (hpriv v ?_)
        constructor <;> omega
      obtain ⟨h₂, htables', f, a'⟩ := ih h₁ (by omega) hpriv₁ hrest
      have hsplit : (fun v => v = i / 0x1000 ∨ InRange (i + 0x1000) endAddr v) = InRange i endAddr := by
        funext v
        unfold InRange
        refine propext ⟨fun hv => ?_, fun hv => ?_⟩ <;> omega
      have both := a.trans a' (h₂.walkable c hc) (fun v hv hv' => by unfold InRange at hv'; omega)
      rw [hsplit] at both
      exact ⟨h₂, htables.trans htables', _, both⟩

/-- **`vmm_alloc` keeps the contexts, and gives the pages of its range frames.** -/
theorem ContextsApart.alloc {vaddr sz : Nat} (h : ContextsApart L m s cs) (hc : c ∈ cs)
    (hend : vaddr + sz ≤ 0xFFFFF000)
    (hpriv : ∀ v, InRange vaddr (vaddr + sz) v → AbsentOrPrivate m cs c (v / 1024))
    (hok : vmmAlloc L m s c vaddr sz = .ok (m', s')) :
    ContextsApart L m' s' cs ∧ WritesTables L cs c m s m' s' ∧
      ∃ f, GetsFrames L cs c (InRange vaddr (vaddr + sz)) f m s m' s' := by
  unfold vmmAlloc at hok
  rw [Nat.mod_eq_of_lt (by omega)] at hok
  exact h.allocLoop hc (by omega) hend hpriv hok

/-! ## The contexts the kernel makes -/

section
variable {K : Nat}

theorem KernelSpace.sameWalks (h : KernelSpace L m₁ s₁ K)
    (hs : Spaces L (entry m₁ (pagedir m₁ K)) m₁ s₁ m s cs) : SameWalks m₁ m K :=
  ⟨(h.same hs).dir, (h.same hs).words, (h.same hs).ptes⟩

/-- A table of a context is in use since the boot, as the kernel's under the same word, or has
come into use later. -/
theorem KernelSpace.table_cases (h : KernelSpace L m₁ s₁ K) (hi : i < 1024)
    (hodd : entry m (pagedir m c) i % 2 = 1) :
    (entry m (pagedir m c) i = entry m₁ (pagedir m₁ K) i ∧
      s₁.Used (frameBase (entry m (pagedir m c) i) / 0x1000)) ∨
    pageAt (entry m₁ (pagedir m₁ K)) m c (.table i) = some (frameBase (entry m (pagedir m c) i)) := by
  by_cases he : entry m (pagedir m c) i = entry m₁ (pagedir m₁ K) i
  · left
    refine ⟨he, ?_⟩
    rcases h.words i hi with h0 | ⟨t, ht, hword, hu⟩
    · omega
    · rw [he, hword, frameBase_add ht.aligned (by decide)]
      exact hu
  · exact Or.inr (pageAt_table.mpr ⟨hi, he, rfl⟩)

/-- **In every run behind the boot** the kernel context and the contexts alive are the contexts
of the state. -/
theorem Spaces.contexts_kernel (h : KernelSpace L m₁ s₁ K)
    (hK : Walkable L m₁ s₁ K (pagedir m₁ K))
    (hs : Spaces L (entry m₁ (pagedir m₁ K)) m₁ s₁ m s cs) : ContextsApart L m s (K :: cs) := by
  have hsame := h.sameWalks hs
  have hinj : ∀ i < 1024, ∀ j < 1024, entry m₁ (pagedir m₁ K) i ≠ 0 →
      entry m₁ (pagedir m₁ K) i = entry m₁ (pagedir m₁ K) j → i = j := by
    intro i hi j hj h0 he
    have hodd : entry m₁ (pagedir m₁ K) i % 2 = 1 := by
      rcases h.words i hi with hz | ⟨t, ht, hword, -⟩
      · exact absurd hz h0
      · have := ht.aligned
        omega
    exact hK.inj i hi j hj hodd (he ▸ hodd) (by rw [he])
  refine ⟨fun c hmem => ?_, fun c hmem c' hmem' hne => ?_⟩
  · rcases List.mem_cons.mp hmem with rfl | hc
    · exact hsame.walkable hK (fun p hp hu => (hs.used p hp).mpr (Or.inl hu))
    · exact hs.walkable hc hinj
  · rcases List.mem_cons.mp hmem with rfl | hc <;> rcases List.mem_cons.mp hmem' with rfl | hc'
    · exact absurd rfl hne
    · -- the kernel's page and directory were in use at the boot, the other's were not
      rw [hsame.dir]
      have hfresh := hs.fresh c' hc'
      refine ⟨fun he => ?_, fun he => ?_, fun i hi hodd => ?_⟩
      · exact hfresh .dir _ rfl (he ▸ h.dirUsed)
      · exact hfresh .dir _ rfl (he ▸ h.contextUsed)
      · rcases h.table_cases hi hodd with ⟨he, -⟩ | hslot
        · rw [he] at hodd ⊢
          exact (hK.tables i hi hodd).2.2
        · refine ⟨fun he => ?_, fun he => ?_⟩
          · exact hfresh _ _ hslot (he ▸ h.contextUsed)
          · exact hfresh _ _ hslot (he ▸ h.dirUsed)
    · rw [hsame.dir]
      have hfresh := hs.fresh c hc
      refine ⟨fun he => ?_, fun he => ?_, fun i hi hodd => ?_⟩
      · exact hfresh .dir _ rfl (he ▸ h.dirUsed)
      · exact hfresh .context _ rfl (he ▸ h.dirUsed)
      · rw [hsame.words i hi] at hodd ⊢
        obtain ⟨-, hu, -⟩ := hK.tables i hi hodd
        exact ⟨fun he => hfresh .context _ rfl (he ▸ hu), fun he => hfresh .dir _ rfl (he ▸ hu)⟩
    · refine ⟨fun he => ?_, fun he => ?_, fun i hi hodd => ?_⟩
      · exact hne (hs.apart c hc c' hc' .dir .dir _ rfl (congrArg some he.symm)).1
      · exact hne (hs.apart c hc c' hc' .context .dir _ rfl (congrArg some he.symm)).1
      · rcases h.table_cases hi hodd with ⟨-, hu⟩ | hslot
        · exact ⟨fun he => hs.fresh c hc .context c rfl (he ▸ hu),
            fun he => hs.fresh c hc .dir _ rfl (he ▸ hu)⟩
        · refine ⟨fun he => ?_, fun he => ?_⟩
          · exact hne (hs.apart c hc c' hc' .context _ _ rfl (he ▸ hslot)).1
          · exact hne (hs.apart c hc c' hc' .dir _ _ rfl (he ▸ hslot)).1

/-- Where the kernel has no table, a context has none or one of its own. -/
theorem Spaces.absentOrPrivate (h : KernelSpace L m₁ s₁ K)
    (hs : Spaces L (entry m₁ (pagedir m₁ K)) m₁ s₁ m s cs) (hc : c ∈ cs) (hi : i < 1024)
    (h0 : entry m₁ (pagedir m₁ K) i = 0) : AbsentOrPrivate m (K :: cs) c i := by
  have hsame := h.sameWalks hs
  rcases (hs.contexts c hc).words i hi with he | ⟨-, t, ht, he⟩
  · left
    rw [he, h0]
  · right
    have hal := ht.aligned
    have hslot := pageAt_of_word hi h0 ht he
    refine ⟨by omega, fun x hx hne j hj hodd hbase => ?_⟩
    rw [he, frameBase_add hal (by decide)] at hbase
    rcases List.mem_cons.mp hx with rfl | hx
    · rw [hsame.dir, hsame.words j hj] at hodd hbase
      rcases h.words j hj with hz | ⟨t', ht', hword, hu⟩
      · omega
      · rw [hword, frameBase_add ht'.aligned (by decide)] at hbase
        exact hs.fresh c hc _ _ hslot (hbase ▸ hu)
    · rcases h.table_cases hj hodd with ⟨-, hu⟩ | hslot'
      · exact hs.fresh c hc _ _ hslot (hbase ▸ hu)
      · rw [hbase] at hslot'
        exact hne (hs.apart x hx c hc _ _ _ hslot' hslot).1

theorem initVmm_walkable {m₀ : Mem} {s₀ : Pmm} (hboot : initVmm L m₀ s₀ = .ok (K, m, s)) :
    Walkable L m s K (pagedir m K) := by
  obtain ⟨-, R, b⟩ := initVmm_ok hboot
  exact b.spaces.walkable (List.mem_singleton_self K) (fun _ _ _ _ h0 => absurd rfl h0)

end

/-! ## The law -/

/-- **`vmm_alloc` maps its range and nothing else.** Each page of the range is at a frame of its
own, behind the heap, that was free, and programs may write to it; the other pages of all
contexts are where they were; and the bitmap has changed for the frames and for new tables. It
does not matter what the pages were mapped to before. -/
theorem vmm_alloc_exact {vaddr sz : Nat} (h : ContextsApart L m s cs) (hc : c ∈ cs)
    (hend : vaddr + sz ≤ 0xFFFFF000)
    (hpriv : ∀ v, InRange vaddr (vaddr + sz) v → AbsentOrPrivate m cs c (v / 1024))
    (hok : vmmAlloc L m s c vaddr sz = .ok (m', s')) :
    ∃ f : Nat → Nat,
      (∀ v, InRange vaddr (vaddr + sz) v →
        L.heapEnd ≤ 0x1000 * f v ∧ ¬ s.Used (f v) ∧ s'.Used (f v) ∧
        ∀ va, va / 0x1000 = v →
          translate m' (pagedir m' c) va = some (0x1000 * f v + va % 0x1000) ∧
          UserWritable m' (pagedir m' c) va) ∧
      (∀ v w, InRange vaddr (vaddr + sz) v → InRange vaddr (vaddr + sz) w → f v = f w → v = w) ∧
      (∀ va < 2 ^ 32, ¬ InRange vaddr (vaddr + sz) (va / 0x1000) →
        translate m' (pagedir m' c) va = translate m (pagedir m c) va) ∧
      (∀ c' ∈ cs, c' ≠ c → ∀ va < 2 ^ 32,
        translate m' (pagedir m' c') va = translate m (pagedir m c') va) ∧
      ∀ r, s'.Used r ↔ s.Used r ∨ (∃ v, InRange vaddr (vaddr + sz) v ∧ f v = r) ∨
        NewTable L m s m' c r := by
  obtain ⟨-, -, f, a⟩ := h.alloc hc hend hpriv hok
  rw [a.dir]
  refine ⟨f, fun v hv => ?_, a.inj, fun va hva hout => ?_, fun c' hc' hne va hva => ?_, a.used⟩
  · obtain ⟨hhigh, -, hfree⟩ := a.frame v hv
    have hlt : v < 2 ^ 20 := by
      have := hv.2
      omega
    have hword := a.mapped v hlt hv
    refine ⟨hhigh, hfree, (a.used _).mpr (Or.inr (Or.inl ⟨v, hv, rfl⟩)), ?_⟩
    rintro va rfl
    constructor
    · exact translate_of_pte hword (Nat.mul_mod_right _ _) (by decide) (by decide)
    · constructor
      · exact a.flags _ hlt hv
      · rw [hword]
        omega
  · exact translate_congr (a.kept _ (by omega) hout)
  · have hsame := a.others c' hc' hne
    rw [hsame.dir]
    exact translate_congr (hsame.ptes _ (by omega))

/-- A page at the start of the user space, for the first context behind a boot. -/
theorem vmm_alloc_exact_first : ∃ K c : Nat, ∃ m : Mem, ∃ s : Pmm, ∃ m' s',
    ContextsApart Layout.least m s [K, c] ∧
    vmmAlloc Layout.least m s c 0x40000000 0x1000 = .ok (m', s') ∧
    ∃ q, Layout.least.heapEnd ≤ 0x1000 * q ∧ ¬ s.Used q ∧ s'.Used q ∧
      translate m' (pagedir m' c) 0x40000FFF = some (0x1000 * q + 0xFFF) := by
  have hend : Layout.least.heapEnd = 0x1701000 := rfl
  obtain ⟨K, m₁, s₁, c, st₁, st, f₀, hboot, hrun, hlive, -, -, -, hcount, hleft⟩ :=
    first_run emptyPmm 0 (by decide) (by rw [poolCount_emptyPmm]; decide) (Nat.zero_le _)
  obtain ⟨h, -⟩ := initVmm_ok hboot
  have hs := (hrun (fun _ _ => True) (fun _ _ _ _ => trivial)).spaces h
  rw [hlive] at hs
  have hctx := hs.contexts_kernel h (initVmm_walkable hboot)
  have hframes : 1 ≤ framesLeft Layout.least st.pmm := by
    have : 1 ≤ framesLeft Layout.least emptyPmm :=
      le_framesLeft (fun j _ => ⟨by omega, used_emptyPmm⟩)
    omega
  obtain ⟨m', s', hok, -⟩ := vmmAlloc_returns st.mem st.pmm c 0x40000000 0x1000 1 (by decide)
    (by decide) le_rfl hframes (by omega)
  -- the kernel has no table there
  have hpriv : ∀ v, InRange 0x40000000 (0x40000000 + 0x1000) v →
      AbsentOrPrivate st.mem [K, c] c (v / 1024) := by
    intro v hv
    have hlow := hv.1
    have hhigh := hv.2
    refine hs.absentOrPrivate h (List.mem_singleton_self c) (by omega) ?_
    by_contra hne
    have := h.low _ (by omega) hne
    omega
  obtain ⟨f, hframe, -⟩ := vmm_alloc_exact hctx (List.mem_cons_of_mem K (List.mem_singleton_self c))
    (by decide) hpriv hok
  obtain ⟨hhigh, hfree, hused, hpage⟩ := hframe 0x40000 (by constructor <;> decide)
  exact ⟨K, c, st.mem, st.pmm, m', s', hctx, hok, f 0x40000, hhigh, hfree, hused,
    (hpage 0x40000FFF (by decide)).1⟩

end

end DayOS
