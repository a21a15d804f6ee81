import DayOS.Ramdisk

set_option autoImplicit false

/-! # Looking up a file of the ramdisk (`ramdisk.c`)

`RamDiskFileContent` and `GetRamDiskFile` compare the name asked for with the name field of
each listed header by `strcmp`, which stops at a NUL. A name of 100 bytes fills its field, and
what `strcmp` sees then goes on with the bytes of the field `mode`. The two lookups find what
is asked for, for every name, exactly when no entry has such a name without a NUL behind it
(`lookup_names`).
-/

namespace DayOS

open ByteMemory CString

/-! ## The code -/

/-- The loop of both lookups: the first of `k` listed headers, from the `i`-th on, whose name
compares equal decides the result. -/
def lookupLoop (m : Mem) (files : Nat) (name : Nat → UInt8) (found : Nat → Nat) :
    Nat → Nat → Nat
  | 0, _ => 0
  | k + 1, i =>
      let file := load32 m ((files + 4 * i) % 2 ^ 32)
      if strcmp name (bytesAt m file) walkLimit = 0 then found file
      else lookupLoop m files name found k (i + 1)

/-- `RamDiskFileContent`. -/
def ramDiskFileContent (m : Mem) (rd : Ramdisk) (name : Nat → UInt8) : Nat :=
  if rd.files = NULL then 0
  else lookupLoop m rd.files name (fun file => (file + 512) % 2 ^ 32) rd.fileno 0

/-- `GetRamDiskFile`. -/
def getRamDiskFile (m : Mem) (rd : Ramdisk) (name : Nat → UInt8) : Nat :=
  if rd.files = NULL then 0
  else lookupLoop m rd.files name (fun file => file) rd.fileno 0

/-! ## A ramdisk with names -/

/-- The header at `a` has the name `name`, of 1 to 100 bytes. -/
structure HasName (m : Mem) (a : Nat) (name : List UInt8) : Prop where
  field : Field (bytesAt m a) 100 name
  pos : name ≠ []

/-- There is a NUL behind the name, in its field or in the byte that follows the field. -/
def Terminated (m : Mem) (a : Nat) (name : List UInt8) : Prop :=
  name.length < 100 ∨ m (a + 100) = 0

/-- The ramdisk `rd` lists the entries of a well-formed archive. -/
structure Mounted (m : Mem) (rd : Ramdisk) (names : List (List UInt8)) (sizes : List Nat) :
    Prop where
  archive : Archive m rd.firstFile sizes
  names : List.Forall₂ (HasName m) (headers rd.firstFile sizes) names
  first : rd.firstFile ≠ 0
  fits : archiveEnd rd.firstFile sizes ≤ 2 ^ 32
  fileno : rd.fileno = sizes.length
  files : rd.files ≠ 0
  listFits : rd.files + 4 * sizes.length ≤ 2 ^ 32
  listed : ∀ i x, (headers rd.firstFile sizes)[i]? = some x → load32 m (rd.files + 4 * i) = x

/-- The first header, in archive order, that has the name `s`. -/
def firstNamed (headers : List Nat) (names : List (List UInt8)) (s : List UInt8) : Option Nat :=
  ((headers.zip names).find? (fun e => e.2 = s)).map Prod.fst

/-- Both lookups answer the question for `s`: they find the first entry of that name, and
nothing exactly when there is none. -/
structure Answers (m : Mem) (rd : Ramdisk) (names : List (List UInt8)) (sizes : List Nat)
    (name : Nat → UInt8) (s : List UInt8) : Prop where
  content : ramDiskFileContent m rd name
    = (firstNamed (headers rd.firstFile sizes) names s).elim 0 (fun file => file + 512)
  header : getRamDiskFile m rd name
    = (firstNamed (headers rd.firstFile sizes) names s).getD 0
  absent : ramDiskFileContent m rd name = 0 ↔ s ∉ names

section
variable {m m' : Mem} {rd : Ramdisk} {a : Nat} {s t : List UInt8} {name : Nat → UInt8}
  {names : List (List UInt8)} {sizes hs : List Nat}

theorem HasName.congr (h : HasName m a s) (hm : ∀ x, a ≤ x → x < a + 512 → m' x = m x) :
    HasName m' a s := by
  have hle := h.field.le
  refine ⟨⟨?_, hle, fun hlt => ?_⟩, h.pos⟩
  · refine h.field.starts.congr (fun i hi => hm (a + i) (by omega) (by omega))
  · rw [← h.field.ends hlt]
    exact hm (a + s.length) (by omega) (by omega)

/-! ## What the loop finds -/

/-- The loop runs over the listed headers. -/
theorem lookupLoop_eq {files : Nat} (found : Nat → Nat) {i : Nat}
    (hlist : ∀ k x, hs[k]? = some x → load32 m ((files + 4 * (i + k)) % 2 ^ 32) = x) :
    lookupLoop m files name found hs.length i
      = ((hs.find? (fun x => strcmp name (bytesAt m x) walkLimit = 0)).map found).getD 0 := by
  generalize hl : walkLimit = fuel
  induction hs generalizing i with
  | nil => rfl
  | cons x hs ih =>
      have hx : load32 m ((files + 4 * i) % 2 ^ 32) = x := hlist 0 x rfl
      have hrest := ih (i := i + 1) (fun k y hk => by
        rw [Nat.add_assoc, Nat.add_comm 1]
        exact hlist (k + 1) y (by simpa using hk))
      simp only [List.length_cons, lookupLoop, hl, hx, List.find?_cons]
      by_cases hc : strcmp name (bytesAt m x) fuel = 0
      · simp [hc]
      · simp only [hc, if_false, decide_false]
        exact hrest

/-- A table that ends inside the address space lists its headers without wrapping around. -/
theorem Mounted.entry (h : Mounted m rd names sizes) (k x : Nat)
    (hk : (headers rd.firstFile sizes)[k]? = some x) :
    load32 m ((rd.files + 4 * (0 + k)) % 2 ^ 32) = x := by
  have hlt : k < sizes.length := by
    rw [← headers_length rd.firstFile sizes]
    exact (List.getElem?_eq_some_iff.mp hk).1
  have hfit := h.listFits
  rw [Nat.zero_add, Nat.mod_eq_of_lt (by omega)]
  exact h.listed k x hk

/-- The header a lookup of `s` stops at: the first one whose bytes spell `s`. -/
def seenAs (m : Mem) (hs : List Nat) (s : List UInt8) : Option Nat :=
  hs.find? (fun x => Spells (bytesAt m x) s)

/-- The comparison of the loop sees what a header spells. -/
theorem seenAs_eq (hname : Spells name s) (hlen : s.length < walkLimit) :
    hs.find? (fun x => strcmp name (bytesAt m x) walkLimit = 0) = seenAs m hs s := by
  unfold seenAs
  refine List.find?_congr (fun x _ => ?_)
  rw [decide_eq_decide]
  exact strcmp_eq_zero_iff hname hlen

theorem Mounted.getRamDiskFile_eq (h : Mounted m rd names sizes) (hname : Spells name s)
    (hlen : s.length < walkLimit) :
    getRamDiskFile m rd name = (seenAs m (headers rd.firstFile sizes) s).getD 0 := by
  have hloop : lookupLoop m rd.files name (fun file => file) (headers rd.firstFile sizes).length 0
      = _ := lookupLoop_eq _ h.entry
  rw [headers_length, ← h.fileno] at hloop
  rw [getRamDiskFile, if_neg h.files, hloop, seenAs_eq hname hlen, Option.map_id']

theorem Mounted.ramDiskFileContent_eq (h : Mounted m rd names sizes) (hname : Spells name s)
    (hlen : s.length < walkLimit) : ramDiskFileContent m rd name
      = (seenAs m (headers rd.firstFile sizes) s).elim 0 (fun file => file + 512) := by
  have hloop : lookupLoop m rd.files name (fun file => (file + 512) % 2 ^ 32)
      (headers rd.firstFile sizes).length 0 = _ := lookupLoop_eq _ h.entry
  rw [headers_length, ← h.fileno] at hloop
  rw [ramDiskFileContent, if_neg h.files, hloop, seenAs_eq hname hlen]
  cases hseen : seenAs m (headers rd.firstFile sizes) s with
  | none => rfl
  | some file =>
      have hmem : file ∈ headers rd.firstFile sizes := List.mem_of_find?_eq_some hseen
      have hfits := h.fits
      obtain ⟨-, hend⟩ := headers_bounds hmem
      simp only [Option.map_some, Option.getD_some, Option.elim_some]
      exact Nat.mod_eq_of_lt (by omega)

/-! ## Names and what the headers spell -/

/-- Where every header spells `s` exactly if that is its name, the first header seen as `s` is
the first one named so. -/
theorem seenAs_eq_firstNamed
    (h : List.Forall₂ (fun x n => Spells (bytesAt m x) s ↔ n = s) hs names) :
    seenAs m hs s = firstNamed hs names s := by
  unfold seenAs firstNamed
  induction h with
  | nil => rfl
  | @cons x n hs names hx _ ih =>
      rw [List.zip_cons_cons, List.find?_cons, List.find?_cons]
      by_cases hn : n = s
      · simp [hn, hx.mpr hn]
      · have hx' : ¬ Spells (bytesAt m x) s := fun hspell => hn (hx.mp hspell)
        simp only [hn, hx', decide_false]
        exact ih

theorem firstNamed_eq_none_iff (hlen : hs.length = names.length) :
    firstNamed hs names s = none ↔ s ∉ names := by
  unfold firstNamed
  rw [Option.map_eq_none_iff, List.find?_eq_none]
  constructor
  · intro h hmem
    obtain ⟨i, hi, rfl⟩ := List.getElem_of_mem hmem
    refine h (hs[i], names[i]) ?_ (by simp)
    exact List.mem_iff_getElem.mpr ⟨i, by simp [hlen, hi], by simp⟩
  · intro h e he
    have hmem : e.2 ∈ names := (List.of_mem_zip (show (e.1, e.2) ∈ hs.zip names from he)).2
    simp only [decide_eq_true_eq]
    exact fun hes => h (hes ▸ hmem)

/-- The lookups answer for `s` when the headers spell `s` exactly if they are named so. -/
theorem Mounted.answers (h : Mounted m rd names sizes) (hname : Spells name s)
    (hlen : s.length < walkLimit) (hspell : List.Forall₂
      (fun x n => Spells (bytesAt m x) s ↔ n = s) (headers rd.firstFile sizes) names) :
    Answers m rd names sizes name s := by
  have hseen := seenAs_eq_firstNamed hspell
  refine ⟨?_, ?_, ?_⟩
  · rw [h.ramDiskFileContent_eq hname hlen, hseen]
  · rw [h.getRamDiskFile_eq hname hlen, hseen]
  · rw [h.ramDiskFileContent_eq hname hlen, hseen,
      ← firstNamed_eq_none_iff h.names.length_eq]
    cases firstNamed (headers rd.firstFile sizes) names s <;> simp

/-- Every header spells some string: the archive ends with a NUL. -/
theorem Archive.spells {x : Nat} (h : Archive m a sizes) (hx : x ∈ headers a sizes) :
    ∃ t, Spells (bytesAt m x) t ∧ x + t.length < archiveEnd a sizes := by
  have hend : m (archiveEnd a sizes - 512) = 0 := by
    clear hx
    induction sizes generalizing a with
    | nil =>
        rw [archiveEnd, Nat.add_sub_cancel]
        exact h
    | cons size sizes ih => exact ih h.2.2
  obtain ⟨-, hle⟩ := headers_bounds hx
  obtain ⟨t, ht, hlen⟩ := exists_spells (f := bytesAt m x) (k := archiveEnd a sizes - 512 - x) (by
    simp only [bytesAt]
    rwa [show x + (archiveEnd a sizes - 512 - x) = archiveEnd a sizes - 512 by omega])
  exact ⟨t, ht, by omega⟩

theorem Mounted.length_eq (h : Mounted m rd names sizes) : names.length = sizes.length := by
  rw [← h.names.length_eq, headers_length]

theorem Mounted.hasName (h : Mounted m rd names sizes) {i : Nat} (hi : i < names.length)
    (hi' : i < (headers rd.firstFile sizes).length) :
    HasName m (headers rd.firstFile sizes)[i] names[i] :=
  (List.forall₂_iff_get.mp h.names).2 i hi' hi

/-- Names have at most 100 bytes. -/
theorem Mounted.length_le (h : Mounted m rd names sizes) (hs : s ∈ names) : s.length ≤ 100 := by
  obtain ⟨i, hi, rfl⟩ := List.getElem_of_mem hs
  exact (h.hasName hi (by rw [h.names.length_eq]; exact hi)).field.le

/-- With a NUL behind its name, a header spells its name and nothing else. -/
theorem HasName.spells_iff {x : Nat} {n : List UInt8} (h : HasName m x n) (hend : Terminated m x n) :
    Spells (bytesAt m x) s ↔ n = s := by
  have hn : Spells (bytesAt m x) n := h.field.spells hend
  constructor
  · exact fun hs => hn.unique hs
  · rintro rfl
    exact hn

/-- A full name with no NUL behind it is seen as a longer one. -/
theorem HasName.lt_of_spells {x : Nat} {n : List UInt8} (h : HasName m x n)
    (hend : ¬ Terminated m x n) (hs : Spells (bytesAt m x) s) : 100 < s.length := by
  obtain ⟨hlen, hmode⟩ := not_or.mp hend
  exact h.field.lt_of_spells (le_antisymm h.field.le (not_lt.mp hlen)) hmode hs

/-- `InitRamdisk` mounts an archive. -/
theorem initRamdisk_mounted (A : Allocator) {m₁ : Mem} {live : List Block} {files : Nat}
    (h : A.Holds m live) (harchive : Archive m a sizes)
    (hnames : List.Forall₂ (HasName m) (headers a sizes) names) (hne : sizes ≠ [])
    (haddr : a ≠ 0) (hend : archiveEnd a sizes ≤ 2 ^ 32)
    (hoff : ∀ x, a ≤ x → x < archiveEnd a sizes → ¬ A.arena x)
    (hk : A.kmalloc m (4 * sizes.length) = some (files, m₁)) :
    ∃ m', initRamdisk A.toHeap m a = .ok (m', ⟨files, a, sizes.length⟩) ∧
      Mounted m' ⟨files, a, sizes.length⟩ names sizes ∧
      ∀ x, a ≤ x → x < archiveEnd a sizes → m' x = m x := by
  obtain ⟨m', hinit, hlist, hsame, hfiles, hfits⟩ :=
    initRamdisk_archive A h harchive hne haddr hend hoff hk
  refine ⟨m', hinit, ⟨harchive.congr hsame, ?_, haddr, hend, rfl, hfiles, hfits, hlist⟩, hsame⟩
  rw [List.forall₂_iff_zip] at hnames ⊢
  refine ⟨hnames.1, fun {x n} hxn => (hnames.2 hxn).congr (fun y hy hy' => ?_)⟩
  have hx : a ≤ x ∧ x + 1024 ≤ archiveEnd a sizes := headers_bounds (List.of_mem_zip hxn).1
  exact hsame y (by omega) (by omega)

/-- **Ramdisk lookup.** Whatever name is asked for, both lookups find the first entry of that
name or say that there is none, if and only if every entry has a NUL behind its name. Names
of less than 100 bytes are answered for in any case. -/
theorem lookup_names (h : Mounted m rd names sizes) :
    ((∀ name s, Spells name s → s.length < 2 ^ 32 → Answers m rd names sizes name s) ↔
      List.Forall₂ (Terminated m) (headers rd.firstFile sizes) names) ∧
    ∀ name s, Spells name s → s.length < 100 → Answers m rd names sizes name s := by
  have hpairs := List.forall₂_iff_zip.mp h.names
  refine ⟨⟨fun hall => ?_, fun hend name s hname hlen => ?_⟩, fun name s hname hlen => ?_⟩
  · refine List.forall₂_iff_zip.mpr ⟨hpairs.1, fun {x n} hxn => ?_⟩
    have hx : x ∈ headers rd.firstFile sizes := (List.of_mem_zip hxn).1
    by_contra hend
    -- the string this header is seen as is no name, but is found
    obtain ⟨t, ht, htlen⟩ := h.archive.spells hx
    have hlong := (hpairs.2 hxn).lt_of_spells hend ht
    have hfits := h.fits
    have hlen : t.length < 2 ^ 32 := by omega
    have habsent : t ∉ names := fun hmem => absurd (h.length_le hmem) (not_le.mpr hlong)
    have hzero := (hall _ t ht hlen).absent.mpr habsent
    rw [h.ramDiskFileContent_eq ht (by simpa [walkLimit] using hlen)] at hzero
    cases hseen : seenAs m (headers rd.firstFile sizes) t with
    | none =>
        refine List.find?_eq_none.mp hseen x hx ?_
        simpa using ht
    | some file =>
        rw [hseen] at hzero
        exact absurd hzero (Nat.succ_ne_zero _)
  · refine h.answers hname (by simpa [walkLimit] using hlen) ?_
    refine List.forall₂_iff_zip.mpr ⟨hpairs.1, fun {x n} hxn => ?_⟩
    exact (hpairs.2 hxn).spells_iff ((List.forall₂_iff_zip.mp hend).2 hxn)
  · refine h.answers hname (by simp only [walkLimit]; omega) ?_
    refine List.forall₂_iff_zip.mpr ⟨hpairs.1, fun {x n} hxn => ?_⟩
    exact (hpairs.2 hxn).field.spells_iff hlen

end

/-- A kernel memory with a fresh heap and an archive of one entry, whose name is the character
`c`, of 5 bytes. -/
def oneFile (c : UInt8) : Mem := kinitHeap Layout.least (fun x =>
  if x = 0x2000 then c
  else if x = 0x2086 then 53
  else if 0x207C ≤ x ∧ x < 0x2086 then 48
  else 0)

/-- The kernel's heap and the archive do not meet. -/
theorem archive_off_heap {sizes : List Nat} (hend : archiveEnd 0x2000 sizes ≤ 0x301000) (x : Nat)
    (_ : 0x2000 ≤ x) (hx : x < archiveEnd 0x2000 sizes) : ¬ (firstFit Layout.least).arena x := by
  intro harena
  have hlow : Layout.least.heapStart ≤ x := harena.1
  have hstart : Layout.least.heapStart = 0x301000 := by decide
  omega

/-- Below the heap, the bytes are those given. -/
theorem kinitHeap_low {m : Mem} {x : Nat} (hx : x < 0x301000) :
    kinitHeap Layout.least m x = m x :=
  kinitHeap_of_outside (Or.inl hx)

theorem oneFile_mounted {c : UInt8} (hc : c ≠ 0) : ∃ m',
    initRamdisk (firstFit Layout.least).toHeap (oneFile c) 0x2000
      = .ok (m', ⟨0x301020, 0x2000, 1⟩) ∧
    Mounted m' ⟨0x301020, 0x2000, 1⟩ [[c]] [5] := by
  obtain ⟨m, hk, -⟩ := firstFit_first Layout.least (fun x =>
    if x = 0x2000 then c
    else if x = 0x2086 then 53
    else if 0x207C ≤ x ∧ x < 0x2086 then 48
    else 0) (show 0 < 4 by decide) (by decide)
  have hbyte : ∀ x, x < 0x301000 → oneFile c x = if x = 0x2000 then c
      else if x = 0x2086 then 53 else if 0x207C ≤ x ∧ x < 0x2086 then 48 else 0 := fun x hx =>
    kinitHeap_low hx
  have hfirst : oneFile c 0x2000 = c := by
    rw [hbyte _ (by decide), if_pos rfl]
  have hsize : SizeField (fun j => if j = 10 then 53 else 48) 5 :=
    ⟨by decide, by decide, by decide⟩
  have harchive : Archive (oneFile c) 0x2000 [5] := by
    refine ⟨?_, hsize.congr (fun j hj => ?_), ?_⟩
    · rw [hfirst]
      exact hc
    · show oneFile c (0x2000 + 124 + j) = _
      rw [hbyte _ (by omega), if_neg (by omega)]
      by_cases h10 : j = 10
      · rw [if_pos (by omega), if_pos h10]
      · rw [if_neg (by omega), if_pos (by omega), if_neg h10]
    · show oneFile c (0x2000 + 1024) = 0
      rw [hbyte _ (by decide), if_neg (by decide), if_neg (by decide), if_neg (by decide)]
  have hname : HasName (oneFile c) 0x2000 [c] := by
    refine ⟨⟨⟨hfirst, hc, trivial⟩, by simp, fun _ => ?_⟩, by simp⟩
    show oneFile c (0x2000 + 1) = 0
    rw [hbyte _ (by decide), if_neg (by decide), if_neg (by decide), if_neg (by decide)]
  obtain ⟨m', hinit, hmounted, -⟩ := initRamdisk_mounted (firstFit Layout.least)
    (firstFit_init Layout.least _) harchive (List.Forall₂.cons hname .nil) (by simp) (by decide)
    (by decide) (archive_off_heap (by decide)) hk
  exact ⟨m', hinit, hmounted⟩

/-- There the file `a` is found. -/
theorem lookup_names_small : ∃ m' rd,
    initRamdisk (firstFit Layout.least).toHeap (oneFile 97) 0x2000 = .ok (m', rd) ∧
    ∀ name, Spells name [97] → ramDiskFileContent m' rd name = 0x2200 := by
  obtain ⟨m', hinit, hmounted⟩ := oneFile_mounted (c := 97) (by decide)
  refine ⟨m', _, hinit, fun name hname => ?_⟩
  have hanswers := (lookup_names hmounted).2 name [97] hname (by decide)
  rw [hanswers.content]
  rfl

/-- A kernel memory with a fresh heap and an archive of one empty file whose name is `a`, 100
times. -/
def fullName : Mem := kinitHeap Layout.least (fun x =>
  if 0x2000 ≤ x ∧ x < 0x2064 then 97
  else if 0x2064 ≤ x ∧ x < 0x206B ∨ 0x207C ≤ x ∧ x < 0x2087 then 48
  else 0)

/-- There the file is not found under its name. -/
theorem lookup_names_fails : ∃ m' rd name,
    initRamdisk (firstFit Layout.least).toHeap fullName 0x2000 = .ok (m', rd) ∧
    Mounted m' rd [List.replicate 100 97] [0] ∧ Spells name (List.replicate 100 97) ∧
    ramDiskFileContent m' rd name = 0 ∧ getRamDiskFile m' rd name = 0 ∧
    ¬ Answers m' rd [List.replicate 100 97] [0] name (List.replicate 100 97) := by
  obtain ⟨m, hk, -⟩ := firstFit_first Layout.least (fun x =>
    if 0x2000 ≤ x ∧ x < 0x2064 then 97
    else if 0x2064 ≤ x ∧ x < 0x206B ∨ 0x207C ≤ x ∧ x < 0x2087 then 48
    else 0) (show 0 < 4 by decide) (by decide)
  have hbyte : ∀ x, x < 0x3000 → fullName x = if 0x2000 ≤ x ∧ x < 0x2064 then 97
      else if 0x2064 ≤ x ∧ x < 0x206B ∨ 0x207C ≤ x ∧ x < 0x2087 then 48 else 0 :=
    fun x hx => kinitHeap_low (by omega)
  have harchive : Archive fullName 0x2000 [0] := by
    refine ⟨by decide, ⟨by decide, by decide, by decide⟩, ?_⟩
    show fullName (0x2000 + 512) = 0
    decide
  have hname : HasName fullName 0x2000 (List.replicate 100 97) := by
    refine ⟨⟨starts_replicate (by decide) (fun i hi => ?_), by simp, by simp⟩, by simp⟩
    rw [bytesAt, hbyte _ (by omega), if_pos (by omega)]
  obtain ⟨m', hinit, hmounted, hsame⟩ := initRamdisk_mounted (firstFit Layout.least)
    (firstFit_init Layout.least _) harchive (List.Forall₂.cons hname .nil) (by simp) (by decide)
    (by decide) (archive_off_heap (by decide)) hk
  have hname' : HasName m' 0x2000 (List.replicate 100 97) := by
    cases hmounted.names with
    | cons h _ => exact h
  have hmode : m' (0x2000 + 100) ≠ 0 := by
    rw [hsame _ (by decide) (by decide)]
    decide
  -- the question: the name with a NUL behind it
  have hquery : Spells (fun i => if i < 100 then 97 else 0) (List.replicate 100 97) := by
    refine spells_iff_starts.mpr ⟨starts_replicate (by decide) (fun i hi => if_pos hi), ?_⟩
    rw [List.length_replicate]
    rfl
  have hunseen : seenAs m' [0x2000] (List.replicate 100 97) = none := by
    refine List.find?_eq_none.mpr (fun x hx => ?_)
    rw [List.mem_singleton.mp hx, decide_eq_true_eq]
    intro hspell
    have := hname'.lt_of_spells (not_or.mpr ⟨by simp, hmode⟩) hspell
    simp at this
  have hlen : (List.replicate 100 (97 : UInt8)).length < walkLimit := by
    rw [List.length_replicate]
    decide
  have hcontent := hmounted.ramDiskFileContent_eq hquery hlen
  have hheader := hmounted.getRamDiskFile_eq hquery hlen
  have hheaders : headers 0x2000 [0] = [0x2000] := rfl
  simp only [hheaders, hunseen] at hcontent hheader
  refine ⟨m', _, _, hinit, hmounted, hquery, hcontent, hheader, fun hanswers => ?_⟩
  exact hanswers.absent.mp hcontent List.mem_cons_self

end DayOS
