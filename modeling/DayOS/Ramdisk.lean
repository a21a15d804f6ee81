import DayOS.Records
import DayOS.Allocator
import DayOS.Lib.CString

set_option autoImplicit false

/-! # The ramdisk (`ramdisk.c`)

The ramdisk is a tar archive in memory: entries of a 512-byte header and the content, padded to
a multiple of 512 bytes, and a header that starts with a zero byte. `InitRamdisk` walks it
twice, to count the headers and to list them.

Addresses and sizes are 32-bit words. An archive that does not reach the end of the address
space makes none of the sums wrap.
-/

namespace DayOS

open ByteMemory CString

/-! ## The code -/

/-- A `char` minus `'0'`, as an unsigned word: `char` is signed. -/
def digit (c : UInt8) : Nat :=
  if c.toNat < 128 then (c.toNat + 2 ^ 32 - 48) % 2 ^ 32 else (c.toNat + 2 ^ 32 - 256 - 48) % 2 ^ 32

/-- The loop of `get_size`, with `j` characters to go. -/
def getSizeLoop (f : Nat → UInt8) : Nat → Nat → Nat → Nat
  | 0, size, _ => size
  | j + 1, size, count =>
      getSizeLoop f j ((size + digit (f j) * count) % 2 ^ 32) (count * 8 % 2 ^ 32)

/-- `get_size`, of the characters `f`. -/
def getSize (f : Nat → UInt8) : Nat := getSizeLoop f 11 0 1

/-- The field `size` of a header. -/
def sizeField (m : Mem) (header : Nat) : Nat → UInt8 := bytesAt m (header + 124)

/-- Where both walks go from a header. -/
def nextHeader (m : Mem) (address : Nat) : Nat :=
  let size := getSize (sizeField m address)
  let address := (address + (size / 512 + 1) * 512) % 2 ^ 32
  if size % 512 ≠ 0 then (address + 512) % 2 ^ 32 else address

/-- `count_files`. -/
def countFiles (m : Mem) : Nat → Nat → Nat → Except Fault Nat
  | 0, _, _ => .error .endless
  | fuel + 1, address, i =>
      if m address ≠ 0 then countFiles m fuel (nextHeader m address) ((i + 1) % 2 ^ 32) else .ok i

/-- `add_files_to_list`. -/
def addFilesToList (files : Nat) : Nat → Mem → Nat → Nat → Except Fault Mem
  | 0, _, _, _ => .error .endless
  | fuel + 1, m, address, i =>
      if m address ≠ 0 then
        let m := store32 m ((files + 4 * i) % 2 ^ 32) address
        addFilesToList files fuel m (nextHeader m address) ((i + 1) % 2 ^ 32)
      else .ok m

/-- The globals of `ramdisk.c`. -/
structure Ramdisk where
  files : Nat
  firstFile : Nat
  fileno : Nat

/-- `InitRamdisk`. -/
def initRamdisk (H : Heap) (m : Mem) (addr : Nat) : Except Fault (Mem × Ramdisk) := do
  if addr = NULL then throw .noReturn
  let fileno ← countFiles m walkLimit addr 0
  if fileno = 0 then throw .noReturn
  match H.kmalloc m (4 * fileno % 2 ^ 32) with
  | none => throw .noReturn
  | some (files, m) =>
      if files = NULL then throw .noReturn
      let m ← addFilesToList files walkLimit m addr 0
      return (m, ⟨files, addr, fileno⟩)

/-! ## Well-formed archives -/

/-- The value of the first `j` characters as an octal number. -/
def octal (f : Nat → UInt8) : Nat → Nat
  | 0 => 0
  | j + 1 => 8 * octal f j + ((f j).toNat - 48)

/-- The characters are an octal number of eleven digits, below `2 ^ 32`. -/
structure SizeField (f : Nat → UInt8) (size : Nat) : Prop where
  digits : ∀ j < 11, 48 ≤ (f j).toNat ∧ (f j).toNat < 56
  value : octal f 11 = size
  lt : size < 2 ^ 32

/-- The bytes an entry takes: its header, and its content up to a multiple of 512. -/
def entrySpan (size : Nat) : Nat := 512 + (size + 511) / 512 * 512

/-- In `m` there is an archive at `a` whose entries have contents of the given sizes. -/
def Archive (m : Mem) : Nat → List Nat → Prop
  | a, [] => m a = 0
  | a, size :: sizes => m a ≠ 0 ∧ SizeField (sizeField m a) size ∧ Archive m (a + entrySpan size) sizes

/-- The addresses of the headers. The content of an entry is right behind its header. -/
def headers : Nat → List Nat → List Nat
  | _, [] => []
  | a, size :: sizes => a :: headers (a + entrySpan size) sizes

/-- Where the archive ends, behind the header that starts with a zero byte. -/
def archiveEnd : Nat → List Nat → Nat
  | a, [] => a + 512
  | a, size :: sizes => archiveEnd (a + entrySpan size) sizes

section
variable {f : Nat → UInt8} {m m' : Mem} {a size : Nat} {sizes : List Nat}

theorem entrySpan_ge (size : Nat) : 512 ≤ entrySpan size := by
  unfold entrySpan
  omega

/-- The loop adds up the digits from the last one on. -/
theorem getSizeLoop_eq {j : Nat} (hd : ∀ i < j, 48 ≤ (f i).toNat ∧ (f i).toNat < 56)
    (size count : Nat) : getSizeLoop f j size count % 2 ^ 32 = (size + octal f j * count) % 2 ^ 32 := by
  induction j generalizing size count with
  | zero => simp [getSizeLoop, octal]
  | succ j ih =>
      have hdigit : digit (f j) = (f j).toNat - 48 := by
        have := hd j (by omega)
        unfold digit
        rw [if_pos (by omega)]
        omega
      rw [getSizeLoop, ih (fun i hi => hd i (by omega)), hdigit, octal]
      calc ((size + ((f j).toNat - 48) * count) % 2 ^ 32 + octal f j * (count * 8 % 2 ^ 32)) % 2 ^ 32
          = (size + ((f j).toNat - 48) * count + octal f j * (count * 8)) % 2 ^ 32 := by
            rw [Nat.add_mod, Nat.mod_mod, Nat.mul_mod, Nat.mod_mod, ← Nat.mul_mod, ← Nat.add_mod]
        _ = (size + (8 * octal f j + ((f j).toNat - 48)) * count) % 2 ^ 32 := by
            congr 1
            ring

theorem getSizeLoop_lt {j count : Nat} (h : size < 2 ^ 32) : getSizeLoop f j size count < 2 ^ 32 := by
  induction j generalizing size count with
  | zero => exact h
  | succ j ih => exact ih (Nat.mod_lt _ (by decide))

/-- `get_size` decodes a size field. -/
theorem getSize_eq (h : SizeField f size) : getSize f = size := by
  have hloop := getSizeLoop_eq h.digits 0 1
  rw [h.value, Nat.mod_eq_of_lt (getSizeLoop_lt (by decide)), Nat.zero_add, Nat.mul_one,
    Nat.mod_eq_of_lt h.lt] at hloop
  exact hloop

/-- Both walks go to the end of the entry. -/
theorem nextHeader_eq (h : SizeField (sizeField m a) size) (hlt : a + entrySpan size < 2 ^ 32) :
    nextHeader m a = a + entrySpan size := by
  have hspan : entrySpan size
      = (size / 512 + 1) * 512 + if size % 512 ≠ 0 then 512 else 0 := by
    unfold entrySpan
    split <;> omega
  rw [hspan] at hlt ⊢
  unfold nextHeader
  rw [getSize_eq h]
  have hstep : a + (size / 512 + 1) * 512 < 2 ^ 32 :=
    lt_of_le_of_lt (Nat.add_le_add_left (Nat.le_add_right _ _) a) hlt
  by_cases hpad : size % 512 ≠ 0
  · rw [if_pos hpad] at hlt
    simp only [if_pos hpad]
    rw [Nat.mod_eq_of_lt hstep, Nat.add_assoc, Nat.mod_eq_of_lt hlt]
  · simp only [if_neg hpad]
    rw [Nat.mod_eq_of_lt hstep, Nat.add_zero ((size / 512 + 1) * 512)]

theorem le_archiveEnd (a : Nat) (sizes : List Nat) : a + 512 ≤ archiveEnd a sizes := by
  induction sizes generalizing a with
  | nil => exact le_rfl
  | cons size sizes ih =>
      have := ih (a := a + entrySpan size)
      simp only [archiveEnd]
      omega

theorem length_le_archiveEnd : a + 512 * (sizes.length + 1) ≤ archiveEnd a sizes := by
  induction sizes generalizing a with
  | nil => exact le_rfl
  | cons size sizes ih =>
      have := ih (a := a + entrySpan size)
      have := entrySpan_ge size
      simp only [archiveEnd, List.length_cons]
      linarith

theorem octal_congr {g : Nat → UInt8} {n : Nat} (hg : ∀ j < n, g j = f j) :
    octal g n = octal f n := by
  induction n with
  | zero => rfl
  | succ n ih => rw [octal, octal, ih (fun j hj => hg j (by omega)), hg n (by omega)]

theorem SizeField.congr {g : Nat → UInt8} (h : SizeField f size) (hg : ∀ j < 11, g j = f j) :
    SizeField g size := by
  refine ⟨fun j hj => ?_, (octal_congr hg).trans h.value, h.lt⟩
  rw [hg j hj]
  exact h.digits j hj

/-- An archive is made of its bytes. -/
theorem Archive.congr (h : Archive m a sizes) (hm : ∀ x, a ≤ x → x < archiveEnd a sizes → m' x = m x) :
    Archive m' a sizes := by
  induction sizes generalizing a with
  | nil => exact (hm a le_rfl (by simp [archiveEnd])).trans h
  | cons size sizes ih =>
      obtain ⟨hname, hsize, hrest⟩ := h
      have hspan := entrySpan_ge size
      have hend := le_archiveEnd (a + entrySpan size) sizes
      simp only [archiveEnd] at hm
      refine ⟨?_, hsize.congr (fun j hj => hm (a + 124 + j) (by omega) (by omega)),
        ih hrest (fun x hx hx' => hm x (by omega) hx')⟩
      rw [hm a le_rfl (by omega)]
      exact hname

theorem headers_length (a : Nat) (sizes : List Nat) : (headers a sizes).length = sizes.length := by
  induction sizes generalizing a with
  | nil => rfl
  | cons size sizes ih => simp [headers, ih]

/-- Headers lie in the archive, with the last header behind each of them. -/
theorem headers_bounds {x : Nat} (hx : x ∈ headers a sizes) :
    a ≤ x ∧ x + 1024 ≤ archiveEnd a sizes := by
  induction sizes generalizing a with
  | nil => cases hx
  | cons size sizes ih =>
      have hspan := entrySpan_ge size
      rcases List.mem_cons.mp hx with rfl | hx
      · have hle := le_archiveEnd (x + entrySpan size) sizes
        simp only [archiveEnd]
        omega
      · obtain ⟨h₁, h₂⟩ := ih hx
        simp only [archiveEnd]
        omega

/-- Every header of an archive carries the size of its content. -/
theorem Archive.getSize_header (h : Archive m a sizes) :
    (headers a sizes).map (fun x => getSize (sizeField m x)) = sizes := by
  induction sizes generalizing a with
  | nil => rfl
  | cons size sizes ih =>
      obtain ⟨-, hsize, hrest⟩ := h
      rw [headers, List.map_cons, getSize_eq hsize, ih hrest]

/-- Every size of an archive is a word. -/
theorem Archive.size_lt (h : Archive m a sizes) (hs : size ∈ sizes) : size < 2 ^ 32 := by
  induction sizes generalizing a with
  | nil => cases hs
  | cons n sizes ih =>
      rcases List.mem_cons.mp hs with rfl | hs
      · exact h.2.1.lt
      · exact ih h.2.2 hs

end

/-! ## The two walks -/

/-- A `tar_header_t` takes 157 bytes. -/
def tarHeaderSize : Nat := 157

/-- The address of `files[i]`. -/
def fileSlot (files i : Nat) : Nat := (files + 4 * i) % 2 ^ 32

/-- The headers `hs` that a scan from `a` runs over, up to the one at `e`, which is empty. -/
def Visits (m : Mem) : Nat → List Nat → Nat → Prop
  | a, [], e => a = e ∧ m a = 0
  | a, h :: hs, e => a = h ∧ m a ≠ 0 ∧ Visits m (nextHeader m a) hs e

/-- The table `files` with the entries `hs` stored from the `i`-th on. -/
def fillSlots (files : Nat) : Mem → Nat → List Nat → Mem
  | m, _, [] => m
  | m, i, h :: hs => fillSlots files (store32 m (fileSlot files i) h) (i + 1) hs

section
variable {m m' : Mem} {a e files fuel i j n x : Nat} {hs sizes : List Nat}

/-- A header carries its size. -/
theorem getSize_congr (h : AgreeOn m m' a tarHeaderSize) :
    getSize (sizeField m' a) = getSize (sizeField m a) := by
  have hfield : ∀ j < 11, sizeField m' a j = sizeField m a j := by
    intro j hj
    exact h (a + 124 + j) (by omega) (by simp only [tarHeaderSize]; omega)
  have hloop : ∀ j ≤ 11, ∀ size count,
      getSizeLoop (sizeField m' a) j size count = getSizeLoop (sizeField m a) j size count := by
    intro j
    induction j with
    | zero => intros; rfl
    | succ j ih =>
        intro hj size count
        rw [getSizeLoop, getSizeLoop, hfield j (by omega), ih (by omega)]
  exact hloop 11 le_rfl 0 1

/-- What a scan sees of a header. -/
theorem header_congr (h : AgreeOn m m' a tarHeaderSize) :
    m' a = m a ∧ nextHeader m' a = nextHeader m a := by
  refine ⟨h a le_rfl (by simp only [tarHeaderSize]; omega), ?_⟩
  unfold nextHeader
  rw [getSize_congr h]

theorem nextHeader_lt : nextHeader m a < 2 ^ 32 := by
  unfold nextHeader
  simp only
  split <;> exact Nat.mod_lt _ (by decide)

/-- The count is the number of headers up to the empty one. -/
theorem countFiles_ok_iff (hi : i < 2 ^ 32) : countFiles m fuel a i = .ok n ↔
    ∃ hs e, Visits m a hs e ∧ hs.length < fuel ∧ n = (i + hs.length) % 2 ^ 32 := by
  induction fuel generalizing a i with
  | zero =>
      constructor
      · intro h
        cases h
      · rintro ⟨hs, e, -, hlen, -⟩
        exact absurd hlen (Nat.not_lt_zero _)
  | succ fuel ih =>
      rw [countFiles]
      by_cases hname : m a ≠ 0
      · rw [if_pos hname, ih (Nat.mod_lt _ (by decide))]
        constructor
        · rintro ⟨hs, e, hvisits, hlen, rfl⟩
          refine ⟨a :: hs, e, ⟨rfl, hname, hvisits⟩, Nat.succ_lt_succ hlen, ?_⟩
          rw [List.length_cons]
          omega
        · rintro ⟨hs, e, hvisits, hlen, rfl⟩
          cases hs with
          | nil => exact absurd hvisits.2 hname
          | cons h hs =>
              obtain ⟨-, -, hvisits⟩ := hvisits
              rw [List.length_cons] at hlen ⊢
              exact ⟨hs, e, hvisits, by omega, by omega⟩
      · rw [if_neg hname]
        constructor
        · intro h
          cases h
          exact ⟨[], a, ⟨rfl, not_not.mp hname⟩, Nat.succ_pos _, (Nat.mod_eq_of_lt hi).symm⟩
        · rintro ⟨hs, e, hvisits, -, rfl⟩
          cases hs with
          | nil => rw [List.length_nil, Nat.add_zero, Nat.mod_eq_of_lt hi]
          | cons h hs => exact absurd hvisits.2.1 hname

/-- A store that meets none of the headers of a scan does not change it. -/
theorem Visits.congr (h : Visits m a hs e)
    (hag : ∀ b, b ∈ hs ∨ b = e → AgreeOn m m' b tarHeaderSize) : Visits m' a hs e := by
  induction hs generalizing a with
  | nil =>
      obtain ⟨rfl, hname⟩ := h
      exact ⟨rfl, (header_congr (hag a (Or.inr rfl))).1.trans hname⟩
  | cons b hs ih =>
      obtain ⟨rfl, hname, hrest⟩ := h
      obtain ⟨hsame, hnext⟩ := header_congr (hag a (Or.inl List.mem_cons_self))
      refine ⟨rfl, by rwa [hsame], ?_⟩
      rw [hnext]
      exact ih hrest (fun c hc => hag c (hc.imp_left (List.mem_cons_of_mem a)))

/-- **The second scan follows the first.** It stores the headers that the first one runs over,
as long as the entries it writes do not meet them. -/
theorem addFilesToList_eq (h : Visits m a hs e) (hfuel : hs.length < fuel)
    (hi : i + hs.length < 2 ^ 32) (hoff : ∀ b, b ∈ hs ∨ b = e → ∀ j < hs.length,
      fileSlot files (i + j) + 4 ≤ b ∨ b + tarHeaderSize ≤ fileSlot files (i + j)) :
    addFilesToList files fuel m a i = .ok (fillSlots files m i hs) := by
  induction hs generalizing m a fuel i with
  | nil =>
      obtain ⟨fuel, rfl⟩ : ∃ k, fuel = k + 1 := ⟨fuel - 1, by rw [List.length_nil] at hfuel; omega⟩
      rw [addFilesToList, if_neg (not_not.mpr h.2)]
      rfl
  | cons b hs ih =>
      rw [List.length_cons] at hfuel hi hoff
      obtain ⟨fuel, rfl⟩ : ∃ k, fuel = k + 1 := ⟨fuel - 1, by omega⟩
      obtain ⟨rfl, hname, hrest⟩ := h
      -- the store of this header changes none of them
      have hag : ∀ c, c ∈ a :: hs ∨ c = e →
          AgreeOn m (store32 m (fileSlot files i) a) c tarHeaderSize := fun c hc =>
        agreeOn_store32 ((hoff c hc 0 (Nat.succ_pos _)).symm)
      have hnext := (header_congr (hag a (Or.inl List.mem_cons_self))).2
      rw [addFilesToList, if_pos hname]
      show addFilesToList files fuel (store32 m (fileSlot files i) a)
        (nextHeader (store32 m (fileSlot files i) a) a) ((i + 1) % 2 ^ 32) = _
      rw [hnext, Nat.mod_eq_of_lt (by omega)]
      refine ih (hrest.congr (fun c hc => hag c (hc.imp_left (List.mem_cons_of_mem a)))) (by omega)
        (by omega) (fun c hc j hj => ?_)
      have := hoff c (hc.imp_left (List.mem_cons_of_mem a)) (j + 1) (by omega)
      rwa [Nat.add_assoc, Nat.add_comm 1]

theorem fileSlot_apart (hij : i ≠ j) (hi : i < 2 ^ 30) (hj : j < 2 ^ 30) :
    fileSlot files i + 4 ≤ fileSlot files j ∨ fileSlot files j + 4 ≤ fileSlot files i := by
  unfold fileSlot
  omega

/-- Filling the table writes into its entries only. -/
theorem fillSlots_of_outside (h : ∀ k < hs.length,
    x < fileSlot files (i + k) ∨ fileSlot files (i + k) + 4 ≤ x) :
    fillSlots files m i hs x = m x := by
  induction hs generalizing m i with
  | nil => rfl
  | cons b hs ih =>
      rw [List.length_cons] at h
      have hrest : fillSlots files m i (b :: hs) x = store32 m (fileSlot files i) b x := by
        refine ih (fun k hk => ?_)
        rw [Nat.add_assoc, Nat.add_comm 1]
        exact h (k + 1) (by omega)
      rw [hrest]
      exact store32_of_outside (h 0 (Nat.succ_pos _))

/-- The entries hold what was stored into them. -/
theorem load32_fillSlots {k : Nat} (hlen : i + hs.length ≤ 2 ^ 30) (hlt : ∀ b ∈ hs, b < 2 ^ 32)
    (hk : hs[k]? = some x) : load32 (fillSlots files m i hs) (fileSlot files (i + k)) = x := by
  induction hs generalizing m i k with
  | nil => cases hk
  | cons b hs ih =>
      rw [List.length_cons] at hlen
      cases k with
      | zero =>
          obtain rfl : b = x := by simpa using hk
          -- the entries that follow are other ones
          have hfirst : AgreeOn (store32 m (fileSlot files i) b)
              (fillSlots files (store32 m (fileSlot files i) b) (i + 1) hs) (fileSlot files i) 4 := by
            intro y hy hy'
            apply fillSlots_of_outside
            intro k hk
            have hapart : fileSlot files i + 4 ≤ fileSlot files (i + 1 + k) ∨ _ :=
              fileSlot_apart (by omega) (by omega) (by omega)
            omega
          rw [Nat.add_zero, fillSlots, load32_congr hfirst, load32_store32]
          exact Nat.mod_eq_of_lt (hlt b List.mem_cons_self)
      | succ k =>
          have hrest := ih (m := store32 m (fileSlot files i) b) (i := i + 1) (k := k) (by omega)
            (fun c hc => hlt c (List.mem_cons_of_mem b hc)) (by simpa using hk)
          rwa [Nat.add_assoc, Nat.add_comm 1] at hrest

/-- The walks run over the headers of an archive. -/
theorem Archive.visits (h : Archive m a sizes) (hend : archiveEnd a sizes ≤ 2 ^ 32) :
    ∃ e, Visits m a (headers a sizes) e ∧ e + 512 = archiveEnd a sizes := by
  induction sizes generalizing a with
  | nil => exact ⟨a, ⟨rfl, h⟩, rfl⟩
  | cons size sizes ih =>
      obtain ⟨hname, hsize, hrest⟩ := h
      simp only [archiveEnd] at hend ⊢
      have hle := le_archiveEnd (a + entrySpan size) sizes
      obtain ⟨e, hvisits, he⟩ := ih hrest hend
      refine ⟨e, ⟨rfl, hname, ?_⟩, he⟩
      rw [nextHeader_eq hsize (by omega)]
      exact hvisits

/-- The first walk counts the headers. -/
theorem countFiles_archive (h : Archive m a sizes) (hend : archiveEnd a sizes ≤ 2 ^ 32)
    (hfuel : sizes.length < fuel) (hi : i + sizes.length < 2 ^ 32) :
    countFiles m fuel a i = .ok (i + sizes.length) := by
  obtain ⟨e, hvisits, -⟩ := h.visits hend
  apply (countFiles_ok_iff (by omega)).mpr
  refine ⟨headers a sizes, e, hvisits, by rwa [headers_length], ?_⟩
  rw [headers_length, Nat.mod_eq_of_lt hi]

/-- The second walk stores the headers, in order, and nothing else, as long as the list it
writes lies outside the archive. -/
theorem addFilesToList_archive (h : Archive m a sizes)
    (hend : archiveEnd a sizes ≤ 2 ^ 32) (hfuel : sizes.length < fuel)
    (hfiles : files + 4 * (i + sizes.length) ≤ 2 ^ 32) (hi : i + sizes.length < 2 ^ 32)
    (hoff : ∀ x, files + 4 * i ≤ x → x < files + 4 * (i + sizes.length) →
      x < a ∨ archiveEnd a sizes ≤ x) :
    ∃ m', addFilesToList files fuel m a i = .ok m' ∧
      (∀ k x, (headers a sizes)[k]? = some x → load32 m' (files + 4 * (i + k)) = x) ∧
      ∀ x, (x < files + 4 * i ∨ files + 4 * (i + sizes.length) ≤ x) → m' x = m x := by
  have hlen := headers_length a sizes
  obtain ⟨e, hvisits, he⟩ := h.visits hend
  have hslot : ∀ k < sizes.length, fileSlot files (i + k) = files + 4 * (i + k) := fun k hk =>
    Nat.mod_eq_of_lt (by omega)
  -- the entries lie outside the archive, the headers inside
  have hapart : ∀ b, b ∈ headers a sizes ∨ b = e → ∀ k < (headers a sizes).length,
      fileSlot files (i + k) + 4 ≤ b ∨ b + tarHeaderSize ≤ fileSlot files (i + k) := by
    intro b hb k hk
    have h157 : tarHeaderSize = 157 := rfl
    have hin : a ≤ b ∧ b + 512 ≤ archiveEnd a sizes := by
      rcases hb with hb | rfl
      · obtain ⟨hle, hfin⟩ := headers_bounds hb
        exact ⟨hle, by omega⟩
      · have hle := le_archiveEnd a sizes
        exact ⟨by omega, by omega⟩
    rw [hlen] at hk
    rw [hslot k hk]
    by_contra hmeet
    have hout := hoff (max b (files + 4 * (i + k))) (by omega) (by omega)
    omega
  refine ⟨fillSlots files m i (headers a sizes), addFilesToList_eq hvisits (by rwa [hlen])
    (by rwa [hlen]) hapart, fun k x hk => ?_, fun x hx => ?_⟩
  · obtain ⟨hlt, -⟩ := List.getElem?_eq_some_iff.mp hk
    rw [← hslot k (by omega)]
    exact load32_fillSlots (by omega) (fun b hb => by
      have := headers_bounds hb
      omega) hk
  · apply fillSlots_of_outside
    intro k hk
    rw [hslot k (by omega)]
    omega

end

/-! ## Enumeration -/

/-- What `InitRamdisk` makes of an archive: its headers are listed in order, in a block of the
heap, and the archive is unchanged. -/
theorem initRamdisk_archive (A : Allocator) {m m₁ : Mem} {live : List Block} {addr files : Nat}
    {sizes : List Nat} (h : A.Holds m live) (harchive : Archive m addr sizes) (hne : sizes ≠ [])
    (haddr : addr ≠ 0) (hend : archiveEnd addr sizes ≤ 2 ^ 32)
    (hoff : ∀ x, addr ≤ x → x < archiveEnd addr sizes → ¬ A.arena x)
    (hk : A.kmalloc m (4 * sizes.length) = some (files, m₁)) :
    ∃ m', initRamdisk A.toHeap m addr = .ok (m', ⟨files, addr, sizes.length⟩) ∧
      (∀ i x, (headers addr sizes)[i]? = some x → load32 m' (files + 4 * i) = x) ∧
      (∀ x, addr ≤ x → x < archiveEnd addr sizes → m' x = m x) ∧
      files ≠ 0 ∧ files + 4 * sizes.length ≤ 2 ^ 32 := by
  have hpos : 0 < sizes.length := List.length_pos_of_ne_nil hne
  have hlen : addr + 512 * (sizes.length + 1) ≤ archiveEnd addr sizes := length_le_archiveEnd
  have hnew := A.kmalloc_holds h (by omega) hk
  have hge := A.addr_ge hnew List.mem_cons_self
  have hfin := A.fin_le hnew List.mem_cons_self
  simp only at hge hfin
  -- the heap writes nothing outside its memory, and the list lies inside
  have hkeep : ∀ x, addr ≤ x → x < archiveEnd addr sizes → m₁ x = m x := fun x hx hx' =>
    A.kmalloc_keeps h (by omega) hk x (Or.inl (hoff x hx hx'))
  have hlist : ∀ x, files ≤ x → x < files + 4 * sizes.length →
      x < addr ∨ archiveEnd addr sizes ≤ x := by
    intro x hx hx'
    by_contra hin
    exact hoff x (by omega) (by omega) ((A.inArena hnew _ List.mem_cons_self).2 x ⟨hx, hx'⟩)
  obtain ⟨m', hadd, hstored, hout⟩ := addFilesToList_archive (i := 0)
    (harchive.congr hkeep) hend (show sizes.length < walkLimit by simp only [walkLimit]; omega)
    (show files + 4 * (0 + sizes.length) ≤ 2 ^ 32 by omega) (by omega) (by simpa using hlist)
  have hsame : ∀ x, addr ≤ x → x < archiveEnd addr sizes → m' x = m x := by
    intro x hx hx'
    rw [hout x ?_, hkeep x hx hx']
    by_contra hin
    have := hlist x (by omega) (by omega)
    omega
  have hcount : countFiles m walkLimit addr 0 = .ok (0 + sizes.length) :=
    countFiles_archive harchive hend (by simp only [walkLimit]; omega) (by omega)
  have hmalloc : A.kmalloc m (4 * sizes.length % 2 ^ 32) = some (files, m₁) := by
    rwa [Nat.mod_eq_of_lt (by omega)]
  refine ⟨m', ?_, by simpa using hstored, hsame, by omega, hfin⟩
  rw [Nat.zero_add] at hcount
  unfold initRamdisk
  rw [if_neg haddr, hcount]
  show (if sizes.length = 0 then _ else _ : Except Fault (Mem × Ramdisk)) = _
  rw [if_neg (by omega), hmalloc]
  show (if files = NULL then _ else _ : Except Fault (Mem × Ramdisk)) = _
  rw [if_neg (by simp only [NULL]; omega), hadd]
  rfl

/-- **Tar enumeration.** For an archive with at least one entry that neither wraps around nor
meets the memory of the heap, `InitRamdisk` counts its entries and lists the addresses of their
headers in order. Right behind each header is the content, of the size the header gives, and
the archive is unchanged. -/
theorem tar_enumeration (A : Allocator) {m m₁ : Mem} {live : List Block} {addr files : Nat}
    {sizes : List Nat} (h : A.Holds m live) (harchive : Archive m addr sizes) (hne : sizes ≠ [])
    (haddr : addr ≠ 0) (hend : archiveEnd addr sizes ≤ 2 ^ 32)
    (hoff : ∀ x, addr ≤ x → x < archiveEnd addr sizes → ¬ A.arena x)
    (hk : A.kmalloc m (4 * sizes.length) = some (files, m₁)) :
    ∃ m', initRamdisk A.toHeap m addr = .ok (m', ⟨files, addr, sizes.length⟩) ∧
      (∀ i x, (headers addr sizes)[i]? = some x → load32 m' (files + 4 * i) = x) ∧
      (headers addr sizes).map (fun x => getSize (sizeField m' x)) = sizes ∧
      ∀ x, addr ≤ x → x < archiveEnd addr sizes → m' x = m x := by
  obtain ⟨m', hinit, hlist, hsame, -⟩ := initRamdisk_archive A h harchive hne haddr hend hoff hk
  exact ⟨m', hinit, hlist, (harchive.congr hsame).getSize_header, hsame⟩

/-- An archive of two entries: `a`, of 5 bytes, and `b`, of 600 bytes, which is `1130` in octal. -/
def smallFiles : Mem := fun x =>
  if x = 0x2000 then 97
  else if x = 0x2400 then 98
  else if x = 0x2086 then 53
  else if x = 0x2483 ∨ x = 0x2484 then 49
  else if x = 0x2485 then 51
  else if 0x207C ≤ x ∧ x < 0x2086 ∨ 0x247C ≤ x ∧ x < 0x2487 then 48
  else 0

/-- The kernel memory with the archive and a fresh heap. -/
def smallArchive : Mem := kinitHeap Layout.least smallFiles

/-- The ramdisk of that archive. -/
theorem tar_enumeration_small : ∃ m', initRamdisk (firstFit Layout.least).toHeap smallArchive 0x2000
    = .ok (m', ⟨0x301020, 0x2000, 2⟩) ∧ load32 m' 0x301020 = 0x2000 ∧ load32 m' 0x301024 = 0x2400 ∧
    [0x2000, 0x2400].map (fun x => getSize (sizeField m' x)) = [5, 600] := by
  obtain ⟨m, hk, -⟩ := firstFit_first Layout.least smallFiles (show 0 < 8 by decide) (by decide)
  have harchive : Archive smallArchive 0x2000 [5, 600] := by
    refine ⟨by decide, ⟨by decide, by decide, by decide⟩, ?_⟩
    rw [show 0x2000 + entrySpan 5 = 0x2400 from rfl]
    refine ⟨by decide, ⟨by decide, by decide, by decide⟩, ?_⟩
    show smallArchive (0x2400 + 1536) = 0
    decide
  obtain ⟨m', hinit, hlist, hsizes, -⟩ := tar_enumeration (firstFit Layout.least)
    (firstFit_init Layout.least _) harchive (by simp) (by decide) (by decide)
    (fun x _ hx harena => by
      have hlow : Layout.least.heapStart ≤ x := harena.1
      have hstart : Layout.least.heapStart = 0x301000 := by decide
      have hend : archiveEnd 0x2000 [5, 600] = 0x2C00 := by decide
      omega) hk
  exact ⟨m', hinit, hlist 0 0x2000 rfl, hlist 1 0x2400 rfl, hsizes⟩

end DayOS
