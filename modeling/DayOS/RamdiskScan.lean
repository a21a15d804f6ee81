import DayOS.RamdiskLookup

set_option autoImplicit false

/-! # The two scans of the ramdisk (`ramdisk.c`)

`count_files` and `add_files_to_list` walk over whatever the memory at `first_file` holds. A
size field is never checked, so a step is any multiple of 512 modulo `2 ^ 32`, zero included:
the scans end, each step strictly forward, exactly when no entry reaches the end of the address
space (`scan_terminates`).

Where the first scan ends, the second one follows it header by header, as long as the table it
writes does not meet the headers (`file_table`).
-/

namespace DayOS

open ByteMemory CString

/-! ## What a size field says -/

/-- A `char` as a number: `char` is signed. -/
def charValue (c : UInt8) : ℤ :=
  if c.toNat < 128 then c.toNat else c.toNat - 256

/-- The value of the first `j` characters as an octal number, whatever the characters are. -/
def fieldValue (f : Nat → UInt8) : Nat → ℤ
  | 0 => 0
  | j + 1 => 8 * fieldValue f j + (charValue (f j) - 48)

/-- The size that the header at `a` declares, as a 32-bit word. -/
def declaredSize (m : Mem) (a : Nat) : Nat := (fieldValue (sizeField m a) 11 % 2 ^ 32).toNat

/-- How far apart the next header is. The content is rounded up to a multiple of 512, in 32 bits:
for the last 511 sizes this gives zero. -/
def entryStep (size : Nat) : Nat := if 2 ^ 32 - 512 < size then 512 else entrySpan size

/-- Entries that follow each other, in an address space without end. -/
inductive EntryAt (m : Mem) (first : Nat) : Nat → Prop
  | first : EntryAt m first first
  | next {a : Nat} : EntryAt m first a → m a ≠ 0 → EntryAt m first (a + entryStep (declaredSize m a))

/-! ## Where the scans go -/

/-- The addresses that `count_files` looks at. -/
inductive Scanned (m : Mem) (first : Nat) : Nat → Prop
  | first : Scanned m first first
  | next {a : Nat} : Scanned m first a → m a ≠ 0 → Scanned m first (nextHeader m a)

/-- The states that the loop of `add_files_to_list` goes through: the memory, the header and the
index. -/
inductive Adding (files : Nat) (m : Mem) (first : Nat) : Mem → Nat → Nat → Prop
  | first : Adding files m first m first 0
  | next {m' : Mem} {a i : Nat} : Adding files m first m' a i → m' a ≠ 0 →
      Adding files m first (store32 m' (fileSlot files i) a)
        (nextHeader (store32 m' (fileSlot files i) a) a) ((i + 1) % 2 ^ 32)

/-- A table of `n` entries at `files` meets no header that is looked at. -/
def TableOff (m : Mem) (first files n : Nat) : Prop :=
  ∀ a, Scanned m first a → ∀ i < n,
    fileSlot files i + 4 ≤ a ∨ a + tarHeaderSize ≤ fileSlot files i

/-- Both scans end, and every step of both goes strictly forward. -/
structure ScansEnd (m : Mem) (first : Nat) : Prop where
  forward : ∀ a, Scanned m first a → m a ≠ 0 → a < nextHeader m a
  ends : ∃ n, countFiles m walkLimit first 0 = .ok n ∧ ∀ files, TableOff m first files n →
    (∃ m', addFilesToList files walkLimit m first 0 = .ok m') ∧
    ∀ m' a i, Adding files m first m' a i → m' a ≠ 0 →
      a < nextHeader (store32 m' (fileSlot files i) a) a

section
variable {m m' : Mem} {first a b e files i n : Nat} {hs : List Nat}

/-! ## One step -/

theorem digit_eq (c : UInt8) : (digit c : ℤ) = (charValue c - 48) % 2 ^ 32 := by
  have hc := c.toNat_lt
  unfold digit charValue
  split <;> omega

theorem getSizeLoop_modEq {f : Nat → UInt8} {j : Nat} (size count : Nat) :
    (getSizeLoop f j size count : ℤ) ≡ size + fieldValue f j * count [ZMOD 2 ^ 32] := by
  induction j generalizing size count with
  | zero => simp [getSizeLoop, fieldValue]
  | succ j ih =>
      have hsize : (((size + digit (f j) * count) % 2 ^ 32 : ℕ) : ℤ)
          ≡ size + (charValue (f j) - 48) * count [ZMOD 2 ^ 32] := by
        push_cast
        rw [digit_eq]
        exact (Int.mod_modEq _ _).trans (((Int.mod_modEq _ _).mul_right _).add_left _)
      have hcount : ((count * 8 % 2 ^ 32 : ℕ) : ℤ) ≡ count * 8 [ZMOD 2 ^ 32] := by
        push_cast
        exact Int.mod_modEq _ _
      calc (getSizeLoop f (j + 1) size count : ℤ)
          ≡ ((size + digit (f j) * count) % 2 ^ 32 : ℕ) + fieldValue f j * (count * 8 % 2 ^ 32 : ℕ)
            [ZMOD 2 ^ 32] := ih _ _
        _ ≡ (size + (charValue (f j) - 48) * count) + fieldValue f j * (count * 8) [ZMOD 2 ^ 32] :=
            hsize.add (hcount.mul_left _)
        _ = size + fieldValue f (j + 1) * count := by
            rw [fieldValue]
            ring

/-- `get_size` computes the declared size, modulo `2 ^ 32`. -/
theorem getSize_eq_declared (m : Mem) (a : Nat) : getSize (sizeField m a) = declaredSize m a := by
  have hlt : getSize (sizeField m a) < 2 ^ 32 := getSizeLoop_lt (by decide)
  have hloop := getSizeLoop_modEq (f := sizeField m a) (j := 11) 0 1
  rw [Nat.cast_zero, zero_add, Nat.cast_one, mul_one] at hloop
  have hvalue : (getSize (sizeField m a) : ℤ) = fieldValue (sizeField m a) 11 % 2 ^ 32 := by
    rw [← hloop.eq, Int.emod_eq_of_lt (Int.natCast_nonneg _) (by exact_mod_cast hlt)]
    rfl
  rw [declaredSize, ← hvalue, Int.toNat_natCast]

theorem declaredSize_lt (m : Mem) (a : Nat) : declaredSize m a < 2 ^ 32 := by
  rw [← getSize_eq_declared]
  exact getSizeLoop_lt (by decide)

theorem entryStep_ge (size : Nat) : 512 ≤ entryStep size := by
  unfold entryStep
  split
  · exact le_rfl
  · exact entrySpan_ge size

/-- A step goes forward exactly when the entry ends inside the address space. -/
theorem nextHeader_forward (ha : a < 2 ^ 32) :
    (a < nextHeader m a ↔ a + entryStep (declaredSize m a) < 2 ^ 32) ∧
    (a < nextHeader m a → nextHeader m a = a + entryStep (declaredSize m a)) := by
  have hsize := declaredSize_lt m a
  unfold nextHeader
  rw [getSize_eq_declared]
  generalize declaredSize m a = size at hsize
  unfold entryStep entrySpan
  simp only
  split <;> split <;> omega

/-! ## The first scan -/

theorem Scanned.lt (hfirst : first < 2 ^ 32) (h : Scanned m first a) : a < 2 ^ 32 := by
  cases h with
  | first => exact hfirst
  | next => exact nextHeader_lt

/-- From one header on, a scan looks at the headers it runs over. -/
theorem Visits.scanned (h : Visits m a hs e) (ha : Scanned m first a) :
    (∀ b ∈ hs, Scanned m first b) ∧ Scanned m first e := by
  induction hs generalizing a with
  | nil =>
      obtain ⟨rfl, -⟩ := h
      exact ⟨by simp, ha⟩
  | cons b hs ih =>
      obtain ⟨rfl, hname, hrest⟩ := h
      obtain ⟨hall, hend⟩ := ih hrest (ha.next hname)
      refine ⟨fun c hc => ?_, hend⟩
      rcases List.mem_cons.mp hc with rfl | hc
      · exact ha
      · exact hall c hc

/-- A scan that only goes forward reaches an empty header. -/
theorem exists_visits (hfirst : first < 2 ^ 32)
    (hforward : ∀ b, Scanned m first b → m b ≠ 0 → b < nextHeader m b) (ha : Scanned m first a) :
    ∃ hs e, Visits m a hs e ∧ 512 * hs.length ≤ 2 ^ 32 - a := by
  generalize hk : 2 ^ 32 - a = k
  induction k using Nat.strong_induction_on generalizing a with
  | _ k ih =>
      by_cases hname : m a = 0
      · exact ⟨[], a, ⟨rfl, hname⟩, Nat.zero_le _⟩
      · have hbound := ha.lt hfirst
        have hnext := ha.next hname
        have hbound' := hnext.lt hfirst
        have hstep := (nextHeader_forward hbound).2 (hforward a ha hname)
        have hge := entryStep_ge (declaredSize m a)
        obtain ⟨hs, e, hvisits, hlen⟩ := ih _ (by omega) hnext rfl
        refine ⟨a :: hs, e, ⟨rfl, hname, hvisits⟩, ?_⟩
        rw [List.length_cons]
        omega

/-! ## The second scan -/

theorem TableOff.agree (hoff : TableOff m first files n) (hi : i < n) (hb : Scanned m first b)
    (hag : AgreeOn m m' b tarHeaderSize) :
    AgreeOn m (store32 m' (fileSlot files i) a) b tarHeaderSize :=
  hag.trans (agreeOn_store32 ((hoff b hb i hi).symm))

/-- In every state of the second scan it stands where the first one came by, and the headers are
as they were. -/
theorem Adding.follows (hoff : TableOff m first files n) (hn : n < 2 ^ 32)
    (hvisits : Visits m first hs e) (hlen : hs.length = n) (h : Adding files m first m' a i) :
    Scanned m first a ∧ (∀ b, Scanned m first b → AgreeOn m m' b tarHeaderSize) ∧
      ∃ rest, Visits m a rest e ∧ i + rest.length = n := by
  induction h with
  | first => exact ⟨.first, fun b _ => AgreeOn.refl _ _ _, hs, hvisits, by omega⟩
  | @next m' a i _ hname ih =>
      obtain ⟨hscanned, hag, rest, hrest, hleft⟩ := ih
      have hname' : m a ≠ 0 := by
        rwa [← (header_congr (hag a hscanned)).1]
      cases rest with
      | nil => exact absurd hrest.2 hname'
      | cons b rest =>
          obtain ⟨rfl, -, hrest⟩ := hrest
          rw [List.length_cons] at hleft
          have hag' := fun b hb => hoff.agree (a := a) (i := i) (by omega) hb (hag b hb)
          rw [(header_congr (hag' a hscanned)).2, Nat.mod_eq_of_lt (by omega)]
          exact ⟨hscanned.next hname', hag', rest, hrest, by omega⟩

/-! ## Termination -/

/-- Where every step goes forward, the scan looks at the entries that follow each other. -/
theorem EntryAt.scanned (hfirst : first < 2 ^ 32)
    (hforward : ∀ b, Scanned m first b → m b ≠ 0 → b < nextHeader m b) (h : EntryAt m first a) :
    Scanned m first a := by
  induction h with
  | first => exact .first
  | next _ hname ih =>
      rw [← (nextHeader_forward (ih.lt hfirst)).2 (hforward _ ih hname)]
      exact ih.next hname

/-- Where every entry ends inside the address space, every step goes forward. -/
theorem Scanned.entryAt (hfirst : first < 2 ^ 32)
    (hfits : ∀ b, EntryAt m first b → m b ≠ 0 → b + entryStep (declaredSize m b) < 2 ^ 32)
    (h : Scanned m first a) : EntryAt m first a := by
  induction h with
  | first => exact .first
  | next hscanned hname ih =>
      have hstep := nextHeader_forward (m := m) (hscanned.lt hfirst)
      rw [hstep.2 (hstep.1.mpr (hfits _ ih hname))]
      exact ih.next hname

/-- **Termination of the scans.** Whatever the memory holds, `count_files` and
`add_files_to_list` end, every step of both strictly forward, if and only if each entry, counted
from `first_file` on, ends inside the address space. -/
theorem scan_terminates (hfirst : first < 2 ^ 32) : ScansEnd m first ↔
    ∀ a, EntryAt m first a → m a ≠ 0 → a + entryStep (declaredSize m a) < 2 ^ 32 := by
  constructor
  · intro h a ha hname
    have hscanned := ha.scanned hfirst h.forward
    exact (nextHeader_forward (hscanned.lt hfirst)).1.mp (h.forward a hscanned hname)
  · intro hfits
    have hforward : ∀ b, Scanned m first b → m b ≠ 0 → b < nextHeader m b := by
      intro b hb hname
      exact (nextHeader_forward (hb.lt hfirst)).1.mpr (hfits b (hb.entryAt hfirst hfits) hname)
    obtain ⟨hs, e, hvisits, hlen⟩ := exists_visits hfirst hforward .first
    have hmax : hs.length < 2 ^ 32 := by omega
    have hcount : countFiles m walkLimit first 0 = .ok hs.length := by
      apply (countFiles_ok_iff (by decide)).mpr
      exact ⟨hs, e, hvisits, hmax, by omega⟩
    refine ⟨hforward, hs.length, hcount, fun files hoff =>
      ⟨⟨fillSlots files m 0 hs, ?_⟩, ?_⟩⟩
    · refine addFilesToList_eq (i := 0) hvisits hmax (by omega) (fun b hb j hj => ?_)
      obtain ⟨hall, hend⟩ := hvisits.scanned .first
      rw [Nat.zero_add]
      rcases hb with hb | rfl
      · exact hoff b (hall b hb) j hj
      · exact hoff b hend j hj
    · intro m' a i hadding hname
      obtain ⟨hscanned, hag, rest, hrest, hleft⟩ := hadding.follows hoff hmax hvisits rfl
      have hname' : m a ≠ 0 := by
        rwa [← (header_congr (hag a hscanned)).1]
      have hi : i < hs.length := by
        cases rest with
        | nil => exact absurd hrest.2 hname'
        | cons b rest =>
            rw [List.length_cons] at hleft
            omega
      rw [(header_congr (hoff.agree hi hscanned (hag a hscanned))).2]
      exact hforward a hscanned hname'

end

/-- The archive of two entries. -/
theorem scan_terminates_small : ScansEnd smallArchive 0x2000 := by
  refine (scan_terminates (by decide)).mpr ?_
  have hstep : ∀ a, EntryAt smallArchive 0x2000 a → a = 0x2000 ∨ a = 0x2400 ∨ a = 0x2A00 := by
    intro a ha
    induction ha with
    | first => exact Or.inl rfl
    | next _ hname ih =>
        rcases ih with rfl | rfl | rfl
        · exact Or.inr (Or.inl (by decide))
        · exact Or.inr (Or.inr (by decide))
        · exact absurd (by decide) hname
  intro a ha hname
  rcases hstep a ha with rfl | rfl | rfl
  · decide
  · decide
  · exact absurd (by decide) hname

/-- The image whose one entry declares `37777777000` bytes, which is `2 ^ 32 - 512`. -/
def endlessImage : Mem := fun x =>
  if x = 0x2000 then 97
  else if x = 0x207C then 51
  else if 0x207D ≤ x ∧ x < 0x2084 then 55
  else if 0x2084 ≤ x ∧ x < 0x2087 then 48
  else 0

/-- There the first scan never leaves the first header. -/
theorem scan_terminates_fails : (∀ x, 0x2200 ≤ x → endlessImage x = 0) ∧
    (∀ fuel, countFiles endlessImage fuel 0x2000 0 = .error .endless) ∧
    ¬ ScansEnd endlessImage 0x2000 := by
  have hname : endlessImage 0x2000 ≠ 0 := by decide
  have hstay : nextHeader endlessImage 0x2000 = 0x2000 := by decide
  have hendless : ∀ fuel i, countFiles endlessImage fuel 0x2000 i = .error .endless := by
    intro fuel
    induction fuel with
    | zero => exact fun _ => rfl
    | succ fuel ih =>
        intro i
        rw [countFiles, if_pos hname, hstay]
        exact ih _
  refine ⟨fun x hx => ?_, fun fuel => hendless fuel 0, fun h => ?_⟩
  · unfold endlessImage
    rw [if_neg (by omega), if_neg (by omega), if_neg (by omega), if_neg (by omega)]
  · have hlt := h.forward 0x2000 .first hname
    rw [hstay] at hlt
    exact absurd hlt (lt_irrefl _)

/-! ## Sizes that are written in octal -/

/-- The `j`-th of the eleven octal digits of `n`, as a character. -/
def octalDigit (n j : Nat) : UInt8 := UInt8.ofNat (48 + n / 8 ^ (10 - j) % 8)

section
variable {m : Mem} {a n : Nat}

theorem octalDigit_toNat (n j : Nat) : (octalDigit n j).toNat = 48 + n / 8 ^ (10 - j) % 8 := by
  have hdigit := Nat.mod_lt (n / 8 ^ (10 - j)) (show 0 < 8 by decide)
  exact UInt8.toNat_ofNat_of_lt' (by simp only [UInt8.size]; omega)

/-- The first `j` digits are the number without the others. -/
theorem octal_octalDigit (hn : n < 8 ^ 11) {j : Nat} (hj : j ≤ 11) :
    octal (octalDigit n) j = n / 8 ^ (11 - j) := by
  induction j with
  | zero => exact (Nat.div_eq_of_lt hn).symm
  | succ j ih =>
      have hpow : 8 ^ (11 - j) = 8 ^ (10 - j) * 8 := by
        rw [show 11 - j = (10 - j) + 1 by omega, pow_succ]
      calc octal (octalDigit n) (j + 1)
          = 8 * (n / 8 ^ (11 - j)) + n / 8 ^ (10 - j) % 8 := by
            rw [octal, ih (by omega), octalDigit_toNat, Nat.add_sub_cancel_left]
        _ = 8 * (n / 8 ^ (10 - j) / 8) + n / 8 ^ (10 - j) % 8 := by
            rw [hpow, Nat.div_div_eq_div_mul]
        _ = n / 8 ^ (11 - (j + 1)) := by
            rw [Nat.div_add_mod, show 11 - (j + 1) = 10 - j by omega]

/-- **Decoding a size.** `get_size` returns the number whose eleven octal digits the field holds,
modulo `2 ^ 32`, and up to `2 ^ 32 - 1024` both scans step over a header and the content, padded
to a multiple of 512. -/
theorem size_decoding (hn : n < 8 ^ 11) (hfield : ∀ j < 11, sizeField m a j = octalDigit n j) :
    getSize (sizeField m a) = n % 2 ^ 32 ∧
    (n ≤ 2 ^ 32 - 1024 → nextHeader m a = (a + entrySpan n) % 2 ^ 32) := by
  have hdigits : ∀ j < 11, 48 ≤ (sizeField m a j).toNat ∧ (sizeField m a j).toNat < 56 := by
    intro j hj
    have hdigit := Nat.mod_lt (n / 8 ^ (10 - j)) (show 0 < 8 by decide)
    rw [hfield j hj, octalDigit_toNat]
    omega
  have hvalue : octal (sizeField m a) 11 = n := by
    rw [octal_congr hfield, octal_octalDigit hn le_rfl]
    exact Nat.div_one n
  have hsize : getSize (sizeField m a) = n % 2 ^ 32 := by
    have hlt : getSize (sizeField m a) < 2 ^ 32 := getSizeLoop_lt (by decide)
    have hloop := getSizeLoop_eq hdigits 0 1
    rw [hvalue, Nat.zero_add, Nat.mul_one] at hloop
    rw [← hloop]
    exact (Nat.mod_eq_of_lt hlt).symm
  refine ⟨hsize, fun hle => ?_⟩
  unfold nextHeader entrySpan
  rw [hsize, Nat.mod_eq_of_lt (by omega)]
  simp only
  split <;> omega

end

/-- The second field of the archive. -/
theorem size_decoding_small : getSize (sizeField smallArchive 0x2400) = 600 ∧
    nextHeader smallArchive 0x2400 = 0x2A00 := by
  obtain ⟨hsize, hstep⟩ := size_decoding (m := smallArchive) (a := 0x2400) (n := 600) (by decide)
    (by decide)
  exact ⟨hsize, hstep (by decide)⟩

end DayOS
