import DayOS.HeapBounds
import DayOS.RamdiskScan

set_option autoImplicit false

/-! # The file table (`ramdisk.c`)

`InitRamdisk` asks the heap for as many entries as `count_files` has counted, and
`add_files_to_list` fills them without looking at the count. Between the two scans the heap
writes its headers. As long as no header of the scan lies in the heap, the second scan stores
exactly the headers of the first one, and the lookups read nothing but the entries.
-/

namespace DayOS

open ByteMemory CString

/-- The addresses in the table that the loop of both lookups reads. -/
def lookupReads (m : Mem) (files : Nat) (name : Nat → UInt8) : Nat → Nat → List Nat
  | 0, _ => []
  | k + 1, i =>
      let file := load32 m (fileSlot files i)
      fileSlot files i ::
        if strcmp name (bytesAt m file) walkLimit = 0 then []
        else lookupReads m files name k (i + 1)

/-- The addresses in the table that a lookup reads. -/
def tableReads (m : Mem) (rd : Ramdisk) (name : Nat → UInt8) : List Nat :=
  if rd.files = NULL then [] else lookupReads m rd.files name rd.fileno 0

/-- The address belongs to the heap: it lies between `HEAP_START` and `HEAP_END`, or in the block
`b`, which may reach behind, or in the header of this block. -/
def HeapByte (L : Layout) (b : Block) (x : Nat) : Prop :=
  (L.heapStart ≤ x ∧ x < L.heapEnd) ∨
    ∃ k < headerSize + b.size, x % 2 ^ 32 = (b.addr - headerSize + k) % 2 ^ 32

/-- The table lists the headers `hs`. -/
def Lists (m : Mem) (files : Nat) (hs : List Nat) : Prop :=
  ∀ i x, hs[i]? = some x → load32 m (fileSlot files i) = x

/-- Both lookups go through the entries of `hs` only, and find the first header there that has
the name. -/
structure LooksUp (m : Mem) (rd : Ramdisk) (hs : List Nat) (name : Nat → UInt8) : Prop where
  reads : ∀ a ∈ tableReads m rd name, ∃ i < hs.length, a = fileSlot rd.files i
  content : ramDiskFileContent m rd name
    = ((hs.find? (fun x => strcmp name (bytesAt m x) walkLimit = 0)).map
        (fun file => (file + 512) % 2 ^ 32)).getD 0
  header : getRamDiskFile m rd name
    = (hs.find? (fun x => strcmp name (bytesAt m x) walkLimit = 0)).getD 0

section
variable {L : Layout} {lim : Nat} {m m₁ : Mem} {ns : List FirstFit.Node}
  {first files a i n : Nat} {hs : List Nat}

/-! ## Looking up -/

theorem lookupReads_mem {name : Nat → UInt8} {k : Nat} (h : a ∈ lookupReads m files name k i) :
    ∃ j, i ≤ j ∧ j < i + k ∧ a = fileSlot files j := by
  induction k generalizing i with
  | zero => cases h
  | succ k ih =>
      rcases List.mem_cons.mp h with rfl | h
      · exact ⟨i, le_rfl, by omega, rfl⟩
      · split at h
        · cases h
        · obtain ⟨j, hle, hlt, rfl⟩ := ih h
          exact ⟨j, by omega, by omega, rfl⟩

theorem Lists.looksUp (h : Lists m files hs) (hfiles : files ≠ NULL) (name : Nat → UInt8) :
    LooksUp m ⟨files, first, hs.length⟩ hs name := by
  have hlist : ∀ k x, hs[k]? = some x → load32 m ((files + 4 * (0 + k)) % 2 ^ 32) = x := by
    intro k x hk
    rw [Nat.zero_add]
    exact h k x hk
  refine ⟨fun a ha => ?_, ?_, ?_⟩
  · rw [tableReads, if_neg hfiles] at ha
    obtain ⟨j, -, hlt, rfl⟩ := lookupReads_mem ha
    rw [Nat.zero_add] at hlt
    exact ⟨j, hlt, rfl⟩
  · rw [ramDiskFileContent, if_neg hfiles]
    exact lookupLoop_eq _ hlist
  · rw [getRamDiskFile, if_neg hfiles]
    refine (lookupLoop_eq _ hlist).trans ?_
    rw [Option.map_id']

/-! ## Between the scans -/

/-- A header outside the heap meets no entry of the block. -/
theorem slot_off_header (hp : L.heapStart + headerSize ≤ files)
    (hoff : ∀ x, a ≤ x → x < a + tarHeaderSize → ¬ HeapByte L ⟨files, 4 * n⟩ x) (hi : i < n) :
    fileSlot files i + 4 ≤ a ∨ a + tarHeaderSize ≤ fileSlot files i := by
  by_contra hmeet
  have h16 : headerSize = 16 := rfl
  have h157 : tarHeaderSize = 157 := rfl
  have hbyte : HeapByte L ⟨files, 4 * n⟩ (max a (fileSlot files i)) := by
    refine Or.inr ⟨headerSize + 4 * i + (max a (fileSlot files i) - fileSlot files i), ?_, ?_⟩
    · show _ < headerSize + 4 * n
      omega
    · show _ = (files - headerSize + _) % 2 ^ 32
      unfold fileSlot at hmeet ⊢
      omega
  exact hoff _ (le_max_left _ _) (by omega) hbyte

/-- **The file table.** Whatever the memory at `first_file` holds, if `count_files` ends with a
count from 1 to `2 ^ 30 - 1` and no header it looks at lies in the heap, the second scan stores
the headers of the first one, in order, into the entries of the block it got, and changes no
other byte. From then on both lookups read these entries only. -/
theorem file_table (hheap : IsHeap L lim m ns) (hlim : lim < 2 ^ 32) (hne : first ≠ 0)
    (hfirst : first < 2 ^ 32) (hcount : countFiles m walkLimit first 0 = .ok n) (hpos : 0 < n)
    (hn : n < 2 ^ 30) (hk : kmalloc L m (4 * n) = some (files, m₁))
    (hoff : ∀ a, Scanned m first a → ∀ x, a ≤ x → x < a + tarHeaderSize →
      ¬ HeapByte L ⟨files, 4 * n⟩ x) :
    ∃ hs e m', Visits m first hs e ∧ hs.length = n ∧
      initRamdisk (kernelHeap L) m first = .ok (m', ⟨files, first, n⟩) ∧
      (∀ x, (∀ i < n, x < fileSlot files i ∨ fileSlot files i + 4 ≤ x) → m' x = m₁ x) ∧
      Lists m' files hs ∧
      ∀ m'', Lists m'' files hs → ∀ name, LooksUp m'' ⟨files, first, n⟩ hs name := by
  have h16 : headerSize = 16 := rfl
  have hL := L.heapEnd_le
  obtain ⟨hs, e, hvisits, hfuel, hlen⟩ := (countFiles_ok_iff (by decide)).mp hcount
  rw [Nat.zero_add, Nat.mod_eq_of_lt (by exact hfuel)] at hlen
  subst hlen
  obtain ⟨⟨hge, hlt⟩, hkeep⟩ := hheap.kmalloc_writes hlim (Or.inl (by omega)) hk
  have hfiles : files ≠ NULL := by
    simp only [NULL]
    omega
  obtain ⟨hscanned, hend⟩ := hvisits.scanned .first
  have hall : ∀ b, b ∈ hs ∨ b = e → Scanned m first b := by
    rintro b (hb | rfl)
    · exact hscanned b hb
    · exact hend
  -- what the heap writes between the scans is in the heap
  have hvisits₁ : Visits m₁ first hs e := by
    refine hvisits.congr (fun b hb x hx hx' => ?_)
    have hx := hoff b (hall b hb) x hx hx'
    refine hkeep x (fun hin => hx (Or.inl hin)) (fun hin => hx (Or.inr ⟨x - (files - headerSize), ?_, ?_⟩))
    · show _ < headerSize + 4 * hs.length
      omega
    · show _ = (files - headerSize + _) % 2 ^ 32
      rw [Nat.add_sub_cancel' hin.1]
  have hadd : addFilesToList files walkLimit m₁ first 0 = .ok (fillSlots files m₁ 0 hs) := by
    refine addFilesToList_eq hvisits₁ hfuel (by omega) (fun b hb j hj => ?_)
    rw [Nat.zero_add]
    exact slot_off_header hge (hoff b (hall b hb)) hj
  have hmalloc : (kernelHeap L).kmalloc m (4 * hs.length % 2 ^ 32) = some (files, m₁) := by
    rw [Nat.mod_eq_of_lt (by omega)]
    exact hk
  have hlists : Lists (fillSlots files m₁ 0 hs) files hs := by
    intro i x hx
    have hentry : load32 (fillSlots files m₁ 0 hs) (fileSlot files (0 + i)) = x :=
      load32_fillSlots (by omega) (fun b hb => (hscanned b hb).lt hfirst) hx
    rwa [Nat.zero_add] at hentry
  refine ⟨hs, e, fillSlots files m₁ 0 hs, hvisits, rfl, ?_, fun x hx => ?_, hlists,
    fun m'' hm'' name => hm''.looksUp hfiles name⟩
  · unfold initRamdisk
    rw [if_neg hne, hcount]
    show (if hs.length = 0 then _ else _ : Except Fault (Mem × Ramdisk)) = _
    rw [if_neg (by omega), hmalloc]
    show (if files = NULL then _ else _ : Except Fault (Mem × Ramdisk)) = _
    rw [if_neg hfiles, hadd]
    rfl
  · apply fillSlots_of_outside
    intro k hk
    rw [Nat.zero_add]
    exact hx k hk

end

/-- The table of the archive of two entries. -/
theorem file_table_small : ∃ hs e m', Visits smallArchive 0x2000 hs e ∧ hs.length = 2 ∧
    initRamdisk (kernelHeap Layout.least) smallArchive 0x2000 = .ok (m', ⟨0x301020, 0x2000, 2⟩) ∧
    Lists m' 0x301020 hs := by
  have hscanned : ∀ a, Scanned smallArchive 0x2000 a → a = 0x2000 ∨ a = 0x2400 ∨ a = 0x2A00 := by
    intro a ha
    induction ha with
    | first => exact Or.inl rfl
    | next _ hname ih =>
        rcases ih with rfl | rfl | rfl
        · exact Or.inr (Or.inl (by decide))
        · exact Or.inr (Or.inr (by decide))
        · exact absurd (by decide) hname
  have hcount : countFiles smallArchive walkLimit 0x2000 0 = .ok 2 := by
    apply (countFiles_ok_iff (by decide)).mpr
    exact ⟨[0x2000, 0x2400], 0x2A00,
      ⟨rfl, by decide, by decide, by decide, by decide, by decide⟩, by decide, rfl⟩
  have hstart : Layout.least.heapStart = 0x301000 := by decide
  obtain ⟨hs, e, m', hvisits, hlen, hinit, -, hlists, -⟩ := file_table
    (isHeap_init (L := Layout.least) _) (by decide) (by decide) (by decide) hcount (by decide)
    (by decide) (kmalloc_kinitHeap Layout.least _ (by decide)) (fun a ha x hx hx' hbyte => by
      have h16 : headerSize = 16 := rfl
      have h157 : tarHeaderSize = 157 := rfl
      rcases hbyte with ⟨hlow, -⟩ | ⟨k, hk, hmod⟩
      · rcases hscanned a ha with rfl | rfl | rfl <;> omega
      · simp only [hstart, h16] at hk hmod
        rcases hscanned a ha with rfl | rfl | rfl <;> omega)
  exact ⟨hs, e, m', hvisits, hlen, hinit, hlists⟩

end DayOS
