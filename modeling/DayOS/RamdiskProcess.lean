import DayOS.KernelProcess
import DayOS.RamdiskLookup

set_option autoImplicit false

/-! # The ramdisk daemon (`ramdisk.c`)

`ramdisk_process` answers three kinds of requests in a loop. The layout of a request and of
`struct stat`, the numbers of the signals and the functions that send are not part of the
sources; they are taken as parameters (`Vfs`) and as the answers a turn of the loop gives.

The daemon's own variables are the message and, in `GetRamDiskFileRel`, a buffer `fullpath` of
512 bytes on its stack, which lies apart from the archive and from the list of headers.
-/

namespace DayOS

open ByteMemory CString

/-! ## The code -/

/-- `SIGNAL_FAIL`, the constant `-1` in an unsigned word. -/
def SIGNAL_FAIL : UInt32 := 0xFFFFFFFF

/-- What `vfs.h` and `sys/stat.h` fix: signals and modes, the fields of a `vfs_request` in the
bytes of a message, and the fields of a `stat` that are written over them. The three signals
are case labels of one `switch`. -/
structure Vfs where
  FS_SIGNAL_OPEN : UInt32
  FS_SIGNAL_STAT : UInt32
  FS_SIGNAL_READ : UInt32
  VFS_MODE_RO : UInt32
  mode : Vector UInt8 512 → UInt32
  offset : Vector UInt8 512 → UInt32
  path : Vector UInt8 512 → Nat → UInt8
  setDev : UInt32 → Vector UInt8 512 → Vector UInt8 512
  setSize : Nat → Vector UInt8 512 → Vector UInt8 512
  statSize : Vector UInt8 512 → Nat
  open_ne_stat : FS_SIGNAL_STAT ≠ FS_SIGNAL_OPEN
  open_ne_read : FS_SIGNAL_READ ≠ FS_SIGNAL_OPEN
  stat_ne_read : FS_SIGNAL_READ ≠ FS_SIGNAL_STAT
  statSize_setSize : ∀ n buf, n < 2 ^ 32 → statSize (setSize n buf) = n

/-- What the daemon sends: a message, or a stream of bytes of its memory. -/
inductive Answer where
  | reply (receiver : UInt32) (msg : Message)
  | stream (receiver : UInt32) (start size : Nat)

/-- The process an answer goes to. -/
def Answer.receiver : Answer → UInt32
  | reply receiver _ => receiver
  | stream receiver _ _ => receiver

/-- The result of a turn of the loop: the memory, what was sent, and the results of lookups
whose header or content was read. -/
structure Handled where
  mem : Mem
  answers : List Answer
  reads : List Nat

/-- The string literal `"."`. -/
def dot : Nat → UInt8 := fun i => if i = 0 then 46 else 0

/-- `GetRamDiskFileRel`. `none` is a path that runs over the end of the buffer, after which
anything may happen. -/
def getRamDiskFileRel (m : Mem) (rd : Ramdisk) (fullpath : Nat) (path : Nat → UInt8) :
    Option (Mem × Nat) := do
  let m := strcpy m fullpath dot walkLimit
  let n ← strlen path walkLimit
  if n > 1 then
    if n + 2 > 512 then none
    else
      let m ← strcat m fullpath path walkLimit
      return (m, getRamDiskFile m rd (bytesAt m fullpath))
  else return (m, getRamDiskFile m rd (bytesAt m fullpath))

/-- One turn of the loop of `ramdisk_process`, for the message received. -/
def ramdiskProcess (V : Vfs) (rd : Ramdisk) (fullpath : Nat) (m : Mem) (msg : Message) :
    Option Handled :=
  if msg.signal = V.FS_SIGNAL_OPEN then
    -- the file is looked up for the right mode only
    if V.mode msg.message ≠ V.VFS_MODE_RO then
      some ⟨m, [.reply msg.sender { msg with signal := SIGNAL_FAIL }], []⟩
    else do
      let (m, f) ← getRamDiskFileRel m rd fullpath (V.path msg.message)
      let signal := if f = NULL then SIGNAL_FAIL else SIGNAL_OK
      return ⟨m, [.reply msg.sender { msg with signal := signal }], []⟩
  else if msg.signal = V.FS_SIGNAL_STAT then do
    let (m, f) ← getRamDiskFileRel m rd fullpath (V.path msg.message)
    if f = NULL then return ⟨m, [.reply msg.sender { msg with signal := SIGNAL_FAIL }], []⟩
    else
      let stat := V.setSize (getSize (sizeField m f)) (V.setDev msg.receiver msg.message)
      return ⟨m, [.reply msg.sender { msg with message := stat, signal := SIGNAL_OK }], [f]⟩
  else if msg.signal = V.FS_SIGNAL_READ then do
    let (m, f) ← getRamDiskFileRel m rd fullpath (V.path msg.message)
    let data := (f + 512) % 2 ^ 32
    -- the size is read before the result of the lookup is tested
    let fsz := getSize (sizeField m f)
    let sz := if msg.size.toNat < fsz then msg.size.toNat else fsz
    if f = NULL ∨ ((V.offset msg.message).toNat + sz) % 2 ^ 32 > fsz then
      return ⟨m, [.reply msg.sender { msg with signal := SIGNAL_FAIL }], [f]⟩
    else return ⟨m, [.stream msg.sender ((data + (V.offset msg.message).toNat) % 2 ^ 32) sz], [f]⟩
  else some ⟨m, [], []⟩

/-! ## Looking up the file of a request -/

/-- The name a path of a request stands for. -/
def fullPath (path : List UInt8) : List UInt8 := if path.length > 1 then 46 :: path else [46]

/-- The archive and the list of headers are the same in `m'` as in `m`. -/
def Kept (rd : Ramdisk) (sizes : List Nat) (m m' : Mem) : Prop :=
  ∀ x, (rd.firstFile ≤ x ∧ x < archiveEnd rd.firstFile sizes) ∨
    (rd.files ≤ x ∧ x < rd.files + 4 * sizes.length) → m' x = m x

/-- The buffer lies apart from the archive and from the list of headers. -/
structure BufferApart (rd : Ramdisk) (sizes : List Nat) (fullpath : Nat) : Prop where
  archive : fullpath + 512 ≤ rd.firstFile ∨ archiveEnd rd.firstFile sizes ≤ fullpath
  files : fullpath + 512 ≤ rd.files ∨ rd.files + 4 * sizes.length ≤ fullpath

section
variable {m m' m₁ : Mem} {rd : Ramdisk} {a fullpath : Nat} {p s : List UInt8} {path : Nat → UInt8}
  {names : List (List UInt8)} {sizes : List Nat}

theorem Kept.refl : Kept rd sizes m m := fun _ _ => rfl

theorem Kept.trans (h₁ : Kept rd sizes m m₁) (h₂ : Kept rd sizes m₁ m') : Kept rd sizes m m' :=
  fun x hx => (h₂ x hx).trans (h₁ x hx)

/-- What a header spells ends in the archive, and depends on the archive only. -/
theorem spells_congr {x : Nat} (h : Archive m a sizes)
    (hm : ∀ x, a ≤ x → x < archiveEnd a sizes → m' x = m x) (hx : x ∈ headers a sizes) :
    Spells (bytesAt m' x) s ↔ Spells (bytesAt m x) s := by
  obtain ⟨t, ht, hlen⟩ := h.spells hx
  obtain ⟨hax, -⟩ := headers_bounds hx
  have ht' : Spells (bytesAt m' x) t :=
    ht.congr (fun i hi => hm (x + i) (by omega) (by omega))
  constructor
  · exact fun hs => hs.unique ht' ▸ ht
  · exact fun hs => hs.unique ht ▸ ht'

theorem seenAs_congr (h : Archive m a sizes)
    (hm : ∀ x, a ≤ x → x < archiveEnd a sizes → m' x = m x) :
    seenAs m' (headers a sizes) s = seenAs m (headers a sizes) s := by
  unfold seenAs
  refine List.find?_congr (fun x hx => ?_)
  rw [decide_eq_decide]
  exact spells_congr h hm hx

/-- A ramdisk stays mounted while its archive and its list stay what they are. -/
theorem Mounted.congr (h : Mounted m rd names sizes) (hm : Kept rd sizes m m') :
    Mounted m' rd names sizes := by
  refine ⟨h.archive.congr (fun x hx hx' => hm x (Or.inl ⟨hx, hx'⟩)), ?_, h.first, h.fits, h.fileno,
    h.files, h.listFits, fun i x hi => ?_⟩
  · refine List.forall₂_iff_zip.mpr ⟨h.names.length_eq, fun {x n} hxn => ?_⟩
    obtain ⟨h₁, h₂⟩ := headers_bounds (List.of_mem_zip hxn).1
    exact ((List.forall₂_iff_zip.mp h.names).2 hxn).congr
      (fun y hy hy' => hm y (Or.inl ⟨by omega, by omega⟩))
  · rw [← h.listed i x hi]
    have hlt : i < sizes.length := by
      rw [← headers_length rd.firstFile sizes]
      exact (List.getElem?_eq_some_iff.mp hi).1
    exact load32_congr (fun y hy hy' => hm y (Or.inr ⟨by omega, by omega⟩))

theorem dot_spells : Spells dot [46] := ⟨rfl, by decide, rfl⟩

/-- **The lookup of a request**: the first header that spells the full path, with nothing
written outside the buffer. -/
theorem getRamDiskFileRel_eq (h : Mounted m rd names sizes) (hb : BufferApart rd sizes fullpath)
    (hp : Spells path p) (hlen : p.length ≤ 510) : ∃ m',
    getRamDiskFileRel m rd fullpath path
      = some (m', (seenAs m (headers rd.firstFile sizes) (fullPath p)).getD 0) ∧
    Kept rd sizes m m' := by
  have hkept : ∀ m' : Mem, (∀ x, (x < fullpath ∨ fullpath + 512 ≤ x) → m' x = m x) →
      Kept rd sizes m m' := by
    intro m' hout x hx
    have h₁ := hb.archive
    have h₂ := hb.files
    exact hout x (by omega)
  have hfind : ∀ m' : Mem, Kept rd sizes m m' → Spells (bytesAt m' fullpath) (fullPath p) →
      getRamDiskFile m' rd (bytesAt m' fullpath)
        = (seenAs m (headers rd.firstFile sizes) (fullPath p)).getD 0 := by
    intro m' hk hs
    have hshort : (fullPath p).length < walkLimit := by
      unfold fullPath
      split <;> simp only [List.length_cons, List.length_nil, walkLimit] <;> omega
    rw [(h.congr hk).getRamDiskFile_eq hs hshort,
      seenAs_congr h.archive (fun x hx hx' => hk x (Or.inl ⟨hx, hx'⟩))]
  obtain ⟨hdot, hout⟩ := strcpy_spells dot_spells (show [46].length < walkLimit by decide) m fullpath
  have hn : strlen path walkLimit = some p.length :=
    strlen_eq_some hp (by simp only [walkLimit]; omega)
  unfold getRamDiskFileRel
  generalize strcpy m fullpath dot walkLimit = m₁ at hdot hout
  simp only [hn, Option.bind_eq_bind, Option.bind_some, Option.pure_def]
  simp only [List.length_cons, List.length_nil] at hout
  by_cases hlong : p.length > 1
  · obtain ⟨m₂, hcat, hspell, hout₂⟩ := strcat_spells hdot hp
      (show [46].length + p.length < walkLimit by simp only [walkLimit, List.length_cons, List.length_nil]; omega)
    simp only [List.length_cons, List.length_nil] at hout₂
    have hk : Kept rd sizes m m₂ := hkept m₂ (fun x hx => by
      rw [hout₂ x (by omega), hout x (by omega)])
    have hfull : fullPath p = [46] ++ p := by simp [fullPath, hlong]
    refine ⟨m₂, ?_, hk⟩
    rw [if_pos hlong, if_neg (by omega), hcat, Option.bind_some,
      hfind m₂ hk (hfull ▸ hspell)]
  · have hk : Kept rd sizes m m₁ := hkept m₁ (fun x hx => hout x (by omega))
    have hfull : fullPath p = [46] := by simp [fullPath, hlong]
    refine ⟨m₁, ?_, hk⟩
    rw [if_neg hlong, hfind m₁ hk (hfull ▸ hdot)]

theorem fullPath_length_le (p : List UInt8) : p.length ≤ (fullPath p).length := by
  unfold fullPath
  split
  · exact Nat.le_succ _
  · exact not_lt.mp ‹_›

/-! ## The files behind the headers -/

/-- `header` is the header of an entry named `s` with a content of `size` bytes. -/
def IsFile (rd : Ramdisk) (names : List (List UInt8)) (sizes : List Nat) (s : List UInt8)
    (header size : Nat) : Prop :=
  ∃ i : Nat, names[i]? = some s ∧ (headers rd.firstFile sizes)[i]? = some header ∧
    sizes[i]? = some size

/-- The content of an entry ends in the archive, in front of its last header. -/
theorem content_fits {i x size : Nat} (hx : (headers a sizes)[i]? = some x)
    (hsize : sizes[i]? = some size) : x + 512 + size + 512 ≤ archiveEnd a sizes := by
  induction sizes generalizing a i with
  | nil => cases hsize
  | cons n sizes ih =>
      cases i with
      | zero =>
          obtain rfl : a = x := by simpa [headers] using hx
          obtain rfl : n = size := by simpa using hsize
          have hle := le_archiveEnd (a + entrySpan n) sizes
          have hspan : 512 + n ≤ entrySpan n := by
            unfold entrySpan
            omega
          simp only [archiveEnd]
          omega
      | succ i => exact ih (by simpa [headers] using hx) (by simpa using hsize)

/-- The header of a file carries the size of its content. -/
theorem Mounted.getSize_eq (h : Mounted m rd names sizes) {header size : Nat}
    (hf : IsFile rd names sizes s header size) :
    getSize (sizeField m header) = size ∧ size < 2 ^ 32 := by
  obtain ⟨i, -, hheader, hsize⟩ := hf
  refine ⟨?_, h.archive.size_lt (List.mem_of_getElem? hsize)⟩
  have hget := congrArg (fun l => l[i]?) h.archive.getSize_header
  simpa [hheader, hsize] using hget

/-- The header a lookup of a short name stops at is the header of a file of that name. -/
theorem Mounted.isFile (h : Mounted m rd names sizes) {header : Nat}
    (hseen : seenAs m (headers rd.firstFile sizes) s = some header) (hs : s ∈ names) :
    ∃ size, IsFile rd names sizes s header size := by
  obtain ⟨i, hi, rfl⟩ := List.getElem_of_mem (List.mem_of_find?_eq_some hseen)
  have hi' : i < names.length := h.names.length_eq ▸ hi
  have hi₂ : i < sizes.length := h.length_eq ▸ hi'
  have hspell : Spells (bytesAt m (headers rd.firstFile sizes)[i]) s := by
    simpa using List.find?_some hseen
  have hshort := h.length_le hs
  -- a full field with no NUL behind it is seen as a longer name
  have hname : names[i] = s := by
    by_cases hend : Terminated m (headers rd.firstFile sizes)[i] names[i]
    · exact ((h.hasName hi' hi).spells_iff hend).mp hspell
    · have := (h.hasName hi' hi).lt_of_spells hend hspell
      omega
  exact ⟨sizes[i], i, by simp [hi', hname], by simp, by simp⟩

end

/-! ## READ requests -/

/-- The daemon answers the READ request `msg` for the name `s` with `SIGNAL_FAIL`, or streams
the range asked for, which lies inside the content of a file of that name. -/
def ReadInside (V : Vfs) (rd : Ramdisk) (names : List (List UInt8)) (sizes : List Nat)
    (fullpath : Nat) (m : Mem) (msg : Message) (s : List UInt8) : Prop :=
  ∃ out, ramdiskProcess V rd fullpath m msg = some out ∧
    (out.answers = [.reply msg.sender { msg with signal := SIGNAL_FAIL }] ∨
      ∃ header size, IsFile rd names sizes s header size ∧
        (V.offset msg.message).toNat + min msg.size.toNat size ≤ size ∧
        out.answers = [.stream msg.sender (header + 512 + (V.offset msg.message).toNat)
          (min msg.size.toNat size)])

section
variable {V : Vfs} {m : Mem} {rd : Ramdisk} {fullpath : Nat} {p : List UInt8}
  {names : List (List UInt8)} {sizes : List Nat} {msg : Message}

/-- What a READ request leads to, in terms of the lookup. -/
theorem ramdiskProcess_read (h : Mounted m rd names sizes) (hb : BufferApart rd sizes fullpath)
    (hread : msg.signal = V.FS_SIGNAL_READ) (hp : Spells (V.path msg.message) p)
    (hlen : p.length ≤ 510) : ∃ m', Kept rd sizes m m' ∧
    ramdiskProcess V rd fullpath m msg = (
      let f := (seenAs m (headers rd.firstFile sizes) (fullPath p)).getD 0
      let fsz := getSize (sizeField m' f)
      let sz := if msg.size.toNat < fsz then msg.size.toNat else fsz
      if f = NULL ∨ ((V.offset msg.message).toNat + sz) % 2 ^ 32 > fsz then
        some ⟨m', [.reply msg.sender { msg with signal := SIGNAL_FAIL }], [f]⟩
      else some ⟨m', [.stream msg.sender
        (((f + 512) % 2 ^ 32 + (V.offset msg.message).toNat) % 2 ^ 32) sz], [f]⟩) := by
  obtain ⟨m', hget, hkept⟩ := getRamDiskFileRel_eq h hb hp hlen
  refine ⟨m', hkept, ?_⟩
  unfold ramdiskProcess
  rw [if_neg (hread ▸ V.open_ne_read), if_neg (hread ▸ V.stat_ne_read), if_pos hread, hget]
  rfl

theorem Mounted.header_ne_zero (h : Mounted m rd names sizes) {header : Nat}
    (hx : header ∈ headers rd.firstFile sizes) : header ≠ 0 := by
  have hfirst := h.first
  obtain ⟨hle, -⟩ := headers_bounds hx
  omega

/-- The fields of a header are in the archive. -/
theorem headers_agree {m' : Mem} {a x : Nat} (hx : x ∈ headers a sizes)
    (hm : ∀ y, a ≤ y → y < archiveEnd a sizes → m' y = m y) : AgreeOn m m' x tarHeaderSize := by
  obtain ⟨h₁, h₂⟩ := headers_bounds hx
  intro y hy hy'
  rw [tarHeaderSize] at hy'
  exact hm y (by omega) (by omega)

/-- **READ requests.** A READ request for an existing file is answered with a failure or with
the range it asks for, inside the file, if and only if the sum of its offset and its size, cut
down to the size of the file the lookup finds, does not wrap. -/
theorem read_inside (V : Vfs) (h : Mounted m rd names sizes) (hb : BufferApart rd sizes fullpath)
    (hread : msg.signal = V.FS_SIGNAL_READ) (hp : Spells (V.path msg.message) p)
    (hfile : fullPath p ∈ names) :
    ReadInside V rd names sizes fullpath m msg (fullPath p) ↔
      ∀ header size, seenAs m (headers rd.firstFile sizes) (fullPath p) = some header →
        IsFile rd names sizes (fullPath p) header size →
        (V.offset msg.message).toNat + min msg.size.toNat size < 2 ^ 32 := by
  have hlen : p.length ≤ 510 := by
    have h₁ := h.length_le hfile
    have h₂ := fullPath_length_le p
    omega
  obtain ⟨m', hkept, hrun⟩ := ramdiskProcess_read (V := V) h hb hread hp hlen
  have hoffset := (V.offset msg.message).toNat_lt
  cases hseen : seenAs m (headers rd.firstFile sizes) (fullPath p) with
  | none =>
      -- a full name with no NUL behind it is not found
      constructor
      · intro _ header size hs
        cases hs
      · intro _
        refine ⟨⟨m', [.reply msg.sender { msg with signal := SIGNAL_FAIL }], [0]⟩, ?_, Or.inl rfl⟩
        rw [hrun, hseen]
        simp
  | some header =>
      have hmem : header ∈ headers rd.firstFile sizes := List.mem_of_find?_eq_some hseen
      have hne := h.header_ne_zero hmem
      obtain ⟨size, hisFile⟩ := h.isFile hseen hfile
      obtain ⟨hsize, hsizeLt⟩ := h.getSize_eq hisFile
      have hsize' : getSize (sizeField m' header) = size := by
        rw [getSize_congr (headers_agree hmem fun y hy hy' => hkept y (Or.inl ⟨hy, hy'⟩))]
        exact hsize
      have hmin : (if msg.size.toNat < size then msg.size.toNat else size)
          = min msg.size.toNat size := by
        split <;> omega
      simp only [hseen, Option.getD_some, hsize', hmin, NULL, hne, false_or] at hrun
      constructor
      · rintro ⟨out, hout, hans⟩ header' size' hs hfile'
        obtain rfl : header = header' := Option.some.inj hs
        obtain rfl : size = size' := hsize.symm.trans (h.getSize_eq hfile').1
        by_contra hwrap
        -- the wrapped sum passes the check
        have hcheck : ¬ ((V.offset msg.message).toNat + min msg.size.toNat size) % 2 ^ 32 > size := by
          omega
        rw [if_neg hcheck, hout, Option.some.injEq] at hrun
        rw [hrun] at hans
        rcases hans with hans | ⟨header', size', hfile', hin, hans⟩
        · cases hans
        · have hlt := (h.getSize_eq hfile').2
          simp only [List.cons.injEq, Answer.stream.injEq, and_true, true_and] at hans
          omega
      · intro hno
        have hsum := hno header size rfl hisFile
        rw [Nat.mod_eq_of_lt hsum] at hrun
        by_cases hout : (V.offset msg.message).toNat + min msg.size.toNat size > size
        · rw [if_pos hout] at hrun
          exact ⟨_, hrun, Or.inl rfl⟩
        · rw [if_neg hout] at hrun
          refine ⟨_, hrun, Or.inr ⟨header, size, hisFile, not_lt.mp hout, ?_⟩⟩
          obtain ⟨i, -, hi, hsi⟩ := hisFile
          have hfits := h.fits
          have hcontent := content_fits hi hsi
          rw [Nat.mod_eq_of_lt (show header + 512 < 2 ^ 32 by omega), Nat.mod_eq_of_lt (by omega)]

end

/-! ## The protocol -/

/-- The message is one of the three requests. -/
def Vfs.Requests (V : Vfs) (msg : Message) : Prop :=
  msg.signal = V.FS_SIGNAL_OPEN ∨ msg.signal = V.FS_SIGNAL_STAT ∨ msg.signal = V.FS_SIGNAL_READ

/-- The request is one whose file is looked up. -/
def Vfs.LooksUp (V : Vfs) (msg : Message) : Prop :=
  (msg.signal = V.FS_SIGNAL_OPEN ∧ V.mode msg.message = V.VFS_MODE_RO) ∨
    msg.signal = V.FS_SIGNAL_STAT ∨ msg.signal = V.FS_SIGNAL_READ

/-- The message asks for nothing the daemon is not made for: the path of a lookup ends and fits
into the buffer, it is not the longer name that a full name field seems to hold, and a READ
request is for a file the lookup finds. -/
def WellAsked (V : Vfs) (m : Mem) (rd : Ramdisk) (names : List (List UInt8)) (sizes : List Nat)
    (msg : Message) : Prop :=
  V.LooksUp msg → ∃ p, Spells (V.path msg.message) p ∧ p.length ≤ 510 ∧
    ((seenAs m (headers rd.firstFile sizes) (fullPath p)).isSome → fullPath p ∈ names) ∧
    (msg.signal = V.FS_SIGNAL_READ → (seenAs m (headers rd.firstFile sizes) (fullPath p)).isSome)

/-- The one answer is a message with `SIGNAL_FAIL` to the sender of the request. -/
def Fails (msg : Message) (out : Handled) : Prop :=
  out.answers = [.reply msg.sender { msg with signal := SIGNAL_FAIL }]

/-- What the protocol promises for a turn of the loop, from the memory `m`. -/
structure Served (V : Vfs) (rd : Ramdisk) (names : List (List UInt8)) (sizes : List Nat) (m : Mem)
    (msg : Message) (out : Handled) : Prop where
  one : V.Requests msg → ∃ answer, out.answers = [answer] ∧ answer.receiver = msg.sender
  other : ¬ V.Requests msg → out.answers = []
  absent : V.Requests msg → ∀ p, Spells (V.path msg.message) p → fullPath p ∉ names → Fails msg out
  mode : msg.signal = V.FS_SIGNAL_OPEN → V.mode msg.message ≠ V.VFS_MODE_RO → Fails msg out
  stat : msg.signal = V.FS_SIGNAL_STAT → ∀ receiver reply, out.answers = [.reply receiver reply] →
    reply.signal = SIGNAL_OK → ∃ p header size, Spells (V.path msg.message) p ∧
      IsFile rd names sizes (fullPath p) header size ∧ V.statSize reply.message = size
  kept : Kept rd sizes m out.mem
  reads : ∀ f ∈ out.reads, f ≠ NULL

/-- What the daemon does from the memory `m₀` on: the memory reached, and the messages handled
with the memory each of them found. In between, the rest of the system may do anything that
keeps the archive and the list of headers. -/
inductive RamdiskRun (V : Vfs) (rd : Ramdisk) (names : List (List UInt8)) (sizes : List Nat)
    (fullpath : Nat) (m₀ : Mem) : Mem → List (Mem × Message × Handled) → Prop
  | start : RamdiskRun V rd names sizes fullpath m₀ m₀ []
  | other {m m' : Mem} {trace : List (Mem × Message × Handled)} :
      RamdiskRun V rd names sizes fullpath m₀ m trace → Kept rd sizes m m' →
      RamdiskRun V rd names sizes fullpath m₀ m' trace
  | message {m : Mem} {trace : List (Mem × Message × Handled)} {msg : Message} {out : Handled} :
      RamdiskRun V rd names sizes fullpath m₀ m trace → WellAsked V m rd names sizes msg →
      ramdiskProcess V rd fullpath m msg = some out →
      RamdiskRun V rd names sizes fullpath m₀ out.mem ((m, msg, out) :: trace)

section
variable {V : Vfs} {m m₀ : Mem} {rd : Ramdisk} {fullpath : Nat} {names : List (List UInt8)}
  {sizes : List Nat} {msg : Message} {out : Handled} {trace : List (Mem × Message × Handled)}

theorem signal_fail_ne_ok : SIGNAL_FAIL ≠ SIGNAL_OK := by decide

/-- The lookup of a well-asked request: `NULL` for a name that does not exist, or the header of
a file of that name. -/
theorem WellAsked.lookup (h : Mounted m rd names sizes) (hb : BufferApart rd sizes fullpath)
    (hask : WellAsked V m rd names sizes msg) (hlook : V.LooksUp msg) : ∃ p m' f,
    Spells (V.path msg.message) p ∧
    getRamDiskFileRel m rd fullpath (V.path msg.message) = some (m', f) ∧ Kept rd sizes m m' ∧
    (f ≠ NULL → ∃ size, IsFile rd names sizes (fullPath p) f size ∧
      getSize (sizeField m' f) = size ∧ size < 2 ^ 32) ∧
    (fullPath p ∉ names → f = NULL) ∧ (msg.signal = V.FS_SIGNAL_READ → f ≠ NULL) := by
  obtain ⟨p, hp, hlen, hnamed, hread⟩ := hask hlook
  obtain ⟨m', hget, hkept⟩ := getRamDiskFileRel_eq h hb hp hlen
  refine ⟨p, m', _, hp, hget, hkept, ?_⟩
  cases hseen : seenAs m (headers rd.firstFile sizes) (fullPath p) with
  | none =>
      rw [hseen] at hread
      exact ⟨fun hf => absurd rfl hf, fun _ => rfl, fun h0 => absurd (hread h0) (by simp)⟩
  | some header =>
      have hmem : header ∈ headers rd.firstFile sizes := List.mem_of_find?_eq_some hseen
      have hname : fullPath p ∈ names := hnamed (by rw [hseen]; rfl)
      obtain ⟨size, hisFile⟩ := h.isFile hseen hname
      obtain ⟨hsize, hlt⟩ := h.getSize_eq hisFile
      refine ⟨fun _ => ⟨size, hisFile, ?_, hlt⟩, fun hn => absurd hname hn,
        fun _ => h.header_ne_zero hmem⟩
      rw [Option.getD_some,
        getSize_congr (headers_agree hmem fun y hy hy' => hkept y (Or.inl ⟨hy, hy'⟩))]
      exact hsize

/-- The name of a path is the one the path spells. -/
theorem fullPath_unique {path : Nat → UInt8} {p q : List UInt8} (hp : Spells path p)
    (hq : Spells path q) : fullPath p = fullPath q := by
  rw [hp.unique hq]

/-- An OPEN request. -/
theorem ramdiskProcess_open (h : Mounted m rd names sizes) (hb : BufferApart rd sizes fullpath)
    (hask : WellAsked V m rd names sizes msg) (hopen : msg.signal = V.FS_SIGNAL_OPEN) :
    ∃ out, ramdiskProcess V rd fullpath m msg = some out ∧ Served V rd names sizes m msg out := by
  have hreq : V.Requests msg := Or.inl hopen
  have hstat : msg.signal ≠ V.FS_SIGNAL_STAT := fun h0 => V.open_ne_stat (h0.symm.trans hopen)
  unfold ramdiskProcess
  rw [if_pos hopen]
  by_cases hmode : V.mode msg.message ≠ V.VFS_MODE_RO
  · rw [if_pos hmode]
    exact ⟨_, rfl, fun _ => ⟨_, rfl, rfl⟩, fun hno => absurd hreq hno, fun _ _ _ _ => rfl,
      fun _ _ => rfl, fun h0 => absurd h0 hstat, Kept.refl, by simp⟩
  · rw [if_neg hmode]
    obtain ⟨p, m', f, hp, hget, hkept, -, habsent, -⟩ :=
      hask.lookup h hb (Or.inl ⟨hopen, not_not.mp hmode⟩)
    rw [hget]
    refine ⟨_, rfl, fun _ => ⟨_, rfl, rfl⟩, fun hno => absurd hreq hno, fun _ q hq hn => ?_,
      fun _ h0 => absurd h0 hmode, fun h0 => absurd h0 hstat, hkept, by simp⟩
    have hf : f = NULL := habsent (fullPath_unique hq hp ▸ hn)
    simp only [Fails, hf, if_true]

/-- A STAT request. -/
theorem ramdiskProcess_stat (h : Mounted m rd names sizes) (hb : BufferApart rd sizes fullpath)
    (hask : WellAsked V m rd names sizes msg) (hstat : msg.signal = V.FS_SIGNAL_STAT) :
    ∃ out, ramdiskProcess V rd fullpath m msg = some out ∧ Served V rd names sizes m msg out := by
  have hreq : V.Requests msg := Or.inr (Or.inl hstat)
  have hopen : msg.signal ≠ V.FS_SIGNAL_OPEN := fun h0 => V.open_ne_stat (hstat.symm.trans h0)
  obtain ⟨p, m', f, hp, hget, hkept, hfile, habsent, -⟩ := hask.lookup h hb (Or.inr (Or.inl hstat))
  unfold ramdiskProcess
  rw [if_neg hopen, if_pos hstat, hget]
  simp only [Option.bind_eq_bind, Option.bind_some, Option.pure_def]
  by_cases hf : f = NULL
  · rw [if_pos hf]
    refine ⟨_, rfl, fun _ => ⟨_, rfl, rfl⟩, fun hno => absurd hreq hno, fun _ _ _ _ => rfl,
      fun h0 => absurd h0 hopen, fun _ receiver reply hans hok => ?_, hkept, by simp⟩
    -- a failure is no success
    simp only [List.cons.injEq, Answer.reply.injEq, and_true] at hans
    rw [← hans.2] at hok
    exact absurd hok signal_fail_ne_ok
  · rw [if_neg hf]
    obtain ⟨size, hisFile, hsize, hlt⟩ := hfile hf
    refine ⟨_, rfl, fun _ => ⟨_, rfl, rfl⟩, fun hno => absurd hreq hno, fun _ q hq hn => ?_,
      fun h0 => absurd h0 hopen, fun _ receiver reply hans _ => ?_, hkept, by simpa using hf⟩
    · exact absurd (habsent (fullPath_unique hq hp ▸ hn)) hf
    · simp only [List.cons.injEq, Answer.reply.injEq, and_true] at hans
      refine ⟨p, f, size, hp, hisFile, ?_⟩
      rw [← hans.2]
      show V.statSize (V.setSize (getSize (sizeField m' f)) _) = size
      rw [hsize, V.statSize_setSize size _ hlt]

/-- A READ request. -/
theorem ramdiskProcess_readFile (h : Mounted m rd names sizes) (hb : BufferApart rd sizes fullpath)
    (hask : WellAsked V m rd names sizes msg) (hread : msg.signal = V.FS_SIGNAL_READ) :
    ∃ out, ramdiskProcess V rd fullpath m msg = some out ∧ Served V rd names sizes m msg out := by
  have hreq : V.Requests msg := Or.inr (Or.inr hread)
  have hopen : msg.signal ≠ V.FS_SIGNAL_OPEN := fun h0 => V.open_ne_read (hread.symm.trans h0)
  have hstat : msg.signal ≠ V.FS_SIGNAL_STAT := fun h0 => V.stat_ne_read (hread.symm.trans h0)
  obtain ⟨p, m', f, hp, hget, hkept, -, habsent, hfound⟩ :=
    hask.lookup h hb (Or.inr (Or.inr hread))
  have hf : f ≠ NULL := hfound hread
  unfold ramdiskProcess
  rw [if_neg hopen, if_neg hstat, if_pos hread, hget]
  simp only [Option.bind_eq_bind, Option.bind_some, Option.pure_def]
  have hreads : ∀ g ∈ [f], g ≠ NULL := by simpa using hf
  generalize (if msg.size.toNat < getSize (sizeField m' f) then msg.size.toNat
    else getSize (sizeField m' f)) = sz
  split
  case isTrue =>
      refine ⟨_, rfl, ?_⟩
      refine ⟨fun _ => ⟨_, rfl, rfl⟩, fun hno => absurd hreq hno, fun _ _ _ _ => ?_,
        fun h0 => absurd h0 hopen, fun h0 => absurd h0 hstat, hkept, hreads⟩
      rfl
  case isFalse =>
      refine ⟨_, rfl, ?_⟩
      refine ⟨fun _ => ⟨_, rfl, rfl⟩, fun hno => absurd hreq hno, fun _ q hq hn => ?_,
        fun h0 => absurd h0 hopen, fun h0 => absurd h0 hstat, hkept, hreads⟩
      exact absurd (habsent (fullPath_unique hq hp ▸ hn)) hf

/-- **One turn.** A well-asked message is handled as the protocol says. -/
theorem WellAsked.served (h : Mounted m rd names sizes) (hb : BufferApart rd sizes fullpath)
    (hask : WellAsked V m rd names sizes msg) :
    ∃ out, ramdiskProcess V rd fullpath m msg = some out ∧ Served V rd names sizes m msg out := by
  by_cases hreq : V.Requests msg
  · rcases hreq with hopen | hstat | hread
    · exact ramdiskProcess_open h hb hask hopen
    · exact ramdiskProcess_stat h hb hask hstat
    · exact ramdiskProcess_readFile h hb hask hread
  · obtain ⟨h₁, h₂, h₃⟩ : msg.signal ≠ V.FS_SIGNAL_OPEN ∧ msg.signal ≠ V.FS_SIGNAL_STAT ∧
        msg.signal ≠ V.FS_SIGNAL_READ := by
      simpa [Vfs.Requests] using hreq
    unfold ramdiskProcess
    rw [if_neg h₁, if_neg h₂, if_neg h₃]
    exact ⟨_, rfl, fun h0 => absurd h0 hreq, fun _ => rfl, fun h0 => absurd h0 hreq,
      fun h0 => absurd h0 h₁, fun h0 => absurd h0 h₂, Kept.refl, by simp⟩

/-- **Ramdisk request protocol.** In every run of the daemon all of whose messages are well
asked, each message is handled as the protocol says, the ramdisk stays what it is, and the next
well-asked message is handled. -/
theorem ramdisk_protocol (h₀ : Mounted m₀ rd names sizes) (hb : BufferApart rd sizes fullpath)
    (hrun : RamdiskRun V rd names sizes fullpath m₀ m trace) :
    (∀ e ∈ trace, Served V rd names sizes e.1 e.2.1 e.2.2) ∧ Kept rd sizes m₀ m ∧
    ∀ msg, WellAsked V m rd names sizes msg →
      ∃ out, ramdiskProcess V rd fullpath m msg = some out := by
  -- the memory reached still holds the ramdisk
  suffices hall : (∀ e ∈ trace, Served V rd names sizes e.1 e.2.1 e.2.2) ∧ Kept rd sizes m₀ m from
    ⟨hall.1, hall.2, fun msg hask => by
      obtain ⟨out, hout, -⟩ := hask.served (h₀.congr hall.2) hb
      exact ⟨out, hout⟩⟩
  induction hrun with
  | start => exact ⟨by simp, Kept.refl⟩
  | other _ hk ih => exact ⟨ih.1, ih.2.trans hk⟩
  | message _ hask hout ih =>
      obtain ⟨out', hout', hserved⟩ := hask.served (h₀.congr ih.2) hb
      obtain rfl := Option.some.inj (hout.symm.trans hout')
      exact ⟨List.forall_mem_cons.mpr ⟨hserved, ih.1⟩, ih.2.trans hserved.kept⟩

end

/-! ## On a small archive -/

/-- The bytes of a message text. -/
def textBytes (buf : Vector UInt8 512) : Mem := fun i => buf.toList.getD i 0

/-- The text with the word `n` at offset `i`. -/
def putWord (i n : Nat) (buf : Vector UInt8 512) : Vector UInt8 512 :=
  Vector.ofFn (fun j : Fin 512 => store32 (textBytes buf) i n j)

theorem textBytes_putWord {i n x : Nat} {buf : Vector UInt8 512} (hx : x < 512) :
    textBytes (putWord i n buf) x = store32 (textBytes buf) i n x := by
  simp [textBytes, putWord, hx]

theorem load32_putWord {i n : Nat} {buf : Vector UInt8 512} (hi : i + 4 ≤ 512) :
    load32 (textBytes (putWord i n buf)) i = n % 2 ^ 32 := by
  have hag : AgreeOn (store32 (textBytes buf) i n) (textBytes (putWord i n buf)) i 4 :=
    fun x _ _ => textBytes_putWord (by omega)
  rw [load32_congr hag, load32_store32]

/-- A layout of requests: mode, offset and path, in this order, and a `stat` that starts with
the device and has the size at offset 16. -/
def plainVfs : Vfs where
  FS_SIGNAL_OPEN := 10
  FS_SIGNAL_STAT := 11
  FS_SIGNAL_READ := 12
  VFS_MODE_RO := 1
  mode buf := UInt32.ofNat (load32 (textBytes buf) 0)
  offset buf := UInt32.ofNat (load32 (textBytes buf) 4)
  path buf := bytesAt (textBytes buf) 8
  setDev dev := putWord 0 dev.toNat
  setSize := putWord 16
  statSize buf := load32 (textBytes buf) 16
  open_ne_stat := by decide
  open_ne_read := by decide
  stat_ne_read := by decide
  statSize_setSize n _ hn := by rw [load32_putWord (by decide), Nat.mod_eq_of_lt hn]

/-- A request with the given signal, offset and size, for the path that is empty. -/
def emptyPath (signal offset size : Nat) : Message :=
  { Message.blank with
    signal := UInt32.ofNat signal
    size := UInt32.ofNat size
    message := putWord 4 offset (Vector.replicate 512 0) }

theorem textBytes_blank (x : Nat) : textBytes (Vector.replicate 512 0) x = 0 := by
  rw [textBytes, Vector.toList_replicate, List.getD_eq_getElem?_getD, List.getElem?_replicate]
  split <;> rfl

theorem emptyPath_spells (signal offset size : Nat) :
    Spells (plainVfs.path (emptyPath signal offset size).message) [] := by
  have hpath : plainVfs.path (emptyPath signal offset size).message 0
      = textBytes (putWord 4 offset (Vector.replicate 512 0)) 8 := by
    simp only [plainVfs, emptyPath, bytesAt]
  show plainVfs.path (emptyPath signal offset size).message 0 = 0
  rw [hpath, textBytes_putWord (by decide), store32_of_outside (by decide), textBytes_blank]

theorem emptyPath_offset (signal offset size : Nat) :
    plainVfs.offset (emptyPath signal offset size).message = UInt32.ofNat (offset % 2 ^ 32) := by
  show UInt32.ofNat (load32 (textBytes (putWord 4 offset (Vector.replicate 512 0))) 4) = _
  rw [load32_putWord (by decide)]

/-- The buffer on the stack of a daemon whose ramdisk is `oneFile`. -/
theorem oneFile_buffer : BufferApart ⟨0x301020, 0x2000, 1⟩ [5] 0x3000 :=
  ⟨Or.inr (by decide), Or.inl (by decide)⟩

/-- In the archive of one file, named `.`, the empty path is that file. -/
theorem oneFile_seen {m : Mem} (h : Mounted m ⟨0x301020, 0x2000, 1⟩ [[46]] [5]) :
    seenAs m (headers 0x2000 [5]) (fullPath []) = some 0x2000 := by
  have hname : HasName m 0x2000 [46] := by
    cases h.names with
    | cons hname _ => exact hname
  have hspell : Spells (bytesAt m 0x2000) [46] := hname.field.spells (Or.inl (by decide))
  have hheaders : headers 0x2000 [5] = [0x2000] := rfl
  have hfull : fullPath [] = [46] := rfl
  rw [hheaders, hfull, seenAs, List.find?_cons, decide_eq_true hspell]

/-- Two bytes from offset 3 of five lie inside the file. -/
theorem read_inside_small : ∃ m', ReadInside plainVfs ⟨0x301020, 0x2000, 1⟩ [[46]] [5] 0x3000 m'
    (emptyPath 12 3 2) [46] := by
  obtain ⟨m', -, hmounted⟩ := oneFile_mounted (c := 46) (by decide)
  refine ⟨m', (read_inside plainVfs hmounted oneFile_buffer rfl (emptyPath_spells 12 3 2)
    List.mem_cons_self).mpr (fun header size _ _ => ?_)⟩
  rw [emptyPath_offset]
  have hsize : (emptyPath 12 3 2).size.toNat = 2 := rfl
  have hoffset : (UInt32.ofNat (3 % 2 ^ 32)).toNat = 3 := rfl
  omega

/-- Two bytes from the last possible offset are streamed from in front of the content. -/
theorem read_inside_fails : ∃ m', Mounted m' ⟨0x301020, 0x2000, 1⟩ [[46]] [5] ∧
    (∃ out, ramdiskProcess plainVfs ⟨0x301020, 0x2000, 1⟩ 0x3000 m' (emptyPath 12 0xFFFFFFFF 2)
      = some out ∧ out.answers = [.stream 0 0x21FF 2]) ∧
    ¬ ReadInside plainVfs ⟨0x301020, 0x2000, 1⟩ [[46]] [5] 0x3000 m' (emptyPath 12 0xFFFFFFFF 2)
      [46] := by
  obtain ⟨m', -, hmounted⟩ := oneFile_mounted (c := 46) (by decide)
  have hseen := oneFile_seen hmounted
  obtain ⟨m₁, hkept, hrun⟩ := ramdiskProcess_read hmounted oneFile_buffer
    (show (emptyPath 12 0xFFFFFFFF 2).signal = plainVfs.FS_SIGNAL_READ from rfl)
    (emptyPath_spells 12 0xFFFFFFFF 2) (by decide)
  have hfile : IsFile ⟨0x301020, 0x2000, 1⟩ [[46]] [5] [46] 0x2000 5 := ⟨0, rfl, rfl, rfl⟩
  have hfsz : getSize (sizeField m₁ 0x2000) = 5 := by
    rw [getSize_congr (headers_agree (show 0x2000 ∈ headers 0x2000 [5] from List.mem_cons_self)
      fun y hy hy' => hkept y (Or.inl ⟨hy, hy'⟩))]
    exact (hmounted.getSize_eq hfile).1
  have hoffset : (plainVfs.offset (emptyPath 12 0xFFFFFFFF 2).message).toNat = 0xFFFFFFFF := by
    rw [emptyPath_offset]
    rfl
  have hsize : (emptyPath 12 0xFFFFFFFF 2).size.toNat = 2 := rfl
  have hsender : (emptyPath 12 0xFFFFFFFF 2).sender = 0 := rfl
  simp only [hseen, Option.getD_some, hfsz, hoffset, hsize, hsender, NULL] at hrun
  norm_num at hrun
  refine ⟨m', hmounted, ⟨_, hrun, rfl⟩, ?_⟩
  rintro ⟨out, hout, hans⟩
  rw [hrun, Option.some.injEq] at hout
  rw [← hout] at hans
  rcases hans with hans | ⟨header, size, hisFile, hin, hans⟩
  · cases hans
  · rw [hoffset] at hin
    have hlt := (hmounted.getSize_eq hisFile).2
    simp only [List.cons.injEq, Answer.stream.injEq, and_true] at hans
    omega

/-- A run of one STAT request for a file that exists. -/
theorem ramdisk_protocol_stat : ∃ m' out,
    ramdiskProcess plainVfs ⟨0x301020, 0x2000, 1⟩ 0x3000 m' (emptyPath 11 0 0) = some out ∧
    Served plainVfs ⟨0x301020, 0x2000, 1⟩ [[46]] [5] m' (emptyPath 11 0 0) out := by
  obtain ⟨m', -, hmounted⟩ := oneFile_mounted (c := 46) (by decide)
  have hask : WellAsked plainVfs m' ⟨0x301020, 0x2000, 1⟩ [[46]] [5] (emptyPath 11 0 0) :=
    fun _ => ⟨[], emptyPath_spells 11 0 0, by decide, fun _ => List.mem_cons_self,
      fun _ => by rw [oneFile_seen hmounted]; rfl⟩
  obtain ⟨out, hout, -⟩ := hask.served hmounted oneFile_buffer
  refine ⟨m', out, hout, ?_⟩
  exact (ramdisk_protocol hmounted oneFile_buffer (RamdiskRun.message .start hask hout)).1
    (m', emptyPath 11 0 0, out) List.mem_cons_self

/-- A READ request for a file that does not exist: the size of no file is read. -/
theorem ramdisk_protocol_fails : ∃ m' out,
    Mounted m' ⟨0x301020, 0x2000, 1⟩ [[97]] [5] ∧ BufferApart ⟨0x301020, 0x2000, 1⟩ [5] 0x3000 ∧
    ramdiskProcess plainVfs ⟨0x301020, 0x2000, 1⟩ 0x3000 m' (emptyPath 12 0 0) = some out ∧
    NULL ∈ out.reads ∧
    ¬ Served plainVfs ⟨0x301020, 0x2000, 1⟩ [[97]] [5] m' (emptyPath 12 0 0) out := by
  obtain ⟨m', -, hmounted⟩ := oneFile_mounted (c := 97) (by decide)
  obtain ⟨m₁, -, hrun⟩ := ramdiskProcess_read hmounted oneFile_buffer
    (show (emptyPath 12 0 0).signal = plainVfs.FS_SIGNAL_READ from rfl)
    (emptyPath_spells 12 0 0) (by decide)
  have hname : HasName m' 0x2000 [97] := by
    cases hmounted.names with
    | cons hname _ => exact hname
  have hspell : Spells (bytesAt m' 0x2000) [97] := hname.field.spells (Or.inl (by decide))
  have hunseen : seenAs m' (headers 0x2000 [5]) (fullPath []) = none := by
    refine List.find?_eq_none.mpr (fun x hx => ?_)
    obtain rfl : x = 0x2000 := List.mem_singleton.mp hx
    rw [decide_eq_true_eq]
    exact fun hdot => absurd (hdot.unique hspell) (by decide)
  simp only [hunseen, Option.getD_none, NULL, true_or, if_true] at hrun
  refine ⟨m', _, hmounted, oneFile_buffer, hrun, List.mem_cons_self, fun hserved => ?_⟩
  exact hserved.reads 0 List.mem_cons_self rfl

end DayOS
