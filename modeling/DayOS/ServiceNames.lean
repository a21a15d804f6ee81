import DayOS.HeapBounds
import DayOS.KernelProcess
import Mathlib.Data.List.TakeWhile

set_option autoImplicit false

/-! # Names of services (`kernel-process.c`)

A register message has up to 511 characters for a name and a `service_t` has 255. `strcpy` goes on
until the message's NUL, and the link is written after the copy: a name of up to 255 characters
ends in front of the link, one of up to 259 is overwritten by it at its end, and a longer one goes
on behind the block. `registration_inside` says for which names the record holds them and a lookup
finds them.
-/

namespace DayOS

open ByteMemory Linked CString

/-! ## The code -/

/-- The three stores into the new service, in the order of the source. -/
def writeService (m : Mem) (newService next : Nat) (msg : Message) : Mem :=
  store32 (strcpy (store32 m newService msg.sender.toNat) (newService + 4) msg.text walkLimit)
    (newService + 260) next

/-- The addresses they write to. -/
def registerWrites (newService : Nat) (msg : Message) : List Nat :=
  List.range' newService 4 ++ strcpyWrites (newService + 4) msg.text walkLimit ++
    List.range' (newService + 260) 4

/-! ## Safe registrations -/

/-- A later registry: the record at `s` is as `R'` has it, and the list leads to it through
services of other names. -/
structure LaterList (R' R'' : Registry) (s : Nat) (name : List UInt8) : Prop where
  record : AgreeOn R'.mem R''.mem s sizeofService
  leads : ∃ pre, Seg (svcNext R''.mem) R''.serviceStart pre s ∧ pre.length < walkLimit ∧
    ∀ t ∈ pre, ¬ Spells (svcName R''.mem t) name

/-- The turn that leads from `R` to `R'` registers the service of `msg` in the block at `s` and
writes nowhere else: `m₁` and `ns` are the memory and the row of nodes in which `kmalloc` hands the
block out, and `live` are the blocks held by others. -/
structure InsideRecord (L : Layout) (R : Registry) (msg : Message) (live : List Block) (s : Nat)
    (m₁ : Mem) (ns : List FirstFit.Node) (R' : Registry) : Prop where
  start : R'.serviceStart = s
  writes : ∀ x ∈ registerWrites s msg, (serviceBlock s).Has x
  blocks : ∀ b ∈ live, AgreeOn R.mem R'.mem b.addr b.size
  headers : ∀ x ∈ ns, AgreeOn m₁ R'.mem x.addr headerSize
  payloads : ∀ x ∈ ns, x.addr + headerSize ≠ s →
    AgreeOn m₁ R'.mem (x.addr + headerSize) x.size
  found : ∀ (R'' : Registry) (request : Message), LaterList R' R'' s msg.name →
    request.name = msg.name → 0 ∈ request.message.toList → request.sender ≠ 0 →
    request.signal = 2 →
    scan (fun t => strcmp (svcName R''.mem t) request.text walkLimit == 0) (svcNext R''.mem)
      walkLimit R''.serviceStart = some s ∧
    kernelProcess (kernelHeap L) R'' request
      = some (some (request.sender.toNat, { request with signal := msg.sender }), R'')

/-- The name ends in front of the link, or what it has there is what the link will be. -/
def Message.FitsRecord (msg : Message) (next : Nat) : Prop :=
  msg.name.length ≤ 255 ∨ msg.name.length ≤ 259 ∧
    ∀ i, 256 ≤ i → i ≤ msg.name.length → msg.text i = UInt8.ofNat (next / 256 ^ (i - 256))

section
variable {L : Layout} {R R' R'' : Registry} {msg request : Message} {live : List Block}
  {s x lim next : Nat} {m m₁ : Mem} {ns ns' : List FirstFit.Node}

/-! ## The stores -/

theorem Message.name_length (hnul : 0 ∈ msg.message.toList) : msg.name.length < 512 := by
  have hlen : msg.message.toList.length = 512 := by simp
  have hpre : msg.name <+: msg.message.toList := List.takeWhile_prefix _
  refine lt_of_le_of_ne (hlen ▸ hpre.length_le) (fun he => ?_)
  have hall := List.takeWhile_eq_self_iff.mp (hpre.eq_of_length (he.trans hlen.symm))
  simpa using hall 0 hnul

theorem kernelProcess_registers {H : Heap} (hsender : msg.sender ≠ 0) (hsignal : msg.signal = 1)
    (hk : H.kmalloc R.mem sizeofService = some (s, m₁)) : kernelProcess H R msg
      = some (some (msg.sender.toNat, { msg with signal := SIGNAL_OK }),
        ⟨writeService m₁ s R.serviceStart msg, s⟩) := by
  unfold kernelProcess
  rw [if_neg hsender, if_pos hsignal, hk]
  rfl

theorem mem_registerWrites (hlen : msg.name.length < 512) : x ∈ registerWrites s msg ↔
    s ≤ x ∧ x ≤ s + 4 + msg.name.length ∨ s + 260 ≤ x ∧ x < s + 264 := by
  have hcopy := mem_strcpyWrites (a := s + 4) (x := x) (Message.text_spells hlen)
    (show msg.name.length < walkLimit from hlen.trans (by decide))
  simp only [registerWrites, List.mem_append, List.mem_range'_1, hcopy]
  omega

/-- The stores write nothing else. -/
theorem writeService_of_not_mem (hlen : msg.name.length < 512) (hx : x ∉ registerWrites s msg) :
    writeService m s next msg x = m x := by
  rw [mem_registerWrites hlen] at hx
  have hcopy := (strcpy_spells (Message.text_spells hlen)
    (show msg.name.length < walkLimit from hlen.trans (by decide))
    (store32 m s msg.sender.toNat) (s + 4)).2
  calc writeService m s next msg x
      = strcpy (store32 m s msg.sender.toNat) (s + 4) msg.text walkLimit x :=
        store32_of_outside (by omega)
    _ = store32 m s msg.sender.toNat x := hcopy x (by omega)
    _ = m x := store32_of_outside (by omega)

/-- The name, as far as the message has one: its characters, but for those under the link. -/
theorem svcName_writeService (hlen : msg.name.length < 512) {i : Nat}
    (hi : i ≤ msg.name.length) : svcName (writeService m s next msg) s i
      = if 256 ≤ i ∧ i < 260 then UInt8.ofNat (next / 256 ^ (i - 256)) else msg.text i := by
  have hspell := (strcpy_spells (Message.text_spells hlen)
    (show msg.name.length < walkLimit from hlen.trans (by decide))
    (store32 m s msg.sender.toNat) (s + 4)).1
  have hcopied := (Message.text_spells hlen).iff_agree.mp hspell i hi
  by_cases hlink : 256 ≤ i ∧ i < 260
  · rw [if_pos hlink]
    have hsub : s + 4 + i - (s + 260) = i - 256 := by omega
    rw [← hsub]
    exact if_pos (by omega)
  · rw [if_neg hlink, ← hcopied]
    exact store32_of_outside (by omega)

/-- A longer name goes on behind the record. -/
theorem writeService_behind (hlen : msg.name.length < 512) (hlong : 260 ≤ msg.name.length) :
    writeService m s next msg (s + 264) = msg.text 260 := by
  have hbyte : writeService m s next msg (s + 4 + 260) = _ := svcName_writeService hlen hlong
  rw [if_neg (by omega)] at hbyte
  have haddr : s + 4 + 260 = s + 264 := by omega
  rw [← haddr, hbyte]

theorem svcPid_writeService (hlen : msg.name.length < 512) :
    svcPid (writeService m s next msg) s = msg.sender.toNat := by
  have hcopy := (strcpy_spells (Message.text_spells hlen)
    (show msg.name.length < walkLimit from hlen.trans (by decide))
    (store32 m s msg.sender.toNat) (s + 4)).2
  calc svcPid (writeService m s next msg) s
      = load32 (strcpy (store32 m s msg.sender.toNat) (s + 4) msg.text walkLimit) s :=
        load32_store32_of_ne (by omega)
    _ = load32 (store32 m s msg.sender.toNat) s := load32_congr (fun x _ _ => hcopy x (by omega))
    _ = msg.sender.toNat := by
        rw [load32_store32, Nat.mod_eq_of_lt msg.sender.toNat_lt]

/-- The record holds the name exactly when the name fits. -/
theorem spells_writeService (hlen : msg.name.length ≤ 259) :
    Spells (svcName (writeService m s next msg) s) msg.name ↔ msg.FitsRecord next := by
  have hlen' : msg.name.length < 512 := by omega
  rw [(Message.text_spells hlen').iff_agree]
  constructor
  · intro hagree
    refine Or.inr ⟨hlen, fun i hge hi => ?_⟩
    rw [← hagree i hi, svcName_writeService hlen' hi, if_pos (by omega)]
  · intro hfits i hi
    rw [svcName_writeService hlen' hi]
    by_cases hlink : 256 ≤ i ∧ i < 260
    · rw [if_pos hlink]
      rcases hfits with hshort | ⟨-, hbytes⟩
      · omega
      · exact (hbytes i hlink.1 hi).symm
    · rw [if_neg hlink]

/-! ## Lookups -/

/-- A lookup compares the name of a record with the one asked for. -/
theorem strcmp_svcName (hreq : request.name.length < 512) : strcmp (svcName m s) request.text walkLimit
    = 0 ↔ Spells (svcName m s) request.name := by
  rw [← strcmp_eq_zero_iff (Message.text_spells hreq)
    (show request.name.length < walkLimit from hreq.trans (by decide)), strcmp_swap]
  omega

/-- In a later list the lookup stops at the record, if that has the name. -/
theorem LaterList.scan (hlater : LaterList R' R'' s request.name) (hs : s ≠ 0)
    (hreq : request.name.length < 512) (hspell : Spells (svcName R''.mem s) request.name) :
    Linked.scan (fun t => strcmp (svcName R''.mem t) request.text walkLimit == 0)
      (svcNext R''.mem) walkLimit R''.serviceStart = some s := by
  obtain ⟨pre, hseg, hlen, hother⟩ := hlater.leads
  apply scan_seg hseg hs hlen
  · intro t ht
    have hne : strcmp (svcName R''.mem t) request.text walkLimit ≠ 0 :=
      fun h0 => hother t ht ((strcmp_svcName hreq).mp h0)
    simpa using hne
  · simpa using (strcmp_svcName hreq).mpr hspell

theorem kernelProcess_found {H : Heap} (hsender : request.sender ≠ 0) (hsignal : request.signal = 2)
    (hs : s ≠ 0) (hscan : scan (fun t => strcmp (svcName R.mem t) request.text walkLimit == 0)
      (svcNext R.mem) walkLimit R.serviceStart = some s)
    (hpid : svcPid R.mem s = msg.sender.toNat) : kernelProcess H R request
      = some (some (request.sender.toNat, { request with signal := msg.sender }), R) := by
  unfold kernelProcess
  rw [if_neg hsender, if_neg (by rw [hsignal]; decide), if_pos hsignal, hscan]
  simp [hs, hpid]

/-! ## The block -/

/-- The row of nodes behind `kmalloc`, and what the call leaves alone. -/
theorem IsHeap.service (hheap : IsHeap L lim m ns) (hserves : FirstFit.Serves headerSize ns live)
    (hlim : lim < 2 ^ 32) (hk : kmalloc L m sizeofService = some (s, m₁)) :
    ∃ ns', IsHeap L (max lim (heapLimit L)) m₁ ns' ∧
      FirstFit.Serves headerSize ns' (serviceBlock s :: live) ∧ L.heapStart ≤ s ∧
      ∀ b ∈ live, AgreeOn m m₁ b.addr b.size := by
  have hmax : max lim (heapLimit L) < 2 ^ 32 := max_lt hlim (heapLimit_lt L)
  obtain ⟨⟨hge, hlt⟩, -⟩ := hheap.kmalloc_writes hlim (Or.inl (by decide)) hk
  have hfin : s + sizeofService ≤ max lim (heapLimit L) := by
    refine le_trans ?_ (le_max_right lim (heapLimit L))
    simp only [sizeofService, heapLimit, headerSize] at hlt ⊢
    omega
  obtain ⟨q, ns', hq, hm, hheap', hkeep⟩ := kmalloc_refines (hheap.mono (le_max_left _ _))
    (by decide) (by decide) hmax hk hfin
  refine ⟨ns', hheap', ?_, by omega, fun b hb x hx hx' => hkeep x ?_⟩
  · rw [serviceBlock, hq]
    exact hserves.malloc hheap.laid (by decide) hm
  · exact hheap.malloc_keeps hserves hb ⟨hx, hx'⟩

/-- Whoever writes into the new block alone leaves the headers, the other blocks in use and the
free ones as they are. -/
theorem IsHeap.inside {m' : Mem} (hheap : IsHeap L lim m₁ ns)
    (hserves : FirstFit.Serves headerSize ns (serviceBlock s :: live))
    (hm : ∀ x, ¬ (serviceBlock s).Has x → m' x = m₁ x) :
    (∀ x ∈ ns, AgreeOn m₁ m' x.addr headerSize) ∧
    (∀ x ∈ ns, x.addr + headerSize ≠ s → AgreeOn m₁ m' (x.addr + headerSize) x.size) ∧
    ∀ b ∈ live, AgreeOn m₁ m' b.addr b.size := by
  refine ⟨fun x hx a ha ha' => hm a ?_, fun x hx hne a ha ha' => hm a ?_,
    fun b hb a ha ha' => hm a ?_⟩
  · have hapart := hserves.apart_header hheap.laid List.mem_cons_self hx
    exact hapart.symm.not_has ⟨ha, ha'⟩
  · -- the block lies in a node, and this is another one
    obtain ⟨y, hy, -, hys, hsize⟩ := hserves.node _ List.mem_cons_self
    have hxy : x ≠ y := by
      rintro rfl
      exact hne hys.symm
    have hor := hheap.laid.fin_le_or hx hy hxy
    simp only [FirstFit.Node.fin, serviceBlock] at hor hys hsize
    simp only [Block.Has, serviceBlock]
    omega
  · have hapart := (List.pairwise_cons.mp (hserves.apart hheap.laid)).1 b hb
    exact hapart.symm.not_has ⟨ha, ha'⟩

/-- A name that fits is registered inside the record. -/
theorem InsideRecord.of_fits (hheap : IsHeap L lim m₁ ns)
    (hserves : FirstFit.Serves headerSize ns (serviceBlock s :: live))
    (hlive : ∀ b ∈ live, AgreeOn R.mem m₁ b.addr b.size) (hs : s ≠ 0)
    (hfits : msg.FitsRecord R.serviceStart) :
    InsideRecord L R msg live s m₁ ns ⟨writeService m₁ s R.serviceStart msg, s⟩ := by
  have hle : msg.name.length ≤ 259 := by
    rcases hfits with hshort | ⟨hle, -⟩
    · omega
    · exact hle
  have hlen : msg.name.length < 512 := by omega
  have hwrites : ∀ x ∈ registerWrites s msg, (serviceBlock s).Has x := by
    intro x hx
    rw [mem_registerWrites hlen] at hx
    simp only [Block.Has, serviceBlock, sizeofService]
    omega
  have hkeep : ∀ x, ¬ (serviceBlock s).Has x → writeService m₁ s R.serviceStart msg x = m₁ x := by
    intro x hx
    apply writeService_of_not_mem hlen
    exact fun hw => hx (hwrites x hw)
  obtain ⟨hheaders, hpayloads, hblocks⟩ := hheap.inside hserves hkeep
  refine ⟨rfl, hwrites, fun b hb => (hlive b hb).trans (hblocks b hb), hheaders, hpayloads, ?_⟩
  intro R'' request hlater hname hnul hsender hsignal
  have hrecord := hlater.record
  rw [← hname] at hlater
  simp only [sizeofService] at hrecord
  have hspell : Spells (svcName R''.mem s) request.name := by
    rw [hname]
    apply ((spells_writeService hle).mpr hfits).agree
    exact hrecord.mono (by omega) (by omega)
  have hpid : svcPid R''.mem s = msg.sender.toNat :=
    (load32_congr (hrecord.mono (by omega) (by omega))).trans (svcPid_writeService hlen)
  have hscan := hlater.scan hs (Message.name_length hnul) hspell
  exact ⟨hscan, kernelProcess_found hsender hsignal hs hscan hpid⟩

/-- And a name registered inside the record fits. -/
theorem InsideRecord.fits (hs : s ≠ 0) (hnul : 0 ∈ msg.message.toList) (hsender : msg.sender ≠ 0)
    (hinside : InsideRecord L R msg live s m₁ ns ⟨writeService m₁ s R.serviceStart msg, s⟩) :
    msg.FitsRecord R.serviceStart := by
  have hlen := Message.name_length hnul
  have hle : msg.name.length ≤ 259 := by
    have hlast := hinside.writes (s + 4 + msg.name.length)
      ((mem_registerWrites hlen).mpr (Or.inl ⟨by omega, le_rfl⟩))
    simp only [Block.Has, serviceBlock, sizeofService] at hlast
    omega
  -- the lookup right behind the registration
  obtain ⟨hscan, -⟩ := hinside.found _ { msg with signal := 2 }
    ⟨AgreeOn.refl _ _ _, [], rfl, by decide, by simp⟩ rfl hnul hsender rfl
  have hzero : strcmp (svcName (writeService m₁ s R.serviceStart msg) s) msg.text walkLimit = 0 :=
    beq_iff_eq.mp (scan_stop hscan hs)
  exact (spells_writeService hle).mp ((strcmp_svcName hlen).mp hzero)

/-- **Registering a service.** In every heap that serves the request, the turn returns, and it
registers the service inside its record if and only if the sender is not the process 0 and the name
has up to 255 characters, or up to 259 of which the last ones are the bytes of the link. -/
theorem registration_inside (hheap : IsHeap L lim R.mem ns)
    (hserves : FirstFit.Serves headerSize ns live) (hlim : lim < 2 ^ 32)
    (hstart : R.serviceStart = NULL ∨ serviceBlock R.serviceStart ∈ live)
    (hnul : 0 ∈ msg.message.toList) (hsignal : msg.signal = 1)
    (hk : kmalloc L R.mem sizeofService = some (s, m₁)) :
    ∃ ns' reply R', IsHeap L (max lim (heapLimit L)) m₁ ns' ∧
      FirstFit.Serves headerSize ns' (serviceBlock s :: live) ∧
      kernelProcess (kernelHeap L) R msg = some (reply, R') ∧
      (InsideRecord L R msg live s m₁ ns' R' ↔ msg.sender ≠ 0 ∧ msg.FitsRecord R.serviceStart) := by
  obtain ⟨ns', hheap', hserves', hge, hlive⟩ := hheap.service hserves hlim hk
  have hs : s ≠ 0 := by
    have := L.heapStart_ge
    omega
  by_cases hsender : msg.sender = 0
  · -- the loop goes on with the next message
    have hturn : kernelProcess (kernelHeap L) R msg = some (none, R) := if_pos hsender
    refine ⟨ns', none, R, hheap', hserves', hturn, ⟨fun hinside => ?_, fun hand => absurd hsender hand.1⟩⟩
    rcases hstart with hnull | hmem
    · exact absurd (hinside.start.symm.trans hnull) hs
    · -- a block held is not handed out again
      rw [hinside.start] at hmem
      have hnodup := List.nodup_cons.mp hserves'.nodup
      exact absurd (List.mem_map_of_mem hmem) hnodup.1
  · refine ⟨ns', _, _, hheap', hserves', kernelProcess_registers hsender hsignal hk, ?_⟩
    constructor
    · intro hinside
      exact ⟨hsender, hinside.fits hs hnul hsender⟩
    · rintro ⟨-, hfits⟩
      exact .of_fits hheap' hserves' hlive hs hfits

end

/-! ## Two names on a fresh heap -/

/-- A register message of process 5 with a name of `n` characters. -/
def registerRequest (n : Nat) : Message :=
  ⟨5, 0, 0, 1, Vector.ofFn (fun i => if i.val < n then 0x61 else 0)⟩

theorem registerRequest_sender (n : Nat) : (registerRequest n).sender ≠ 0 :=
  show (5 : UInt32) ≠ 0 by decide

/-- No service is registered yet. -/
def emptyRegistry : Registry := ⟨kinitHeap Layout.least (fun _ => 0), NULL⟩

section
variable {msg : Message} {n i : Nat}

theorem Message.name_eq_replicate (hnul : 0 ∈ msg.message.toList) {c : UInt8} (hc : c ≠ 0)
    (hchars : ∀ i < n, msg.text i = c) (hend : msg.text n = 0) : msg.name = List.replicate n c := by
  have hspell : Spells msg.text (List.replicate n c) := by
    rw [spells_iff_starts, List.length_replicate]
    exact ⟨starts_replicate hc hchars, hend⟩
  exact (Message.text_spells (Message.name_length hnul)).unique hspell

theorem registerRequest_text (hi : i < 512) :
    (registerRequest n).text i = if i < n then 0x61 else 0 := by
  simp [Message.text, registerRequest, hi]

theorem registerRequest_nul (hn : n < 512) : 0 ∈ (registerRequest n).message.toList := by
  rw [registerRequest, Vector.toList_ofFn, List.mem_ofFn]
  exact ⟨⟨511, by decide⟩, if_neg (by simp only; omega)⟩

theorem registerRequest_length (hn : n < 512) : (registerRequest n).name.length = n := by
  have hname : (registerRequest n).name = List.replicate n 0x61 := by
    apply Message.name_eq_replicate (registerRequest_nul hn) (by decide)
    · intro i hi
      rw [registerRequest_text (hi.trans hn), if_pos hi]
    · rw [registerRequest_text hn, if_neg (lt_irrefl n)]
  rw [hname, List.length_replicate]

theorem emptyRegistry_mem : emptyRegistry.mem = kinitHeap Layout.least (fun _ => 0) := by
  rw [emptyRegistry]

/-- The block that the first register message gets. -/
theorem emptyRegistry_kmalloc : kmalloc Layout.least emptyRegistry.mem sizeofService
    = some (Layout.least.heapStart + 32, appended emptyRegistry.mem Layout.least.heapStart
      (Layout.least.heapStart + 16) sizeofService) := by
  rw [emptyRegistry_mem]
  exact kmalloc_kinitHeap Layout.least (fun _ => 0) (by decide)

end

/-- A service with a name of three characters. -/
theorem registration_inside_short : ∃ s m₁ ns reply R',
    kernelProcess (kernelHeap Layout.least) emptyRegistry (registerRequest 3) = some (reply, R') ∧
    InsideRecord Layout.least emptyRegistry (registerRequest 3) [] s m₁ ns R' := by
  have hheap : IsHeap Layout.least (Layout.least.heapStart + headerSize) emptyRegistry.mem
      [⟨Layout.least.heapStart, 0, true⟩] := by
    rw [emptyRegistry_mem]
    exact isHeap_init (fun _ => 0)
  have hserves : FirstFit.Serves headerSize [⟨Layout.least.heapStart, 0, true⟩] [] :=
    ⟨by simp, by simp, by simp⟩
  have hlen : (registerRequest 3).name.length ≤ 255 := by
    rw [registerRequest_length (by decide)]
    decide
  obtain ⟨ns, reply, R', -, -, hturn, hiff⟩ := registration_inside hheap hserves (by decide)
    (Or.inl rfl) (registerRequest_nul (show 3 < 512 by decide)) rfl emptyRegistry_kmalloc
  exact ⟨_, _, ns, reply, R', hturn, hiff.mpr ⟨registerRequest_sender 3, Or.inl hlen⟩⟩

/-- The characters of a longer name end up in the bytes behind the block. -/
theorem registration_inside_fails : ∃ s m₁ reply R',
    kmalloc Layout.least emptyRegistry.mem sizeofService = some (s, m₁) ∧
    kernelProcess (kernelHeap Layout.least) emptyRegistry (registerRequest 300) = some (reply, R') ∧
    m₁ (s + 264) = 0 ∧ R'.mem (s + 264) = 0x61 ∧
    ∀ live ns, ¬ InsideRecord Layout.least emptyRegistry (registerRequest 300) live s m₁ ns R' := by
  have hturn := kernelProcess_registers (H := kernelHeap Layout.least) (registerRequest_sender 300)
    rfl emptyRegistry_kmalloc
  have hlength := registerRequest_length (show 300 < 512 by decide)
  have hlen : (registerRequest 300).name.length < 512 := by omega
  refine ⟨_, _, _, _, emptyRegistry_kmalloc, hturn, ?_, ?_, fun live ns hinside => ?_⟩
  · rw [appended_of_outside (by omega) (by omega), emptyRegistry_mem,
      kinitHeap_of_outside (by omega)]
  · dsimp only
    rw [writeService_behind hlen (by omega), registerRequest_text (by decide), if_pos (by decide)]
  · have hlast := hinside.writes (Layout.least.heapStart + 32 + 264)
      ((mem_registerWrites hlen).mpr (Or.inl (by omega)))
    simp only [Block.Has, serviceBlock, sizeofService] at hlast
    omega

end DayOS
