import DayOS.Records
import DayOS.Allocator
import DayOS.Lib.CString

set_option autoImplicit false

/-! # The service registry (`kernel-process.c`)

`kernel_process` receives messages in a loop. A register message puts a `service_t` (pid, name,
link) in front of a linked list, a lookup walks the list to the first entry of that name. The
model takes one turn of the loop: the message received, and the reply with its receiver.

The list is compared with what it stands for, the map from names to the sender of the latest
registration (`registrar`).
-/

namespace DayOS

open ByteMemory Linked CString

/-! ## The code -/

def SIGNAL_OK : UInt32 := 0

/-- `sizeof(service_t)`: a pid, 255 characters, a pad byte and a link. -/
def sizeofService : Nat := 264

def serviceBlock (s : Nat) : Block := ⟨s, sizeofService⟩

def svcPid (m : Mem) (s : Nat) : Nat := load32 m s
def svcName (m : Mem) (s : Nat) : Nat → UInt8 := bytesAt m (s + 4)
def svcNext (m : Mem) (s : Nat) : Nat := load32 m (s + 260)

/-- The characters of a message, as a stream. -/
def Message.text (msg : Message) : Nat → UInt8 := fun i => msg.message.toList.getD i 0

/-- The kernel memory and `service_start`. -/
structure Registry where
  mem : Mem
  serviceStart : Nat

/-- One turn of the loop of `kernel_process`, for the message received: the reply and its
receiver, if there is one. `none` means that the turn does not end. -/
def kernelProcess (H : Heap) (R : Registry) (msg : Message) :
    Option (Option (Nat × Message) × Registry) :=
  if msg.sender = 0 then some (none, R)
  else if msg.signal = 1 then do
    let (newService, m) ← H.kmalloc R.mem sizeofService
    let m := store32 m newService msg.sender.toNat
    let m := strcpy m (newService + 4) msg.text walkLimit
    let m := store32 m (newService + 260) R.serviceStart
    return (some (msg.sender.toNat, { msg with signal := SIGNAL_OK }), ⟨m, newService⟩)
  else if msg.signal = 2 then do
    let service ← scan (fun s => strcmp (svcName R.mem s) msg.text walkLimit == 0) (svcNext R.mem)
      walkLimit R.serviceStart
    if service ≠ NULL then
      return (some (msg.sender.toNat, { msg with signal := UInt32.ofNat (svcPid R.mem service) }), R)
    else return (some (msg.sender.toNat, { msg with signal := 0 }), R)
  -- signal 3 only logs that it is not implemented; there is no default case
  else some (none, R)

/-! ## What the registry stands for -/

/-- The name in a message: its characters up to the first NUL. -/
def Message.name (msg : Message) : List UInt8 := msg.message.toList.takeWhile (fun c => decide (c ≠ 0))

/-- Whether a message registers a service. -/
def Message.registers (msg : Message) : Bool := decide (msg.sender ≠ 0 ∧ msg.signal = 1)

/-- The sender of the latest registration of `name`, in a history with the latest message
first. -/
def registrar (hist : List Message) (name : List UInt8) : Option UInt32 :=
  (hist.find? (fun msg => msg.registers && decide (msg.name = name))).map Message.sender

/-- The names of register and lookup messages fit into a `service_t`. -/
def Message.WellNamed (msg : Message) : Prop :=
  msg.signal = 1 ∨ msg.signal = 2 → msg.name.length ≤ 254

/-- The states `kernel_process` reaches with its history, latest message first, the heap blocks
in use and the services registered. In between, the rest of the kernel may do anything that
keeps the services' blocks. -/
inductive RegistryRun (A : Allocator) :
    Registry → List Block → List Nat → List Message → Prop
  | boot {m : Mem} {live : List Block} : A.Holds m live → RegistryRun A ⟨m, NULL⟩ live [] []
  | register {R R' : Registry} {live : List Block} {mine : List Nat} {hist : List Message}
      {msg : Message} {reply : Option (Nat × Message)} : RegistryRun A R live mine hist →
      msg.WellNamed → msg.registers → kernelProcess A.toHeap R msg = some (reply, R') →
      RegistryRun A R' (serviceBlock R'.serviceStart :: live) (R'.serviceStart :: mine) (msg :: hist)
  | message {R R' : Registry} {live : List Block} {mine : List Nat} {hist : List Message}
      {msg : Message} {reply : Option (Nat × Message)} : RegistryRun A R live mine hist →
      msg.WellNamed → ¬ msg.registers → kernelProcess A.toHeap R msg = some (reply, R') →
      RegistryRun A R' live mine (msg :: hist)
  | other {R : Registry} {m : Mem} {live live' : List Block} {mine : List Nat}
      {hist : List Message} : RegistryRun A R live mine hist → A.Holds m live' →
      (∀ s ∈ mine, serviceBlock s ∈ live' ∧ AgreeOn R.mem m s sizeofService) →
      RegistryRun A ⟨m, R.serviceStart⟩ live' mine hist

/-- The service at `s` is what the register message `msg` has left. -/
structure Registered (m : Mem) (s : Nat) (msg : Message) : Prop where
  pid : svcPid m s = msg.sender.toNat
  name : Spells (svcName m s) msg.name
  short : msg.name.length ≤ 254

/-- **The invariant.** The list holds one service for each registration, latest first. -/
structure Registrations (A : Allocator) (R : Registry) (live : List Block) (mine : List Nat)
    (hist : List Message) : Prop where
  holds : A.Holds R.mem live
  chain : Chain (svcNext R.mem) R.serviceStart mine
  blocks : ∀ s ∈ mine, serviceBlock s ∈ live
  entries : List.Forall₂ (Registered R.mem) mine (hist.filter Message.registers)

section
variable {A : Allocator} {R R' : Registry} {live live' : List Block} {mine : List Nat}
  {hist : List Message} {msg : Message} {m m' : Mem} {s : Nat}

/-- A text with a NUL spells the name in it. -/
theorem Message.text_spells (h : msg.name.length < 512) : Spells msg.text msg.name := by
  have hlen : msg.message.toList.length = 512 := by simp
  -- over the list of characters; the name ends before it does
  have key : ∀ l : List UInt8, (l.takeWhile (fun c => decide (c ≠ 0))).length < l.length →
      Spells (fun i => l.getD i 0) (l.takeWhile (fun c => decide (c ≠ 0))) := by
    intro l
    induction l with
    | nil => simp
    | cons c l ih =>
        intro hl
        by_cases hc : c = 0
        · simp [hc, Spells]
        · rw [List.takeWhile_cons_of_pos (by simpa using hc)] at hl ⊢
          refine ⟨by simp, hc, ?_⟩
          simpa using ih (by simpa using hl)
  exact key _ (by rw [hlen]; exact h)

theorem Registered.congr (h : Registered m s msg) (hm : AgreeOn m m' s sizeofService) :
    Registered m' s msg := by
  have hshort := h.short
  simp only [sizeofService] at hm
  refine ⟨(load32_congr (hm.mono (by omega) (by omega))).trans h.pid, ?_, hshort⟩
  exact h.name.agree (hm.mono (by omega) (by omega))

theorem Registrations.congr (h : Registrations A R live mine hist) (hholds : A.Holds m live')
    (hkeep : ∀ s ∈ mine, serviceBlock s ∈ live' ∧ AgreeOn R.mem m s sizeofService) :
    Registrations A ⟨m, R.serviceStart⟩ live' mine hist := by
  refine ⟨hholds, h.chain.congr (fun s hs => ?_), fun s hs => (hkeep s hs).1, ?_⟩
  · have hag := (hkeep s hs).2
    simp only [sizeofService] at hag
    exact load32_congr (hag.mono (by omega) (by omega))
  · have hboth := (List.forall₂_and_left mine _).mpr ⟨fun s hs => (hkeep s hs).2, h.entries⟩
    exact hboth.imp (fun s msg he => he.2.congr he.1)

theorem Registrations.length_lt (h : Registrations A R live mine hist) :
    mine.length < walkLimit := by
  have hnodup := h.chain.nodup
  have hap : mine.Pairwise (fun s t => Block.Apart ⟨s, 264⟩ ⟨t, 264⟩) := by
    refine hnodup.imp_of_mem (fun {s t} hs ht hne => ?_)
    exact A.apart_of_ne h.holds (h.blocks s hs) (h.blocks t ht)
      (fun he => hne (congrArg Block.addr he))
  have := Block.length_mul_le mine hap (fun s hs => A.fin_le h.holds (h.blocks s hs))
  simp only [walkLimit]
  omega

/-- The list finds what the history says. -/
theorem find_registered {mine : List Nat} {regs : List Message}
    (h : List.Forall₂ (Registered m) mine regs) (hname : msg.name.length ≤ 254) :
    Option.Rel (Registered m)
      (mine.find? (fun s => strcmp (svcName m s) msg.text walkLimit == 0))
      (regs.find? (fun r => decide (r.name = msg.name))) := by
  induction h with
  | nil => exact Option.Rel.none
  | @cons s r mine regs hsr _ ih =>
      have hcmp : (strcmp (svcName m s) msg.text walkLimit == 0) = decide (r.name = msg.name) := by
        have hlt : r.name.length < walkLimit := lt_of_le_of_lt hsr.short (by decide)
        have htext := Message.text_spells (show msg.name.length < 512 by omega)
        have := strcmp_eq_zero hsr.name htext hlt
        by_cases he : r.name = msg.name <;> simp [he, this]
      by_cases he : r.name = msg.name
      · rw [List.find?_cons_of_pos (by rw [hcmp]; simpa using he),
          List.find?_cons_of_pos (by simpa using he)]
        exact Option.Rel.some hsr
      · rw [List.find?_cons_of_neg (by rw [hcmp]; simpa using he),
          List.find?_cons_of_neg (by simpa using he)]
        exact ih

/-- A lookup answers with the latest registration of the name, and changes nothing. -/
theorem Registrations.lookup (h : Registrations A R live mine hist) (hname : msg.WellNamed)
    (hsender : msg.sender ≠ 0) (hsignal : msg.signal = 2) :
    kernelProcess A.toHeap R msg = some (some (msg.sender.toNat,
      { msg with signal := (registrar hist msg.name).getD 0 }), R) := by
  have hrel := find_registered h.entries (hname (Or.inr hsignal))
  have hscan := scan_chain h.chain h.length_lt
    (fun s => strcmp (svcName R.mem s) msg.text walkLimit == 0)
  have hreg : registrar hist msg.name = ((hist.filter Message.registers).find?
      (fun r => decide (r.name = msg.name))).map Message.sender := by
    rw [registrar, List.find?_filter]
    simp
  unfold kernelProcess
  rw [if_neg hsender, if_neg (by rw [hsignal]; decide), if_pos hsignal, hscan, hreg]
  cases hf : mine.find? (fun s => strcmp (svcName R.mem s) msg.text walkLimit == 0) with
  | none =>
      rw [hf] at hrel
      cases hg : (hist.filter Message.registers).find? (fun r => decide (r.name = msg.name)) with
      | none => rfl
      | some r =>
          rw [hg] at hrel
          cases hrel
  | some s =>
      rw [hf] at hrel
      cases hg : (hist.filter Message.registers).find? (fun r => decide (r.name = msg.name)) with
      | none =>
          rw [hg] at hrel
          cases hrel
      | some r =>
          rw [hg] at hrel
          have hs0 : s ≠ NULL := h.chain.ne_zero_of_mem (List.mem_of_find?_eq_some hf)
          have hpid : svcPid R.mem s = r.sender.toNat := by
            cases hrel with
            | some hsr => exact hsr.pid
          simp [hs0, hpid]

theorem Registrations.start_lt (h : Registrations A R live mine hist) : R.serviceStart < 2 ^ 32 := by
  rw [h.chain.head]
  cases mine with
  | nil => simp
  | cons s mine =>
      have := A.fin_le h.holds (h.blocks s (by simp))
      simp only [serviceBlock, sizeofService] at this
      simp only [List.headD_cons]
      omega

/-- **What a register message does**: it fills a new block with the service, links it in front
and answers `SIGNAL_OK`. -/
theorem kernelProcess_register {H : Heap} {reply : Option (Nat × Message)} (hreg : msg.registers)
    (hshort : msg.name.length ≤ 254) (hk : kernelProcess H R msg = some (reply, R')) :
    reply = some (msg.sender.toNat, { msg with signal := SIGNAL_OK }) ∧
    ∃ m₁, H.kmalloc R.mem sizeofService = some (R'.serviceStart, m₁) ∧
      Registered R'.mem R'.serviceStart msg ∧
      svcNext R'.mem R'.serviceStart = R.serviceStart % 2 ^ 32 ∧
      ∀ x, (x < R'.serviceStart ∨ R'.serviceStart + 264 ≤ x) → R'.mem x = m₁ x := by
  obtain ⟨hsender, hsignal⟩ : msg.sender ≠ 0 ∧ msg.signal = 1 := by
    simpa [Message.registers] using hreg
  unfold kernelProcess at hk
  rw [if_neg hsender, if_pos hsignal] at hk
  simp only [Option.bind_eq_bind, Option.bind_eq_some_iff, Option.pure_def, Option.some.injEq,
    Prod.mk.injEq, Prod.exists] at hk
  obtain ⟨s, m₁, hmalloc, rfl, rfl⟩ := hk
  obtain ⟨hspell, hcopy⟩ := strcpy_spells (Message.text_spells (by omega))
    (show msg.name.length < walkLimit from lt_of_le_of_lt hshort (by decide))
    (store32 m₁ s msg.sender.toNat) (s + 4)
  refine ⟨rfl, m₁, hmalloc, ⟨?_, ?_, hshort⟩, ?_, fun x hx => ?_⟩
  · have hpid : load32 (strcpy (store32 m₁ s msg.sender.toNat) (s + 4) msg.text walkLimit) s
        = load32 (store32 m₁ s msg.sender.toNat) s :=
      load32_congr (fun x _ _ => hcopy x (by omega))
    rw [svcPid, load32_store32_of_ne (by simp only; omega), hpid, load32_store32]
    exact Nat.mod_eq_of_lt msg.sender.toNat_lt
  · exact hspell.agree (agreeOn_store32 (by omega))
  · rw [svcNext, load32_store32]
  · -- the three stores stay inside the new block
    simp only at hx ⊢
    rw [store32_of_outside (by omega), hcopy x (by omega), store32_of_outside (by omega)]

/-- A register message extends the list by its service. -/
theorem Registrations.register {reply : Option (Nat × Message)}
    (h : Registrations A R live mine hist) (hname : msg.WellNamed) (hreg : msg.registers)
    (hk : kernelProcess A.toHeap R msg = some (reply, R')) :
    reply = some (msg.sender.toNat, { msg with signal := SIGNAL_OK }) ∧
    Registrations A R' (serviceBlock R'.serviceStart :: live) (R'.serviceStart :: mine)
      (msg :: hist) := by
  have hshort : msg.name.length ≤ 254 :=
    hname (Or.inl (by simpa [Message.registers] using hreg : msg.sender ≠ 0 ∧ msg.signal = 1).2)
  obtain ⟨hreply, m₁, hmalloc, hregistered, hnext, hout⟩ := kernelProcess_register hreg hshort hk
  refine ⟨hreply, ?_⟩
  have hnew := A.kmalloc_holds h.holds (by decide) hmalloc
  have hs := A.addr_ge hnew List.mem_cons_self
  have hkeep : ∀ r ∈ mine, AgreeOn R.mem R'.mem r sizeofService := by
    intro r hr x hx hx'
    have hap := A.kmalloc_apart h.holds (by decide) hmalloc (h.blocks r hr)
    have hag := A.kmalloc_agree h.holds (by decide) hmalloc (h.blocks r hr) x hx hx'
    simp only [Block.Apart, serviceBlock, sizeofService] at hap hx'
    rw [hout x (by omega), hag]
  refine ⟨?_, ⟨rfl, by simp only at hs; omega, ?_⟩, ?_, ?_⟩
  · refine A.write hnew (fun x _ hx => hout x ?_)
    have := hx _ List.mem_cons_self
    simp only [Block.Has, serviceBlock, sizeofService] at this
    omega
  · rw [hnext, Nat.mod_eq_of_lt h.start_lt]
    refine h.chain.congr (fun r hr => load32_congr ?_)
    have := hkeep r hr
    simp only [sizeofService] at this
    exact this.mono (by omega) (by omega)
  · exact List.forall_mem_cons.mpr ⟨List.mem_cons_self,
      fun r hr => List.mem_cons_of_mem _ (h.blocks r hr)⟩
  · rw [List.filter_cons_of_pos hreg]
    have hboth := (List.forall₂_and_left mine _).mpr ⟨hkeep, h.entries⟩
    exact List.Forall₂.cons hregistered (hboth.imp (fun r msg he => he.2.congr he.1))

/-- Any other message leaves the registry alone. -/
theorem kernelProcess_other {H : Heap} {reply : Option (Nat × Message)} (hreg : ¬ msg.registers)
    (hk : kernelProcess H R msg = some (reply, R')) : R' = R := by
  have hnot : ¬ (msg.sender ≠ 0 ∧ msg.signal = 1) := by simpa [Message.registers] using hreg
  unfold kernelProcess at hk
  by_cases hsender : msg.sender = 0
  · rw [if_pos hsender] at hk
    simpa using (Prod.mk.inj (Option.some.inj hk)).2.symm
  · rw [if_neg hsender, if_neg (fun h1 => hnot ⟨hsender, h1⟩)] at hk
    split at hk
    · simp only [Option.bind_eq_bind, Option.bind_eq_some_iff] at hk
      obtain ⟨s, -, hk⟩ := hk
      split at hk <;> exact (Prod.mk.inj (Option.some.inj hk)).2.symm
    · exact (Prod.mk.inj (Option.some.inj hk)).2.symm

/-- **The invariant holds along every run.** -/
theorem RegistryRun.registrations (h : RegistryRun A R live mine hist) :
    Registrations A R live mine hist := by
  induction h with
  | boot hholds => exact ⟨hholds, rfl, by simp, by simp⟩
  | register _ hname hreg hk ih => exact (ih.register hname hreg hk).2
  | message _ _ hreg hk ih =>
      obtain rfl := kernelProcess_other hreg hk
      refine ⟨ih.holds, ih.chain, ih.blocks, ?_⟩
      rw [List.filter_cons_of_neg hreg]
      exact ih.entries
  | other _ hholds hkeep ih => exact ih.congr hholds hkeep

/-- **The service registry.** After every history of messages, a lookup is answered to its
sender with the sender of the latest registration of that name, or 0 if there is none; a
register message is answered with `SIGNAL_OK` to its sender and changes the answer for its name
only; any other message gets no answer and changes none. -/
theorem service_registry (h : RegistryRun A R live mine hist) (msg : Message)
    (hname : msg.WellNamed) :
    (msg.sender ≠ 0 → msg.signal = 2 → kernelProcess A.toHeap R msg = some (some (msg.sender.toNat,
      { msg with signal := (registrar hist msg.name).getD 0 }), R)) ∧
    (∀ name, (registrar hist name).getD 0 = 0 ↔
      ¬ ∃ r ∈ hist, r.sender ≠ 0 ∧ r.signal = 1 ∧ r.name = name) ∧
    (msg.registers → ∀ reply R', kernelProcess A.toHeap R msg = some (reply, R') →
      reply = some (msg.sender.toNat, { msg with signal := SIGNAL_OK })) ∧
    (msg.sender = 0 ∨ (msg.signal ≠ 1 ∧ msg.signal ≠ 2) →
      kernelProcess A.toHeap R msg = some (none, R)) ∧
    ∀ name, registrar (msg :: hist) name
      = if msg.registers ∧ msg.name = name then some msg.sender else registrar hist name := by
  have hinv := h.registrations
  refine ⟨hinv.lookup hname, fun name => ?_, fun hreg reply R' hk => (hinv.register hname hreg hk).1,
    fun hother => ?_, fun name => ?_⟩
  · unfold registrar
    cases hf : hist.find? (fun r => r.registers && decide (r.name = name)) with
    | none =>
        have hall := List.find?_eq_none.mp hf
        refine ⟨fun _ ⟨r, hr, h₁, h₂, h₃⟩ => hall r hr ?_, fun _ => rfl⟩
        simp [Message.registers, h₁, h₂, h₃]
    | some r =>
        have hr := List.find?_some hf
        simp only [Message.registers, Bool.and_eq_true, decide_eq_true_eq] at hr
        constructor
        · intro h0
          exact absurd h0 hr.1.1
        · intro hno
          exact absurd ⟨r, List.mem_of_find?_eq_some hf, hr.1.1, hr.1.2, hr.2⟩ hno
  · unfold kernelProcess
    rcases hother with hsender | ⟨h₁, h₂⟩
    · rw [if_pos hsender]
    · rw [if_neg h₁, if_neg h₂, ite_self]
  · unfold registrar
    by_cases hm : msg.registers ∧ msg.name = name
    · rw [if_pos hm, List.find?_cons_of_pos (by simpa using hm)]
      rfl
    · rw [if_neg hm, List.find?_cons_of_neg (by simpa using hm)]

/-! ## Two processes register one name -/

/-- A register message, where first fit finds room for the service. -/
theorem RegistryRun.register_follows {L : Layout} {row row' : List FirstFit.Node} {a : Nat}
    (hrun : RegistryRun (firstFit L) R live mine hist)
    (hheap : HeapState L (heapLimit L) R.mem row live)
    (hm : FirstFit.malloc headerSize L.heapStart L.heapEnd sizeofService row = some (a, row'))
    (hname : msg.WellNamed) (hreg : msg.registers) : ∃ reply R',
    kernelProcess (firstFit L).toHeap R msg = some (reply, R') ∧
    RegistryRun (firstFit L) R' (serviceBlock (a + headerSize) :: live)
      ((a + headerSize) :: mine) (msg :: hist) ∧
    HeapState L (heapLimit L) R'.mem row' (serviceBlock (a + headerSize) :: live) := by
  obtain ⟨hsender, hsignal⟩ : msg.sender ≠ 0 ∧ msg.signal = 1 := by
    simpa [Message.registers] using hreg
  obtain ⟨m₁, hmalloc, hheap₁, -⟩ := firstFit_kmalloc hheap (by decide) (by decide) hm
  obtain ⟨reply, R', hk⟩ : ∃ reply R', kernelProcess (firstFit L).toHeap R msg = some (reply, R') := by
    unfold kernelProcess
    rw [if_neg hsender, if_pos hsignal, hmalloc]
    exact ⟨_, _, rfl⟩
  obtain ⟨-, m₂, hmalloc₂, -, -, hout⟩ := kernelProcess_register hreg (hname (Or.inl hsignal)) hk
  obtain ⟨hstart, rfl⟩ : a + headerSize = R'.serviceStart ∧ m₁ = m₂ := by
    simpa [hmalloc] using hmalloc₂
  have hnext := hrun.register hname hreg hk
  rw [← hstart] at hnext hout
  refine ⟨reply, R', hk, hnext, hheap₁.writeOutside (fun x _ hx => hout x ?_)⟩
  have hoff := hx _ List.mem_cons_self
  simp only [Block.Has, sizeofService] at hoff
  omega

end

/-- A message of process `pid` with the given signal and name. -/
def request (pid signal : UInt32) (name : List UInt8) : Message :=
  { Message.blank with
    sender := pid, signal := signal, message := Vector.ofFn fun i => name.getD i 0 }

theorem request_name {name : List UInt8} (pid signal : UInt32) (hlen : name.length < 512)
    (hname : ∀ c ∈ name, c ≠ 0) : (request pid signal name).name = name := by
  have htext : (request pid signal name).message.toList
      = name ++ List.replicate (512 - name.length) 0 := by
    refine List.ext_getElem (by simp; omega) (fun i hi hi' => ?_)
    simp only [request, Vector.getElem_toList, Vector.getElem_ofFn, List.getElem_append]
    split
    · exact (List.getElem_eq_getD 0).symm
    · rw [List.getElem_replicate, List.getD_eq_getElem?_getD, List.getElem?_eq_none (by omega)]
      rfl
  obtain ⟨k, hk⟩ : ∃ k, 512 - name.length = k + 1 := ⟨511 - name.length, by omega⟩
  rw [Message.name, htext, hk, List.replicate_succ, List.takeWhile_append_of_pos (by simpa using hname),
    List.takeWhile_cons_of_neg (by simp), List.append_nil]

/-- The name `vfs`. -/
def vfs : List UInt8 := [118, 102, 115]

/-- On the kernel heap: the processes 5 and 7 register `vfs` one after the other, and the process 6
looks it up and gets 7. -/
theorem service_registry_first : ∃ reply₁ R₁ reply₂ R₂,
    kernelProcess (firstFit Layout.least).toHeap ⟨kinitHeap Layout.least (fun _ => 0), NULL⟩
      (request 5 1 vfs) = some (reply₁, R₁) ∧
    kernelProcess (firstFit Layout.least).toHeap R₁ (request 7 1 vfs) = some (reply₂, R₂) ∧
    kernelProcess (firstFit Layout.least).toHeap R₂ (request 6 2 vfs)
      = some (some (6, { request 6 2 vfs with signal := 7 }), R₂) := by
  have hname : ∀ pid signal, (request pid signal vfs).name = vfs := fun pid signal =>
    request_name pid signal (by decide) (by simp [vfs])
  have hnamed : ∀ pid signal, (request pid signal vfs).WellNamed := fun pid signal _ => by
    rw [hname]
    decide
  have hregisters : (request 5 1 vfs).registers ∧ (request 7 1 vfs).registers :=
    ⟨rfl, rfl⟩
  have hboot : RegistryRun (firstFit Layout.least) ⟨kinitHeap Layout.least (fun _ => 0), NULL⟩
      [] [] [] := .boot (firstFit_init _ _)
  have hheap : HeapState Layout.least (heapLimit Layout.least)
      (kinitHeap Layout.least (fun _ => 0)) [⟨0x301000, 0, true⟩] [] := heapState_init _ (by decide)
  generalize kinitHeap Layout.least (fun _ => 0) = m at hboot hheap ⊢
  obtain ⟨reply₁, R₁, hk₁, hrun₁, hheap₁⟩ := hboot.register_follows (a := 0x301010)
    hheap (show _ = some (_, [⟨0x301000, 0, true⟩, ⟨0x301010, 264, false⟩]) by decide)
    (hnamed 5 1) hregisters.1
  obtain ⟨reply₂, R₂, hk₂, hrun₂, -⟩ := hrun₁.register_follows (a := 0x301128)
    hheap₁ (show _ = some (_, [⟨0x301000, 0, true⟩, ⟨0x301010, 264, false⟩,
      ⟨0x301128, 264, false⟩]) by decide) (hnamed 7 1) hregisters.2
  have hlookup := (service_registry hrun₂ (request 6 2 vfs) (hnamed 6 2)).1
    (by simp [request]) rfl
  have hlatest : registrar [request 7 1 vfs, request 5 1 vfs] vfs = some 7 := by
    rw [registrar, List.find?_cons_of_pos (by simp [hregisters.2, hname])]
    rfl
  rw [hname, hlatest] at hlookup
  exact ⟨reply₁, R₁, reply₂, R₂, hk₁, hk₂, hlookup⟩

end DayOS
