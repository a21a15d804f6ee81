import DayOS.Lib.Ia32

set_option autoImplicit false

/-! # The descriptor tables (`gdt.c`, `idt.c`)

Both tables are packed structures, written field by field; the processor reads them its own way.
There are gates for the exceptions up to 18, for the sixteen interrupt lines and for the system
call, and only the last one is open to outer rings. So `int_handler` never sees another vector:
what the table does not have ends as a general protection fault (`arrive_served`).
-/

namespace DayOS

open ByteMemory Ia32

/-! ## The code -/

/-- `CreateDescriptor`. -/
def createDescriptor (m : Mem) (entry : Nat) (base limit : UInt32) (access gran : UInt8) : Mem :=
  let m := store16 m (entry + 2) (base &&& 0xFFFF).toNat
  let m := store8 m (entry + 4) ((base >>> 16) &&& 0xFF).toNat
  let m := store8 m (entry + 7) ((base >>> 24) &&& 0xFF).toNat
  let m := store16 m entry (limit &&& 0xFFFF).toNat
  let m := store8 m (entry + 6) ((limit >>> 16) &&& 0x0F).toNat
  let m := store8 m (entry + 6) (load8 m (entry + 6) ||| (gran &&& 0xF0).toNat)
  store8 m (entry + 5) access.toNat

/-- `InitGlobalDescriptors`, with `tss`, `gp` and `gdt_entries` at these addresses. -/
def initGlobalDescriptors (m : Mem) (tss gp gdtEntries : Nat) (kernelEsp : Nat) : Mem :=
  let m := store32 m (tss + 4) kernelEsp
  let m := store16 m gp (8 * 6 - 1)
  let m := store32 m (gp + 2) gdtEntries
  let m := createDescriptor m gdtEntries 0 0 0 0
  let m := createDescriptor m (gdtEntries + 8) 0 0xFFFFFFFF 0x9A 0xCF
  let m := createDescriptor m (gdtEntries + 16) 0 0xFFFFFFFF 0x92 0xCF
  let m := createDescriptor m (gdtEntries + 24) 0 0xFFFFFFFF 0xFA 0xCF
  let m := createDescriptor m (gdtEntries + 32) 0 0xFFFFFFFF 0xF2 0xCF
  createDescriptor m (gdtEntries + 40) (UInt32.ofNat tss) 128 0x89 0x40

/-- `CreateInterruptDescriptor`, with `idt_entries` at `idt`. -/
def createInterruptDescriptor (idt : Nat) (m : Mem) (entry : Nat) (base : UInt32) (sel : UInt16)
    (flags : UInt8) : Mem :=
  let m := store16 m (idt + 8 * entry) (base &&& 0xFFFF).toNat
  let m := store16 m (idt + 8 * entry + 6) ((base >>> 16) &&& 0xFFFF).toNat
  let m := store16 m (idt + 8 * entry + 2) sel.toNat
  let m := store8 m (idt + 8 * entry + 4) 0
  store8 m (idt + 8 * entry + 5) flags.toNat

/-- The stubs that `InitInterruptDescriptors` enters in the table before the one of the system
call. -/
def ringZeroVectors : List Nat := List.range 19 ++ List.range' 32 16

/-- What `InitInterruptDescriptors` stores: the pointer, zeros, and the gates. The ports are
left to `initPic`. -/
def initInterruptDescriptors (m : Mem) (ip idt : Nat) (stub : Nat → UInt32) : Mem :=
  let m := store16 m ip (8 * 256 - 1)
  let m := store32 m (ip + 2) idt
  let m := writeBytes m idt (List.replicate 2048 0)
  let m := ringZeroVectors.foldl
    (fun m v => createInterruptDescriptor idt m v (stub v) 0x08 0x8E) m
  createInterruptDescriptor idt m 48 (stub 48) 0x08 0xEE

/-! ## Segments -/

section
variable {m : Mem} {entry : Nat} {base limit : UInt32} {access gran : UInt8}

theorem createDescriptor_of_outside {x : Nat} (h : x < entry ∨ entry + 8 ≤ x) :
    createDescriptor m entry base limit access gran x = m x := by
  simp only [createDescriptor]
  rw [store8_of_ne (by omega), store8_of_ne (by omega), store8_of_ne (by omega),
    store16_of_outside (by omega), store8_of_ne (by omega), store8_of_ne (by omega),
    store16_of_outside (by omega)]

theorem agreeOn_createDescriptor {b n : Nat} (h : b + n ≤ entry ∨ entry + 8 ≤ b) :
    AgreeOn m (createDescriptor m entry base limit access gran) b n :=
  fun _ _ _ => createDescriptor_of_outside (by omega)

set_option maxRecDepth 4000 in
/-- The upper half of `granularity`. -/
theorem or_flags (limit : Nat) (gran : UInt8) :
    (limit % 16 ||| (gran &&& 0xF0).toNat) = limit % 16 + 16 * (gran.toNat / 16) := by
  have hmask : ∀ g < 256, g &&& 0xF0 = 2 ^ 4 * (g / 16) := by decide
  have hgran : (gran &&& 0xF0).toNat = 2 ^ 4 * (gran.toNat / 16) := by
    rw [UInt8.toNat_and]
    exact hmask _ gran.toNat_lt
  have hlt : limit % 16 < 2 ^ 4 := Nat.mod_lt _ (by decide)
  rw [hgran, Nat.or_comm, ← Nat.two_pow_add_eq_or_of_lt hlt]
  omega

theorem toNat_and_0xFFFF (w : UInt32) : (w &&& 0xFFFF).toNat = w.toNat % 2 ^ 16 := by
  rw [UInt32.toNat_and]
  exact Nat.and_two_pow_sub_one_eq_mod _ 16

theorem toNat_and_0xFF (w : UInt32) : (w &&& 0xFF).toNat = w.toNat % 2 ^ 8 := by
  rw [UInt32.toNat_and]
  exact Nat.and_two_pow_sub_one_eq_mod _ 8

theorem toNat_and_0x0F (w : UInt32) : (w &&& 0x0F).toNat = w.toNat % 16 := by
  rw [UInt32.toNat_and]
  exact Nat.and_two_pow_sub_one_eq_mod _ 4

theorem toNat_shiftRight_16 (w : UInt32) : (w >>> 16).toNat = w.toNat / 2 ^ 16 := by
  rw [UInt32.toNat_shiftRight, Nat.shiftRight_eq_div_pow]
  rfl

theorem toNat_shiftRight_24 (w : UInt32) : (w >>> 24).toNat = w.toNat / 2 ^ 24 := by
  rw [UInt32.toNat_shiftRight, Nat.shiftRight_eq_div_pow]
  rfl

/-- **A segment descriptor is read as it was written**, the upper bits of its limit apart. -/
theorem readSegment_createDescriptor :
    readSegment (createDescriptor m entry base limit access gran) entry
      = ⟨base.toNat, limit.toNat % 2 ^ 20, access.toNat, gran.toNat / 16⟩ := by
  have hb := base.toNat_lt
  have hl := limit.toNat_lt
  have ha := access.toNat_lt
  have hg := gran.toNat_lt
  have hor := or_flags (limit.toNat / 2 ^ 16) gran
  simp only [readSegment, createDescriptor]
  simp (disch := omega) only [load16_store8_of_ne, load16_store16_of_ne, load16_store16,
    load8_store8_of_ne, load8_store16_of_ne, load8_store8, toNat_and_0xFFFF, toNat_and_0xFF,
    toNat_and_0x0F, toNat_shiftRight_16, toNat_shiftRight_24, Segment.mk.injEq]
  have hsmall : limit.toNat / 2 ^ 16 % 16 % 2 ^ 8 = limit.toNat / 2 ^ 16 % 16 := by omega
  rw [hsmall, hor]
  refine ⟨?_, ?_, ?_, ?_⟩ <;> omega

end

/-- A segment that spans all addresses, for the ring in `access`. -/
def flatSegment (access : Nat) : Segment := ⟨0, 0xFFFFF, access, 0xC⟩

/-- The segments of the table, in order. -/
def segments (tss : Nat) : List Segment :=
  [⟨0, 0, 0, 0⟩, flatSegment 0x9A, flatSegment 0x92, flatSegment 0xFA, flatSegment 0xF2,
    ⟨tss % 2 ^ 32, 128, 0x89, 4⟩]

section
variable (m : Mem) (tss gp gdtEntries kernelEsp : Nat)

/-- The six descriptors leave what lies apart from the table alone. -/
theorem agreeOn_initGlobalDescriptors {b n : Nat}
    (h : b + n ≤ gdtEntries ∨ gdtEntries + 48 ≤ b) :
    AgreeOn (store32 (store16 (store32 m (tss + 4) kernelEsp) gp 47) (gp + 2) gdtEntries)
      (initGlobalDescriptors m tss gp gdtEntries kernelEsp) b n := by
  intro x hx hx'
  simp (disch := omega) only [initGlobalDescriptors, createDescriptor_of_outside]

/-- Every descriptor of the table. -/
theorem readSegment_initGlobalDescriptors {i : Nat} {seg : Segment}
    (hseg : (segments tss)[i]? = some seg) :
    readSegment (initGlobalDescriptors m tss gp gdtEntries kernelEsp) (gdtEntries + 8 * i) = seg := by
  simp only [initGlobalDescriptors]
  have hkeep : ∀ (m : Mem) (entry k : Nat) (base limit : UInt32) (access gran : UInt8),
      k + 8 ≤ entry ∨ entry + 8 ≤ k →
      readSegment (createDescriptor m entry base limit access gran) k = readSegment m k :=
    fun _ _ _ _ _ _ _ h => readSegment_congr (agreeOn_createDescriptor h)
  match i, hseg with
  | 0, rfl =>
      rw [hkeep _ _ _ _ _ _ _ (by omega), hkeep _ _ _ _ _ _ _ (by omega),
        hkeep _ _ _ _ _ _ _ (by omega), hkeep _ _ _ _ _ _ _ (by omega),
        hkeep _ _ _ _ _ _ _ (by omega)]
      exact readSegment_createDescriptor
  | 1, rfl =>
      rw [hkeep _ _ _ _ _ _ _ (by omega), hkeep _ _ _ _ _ _ _ (by omega),
        hkeep _ _ _ _ _ _ _ (by omega), hkeep _ _ _ _ _ _ _ (by omega),
        readSegment_createDescriptor]
      rfl
  | 2, rfl =>
      rw [hkeep _ _ _ _ _ _ _ (by omega), hkeep _ _ _ _ _ _ _ (by omega),
        hkeep _ _ _ _ _ _ _ (by omega), readSegment_createDescriptor]
      rfl
  | 3, rfl =>
      rw [hkeep _ _ _ _ _ _ _ (by omega), hkeep _ _ _ _ _ _ _ (by omega),
        readSegment_createDescriptor]
      rfl
  | 4, rfl =>
      rw [hkeep _ _ _ _ _ _ _ (by omega), readSegment_createDescriptor]
      rfl
  | 5, rfl =>
      rw [readSegment_createDescriptor, UInt32.toNat_ofNat']
      rfl
  | k + 6, hseg => simp [segments] at hseg

/-- The pointer for `lgdt`. -/
theorem initGlobalDescriptors_pointer (hgp : gp + 6 ≤ gdtEntries ∨ gdtEntries + 48 ≤ gp) :
    load16 (initGlobalDescriptors m tss gp gdtEntries kernelEsp) gp = 47 ∧
    load32 (initGlobalDescriptors m tss gp gdtEntries kernelEsp) (gp + 2)
      = gdtEntries % 2 ^ 32 := by
  constructor
  · calc
      _ = load16 (store32 (store16 (store32 m (tss + 4) kernelEsp) gp 47) (gp + 2) gdtEntries) gp :=
          load16_congr (agreeOn_initGlobalDescriptors m tss gp gdtEntries kernelEsp (by omega))
      _ = load16 (store16 (store32 m (tss + 4) kernelEsp) gp 47) gp :=
          load16_congr (agreeOn_store32 (by omega))
      _ = 47 := load16_store16 _ _ _
  · calc
      _ = load32 (store32 (store16 (store32 m (tss + 4) kernelEsp) gp 47) (gp + 2) gdtEntries)
            (gp + 2) :=
          load32_congr (agreeOn_initGlobalDescriptors m tss gp gdtEntries kernelEsp (by omega))
      _ = gdtEntries % 2 ^ 32 := load32_store32 _ _ _

/-- The stack pointer for the way into ring 0. -/
theorem initGlobalDescriptors_esp0 (hgdt : tss + 8 ≤ gdtEntries ∨ gdtEntries + 48 ≤ tss + 4)
    (hgp : tss + 8 ≤ gp ∨ gp + 6 ≤ tss + 4) :
    load32 (initGlobalDescriptors m tss gp gdtEntries kernelEsp) (tss + 4) = kernelEsp % 2 ^ 32 := by
  calc
    _ = load32 (store32 (store16 (store32 m (tss + 4) kernelEsp) gp 47) (gp + 2) gdtEntries)
          (tss + 4) :=
        load32_congr (agreeOn_initGlobalDescriptors m tss gp gdtEntries kernelEsp (by omega))
    _ = load32 (store16 (store32 m (tss + 4) kernelEsp) gp 47) (tss + 4) :=
        load32_store32_of_ne (by omega)
    _ = load32 (store32 m (tss + 4) kernelEsp) (tss + 4) :=
        load32_congr (agreeOn_store16 (by omega))
    _ = kernelEsp % 2 ^ 32 := load32_store32 _ _ _

/-- **The segments**, wherever the table lies. Where the table, its pointer and the task state
segment do not overlap, the pointer leads to the table and `esp0` is the stack pointer given.
Nothing else has changed. -/
theorem initGlobalDescriptors_segments :
    (∀ i seg, (segments tss)[i]? = some seg →
      readSegment (initGlobalDescriptors m tss gp gdtEntries kernelEsp) (gdtEntries + 8 * i) = seg) ∧
    ((gp + 6 ≤ gdtEntries ∨ gdtEntries + 48 ≤ gp) →
      load16 (initGlobalDescriptors m tss gp gdtEntries kernelEsp) gp = 47 ∧
      load32 (initGlobalDescriptors m tss gp gdtEntries kernelEsp) (gp + 2)
        = gdtEntries % 2 ^ 32) ∧
    ((tss + 8 ≤ gdtEntries ∨ gdtEntries + 48 ≤ tss + 4) → (tss + 8 ≤ gp ∨ gp + 6 ≤ tss + 4) →
      load32 (initGlobalDescriptors m tss gp gdtEntries kernelEsp) (tss + 4)
        = kernelEsp % 2 ^ 32) ∧
    ∀ x, (x < gdtEntries ∨ gdtEntries + 48 ≤ x) → (x < gp ∨ gp + 6 ≤ x) →
      (x < tss + 4 ∨ tss + 8 ≤ x) →
      initGlobalDescriptors m tss gp gdtEntries kernelEsp x = m x := by
  refine ⟨fun i seg => readSegment_initGlobalDescriptors m tss gp gdtEntries kernelEsp,
    initGlobalDescriptors_pointer m tss gp gdtEntries kernelEsp,
    initGlobalDescriptors_esp0 m tss gp gdtEntries kernelEsp, fun x hgdt hgp htss => ?_⟩
  simp (disch := omega) only [initGlobalDescriptors, createDescriptor_of_outside,
    store32_of_outside, store16_of_outside]

end

/-- The table at `0x1000`, its pointer behind it, and the task state segment at `0x2000`. -/
theorem initGlobalDescriptors_segments_least :
    readSegment (initGlobalDescriptors (fun _ => 0) 0x2000 0x1030 0x1000 0x9000) 0x1018
      = flatSegment 0xFA ∧
    load32 (initGlobalDescriptors (fun _ => 0) 0x2000 0x1030 0x1000 0x9000) 0x1032 = 0x1000 ∧
    load32 (initGlobalDescriptors (fun _ => 0) 0x2000 0x1030 0x1000 0x9000) 0x2004 = 0x9000 := by
  obtain ⟨hseg, hpointer, hesp0, -⟩ :=
    initGlobalDescriptors_segments (fun _ => 0) 0x2000 0x1030 0x1000 0x9000
  exact ⟨hseg 3 _ rfl, (hpointer (by decide)).2, hesp0 (by decide) (by decide)⟩

/-! ## Gates -/

/-- What the table is meant to hold. -/
def gateOf (stub : Nat → UInt32) (v : Nat) : Gate :=
  if v ∈ ringZeroVectors then ⟨(stub v).toNat, 0x08, 0x8E⟩
  else if v = 48 then ⟨(stub 48).toNat, 0x08, 0xEE⟩
  else ⟨0, 0, 0⟩

section
variable {m m' : Mem} {ip idt entry v : Nat} {base : UInt32} {sel : UInt16} {flags : UInt8}
  {stub : Nat → UInt32}

theorem createInterruptDescriptor_of_outside {x : Nat}
    (h : x < idt + 8 * entry ∨ idt + 8 * entry + 8 ≤ x) :
    createInterruptDescriptor idt m entry base sel flags x = m x := by
  simp only [createInterruptDescriptor]
  rw [store8_of_ne (by omega), store8_of_ne (by omega), store16_of_outside (by omega),
    store16_of_outside (by omega), store16_of_outside (by omega)]

theorem readGate_createInterruptDescriptor :
    readGate (createInterruptDescriptor idt m entry base sel flags) (idt + 8 * entry)
      = ⟨base.toNat, sel.toNat, flags.toNat⟩ := by
  have hb := base.toNat_lt
  have hs := sel.toNat_lt
  have hf := flags.toNat_lt
  simp only [readGate, createInterruptDescriptor]
  simp (disch := omega) only [load16_store8_of_ne, load16_store16_of_ne, load16_store16,
    load8_store8, toNat_and_0xFFFF, toNat_shiftRight_16, Gate.mk.injEq]
  refine ⟨?_, ?_, ?_⟩ <;> omega

theorem readGate_createInterruptDescriptor_of_ne (h : v ≠ entry) :
    readGate (createInterruptDescriptor idt m entry base sel flags) (idt + 8 * v)
      = readGate m (idt + 8 * v) := by
  refine readGate_congr (fun x hx hx' => createInterruptDescriptor_of_outside ?_)
  omega

/-- Gates of one kind, one after the other. -/
theorem readGate_foldl (vs : List Nat) :
    readGate (vs.foldl (fun m v => createInterruptDescriptor idt m v (stub v) sel flags) m)
        (idt + 8 * v)
      = if v ∈ vs then ⟨(stub v).toNat, sel.toNat, flags.toNat⟩ else readGate m (idt + 8 * v) := by
  induction vs using List.reverseRecOn with
  | nil => rfl
  | append_singleton vs w ih =>
      rw [List.foldl_append, List.foldl_cons, List.foldl_nil]
      by_cases hvw : v = w
      · subst hvw
        rw [readGate_createInterruptDescriptor, if_pos (by simp)]
      · rw [readGate_createInterruptDescriptor_of_ne hvw, ih]
        simp only [List.mem_append, List.mem_singleton, hvw, or_false]

theorem foldl_of_outside {x : Nat} (vs : List Nat) (hvs : ∀ v ∈ vs, v < 256)
    (h : x < idt ∨ idt + 2048 ≤ x) :
    vs.foldl (fun m v => createInterruptDescriptor idt m v (stub v) sel flags) m x = m x := by
  induction vs generalizing m with
  | nil => rfl
  | cons w vs ih =>
      have hw := hvs w List.mem_cons_self
      rw [List.foldl_cons, ih (fun v hv => hvs v (List.mem_cons_of_mem _ hv))]
      exact createInterruptDescriptor_of_outside (by omega)

theorem ringZeroVectors_lt (h : v ∈ ringZeroVectors) : v ≤ 18 ∨ 32 ≤ v ∧ v ≤ 47 := by
  simp only [ringZeroVectors, List.mem_append, List.mem_range, List.mem_range'_1] at h
  omega

theorem mem_ringZeroVectors (h : v ≤ 18 ∨ 32 ≤ v ∧ v ≤ 47) : v ∈ ringZeroVectors := by
  simp only [ringZeroVectors, List.mem_append, List.mem_range, List.mem_range'_1]
  omega

/-- Every gate of the table. -/
theorem readGate_initInterruptDescriptors (hv : v < 256) :
    readGate (initInterruptDescriptors m ip idt stub) (idt + 8 * v) = gateOf stub v := by
  simp only [initInterruptDescriptors]
  have hzero : ∀ m₀ : Mem, readGate (writeBytes m₀ idt (List.replicate 2048 0)) (idt + 8 * v)
      = ⟨0, 0, 0⟩ := by
    intro m₀
    have hbyte : ∀ x, idt ≤ x → x < idt + 2048 →
        writeBytes m₀ idt (List.replicate 2048 0) x = 0 := by
      intro x hx hx'
      rw [writeBytes, if_pos (by rw [List.length_replicate]; exact ⟨hx, hx'⟩)]
      rw [List.getD_eq_getElem?_getD, List.getElem?_replicate]
      split <;> rfl
    simp (disch := omega) only [readGate, load16, load8, hbyte]
    rfl
  by_cases h48 : v = 48
  · subst h48
    rw [readGate_createInterruptDescriptor, gateOf, if_neg (by decide), if_pos rfl]
    rfl
  · rw [readGate_createInterruptDescriptor_of_ne h48, readGate_foldl, hzero, gateOf, if_neg h48]
    rfl

/-- Nothing but the table and its pointer has changed. -/
theorem initInterruptDescriptors_of_outside {x : Nat} (hip : x < ip ∨ ip + 6 ≤ x)
    (hidt : x < idt ∨ idt + 2048 ≤ x) : initInterruptDescriptors m ip idt stub x = m x := by
  have hlen : (List.replicate 2048 (0 : UInt8)).length = 2048 := List.length_replicate
  simp only [initInterruptDescriptors]
  rw [createInterruptDescriptor_of_outside (by omega),
    foldl_of_outside _ (fun v hv => by have := ringZeroVectors_lt hv; omega) hidt,
    writeBytes_of_outside (by omega), store32_of_outside (by omega), store16_of_outside (by omega)]

/-! ## Arrivals -/

/-- What a processor with the two interrupt controllers can raise, in code of the ring `cpl`: the
kernel itself has no `int` instruction but the one for system calls. -/
def Arises (cpl : Nat) : Source → Nat → Prop
  | .exception, v => v < 32
  | .device, v => 32 ≤ v ∧ v ≤ 47
  | .software, v => v < 256 ∧ (cpl = 0 → v = 48)

/-- The vector that is served. -/
def served : Source → Nat → Nat
  | .exception, v => if v ≤ 18 then v else 13
  | .device, v => v
  | .software, v => if v = 48 then 48 else 13

/-- The vectors that `int_handler` knows. -/
def Known (v : Nat) : Prop := v ≤ 18 ∨ 32 ≤ v ∧ v ≤ 48

instance (v : Nat) : Decidable (Known v) := inferInstanceAs (Decidable (_ ∨ _))

theorem gateOf_ringZero (h : v ≤ 18 ∨ 32 ≤ v ∧ v ≤ 47) :
    gateOf stub v = ⟨(stub v).toNat, 0x08, 0x8E⟩ := if_pos (mem_ringZeroVectors h)

theorem gateOf_48 : gateOf stub 48 = ⟨(stub 48).toNat, 0x08, 0xEE⟩ := by
  rw [gateOf, if_neg (by decide), if_pos rfl]

theorem gateOf_none (h : ¬ Known v) : gateOf stub v = ⟨0, 0, 0⟩ := by
  rw [gateOf, if_neg (fun hmem => h ((ringZeroVectors_lt hmem).imp id (fun h => ⟨h.1, by omega⟩))),
    if_neg (fun h48 => h (Or.inr (by omega)))]

/-- Behind a gate for ring 0 that is present, `int` instructions of outer rings apart, the vector
is served. -/
theorem arrive_ringZero {cpl : Nat} {source : Source} {code : UInt32}
    (h : v ≤ 18 ∨ 32 ≤ v ∧ v ≤ 47) (hs : source ≠ .software) :
    arrive (gateOf stub) cpl source v code
      = (v, if source = .exception ∧ HasCode v then some code else none) := by
  have hgate : (gateOf stub v).IsInterrupt ∧ Present (gateOf stub v).access := by
    rw [gateOf_ringZero h]
    exact ⟨show 0x8E % 2 ^ 5 = 0xE by decide, show 2 ^ 7 ≤ 0x8E by decide⟩
  simp only [arrive]
  rw [if_neg (not_not.mpr hgate.1), if_neg (fun hsw => hs hsw.1), if_neg (not_not.mpr hgate.2)]

/-- The system call, from every ring. -/
theorem arrive_syscall {cpl : Nat} {code : UInt32} (hcpl : cpl ≤ 3) :
    arrive (gateOf stub) cpl .software 48 code = (48, none) := by
  have hgate : (gateOf stub 48).IsInterrupt ∧ Present (gateOf stub 48).access ∧
      ring (gateOf stub 48).access = 3 := by
    rw [gateOf_48]
    exact ⟨show 0xEE % 2 ^ 5 = 0xE by decide, show 2 ^ 7 ≤ 0xEE by decide,
      show 0xEE / 2 ^ 5 % 4 = 3 by decide⟩
  simp only [arrive]
  rw [if_neg (not_not.mpr hgate.1), if_neg (by omega), if_neg (not_not.mpr hgate.2.1),
    if_neg (fun h => nomatch h.1)]

variable (stub) in
/-- A vector without a gate, or one whose gate is not open to `int` instructions. -/
theorem arrive_fault {cpl : Nat} {source : Source} (code : UInt32)
    (h : ¬ Known v ∨ source = .software ∧ cpl ≠ 0 ∧ v ≠ 48) :
    ∃ e, arrive (gateOf stub) cpl source v code = (13, some e) := by
  by_cases hgate : (gateOf stub v).IsInterrupt
  · rcases h with hnone | ⟨rfl, hpos, hne⟩
    · rw [gateOf_none hnone] at hgate
      cases hgate
    · have hlow : v ≤ 18 ∨ 32 ≤ v ∧ v ≤ 47 := by
        by_contra hcon
        rw [gateOf_none (by simp only [Known]; omega)] at hgate
        cases hgate
      have hring : ring (gateOf stub v).access < cpl := by
        have hzero : ring 0x8E = 0 := by decide
        rw [gateOf_ringZero hlow, hzero]
        exact Nat.pos_of_ne_zero hpos
      refine ⟨UInt32.ofNat (8 * v + 2), ?_⟩
      simp only [arrive]
      rw [if_neg (not_not.mpr hgate), if_pos ⟨trivial, hring⟩]
  · refine ⟨UInt32.ofNat (8 * v + 2 + if source = .software then 0 else 1), ?_⟩
    simp only [arrive]
    rw [if_pos hgate]

variable (stub) in
/-- **What arrives.** With the table in place, exceptions, interrupt lines and system calls are
served under their own vectors, everything else is a general protection fault, and there is an
error code exactly where the stub expects one. -/
theorem arrive_served {cpl : Nat} {source : Source} (code : UInt32) (hcpl : cpl ≤ 3)
    (h : Arises cpl source v) :
    (arrive (gateOf stub) cpl source v code).1 = served source v ∧ Known (served source v) ∧
    ((arrive (gateOf stub) cpl source v code).2.isSome ↔ HasCode (served source v)) := by
  have hfault : ¬ Known v ∨ source = .software ∧ cpl ≠ 0 ∧ v ≠ 48 → served source v = 13 →
      (arrive (gateOf stub) cpl source v code).1 = served source v ∧ Known (served source v) ∧
      ((arrive (gateOf stub) cpl source v code).2.isSome ↔ HasCode (served source v)) := by
    intro hf hserved
    obtain ⟨e, he⟩ := arrive_fault stub code hf
    rw [he, hserved]
    exact ⟨rfl, by decide, ⟨fun _ => by decide, fun _ => rfl⟩⟩
  cases source with
  | exception =>
      have hlt : v < 32 := h
      by_cases hv : v ≤ 18
      · have hserved : served .exception v = v := if_pos hv
        rw [arrive_ringZero (Or.inl hv) (by decide), hserved]
        refine ⟨rfl, Or.inl hv, ?_⟩
        by_cases hcode : HasCode v <;> simp [hcode]
      · -- the exceptions from 19 on have no gate
        exact hfault (Or.inl (by simp only [Known]; omega)) (if_neg hv)
  | device =>
      obtain ⟨hlo, hhi⟩ : 32 ≤ v ∧ v ≤ 47 := h
      rw [arrive_ringZero (Or.inr ⟨hlo, hhi⟩) (by decide)]
      have hcode : ¬ HasCode v := by
        simp only [HasCode]
        omega
      exact ⟨rfl, Or.inr ⟨hlo, hhi.trans (by decide)⟩, by simpa [served] using hcode⟩
  | software =>
      obtain ⟨-, hker⟩ : v < 256 ∧ (cpl = 0 → v = 48) := h
      by_cases hv : v = 48
      · subst hv
        rw [arrive_syscall hcpl]
        exact ⟨rfl, Or.inr ⟨by decide, by decide⟩, by decide⟩
      · exact hfault (Or.inr ⟨rfl, fun h0 => hv (hker h0), hv⟩) (if_neg hv)

end

end DayOS
