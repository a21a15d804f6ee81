import DayOS.Provenance
import DayOS.References
import DayOS.Lib.Lease

set_option autoImplicit false

/-! # Who owns an interrupt line (`idt.c`, `syscall.c`)

`irqHandlers` is a table of leases: a process registers for a line nobody has, resets its own,
and is removed from all. The pid 0 marks a line that nobody has, so a process of that pid never
owns one, and whatever it registers or resets succeeds. Without it the table behaves as the leases
do, and an interrupt reaches the owner of its line (`line_ownership`).

The system calls pass their argument on as it is; `irq_bounds` says for which arguments the
table is not left.
-/

namespace DayOS

open ByteMemory Linked

/-! ## The code -/

/-- The loop of `removeHandlerProcess`, with `k` lines to go from the `i`-th on. -/
def removeHandlerLoop (irqHandlers pid : Nat) : Nat → Nat → Mem → Mem
  | 0, _, m => m
  | k + 1, i, m => removeHandlerLoop irqHandlers pid k (i + 1)
      (if irqHandler irqHandlers m i = pid then store32 m (irqSlot irqHandlers i) 0 else m)

/-- `removeHandlerProcess`. -/
def removeHandlerProcess (irqHandlers : Nat) (m : Mem) (pid : Nat) : Mem :=
  removeHandlerLoop irqHandlers pid NUM_HANDLERS 0 m

/-- An argument, as the `int` that both functions take. -/
def asInt (word : Nat) : ℤ := if word < 2 ^ 31 then word else word - 2 ^ 32

/-- The indices of `irqHandlers` that `registerHandlerProcess` reads and writes, in order. -/
def registerAccesses (irqHandlers : Nat) (m : Mem) (irqno : Nat) : List ℤ :=
  if irqHandler irqHandlers m irqno ≠ 0 then [asInt irqno] else [asInt irqno, asInt irqno]

/-- The indices of `irqHandlers` that `resetHandlerProcess` reads and writes, in order. -/
def resetAccesses (irqHandlers : Nat) (m : Mem) (irqno pid : Nat) : List ℤ :=
  if irqHandler irqHandlers m irqno = pid then [asInt irqno, asInt irqno] else [asInt irqno]

/-! ## Bounds -/

/-- Where `irqHandlers[k]` lies, for an index that may be negative. -/
def handlerSlot (irqHandlers : Nat) (k : ℤ) : Nat := ((irqHandlers + 4 * k) % 2 ^ 32).toNat

/-- `log` is what `f` accesses: what `f` returns, and the log itself, depend on these entries of
`irqHandlers` only, and outside them `f` writes nothing. -/
structure KeepsTo (irqHandlers : Nat) (log : Mem → List ℤ) (f : Mem → Nat × Mem) : Prop where
  reads : ∀ m m', (∀ k ∈ log m, AgreeOn m m' (handlerSlot irqHandlers k) 4) →
    log m' = log m ∧ (f m').1 = (f m).1
  writes : ∀ m x, (∀ k ∈ log m, ¬ (⟨handlerSlot irqHandlers k, 4⟩ : Block).Has x) →
    (f m).2 x = m x

/-- A call that accesses the indices `log` keeps to the table, and does nothing unless the line is
in it. -/
structure InTable {σ : Type} (irqHandlers irqno : Nat) (log : List ℤ) (K K' : Kernel σ) : Prop where
  accesses : ∀ i ∈ log, 0 ≤ i ∧ i < NUM_HANDLERS
  outside : ∀ x, ¬ (irqTable irqHandlers).Has x → K'.mem x = K.mem x
  unchanged : NUM_HANDLERS ≤ irqno → K' = K

section
variable {σ : Type} {irqHandlers i j pid : Nat} {m m' : Mem} {K K' : Kernel σ}

theorem asInt_bounds (hi : i < 2 ^ 32) : (0 ≤ asInt i ∧ asInt i < NUM_HANDLERS) ↔ i < NUM_HANDLERS := by
  unfold asInt NUM_HANDLERS
  split <;> omega

/-- Both functions read the entry of the line, and read and write no other one. -/
theorem mem_registerAccesses {k : ℤ} : k ∈ registerAccesses irqHandlers m i ↔ k = asInt i := by
  unfold registerAccesses
  split <;> simp

theorem mem_resetAccesses {k : ℤ} : k ∈ resetAccesses irqHandlers m i pid ↔ k = asInt i := by
  unfold resetAccesses
  split <;> simp

theorem handlerSlot_asInt (i : Nat) :
    handlerSlot irqHandlers (asInt i) = irqSlot irqHandlers i := by
  unfold handlerSlot asInt irqSlot
  split <;> omega

/-- The entries of the table lie in it. -/
theorem handlerSlot_inTable {k : ℤ} {x : Nat} (hT : irqHandlers + 192 ≤ 2 ^ 32)
    (hk : 0 ≤ k ∧ k < NUM_HANDLERS) (hx : (⟨handlerSlot irqHandlers k, 4⟩ : Block).Has x) :
    (irqTable irqHandlers).Has x := by
  obtain ⟨n, rfl⟩ := Int.eq_ofNat_of_zero_le hk.1
  have hn : n < NUM_HANDLERS := by exact_mod_cast hk.2
  have hslot : handlerSlot irqHandlers n = irqHandlers + 4 * n := by
    rw [← irqSlot_eq hn hT]
    unfold handlerSlot irqSlot
    omega
  simp only [NUM_HANDLERS] at hn
  simp only [Block.Has, irqTable, hslot] at hx ⊢
  omega

/-- Both functions access the entries of their logs, and no others. -/
theorem registerHandlerProcess_keepsTo (i pid : Nat) :
    KeepsTo irqHandlers (fun m => registerAccesses irqHandlers m i)
      (fun m => registerHandlerProcess irqHandlers m i pid) where
  reads m m' h := by
    have hread : irqHandler irqHandlers m' i = irqHandler irqHandlers m i := by
      have hslot := h (asInt i) (mem_registerAccesses.mpr rfl)
      rw [handlerSlot_asInt] at hslot
      exact load32_congr hslot
    simp only [registerAccesses, registerHandlerProcess, hread]
    refine ⟨trivial, ?_⟩
    split <;> rfl
  writes m x h := by
    have hout := h (asInt i) (mem_registerAccesses.mpr rfl)
    rw [handlerSlot_asInt] at hout
    simp only [Block.Has] at hout
    unfold registerHandlerProcess
    split
    · rfl
    · exact store32_of_outside (by omega)

theorem resetHandlerProcess_keepsTo (i pid : Nat) :
    KeepsTo irqHandlers (fun m => resetAccesses irqHandlers m i pid)
      (fun m => resetHandlerProcess irqHandlers m i pid) where
  reads m m' h := by
    have hread : irqHandler irqHandlers m' i = irqHandler irqHandlers m i := by
      have hslot := h (asInt i) (mem_resetAccesses.mpr rfl)
      rw [handlerSlot_asInt] at hslot
      exact load32_congr hslot
    simp only [resetAccesses, resetHandlerProcess, hread]
    refine ⟨trivial, ?_⟩
    split <;> rfl
  writes m x h := by
    have hout := h (asInt i) (mem_resetAccesses.mpr rfl)
    rw [handlerSlot_asInt] at hout
    simp only [Block.Has] at hout
    unfold resetHandlerProcess
    split
    · exact store32_of_outside (by omega)
    · rfl

/-- With a line of the table they write nowhere else. -/
theorem registerHandlerProcess_of_outside {x : Nat} (hi : i < NUM_HANDLERS)
    (hT : irqHandlers + 192 ≤ 2 ^ 32) (hx : ¬ (irqTable irqHandlers).Has x) :
    (registerHandlerProcess irqHandlers m i pid).2 x = m x := by
  have hi32 : i < 2 ^ 32 := lt_trans hi (by decide)
  refine (registerHandlerProcess_keepsTo i pid).writes m x (fun k hk hin => hx ?_)
  rw [mem_registerAccesses.mp hk] at hin
  exact handlerSlot_inTable hT ((asInt_bounds hi32).mpr hi) hin

theorem resetHandlerProcess_of_outside {x : Nat} (hi : i < NUM_HANDLERS)
    (hT : irqHandlers + 192 ≤ 2 ^ 32) (hx : ¬ (irqTable irqHandlers).Has x) :
    (resetHandlerProcess irqHandlers m i pid).2 x = m x := by
  have hi32 : i < 2 ^ 32 := lt_trans hi (by decide)
  refine (resetHandlerProcess_keepsTo i pid).writes m x (fun k hk hin => hx ?_)
  rw [mem_resetAccesses.mp hk] at hin
  exact handlerSlot_inTable hT ((asInt_bounds hi32).mpr hi) hin

/-- **The bounds of the table.** For a process allowed to use them, `register_irq` and the call
that takes it back keep to the table, and do nothing for a line outside it, if and only if the
argument is a line of the table. -/
theorem irq_bounds (hT : irqHandlers + 192 ≤ 2 ^ 32)
    (hroot : procUid K.mem K.currentProcess = ROOT_UID) (hi : i < 2 ^ 32) :
    (InTable irqHandlers i (registerAccesses irqHandlers K.mem i) K (registerIrqCall irqHandlers K i) ∧
      InTable irqHandlers i
        (resetAccesses irqHandlers K.mem i (procPid K.mem K.currentProcess)) K
        (resetIrqCall irqHandlers K i)) ↔ i < NUM_HANDLERS := by
  constructor
  · rintro ⟨hregister, -⟩
    exact (asInt_bounds hi).mp (hregister.accesses _ (mem_registerAccesses.mpr rfl))
  · intro hlt
    have hin := (asInt_bounds hi).mpr hlt
    refine ⟨⟨fun k hk => ?_, fun x hx => ?_, fun hge => absurd hlt (not_lt.mpr hge)⟩,
      fun k hk => ?_, fun x hx => ?_, fun hge => absurd hlt (not_lt.mpr hge)⟩
    · rw [mem_registerAccesses.mp hk]
      exact hin
    · rw [registerIrqCall, if_neg (not_not.mpr hroot)]
      exact registerHandlerProcess_of_outside hlt hT hx
    · rw [mem_resetAccesses.mp hk]
      exact hin
    · rw [resetIrqCall, if_neg (not_not.mpr hroot)]
      exact resetHandlerProcess_of_outside hlt hT hx

end

/-- The line of the keyboard is in the table. -/
theorem irq_bounds_keyboard : InTable handlersAt 0x21
    (registerAccesses handlersAt (threeProcesses PROCESS_RUNNABLE).mem 0x21)
    (threeProcesses PROCESS_RUNNABLE)
    (registerIrqCall handlersAt (threeProcesses PROCESS_RUNNABLE) 0x21) :=
  ((irq_bounds (by decide) (by decide) (by decide)).mpr (by decide)).1

/-- The first line behind the table is registered behind the table, and so is the line -1, which
is in front of it. -/
theorem irq_bounds_fails :
    procUid (threeProcesses PROCESS_RUNNABLE).mem (threeProcesses PROCESS_RUNNABLE).currentProcess
      = ROOT_UID ∧
    (threeProcesses PROCESS_RUNNABLE).mem (handlersAt + 192) = 0 ∧
    (registerIrqCall handlersAt (threeProcesses PROCESS_RUNNABLE) 48).mem (handlersAt + 192) = 2 ∧
    (threeProcesses PROCESS_RUNNABLE).mem (handlersAt - 4) = 0 ∧
    (registerIrqCall handlersAt (threeProcesses PROCESS_RUNNABLE) 0xFFFFFFFF).mem (handlersAt - 4) = 2 ∧
    ¬ InTable handlersAt 48
      (registerAccesses handlersAt (threeProcesses PROCESS_RUNNABLE).mem 48)
      (threeProcesses PROCESS_RUNNABLE)
      (registerIrqCall handlersAt (threeProcesses PROCESS_RUNNABLE) 48) := by
  refine ⟨by decide, by decide, by decide, by decide, by decide, fun h => ?_⟩
  have hbounds := h.accesses 48 (mem_registerAccesses.mpr rfl)
  exact absurd hbounds.2 (by decide)

/-! ## The table as leases -/

/-- Who owns the lines of the table: the pid 0 is nobody. -/
def lines (irqHandlers : Nat) (m : Mem) : Lease.Table Nat Nat := fun i =>
  if i < NUM_HANDLERS ∧ irqHandler irqHandlers m i ≠ 0 then some (irqHandler irqHandlers m i)
  else none

section
variable {irqHandlers i j k pid v : Nat} {m m' : Mem}

theorem lines_eq_some (hi : i < NUM_HANDLERS) (hpid : pid ≠ 0) :
    lines irqHandlers m i = some pid ↔ irqHandler irqHandlers m i = pid := by
  unfold lines
  constructor
  · intro h
    split at h
    · exact Option.some.inj h
    · cases h
  · rintro rfl
    rw [if_pos ⟨hi, hpid⟩]

theorem lines_eq_none (hi : i < NUM_HANDLERS) :
    lines irqHandlers m i = none ↔ irqHandler irqHandlers m i = 0 := by
  unfold lines
  constructor
  · intro h
    by_contra hne
    rw [if_pos ⟨hi, hne⟩] at h
    cases h
  · intro h
    rw [if_neg (fun hand => hand.2 h)]

/-- The table is made of its entries. -/
theorem lines_ext (h : ∀ i < NUM_HANDLERS, irqHandler irqHandlers m' i = irqHandler irqHandlers m i) :
    lines irqHandlers m' = lines irqHandlers m := by
  funext i
  unfold lines
  by_cases hi : i < NUM_HANDLERS
  · rw [h i hi]
  · rw [if_neg (fun hand => hi hand.1), if_neg (fun hand => hi hand.1)]

theorem lines_congr (h : AgreeOn m m' irqHandlers 192) (hT : irqHandlers + 192 ≤ 2 ^ 32) :
    lines irqHandlers m' = lines irqHandlers m :=
  lines_ext (fun _ hi => irqHandler_congr h hi hT)

/-- A store into one entry. -/
theorem irqHandler_store (hT : irqHandlers + 192 ≤ 2 ^ 32) (hi : i < NUM_HANDLERS)
    (hj : j < NUM_HANDLERS) : irqHandler irqHandlers (store32 m (irqSlot irqHandlers i) v) j
      = if j = i then v % 2 ^ 32 else irqHandler irqHandlers m j := by
  unfold irqHandler
  rw [irqSlot_eq hi hT, irqSlot_eq hj hT]
  by_cases hji : j = i
  · rw [if_pos hji, hji, load32_store32]
  · rw [if_neg hji, load32_store32_of_ne (by omega)]

theorem lines_store (hT : irqHandlers + 192 ≤ 2 ^ 32) (hi : i < NUM_HANDLERS) (hv : v < 2 ^ 32) :
    lines irqHandlers (store32 m (irqSlot irqHandlers i) v)
      = Function.update (lines irqHandlers m) i (if v = 0 then none else some v) := by
  funext j
  by_cases hji : j = i
  · subst hji
    rw [Function.update_self]
    unfold lines
    rw [irqHandler_store hT hi hi, if_pos rfl, Nat.mod_eq_of_lt hv]
    by_cases hv0 : v = 0
    · rw [if_pos hv0, if_neg (fun hand => hand.2 hv0)]
    · rw [if_neg hv0, if_pos ⟨hi, hv0⟩]
  · rw [Function.update_of_ne hji]
    unfold lines
    by_cases hj : j < NUM_HANDLERS
    · rw [irqHandler_store hT hi hj, if_neg hji]
    · rw [if_neg (fun hand => hj hand.1), if_neg (fun hand => hj hand.1)]

/-! ## The three functions -/

/-- **Registering** takes the lease of the line. -/
theorem registerHandlerProcess_refines (hT : irqHandlers + 192 ≤ 2 ^ 32) (hi : i < NUM_HANDLERS)
    (hpid : pid ≠ 0) (hlt : pid < 2 ^ 32) : Lease.step (lines irqHandlers m) (.take i pid)
      = (decide ((registerHandlerProcess irqHandlers m i pid).1 = 1),
        lines irqHandlers (registerHandlerProcess irqHandlers m i pid).2) := by
  unfold registerHandlerProcess
  rw [Lease.step_take]
  by_cases hfree : irqHandler irqHandlers m i = 0
  · rw [if_pos ((lines_eq_none hi).mpr hfree), if_neg (not_not.mpr hfree), lines_store hT hi hlt,
      if_neg hpid]
    rfl
  · rw [if_neg (fun hnone => hfree ((lines_eq_none hi).mp hnone)), if_pos hfree]
    rfl

/-- **Resetting** gives it back. -/
theorem resetHandlerProcess_refines (hT : irqHandlers + 192 ≤ 2 ^ 32) (hi : i < NUM_HANDLERS)
    (hpid : pid ≠ 0) : Lease.step (lines irqHandlers m) (.giveBack i pid)
      = (decide ((resetHandlerProcess irqHandlers m i pid).1 = 1),
        lines irqHandlers (resetHandlerProcess irqHandlers m i pid).2) := by
  unfold resetHandlerProcess
  rw [Lease.step_giveBack]
  by_cases hown : irqHandler irqHandlers m i = pid
  · rw [if_pos ((lines_eq_some hi hpid).mpr hown), if_pos hown, lines_store hT hi (by decide),
      if_pos rfl]
    rfl
  · rw [if_neg (fun hsome => hown ((lines_eq_some hi hpid).mp hsome)), if_neg hown]
    rfl

/-- The loop empties the entries with that pid. -/
theorem removeHandlerLoop_spec (hT : irqHandlers + 192 ≤ 2 ^ 32) (hk : i + k ≤ NUM_HANDLERS) :
    (∀ j < NUM_HANDLERS, irqHandler irqHandlers (removeHandlerLoop irqHandlers pid k i m) j
      = if i ≤ j ∧ j < i + k ∧ irqHandler irqHandlers m j = pid then 0
        else irqHandler irqHandlers m j) ∧
    ∀ x, ¬ (irqTable irqHandlers).Has x → removeHandlerLoop irqHandlers pid k i m x = m x := by
  induction k generalizing i m with
  | zero =>
      refine ⟨fun j _ => ?_, fun _ _ => rfl⟩
      rw [if_neg (by omega)]
      rfl
  | succ k ih =>
      have hi : i < NUM_HANDLERS := by omega
      rw [removeHandlerLoop]
      by_cases hown : irqHandler irqHandlers m i = pid
      · rw [if_pos hown]
        obtain ⟨hentries, hout⟩ := ih (m := store32 m (irqSlot irqHandlers i) 0) (i := i + 1)
          (by omega)
        refine ⟨fun j hj => ?_, fun x hx => ?_⟩
        · rw [hentries j hj, irqHandler_store hT hi hj]
          by_cases hji : j = i
          · subst hji
            rw [if_neg (by omega), if_pos rfl, if_pos ⟨le_rfl, by omega, hown⟩, Nat.zero_mod]
          · simp only [if_neg hji]
            refine if_congr ?_ rfl rfl
            constructor <;> rintro ⟨hle, hlt, hpid⟩ <;> exact ⟨by omega, by omega, hpid⟩
        · rw [hout x hx]
          simp only [Block.Has, irqTable, NUM_HANDLERS] at hx hi
          exact store32_of_outside (by rw [irqSlot_eq hi hT]; omega)
      · rw [if_neg hown]
        obtain ⟨hentries, hout⟩ := ih (m := m) (i := i + 1) (by omega)
        refine ⟨fun j hj => ?_, hout⟩
        rw [hentries j hj]
        refine if_congr ?_ rfl rfl
        constructor
        · rintro ⟨hle, hlt, hpid⟩
          exact ⟨by omega, by omega, hpid⟩
        · rintro ⟨hle, hlt, hpid⟩
          have hji : j ≠ i := by
            rintro rfl
            exact hown hpid
          exact ⟨by omega, by omega, hpid⟩

theorem irqHandler_remove (hT : irqHandlers + 192 ≤ 2 ^ 32) (hj : j < NUM_HANDLERS) :
    irqHandler irqHandlers (removeHandlerProcess irqHandlers m pid) j
      = if irqHandler irqHandlers m j = pid then 0 else irqHandler irqHandlers m j := by
  refine ((removeHandlerLoop_spec hT (Nat.zero_add _).le).1 j hj).trans (if_congr ?_ rfl rfl)
  constructor
  · exact fun hand => hand.2.2
  · exact fun hown => ⟨Nat.zero_le j, by omega, hown⟩

/-- **Removing** drops the owner. -/
theorem removeHandlerProcess_refines (hT : irqHandlers + 192 ≤ 2 ^ 32) (hpid : pid ≠ 0) :
    Lease.step (lines irqHandlers m) (.drop pid)
      = (true, lines irqHandlers (removeHandlerProcess irqHandlers m pid)) := by
  rw [Lease.step_drop]
  congr 1
  funext j
  by_cases hj : j < NUM_HANDLERS
  · by_cases hown : irqHandler irqHandlers m j = pid
    · rw [if_pos ((lines_eq_some hj hpid).mpr hown)]
      symm
      rw [lines_eq_none hj, irqHandler_remove hT hj, if_pos hown]
    · rw [if_neg (fun hsome => hown ((lines_eq_some hj hpid).mp hsome))]
      unfold lines
      rw [irqHandler_remove hT hj, if_neg hown]
  · have hnone : ∀ m, lines irqHandlers m j = none := fun m => if_neg (fun hand => hj hand.1)
    rw [hnone, hnone, if_neg (by simp)]

end

end DayOS
