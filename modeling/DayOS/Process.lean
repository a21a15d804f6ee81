import DayOS.Cpu

set_option autoImplicit false

/-! # Processes (`multitasking.c`)

The process records form a list, newest first, linked through `next`. Creation allocates a
kernel stack, a user stack (user processes only) and a record and puts the record in front;
`KillProcess` searches by pid and unlinks by pointer.

Contexts come from `vmm.c`. This file relies on them through the interface `Contexts`: which
addresses they may write, and nothing else.
-/

namespace DayOS

open ByteMemory Linked

/-- `CreateUsermodeContext` and `destroy_context` over a state `σ` of the physical memory
manager. `none` means that an assertion fails; `area` are the addresses they may write. -/
structure Contexts (σ : Type) where
  createUsermodeContext : Mem → σ → Nat → Option (Nat × Mem × σ)
  destroyContext : Mem → σ → Nat → Option (Mem × σ)
  area : Nat → Prop
  create_keeps : ∀ {m m' : Mem} {s s' : σ} {w c : Nat},
    createUsermodeContext m s w = some (c, m', s') → ∀ a, ¬ area a → m' a = m a
  destroy_keeps : ∀ {m m' : Mem} {s s' : σ} {c : Nat},
    destroyContext m s c = some (m', s') → ∀ a, ¬ area a → m' a = m a

/-- The kernel's memory and the globals of `multitasking.c` and `vmm.c`. -/
structure Kernel (σ : Type) where
  mem : Mem
  frames : σ
  firstProcess : Nat
  currentProcess : Nat
  idleProcess : Nat
  numProc : Nat
  currentContext : Nat

/-! ## The code -/

def PROCESS_RUNNABLE : Nat := 0
def PROCESS_SLEEPING : Nat := 2
def PROCESS_PAUSED : Nat := 3
def ROOT_UID : Nat := 0

/-- The size of every kernel and user stack. -/
def STACK_SIZE : Nat := 4096

/-- Where the saved registers of a process lie while it does not run. -/
def frameOf (stack : Nat) : Nat := stack + STACK_SIZE - sizeofCpu

/-- The registers a new process starts with: its entry point, stack and segments. -/
def newState (entry esp cs ds : Nat) : Cpu where
  eax := 0
  ebx := 0
  ecx := 0
  edx := 0
  esi := 0
  edi := 0
  ebp := 0
  esp := UInt32.ofNat esp
  eip := UInt32.ofNat entry
  cs := UInt32.ofNat cs
  ds := UInt32.ofNat ds
  es := UInt32.ofNat ds
  fs := UInt32.ofNat ds
  gs := UInt32.ofNat ds
  ss := UInt32.ofNat ds
  eflags := 0x202
  intr := 0
  error := 0

/-- The stores both constructors share: timer and status, the first frame, the link to the
list and the pid. -/
def enlist (m : Mem) (process stack : Nat) (state : Cpu) (first num : Nat) : Mem :=
  let m := store32 m (process + 36) 0
  let m := store8 m (process + 40) PROCESS_RUNNABLE
  let m := writeCpu m (frameOf stack) state
  let m := store32 m process (frameOf stack)
  let m := store32 m (process + 48) first
  store32 m (process + 8) num

section
variable {σ : Type} (H : Heap) (V : Contexts σ)

/-- `CreateKernelProcess`. It sets neither `user_stack` nor `messages.first`. -/
def createKernelProcess (K : Kernel σ) (entry : Nat) : Option (Nat × Kernel σ) := do
  let (stack, m) ← H.kmalloc K.mem STACK_SIZE
  let (process, m) ← H.kmalloc m sizeofProcess
  let m := store32 m (process + 28) stack
  let m := enlist m process stack (newState entry (stack + STACK_SIZE) 0x08 0x10)
    K.firstProcess K.numProc
  let (context, m, frames) ← V.createUsermodeContext m K.frames 1
  let m := store32 m (process + 4) context
  let m := store32 m (process + 24) 0
  let m := store32 m (process + 44) ROOT_UID
  let m := store32 m (process + 20) 0
  return (process, { K with
    mem := m, frames := frames, firstProcess := process, numProc := (K.numProc + 1) % 2 ^ 32 })

/-- `CreateUserProcess`. It does not set `messages.first`. -/
def createUserProcess (K : Kernel σ) (entry context : Nat) : Option (Nat × Kernel σ) := do
  let (stack, m) ← H.kmalloc K.mem STACK_SIZE
  let (userStack, m) ← H.kmalloc m STACK_SIZE
  let (process, m) ← H.kmalloc m sizeofProcess
  let m := store32 m (process + 28) stack
  let m := store32 m (process + 32) userStack
  let m := enlist m process stack (newState entry (userStack + STACK_SIZE) (0x18 ||| 3) (0x20 ||| 3))
    K.firstProcess K.numProc
  let m := store32 m (process + 4) context
  let m := store32 m (process + 20) 0
  let m := store32 m (process + 24) 0
  let uid := if K.currentProcess ≠ NULL then procUid m K.currentProcess else 0
  let m := store32 m (process + 44) uid
  return (process, { K with
    mem := m, firstProcess := process, numProc := (K.numProc + 1) % 2 ^ 32 })

/-- The loop of `KillProcess`: the process in front of the one with pid `pid`. -/
def killSearch (m : Mem) (pid : Nat) : Nat → Nat → Except Fault Nat
  | 0, _ => .error .endless
  | fuel + 1, proc =>
      if proc = NULL then .ok NULL
      else if procNext m proc = NULL then .error .nullLink
      else if procPid m (procNext m proc) = pid then .ok proc
      else killSearch m pid fuel (procNext m proc)

/-- The three `kfree` calls of `KillProcess`. -/
def releaseProcess (m : Mem) (process : Nat) : Option Mem := do
  let m ← H.kfree m (procStack m process)
  let m ← H.kfree m (userStack m process)
  H.kfree m process

/-- A call that may not come back, as a step of one that may fault. -/
def returning {α : Type} : Option α → Except Fault α
  | none => .error .noReturn
  | some a => .ok a

/-- `KillProcess`. -/
def killProcess (K : Kernel σ) (process : Nat) : Except Fault (Kernel σ) :=
  let m := K.mem
  let proc := K.firstProcess
  if proc = NULL then .error .nullLink
  else if procPid m proc = procPid m process then do
    let first := procNext m process
    let (m, frames) ← returning (V.destroyContext m K.frames (procContext m process))
    let m ← returning (releaseProcess H m process)
    return { K with mem := m, frames := frames, firstProcess := first }
  else do
    let proc ← killSearch m (procPid m process) walkLimit proc
    if proc = NULL then return K
    else
      let (m, frames) ← returning (V.destroyContext m K.frames (procContext m process))
      let m := store32 m (proc + 48) (procNext m process)
      let m ← returning (releaseProcess H m process)
      return { K with mem := m, frames := frames }

end

/-- `GetProcessByPid`. -/
def getProcessByPid {σ : Type} (K : Kernel σ) (pid : Nat) : Option Nat :=
  scan (fun proc => procPid K.mem proc == pid) (procNext K.mem) walkLimit K.firstProcess

/-! ## What the constructors leave in memory -/

/-- The block and memory from which `CreateKernelProcess` makes its record. -/
def kernelRecord {σ : Type} (H : Heap) (K : Kernel σ) : Option (Nat × Mem) := do
  let (_, m) ← H.kmalloc K.mem STACK_SIZE
  H.kmalloc m sizeofProcess

/-- The block and memory from which `CreateUserProcess` makes its record. -/
def userRecord {σ : Type} (H : Heap) (K : Kernel σ) : Option (Nat × Mem) := do
  let (_, m) ← H.kmalloc K.mem STACK_SIZE
  let (_, m) ← H.kmalloc m STACK_SIZE
  H.kmalloc m sizeofProcess

theorem frameOf_eq (stack : Nat) : frameOf stack = stack + 4024 := by
  simp [frameOf, STACK_SIZE, sizeofCpu]

/-- A record made at `p` out of the memory `m`, with `area` out of sight: what its fields say,
that `messages.first` and `messages.last` are as before, and that only the record and the
first frame have changed. -/
structure NewRecord (area : Nat → Prop) (m m' : Mem) (p stack first num context : Nat)
    (state : Cpu) : Prop where
  state_eq : procState m' p = frameOf stack
  context_eq : procContext m' p = context % 2 ^ 32
  pid_eq : procPid m' p = num % 2 ^ 32
  stale : AgreeOn m m' (p + 12) 8
  num_eq : numMessages m' p = 0
  stack_eq : procStack m' p = stack
  next_eq : procNext m' p = first % 2 ^ 32
  frame_eq : readCpu m' (frameOf stack) = state
  outside : ∀ x, ¬ area x → (x < p ∨ p + 52 ≤ x) → (x < stack ∨ stack + 4096 ≤ x) →
    m' x = m x

section
variable {m m₀ m' : Mem} {p stack first num context : Nat} {state : Cpu} {area : Nat → Prop}

theorem enlist_of_outside {x : Nat} (h₁ : x < p ∨ p + 4 ≤ x) (h₂ : x < p + 8 ∨ p + 12 ≤ x)
    (h₃ : x < p + 36 ∨ p + 41 ≤ x) (h₄ : x < p + 48 ∨ p + 52 ≤ x)
    (h₅ : x < stack + 4024 ∨ stack + 4096 ≤ x) : enlist m p stack state first num x = m x := by
  have hf := frameOf_eq stack
  simp only [enlist]
  rw [store32_of_outside (by omega), store32_of_outside (by omega), store32_of_outside (by omega),
    writeCpu_of_outside (by omega), store8_of_ne (by omega), store32_of_outside (by omega)]

theorem enlist_fields (m : Mem) (state : Cpu) (first num : Nat)
    (hap : p + 52 ≤ stack ∨ stack + 4096 ≤ p) (hlt : stack + 4096 ≤ 2 ^ 32) :
    procState (enlist m p stack state first num) p = frameOf stack ∧
    procPid (enlist m p stack state first num) p = num % 2 ^ 32 ∧
    procNext (enlist m p stack state first num) p = first % 2 ^ 32 ∧
    readCpu (enlist m p stack state first num) (frameOf stack) = state := by
  have hf := frameOf_eq stack
  have h72 : sizeofCpu = 72 := rfl
  simp only [enlist]
  refine ⟨?_, ?_, ?_, ?_⟩
  · rw [procState, load32_store32_of_ne (by omega), load32_store32_of_ne (by omega),
      load32_store32, Nat.mod_eq_of_lt (by omega)]
  · rw [procPid, load32_store32]
  · rw [procNext, load32_store32_of_ne (by omega), load32_store32]
  · rw [readCpu_congr (agreeOn_store32 (by omega)), readCpu_congr (agreeOn_store32 (by omega)),
      readCpu_congr (agreeOn_store32 (by omega)), readCpu_writeCpu]

/-- Both constructors store the stacks, enlist the record and then fill in the context, the
counter, `sbrk_state` and the uid, while the context's construction may write to `area`. -/
theorem NewRecord.of_enlist (m₀ : Mem) (hap : p + 52 ≤ stack ∨ stack + 4096 ≤ p)
    (hlt : stack + 4096 ≤ 2 ^ 32)
    (hm₀ : ∀ x, (x < p + 28 ∨ p + 36 ≤ x) → m₀ x = m x) (hstack : procStack m₀ p = stack)
    (hm' : ∀ x, ¬ area x → (x < p + 4 ∨ p + 8 ≤ x) → (x < p + 20 ∨ p + 28 ≤ x) →
      (x < p + 44 ∨ p + 48 ≤ x) → m' x = enlist m₀ p stack state first num x)
    (harea : ∀ x, (p ≤ x ∧ x < p + 52 ∨ stack ≤ x ∧ x < stack + 4096) → ¬ area x)
    (hctx : procContext m' p = context % 2 ^ 32) (hnum : numMessages m' p = 0) :
    NewRecord area m m' p stack first num context state := by
  have hf := frameOf_eq stack
  have h72 : sizeofCpu = 72 := rfl
  obtain ⟨hstate, hpid, hnext, hframe⟩ :=
    enlist_fields m₀ state first num hap hlt
  refine ⟨?_, hctx, ?_, fun x hx hx' => ?_, hnum, ?_, ?_, ?_, fun x hx h₁ h₂ => ?_⟩
  · rw [← hstate]
    exact load32_congr (fun x _ _ => hm' x (harea x (by omega)) (by omega) (by omega) (by omega))
  · rw [← hpid]
    exact load32_congr (fun x _ _ => hm' x (harea x (by omega)) (by omega) (by omega) (by omega))
  · rw [hm' x (harea x (by omega)) (by omega) (by omega) (by omega),
      enlist_of_outside (by omega) (by omega) (by omega) (by omega) (by omega), hm₀ x (by omega)]
  · rw [← hstack]
    refine load32_congr (fun x _ _ => ?_)
    rw [hm' x (harea x (by omega)) (by omega) (by omega) (by omega),
      enlist_of_outside (by omega) (by omega) (by omega) (by omega) (by omega)]
  · rw [← hnext]
    exact load32_congr (fun x _ _ => hm' x (harea x (by omega)) (by omega) (by omega) (by omega))
  · rw [← hframe]
    exact readCpu_congr (fun x _ _ => hm' x (harea x (by omega)) (by omega) (by omega) (by omega))
  · rw [hm' x hx (by omega) (by omega) (by omega),
      enlist_of_outside (by omega) (by omega) (by omega) (by omega) (by omega), hm₀ x (by omega)]

end

section
variable {σ : Type} {H : Heap} {V : Contexts σ} {K K' : Kernel σ} {p entry context : Nat}

theorem userRecord_eq {m₁ m₂ m₃ : Mem} {stack ustack : Nat}
    (h₁ : H.kmalloc K.mem STACK_SIZE = some (stack, m₁))
    (h₂ : H.kmalloc m₁ STACK_SIZE = some (ustack, m₂))
    (h₃ : H.kmalloc m₂ sizeofProcess = some (p, m₃)) : userRecord H K = some (p, m₃) := by
  simp only [userRecord, h₁, h₂, h₃, Option.bind_eq_bind, Option.bind_some]

/-- With the three allocations served, the constructor returns. -/
theorem createUserProcess_returns {m₁ m₂ m₃ : Mem} {stack ustack : Nat}
    (h₁ : H.kmalloc K.mem STACK_SIZE = some (stack, m₁))
    (h₂ : H.kmalloc m₁ STACK_SIZE = some (ustack, m₂))
    (h₃ : H.kmalloc m₂ sizeofProcess = some (p, m₃)) (entry context : Nat) :
    ∃ K', createUserProcess H K entry context = some (p, K') := by
  simp only [createUserProcess, h₁, h₂, h₃, Option.bind_eq_bind, Option.bind_some,
    Option.pure_def, Option.some.injEq, Prod.mk.injEq, true_and]
  exact ⟨_, rfl⟩

/-- **What `CreateUserProcess` does**: three allocations, then a new record in front. -/
theorem createUserProcess_spec (h : createUserProcess H K entry context = some (p, K')) :
    ∃ stack m₁ ustack m₂ m₃, H.kmalloc K.mem STACK_SIZE = some (stack, m₁) ∧
      H.kmalloc m₁ STACK_SIZE = some (ustack, m₂) ∧ H.kmalloc m₂ sizeofProcess = some (p, m₃) ∧
      K' = { K with
        mem := K'.mem, firstProcess := p, numProc := (K.numProc + 1) % 2 ^ 32 } ∧
      ((p + 52 ≤ stack ∨ stack + 4096 ≤ p) → stack + 4096 ≤ 2 ^ 32 → ustack < 2 ^ 32 →
        NewRecord (fun _ => False) m₃ K'.mem p stack K.firstProcess K.numProc context
          (newState entry (ustack + STACK_SIZE) 0x1B 0x23) ∧ userStack K'.mem p = ustack) := by
  simp only [createUserProcess, Option.bind_eq_bind, Option.bind_eq_some_iff, Option.pure_def,
    Option.some.injEq, Prod.mk.injEq, Prod.exists] at h
  obtain ⟨stack, m₁, hstack, ustack, m₂, huser, process, m₃, hrec, rfl, rfl⟩ := h
  generalize (if K.currentProcess ≠ NULL then _ else (0 : Nat)) = uid
  refine ⟨stack, m₁, ustack, m₂, m₃, hstack, huser, hrec, rfl, fun hap hlt hu => ⟨?_, ?_⟩⟩
  · refine NewRecord.of_enlist
      (store32 (store32 m₃ (process + 28) stack) (process + 32) ustack) hap hlt
      (fun x hx => ?_) ?_ (fun x _ h₁ h₂ h₃ => ?_) (fun _ _ => id) ?_ ?_
    · rw [store32_of_outside (by omega), store32_of_outside (by omega)]
    · rw [procStack, load32_store32_of_ne (by omega), load32_store32, Nat.mod_eq_of_lt (by omega)]
    · simp only
      rw [store32_of_outside (by omega), store32_of_outside (by omega),
        store32_of_outside (by omega), store32_of_outside (by omega)]
      rfl
    · simp only [procContext]
      rw [load32_store32_of_ne (by omega), load32_store32_of_ne (by omega),
        load32_store32_of_ne (by omega), load32_store32]
    · simp only [numMessages]
      rw [load32_store32_of_ne (by omega), load32_store32_of_ne (by omega), load32_store32]
      rfl
  · have hf := frameOf_eq stack
    simp only [userStack]
    rw [load32_store32_of_ne (by omega), load32_store32_of_ne (by omega),
      load32_store32_of_ne (by omega), load32_store32_of_ne (by omega), load32_congr
      (fun x _ _ => enlist_of_outside (by omega) (by omega) (by omega) (by omega) (by omega)),
      load32_store32, Nat.mod_eq_of_lt hu]

/-- A process made while none runs belongs to root. -/
theorem createUserProcess_uid (h : createUserProcess H K entry context = some (p, K'))
    (hcur : K.currentProcess = NULL) : procUid K'.mem p = ROOT_UID := by
  simp only [createUserProcess, Option.bind_eq_bind, Option.bind_eq_some_iff, Option.pure_def,
    Option.some.injEq, Prod.mk.injEq, Prod.exists] at h
  obtain ⟨-, -, -, -, -, -, process, -, -, rfl, rfl⟩ := h
  simp only [procUid, load32_store32, if_neg (not_not.mpr hcur)]
  rfl

/-- **What `CreateKernelProcess` does**: two allocations and a context, then a new record in
front, whose `user_stack` is what the block held before. -/
theorem createKernelProcess_spec (h : createKernelProcess H V K entry = some (p, K')) :
    ∃ stack m₁ m₂ context, H.kmalloc K.mem STACK_SIZE = some (stack, m₁) ∧
      H.kmalloc m₁ sizeofProcess = some (p, m₂) ∧
      K' = { K with
        mem := K'.mem, frames := K'.frames, firstProcess := p,
        numProc := (K.numProc + 1) % 2 ^ 32 } ∧
      ((p + 52 ≤ stack ∨ stack + 4096 ≤ p) → stack + 4096 ≤ 2 ^ 32 →
        (∀ x, (p ≤ x ∧ x < p + 52 ∨ stack ≤ x ∧ x < stack + 4096) → ¬ V.area x) →
        NewRecord V.area m₂ K'.mem p stack K.firstProcess K.numProc context
          (newState entry (stack + STACK_SIZE) 0x08 0x10) ∧
        userStack K'.mem p = userStack m₂ p) := by
  simp only [createKernelProcess, Option.bind_eq_bind, Option.bind_eq_some_iff, Option.pure_def,
    Option.some.injEq, Prod.mk.injEq, Prod.exists] at h
  obtain ⟨stack, m₁, hstack, process, m₂, hrec, context, m₃, frames, hctx, rfl, rfl⟩ := h
  have hkeep := V.create_keeps hctx
  refine ⟨stack, m₁, m₂, context, hstack, hrec, rfl, fun hap hlt harea => ⟨?_, ?_⟩⟩
  · refine NewRecord.of_enlist (store32 m₂ (process + 28) stack) hap hlt
      (fun x hx => ?_) ?_ (fun x hx h₁ h₂ h₃ => ?_) harea ?_ ?_
    · rw [store32_of_outside (by omega)]
    · rw [procStack, load32_store32, Nat.mod_eq_of_lt (by omega)]
    · simp only
      rw [store32_of_outside (by omega), store32_of_outside (by omega),
        store32_of_outside (by omega), store32_of_outside (by omega), hkeep x hx]
    · simp only [procContext]
      rw [load32_store32_of_ne (by omega), load32_store32_of_ne (by omega),
        load32_store32_of_ne (by omega), load32_store32]
    · simp only [numMessages, load32_store32]
      rfl
  · have hf := frameOf_eq stack
    simp only [userStack]
    rw [load32_store32_of_ne (by omega), load32_store32_of_ne (by omega),
      load32_store32_of_ne (by omega), load32_store32_of_ne (by omega)]
    refine load32_congr (fun x _ _ => ?_)
    rw [hkeep x (harea x (by omega)), enlist_of_outside (by omega) (by omega) (by omega) (by omega)
      (by omega), store32_of_outside (by omega)]

end

end DayOS
