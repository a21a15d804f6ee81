import DayOS.ProcessList

set_option autoImplicit false

/-! # The scheduler (`Schedule`, `KillCurrentProcess`)

`Schedule` starts behind the current process, wraps around at that one place, and then walks
down the list to the first process that may run; at the end of the list it falls back to
`idle_process`. Without a current process it takes the head of the list as it is.
-/

namespace DayOS

open ByteMemory Linked

/-! ## The code -/

/-- The loop of `Schedule`: the process to run, and the memory with that process woken up. -/
def scheduleScan (m : Mem) (idle ticks : Nat) : Nat → Nat → Except Fault (Nat × Mem)
  | 0, _ => .error .endless
  | fuel + 1, proc =>
      if procStatus m proc = PROCESS_RUNNABLE then .ok (proc, m)
      else if 0 < sleepTimer m proc ∧ sleepTimer m proc ≤ ticks then
        .ok (proc, store32 (store8 m (proc + 40) PROCESS_RUNNABLE) (proc + 36) 0)
      else if procNext m proc = NULL then .ok (idle, m)
      else scheduleScan m idle ticks fuel (procNext m proc)

section
variable {σ : Type}

/-- The end of `Schedule`: `oldPid` is still `-1`, the largest pid there is. -/
def switchTo (K : Kernel σ) (m : Mem) (proc : Nat) : Except Fault (Nat × Kernel σ) :=
  if proc = NULL then .error .nullLink
  else .ok (procState m proc, { K with
    mem := m
    currentProcess := proc
    currentContext :=
      if procPid m proc ≠ 2 ^ 32 - 1 then procContext m proc else K.currentContext })

/-- `Schedule`, at the tick count `ticks`. -/
def schedule (K : Kernel σ) (ticks cpuOld : Nat) : Except Fault (Nat × Kernel σ) :=
  if K.currentProcess = NULL then switchTo K K.mem K.firstProcess
  else do
    let m := store32 K.mem K.currentProcess cpuOld
    let next := procNext m K.currentProcess
    let start := if next = NULL then K.firstProcess else next
    if start = NULL then throw .nullLink
    let (proc, m) ← scheduleScan m K.idleProcess ticks walkLimit start
    switchTo K m proc

/-- `KillCurrentProcess`. -/
def killCurrentProcess (H : Heap) (V : Contexts σ) (K : Kernel σ) (ticks : Nat) :
    Except Fault (Nat × Kernel σ) := do
  let K ← killProcess H V K K.currentProcess
  schedule { K with currentProcess := NULL } ticks NULL

end

/-! ## The process taken -/

/-- Whether `Schedule` may take the process `p` at the tick count `ticks`. -/
def eligible (m : Mem) (ticks p : Nat) : Bool :=
  decide (procStatus m p = PROCESS_RUNNABLE ∨ (0 < sleepTimer m p ∧ sleepTimer m p ≤ ticks))

/-- The memory after `Schedule` took `p`: if `p` was not runnable, it is now. -/
def wake (m : Mem) (p : Nat) : Mem :=
  if procStatus m p = PROCESS_RUNNABLE then m
  else store32 (store8 m (p + 40) PROCESS_RUNNABLE) (p + 36) 0

section
variable {area : Nat → Prop} {m m' : Mem} {first p ticks : Nat} {alive : List Nat}

/-- Eligibility reads the timer and the status only. -/
theorem eligible_congr (h : AgreeOn m m' (p + 36) 5) : eligible m' ticks p = eligible m ticks p := by
  have hstatus : procStatus m' p = procStatus m p := load8_congr (h.mono (by omega) (by omega))
  have htimer : sleepTimer m' p = sleepTimer m p := load32_congr (h.mono (by omega) (by omega))
  rw [eligible, eligible, hstatus, htimer]

theorem wake_of_outside {x : Nat} (h : x < p + 36 ∨ p + 41 ≤ x) : wake m p x = m x := by
  unfold wake
  split
  · rfl
  · rw [store32_of_outside (by omega), store8_of_ne (by omega)]

/-- The loop finds the first eligible process of the rest of the list, or falls back to idle. -/
theorem scheduleScan_chain {fuel : Nat} (idle ticks : Nat) (hf : alive.length < fuel)
    (h : Chain (procNext m) p alive) (hne : alive ≠ []) :
    scheduleScan m idle ticks fuel p
      = .ok (match alive.find? (eligible m ticks) with
          | some q => (q, wake m q)
          | none => (idle, m)) := by
  induction alive generalizing p fuel with
  | nil => exact absurd rfl hne
  | cons a l ih =>
      obtain ⟨f, rfl⟩ : ∃ f, fuel = f + 1 := ⟨fuel - 1, by simp at hf; omega⟩
      obtain ⟨rfl, ha0, ht⟩ := h
      rw [scheduleScan]
      by_cases hrun : procStatus m p = PROCESS_RUNNABLE
      · -- a runnable process is taken as it is
        have he : eligible m ticks p = true := by simp [eligible, hrun]
        rw [if_pos hrun, List.find?_cons_of_pos he]
        simp [wake, hrun]
      · rw [if_neg hrun]
        by_cases htimer : 0 < sleepTimer m p ∧ sleepTimer m p ≤ ticks
        · have he : eligible m ticks p = true := by simp [eligible, htimer]
          rw [if_pos htimer, List.find?_cons_of_pos he]
          simp [wake, hrun]
        · have he : ¬ eligible m ticks p = true := by simp [eligible, hrun]; omega
          rw [if_neg htimer, List.find?_cons_of_neg he]
          by_cases hend : procNext m p = NULL
          · have hl : l = [] := (Chain.eq_nil_iff ht).mp hend
            rw [if_pos hend, hl]
            rfl
          · rw [if_neg hend]
            refine ih (by simpa using hf) ht (fun hl => hend ?_)
            rw [hl] at ht
            exact ht

end

/-! ## Round robin -/

/-- The part of the list `Schedule` looks through, from the current process `cur` on. -/
def scanned (pre : List Nat) (cur : Nat) (post : List Nat) : List Nat :=
  if post = [] then pre ++ [cur] else post

theorem mem_scanned {pre post : List Nat} {cur r : Nat} (h : r ∈ scanned pre cur post) :
    r ∈ pre ++ cur :: post := by
  unfold scanned at h
  split at h
  · exact List.append_sublist_append_left (l := pre) |>.mpr (by simp) |>.subset h
  · simp [h]

section
variable {σ : Type} {K : Kernel σ} {area : Nat → Prop} {pre post : List Nat} {ticks : Nat}

/-- `Schedule` takes the first eligible process of the part it scans. Saving the state pointer
of the current process changes no timer, status or link. -/
theorem schedule_eq (h : ProcRecords area K.mem K.firstProcess (pre ++ K.currentProcess :: post))
    (ticks cpuOld : Nat) :
    schedule K ticks cpuOld
      = match (scanned pre K.currentProcess post).find? (eligible K.mem ticks) with
        | some q => switchTo K (wake (store32 K.mem K.currentProcess cpuOld) q) q
        | none => switchTo K (store32 K.mem K.currentProcess cpuOld) K.idleProcess := by
  have hcur0 : K.currentProcess ≠ 0 := h.chain.ne_zero_of_mem (by simp)
  -- the store is at the record of the current process, in front of all that is read
  have hkeep : ∀ r ∈ pre ++ K.currentProcess :: post,
      AgreeOn K.mem (store32 K.mem K.currentProcess cpuOld) (r + 36) 16 := by
    intro r hr
    apply agreeOn_store32
    by_cases hrc : r = K.currentProcess
    · omega
    · have := h.record_apart hr (by simp) hrc
      omega
  have hnext : ∀ r ∈ pre ++ K.currentProcess :: post,
      procNext (store32 K.mem K.currentProcess cpuOld) r = procNext K.mem r := fun r hr =>
    load32_congr ((hkeep r hr).mono (by omega) (by omega))
  have helig : (scanned pre K.currentProcess post).find?
      (eligible (store32 K.mem K.currentProcess cpuOld) ticks)
      = (scanned pre K.currentProcess post).find? (eligible K.mem ticks) :=
    List.find?_congr (fun r hr => eligible_congr ((hkeep r (mem_scanned hr)).mono (by omega) (by omega)))
  -- where the scan starts, and the chain from there
  obtain ⟨start, hstart, hchain⟩ : ∃ start, (if procNext K.mem K.currentProcess = NULL
      then K.firstProcess else procNext K.mem K.currentProcess) = start ∧
      Chain (procNext K.mem) start (scanned pre K.currentProcess post) := by
    have htail := Chain.tail_of_append h.chain
    refine ⟨_, rfl, ?_⟩
    unfold scanned
    by_cases hpost : post = []
    · subst hpost
      rw [if_pos (show procNext K.mem K.currentProcess = NULL from htail), if_pos rfl]
      exact h.chain
    · rw [if_neg (fun hn => hpost (htail.eq_nil_iff.mp hn)), if_neg hpost]
      exact htail
  have hne : scanned pre K.currentProcess post ≠ [] := by
    unfold scanned
    split <;> simp_all
  have hstart0 : start ≠ NULL := fun h0 => hne (hchain.eq_nil_iff.mp h0)
  have hlen : (scanned pre K.currentProcess post).length < walkLimit := by
    have := h.length_lt
    unfold scanned
    split <;> simp only [List.length_append, List.length_cons, List.length_nil] at this ⊢ <;> omega
  have hscan := scheduleScan_chain K.idleProcess ticks hlen
    (hchain.congr (fun r hr => hnext r (mem_scanned hr))) hne
  rw [helig] at hscan
  unfold schedule
  simp only [if_neg hcur0, hnext K.currentProcess (by simp), hstart, if_neg hstart0, hscan]
  cases (scanned pre K.currentProcess post).find? (eligible K.mem ticks) <;> rfl

theorem switchTo_ok {m : Mem} {p : Nat} (hp : p ≠ 0) :
    ∃ K', switchTo K m p = .ok (procState m p, K') ∧ K'.mem = m ∧ K'.currentProcess = p ∧
      K'.firstProcess = K.firstProcess :=
  ⟨_, if_neg hp, rfl, rfl, rfl⟩

/-- With `idle_process` in the list, `Schedule` comes back; this is the process it has chosen. -/
theorem schedule_current
    (h : ProcRecords area K.mem K.firstProcess (pre ++ K.currentProcess :: post))
    (hidle : K.idleProcess ∈ pre ++ K.currentProcess :: post) (ticks cpuOld : Nat) :
    ∃ st K', schedule K ticks cpuOld = .ok (st, K') ∧ K'.currentProcess
      = ((scanned pre K.currentProcess post).find? (eligible K.mem ticks)).getD K.idleProcess := by
  rw [schedule_eq h]
  cases hf : (scanned pre K.currentProcess post).find? (eligible K.mem ticks) with
  | none =>
      obtain ⟨K', hs, -, hcur, -⟩ := switchTo_ok (K := K)
        (m := store32 K.mem K.currentProcess cpuOld) (h.chain.ne_zero_of_mem hidle)
      exact ⟨_, K', hs, hcur⟩
  | some q =>
      have hq : q ∈ pre ++ K.currentProcess :: post := mem_scanned (List.mem_of_find?_eq_some hf)
      obtain ⟨K', hs, -, hcur, -⟩ := switchTo_ok (K := K)
        (m := wake (store32 K.mem K.currentProcess cpuOld) q) (h.chain.ne_zero_of_mem hq)
      exact ⟨_, K', hs, hcur⟩

/-- **When `Schedule` is round robin.** It takes the first eligible process in cyclic order,
and `idle_process` only if there is none, exactly when there is none or that process is not
`idle_process` itself and is found without wrapping around: the current process heads the
last stretch of the list, or an eligible process follows it there. -/
theorem round_robin
    (h : ProcRecords area K.mem K.firstProcess (pre ++ K.currentProcess :: post))
    (hidle : K.idleProcess ∈ pre ++ K.currentProcess :: post) (ticks cpuOld : Nat) :
    (∃ st K', schedule K ticks cpuOld = .ok (st, K') ∧
      K'.currentProcess = ((post ++ (pre ++ [K.currentProcess])).find?
        (eligible K.mem ticks)).getD K.idleProcess ∧
      (K'.currentProcess = K.idleProcess →
        ∀ p ∈ pre ++ K.currentProcess :: post, ¬ eligible K.mem ticks p)) ↔
    (∀ p ∈ pre ++ K.currentProcess :: post, ¬ eligible K.mem ticks p) ∨
    ∃ q, (post ++ (pre ++ [K.currentProcess])).find? (eligible K.mem ticks) = some q ∧
      q ≠ K.idleProcess ∧ (post = [] ∨ ∃ p ∈ post, eligible K.mem ticks p) := by
  obtain ⟨st, K', hs, hcur⟩ := schedule_current h hidle ticks cpuOld
  have hcyc : ∀ p, p ∈ post ++ (pre ++ [K.currentProcess]) ↔
      p ∈ pre ++ K.currentProcess :: post := by
    intro p
    simp only [List.mem_append, List.mem_cons, List.not_mem_nil]
    tauto
  have hnone : (post ++ (pre ++ [K.currentProcess])).find? (eligible K.mem ticks) = none ↔
      ∀ p ∈ pre ++ K.currentProcess :: post, ¬ eligible K.mem ticks p := by
    rw [List.find?_eq_none]
    exact forall_congr' (fun p => by rw [hcyc])
  -- without wrapping around, the scan finds what the cyclic order finds first
  have hscan : (post = [] ∨ ∃ p ∈ post, eligible K.mem ticks p) →
      (scanned pre K.currentProcess post).find? (eligible K.mem ticks)
        = (post ++ (pre ++ [K.currentProcess])).find? (eligible K.mem ticks) := by
    rintro (rfl | hp)
    · rfl
    · obtain ⟨q, hq⟩ := Option.isSome_iff_exists.mp (List.find?_isSome.mpr hp)
      have hpost : post ≠ [] := by
        rintro rfl
        simp at hp
      rw [scanned, if_neg hpost, List.find?_append, hq]
      rfl
  constructor
  · rintro ⟨st', K'', hs', hsel, honly⟩
    obtain ⟨rfl, rfl⟩ := Prod.mk.inj (Except.ok.inj (hs.symm.trans hs'))
    cases hf : (post ++ (pre ++ [K.currentProcess])).find? (eligible K.mem ticks) with
    | none => exact Or.inl (hnone.mp hf)
    | some q =>
        have hfound : ¬ ∀ p ∈ pre ++ K.currentProcess :: post, ¬ eligible K.mem ticks p := by
          rw [← hnone, hf]
          simp
        rw [hf, Option.getD_some] at hsel
        have hqidle : q ≠ K.idleProcess := fun hqi => hfound (honly (hsel.trans hqi))
        refine Or.inr ⟨q, rfl, hqidle, ?_⟩
        by_contra hwrap
        push Not at hwrap
        have hnoscan : (scanned pre K.currentProcess post).find? (eligible K.mem ticks) = none := by
          rw [scanned, if_neg hwrap.1, List.find?_eq_none]
          exact hwrap.2
        rw [hnoscan] at hcur
        exact hqidle (hsel.symm.trans hcur)
  · rintro (hall | ⟨q, hf, hqidle, hwrap⟩)
    · have hnoscan : (scanned pre K.currentProcess post).find? (eligible K.mem ticks) = none := by
        rw [List.find?_eq_none]
        exact fun p hp => hall p (mem_scanned hp)
      rw [hnoscan] at hcur
      exact ⟨st, K', hs, by rw [hcur, hnone.mpr hall], fun _ => hall⟩
    · rw [hscan hwrap, hf] at hcur
      exact ⟨st, K', hs, by rw [hcur, hf], fun hi => absurd (hcur.symm.trans hi) hqidle⟩

end

/-- Three processes: the current one heads the list and is runnable, the next one has the
status `status` and, if it sleeps, 100 ticks to go, and `idle_process`, paused, ends it. -/
def threeProcesses (status : Nat) : Kernel Unit where
  mem := store8 (store8 (store32 (store32 (store32 (store32 (store32 (fun _ => 0) 0x1008 2) 0x2008 1)
    0x1030 0x2000) 0x2030 0x3000) 0x2024 (if status = PROCESS_SLEEPING then 100 else 0))
    0x2028 status) 0x3028 PROCESS_PAUSED
  frames := ()
  firstProcess := 0x1000
  currentProcess := 0x1000
  idleProcess := 0x3000
  numProc := 3
  currentContext := NULL

theorem threeProcesses_records (status : Nat) : ProcRecords (fun _ => False)
    (threeProcesses status).mem 0x1000 [0x1000, 0x2000, 0x3000] := by
  have hzero : ∀ a, load32 (fun _ => 0) a = 0 := fun a => load32_eq_zero (fun _ _ _ => rfl)
  have hlinks : procNext (threeProcesses status).mem 0x1000 = 0x2000 ∧
      procNext (threeProcesses status).mem 0x2000 = 0x3000 ∧
      procNext (threeProcesses status).mem 0x3000 = 0 := by
    simp (disch := omega) only [threeProcesses, procNext, load32_store8_of_ne,
      load32_store32_of_ne, load32_store32, hzero]
    decide
  obtain ⟨h₁, h₂, h₃⟩ := hlinks
  refine ⟨⟨rfl, by decide, h₁, by decide, h₂, by decide, h₃⟩, by decide, by simp, ?_⟩
  simp [Block.Apart, procBlock, sizeofProcess]

/-- With a runnable successor the choice is the one `round_robin` asks for. -/
theorem round_robin_successor :
    ∃ st K', schedule (threeProcesses PROCESS_RUNNABLE) 0 0 = .ok (st, K') ∧
      K'.currentProcess = (([0x2000, 0x3000] ++ ([] ++ [0x1000])).find?
        (eligible (threeProcesses PROCESS_RUNNABLE).mem 0)).getD 0x3000 := by
  have hnext : eligible (threeProcesses PROCESS_RUNNABLE).mem 0 0x2000 = true := by decide
  have h : ProcRecords (fun _ => False) (threeProcesses PROCESS_RUNNABLE).mem
      (threeProcesses PROCESS_RUNNABLE).firstProcess
      ([] ++ (threeProcesses PROCESS_RUNNABLE).currentProcess :: [0x2000, 0x3000]) :=
    threeProcesses_records PROCESS_RUNNABLE
  obtain ⟨st, K', hs, hcur, -⟩ := (round_robin h (by decide) 0 0).mpr
    (Or.inr ⟨0x2000, by rw [List.cons_append, List.find?_cons_of_pos hnext], by decide,
      Or.inr ⟨0x2000, by simp, hnext⟩⟩)
  exact ⟨st, K', hs, hcur⟩

/-- With a sleeping successor `idle_process` runs although the current process could go on. -/
theorem round_robin_fails :
    ProcRecords (fun _ => False) (threeProcesses PROCESS_SLEEPING).mem
      (threeProcesses PROCESS_SLEEPING).firstProcess
      ([] ++ (threeProcesses PROCESS_SLEEPING).currentProcess :: [0x2000, 0x3000]) ∧
    eligible (threeProcesses PROCESS_SLEEPING).mem 0 0x1000 = true ∧
    ∃ st K', schedule (threeProcesses PROCESS_SLEEPING) 0 0 = .ok (st, K') ∧
      K'.currentProcess = (threeProcesses PROCESS_SLEEPING).idleProcess := by
  have h : ProcRecords (fun _ => False) (threeProcesses PROCESS_SLEEPING).mem
      (threeProcesses PROCESS_SLEEPING).firstProcess
      ([] ++ (threeProcesses PROCESS_SLEEPING).currentProcess :: [0x2000, 0x3000]) :=
    threeProcesses_records PROCESS_SLEEPING
  refine ⟨h, by decide, ?_⟩
  obtain ⟨st, K', hs, hcur⟩ := schedule_current h (by decide) 0 0
  refine ⟨st, K', hs, hcur.trans ?_⟩
  decide

/-! ## Scheduling after a kill -/

/-- The list behind a kill of `p`: `KillProcess` unlinks at the first process with that pid,
and the processes from there to `p` leave the list with it. With distinct pids that is `p`
alone. -/
def survivors (m : Mem) (alive : List Nat) (p : Nat) : List Nat :=
  alive.takeWhile (fun r => decide (procPid m r ≠ procPid m p)) ++
    (alive.dropWhile (fun r => decide (r ≠ p))).tail

theorem survivors_eq_erase {m : Mem} {alive : List Nat} {p : Nat} (hp : p ∈ alive)
    (hpids : (alive.map (procPid m)).Nodup) : survivors m alive p = alive.erase p := by
  induction alive with
  | nil => simp at hp
  | cons a l ih =>
      obtain ⟨ha, hl⟩ := List.nodup_cons.mp hpids
      by_cases hap : a = p
      · subst hap
        simp [survivors]
      · have hpl : p ∈ l := by simpa [Ne.symm hap] using hp
        have hpid : procPid m a ≠ procPid m p := fun he =>
          ha (List.mem_map.mpr ⟨p, hpl, he.symm⟩)
        have := ih hpl hl
        simp only [survivors] at this ⊢
        rw [List.takeWhile_cons_of_pos (by simpa using hpid),
          List.dropWhile_cons_of_pos (by simpa using hap), List.cons_append, this,
          List.erase_cons_tail (by simpa using hap)]

/-- The list split where `KillProcess` cuts it. -/
theorem survivors_split {m : Mem} {alive : List Nat} {p : Nat} (hp : p ∈ alive)
    (hnodup : alive.Nodup) :
    ∃ pre mid q rest post, alive = pre ++ (mid ++ p :: post) ∧ mid ++ p :: post = q :: rest ∧
      (∀ r ∈ pre, procPid m r ≠ procPid m p) ∧ procPid m q = procPid m p ∧
      survivors m alive p = pre ++ post := by
  set pre := alive.takeWhile (fun r => decide (procPid m r ≠ procPid m p)) with hpre
  have hsplit : pre ++ alive.dropWhile (fun r => decide (procPid m r ≠ procPid m p)) = alive :=
    List.takeWhile_append_dropWhile
  have hne : ∀ r ∈ pre, procPid m r ≠ procPid m p := fun r hr => by
    simpa using List.all_eq_true.mp List.all_takeWhile r hr
  have hmem : p ∈ alive.dropWhile (fun r => decide (procPid m r ≠ procPid m p)) := by
    rw [← hsplit] at hp
    exact (List.mem_append.mp hp).resolve_left (fun h => hne p h rfl)
  obtain ⟨mid, post, hmid⟩ := List.append_of_mem hmem
  rw [hmid] at hsplit
  have hdrop : alive.dropWhile (fun r => decide (r ≠ p)) = p :: post := by
    rw [← hsplit, ← List.append_assoc, List.dropWhile_append_of_pos, List.dropWhile_cons_of_neg]
    · simp
    · intro r hr
      rw [← hsplit, ← List.append_assoc] at hnodup
      have : r ≠ p := (List.nodup_append.mp hnodup).2.2 r hr p (by simp)
      simpa using this
  obtain ⟨q, rest, hq⟩ : ∃ q rest, mid ++ p :: post = q :: rest :=
    List.exists_cons_of_ne_nil (by simp)
  refine ⟨pre, mid, q, rest, post, hsplit.symm, hq, hne, ?_, ?_⟩
  · have := List.head?_dropWhile_not (fun r => decide (procPid m r ≠ procPid m p)) alive
    rw [hmid, hq] at this
    simpa using this
  · rw [survivors, ← hpre, hdrop, List.tail_cons]

section
variable {σ : Type} {H : Heap} {V : Contexts σ} {K K₁ : Kernel σ} {alive : List Nat} {ticks : Nat}

/-- What a kill leaves: the survivors in their order, their records but for the links, and the
other globals. -/
theorem ProcRecords.killed {p : Nat} (h : ProcRecords V.area K.mem K.firstProcess alive)
    (hp : p ∈ alive)
    (hk : killProcess (H.sparing ((alive.erase p).map procBlock)) V K p = .ok K₁) :
    ProcRecords V.area K₁.mem K₁.firstProcess (survivors K.mem alive p) ∧
    (∀ r ∈ survivors K.mem alive p, r ∈ alive ∧ r ≠ p ∧ AgreeOn K.mem K₁.mem r 48) ∧
    K₁.idleProcess = K.idleProcess := by
  obtain ⟨pre, mid, q, rest, post, hsplit, hq, hne, hpid, hsurv⟩ :=
    survivors_split (m := K.mem) hp h.chain.nodup
  have hnodup := h.chain.nodup
  have hlen := h.length_lt
  have hchain := h.chain
  rw [hsurv]
  -- the survivors are among the others
  have hsub : ∀ r ∈ pre ++ post, r ∈ alive ∧ r ≠ p := by
    intro r hr
    rw [hsplit] at hnodup ⊢
    have hpp : p ∉ pre ++ post := by
      simp only [List.mem_append, List.nodup_append, List.nodup_cons, List.mem_cons] at hnodup ⊢
      grind
    refine ⟨?_, fun hrp => hpp (hrp ▸ hr)⟩
    simp only [List.mem_append, List.mem_cons] at hr ⊢
    tauto
  rw [hsplit, hq] at hchain hlen
  rw [killProcess_search _ V hchain hne hpid hlen] at hk
  obtain ⟨m₁, frames, m₃, hd, hr, rfl⟩ := killAt_ok hk
  have h₁ : ∀ r ∈ alive, AgreeOn K.mem m₁ r 52 := fun r hr' x hx hx' =>
    V.destroy_keeps hd x (h.off r hr' x ⟨hx, hx'⟩)
  have h₃ : ∀ r ∈ pre ++ post, AgreeOn (relink m₁ pre p) m₃ r 52 := by
    intro r hr'
    have hmem : r ∈ alive.erase p :=
      (List.mem_erase_of_ne (hsub r hr').2).mpr (hsub r hr').1
    exact releaseProcess_keeps hr _ (List.mem_map_of_mem hmem)
  rw [hsplit] at h h₁
  obtain ⟨hrec, hkeep⟩ := h.kill h₁ h₃
  exact ⟨hrec, fun r hr' => ⟨(hsub r hr').1, (hsub r hr').2, hkeep r hr'⟩, rfl⟩

/-- **When scheduling after a kill is right.** Once the current process is killed, the one
resumed is a live process that is runnable, or `idle_process`, exactly when the list the kill
leaves behind is headed by such a process: nobody looks at its status. -/
theorem kill_schedule (h : ProcRecords V.area K.mem K.firstProcess alive)
    (hcur : K.currentProcess ∈ alive) (ticks : Nat)
    (hk : killProcess (H.sparing ((alive.erase K.currentProcess).map procBlock)) V K
      K.currentProcess = .ok K₁) :
    (∃ st K', killCurrentProcess (H.sparing ((alive.erase K.currentProcess).map procBlock)) V K
        ticks = .ok (st, K') ∧
      (∃ l, Chain (procNext K'.mem) K'.firstProcess l ∧ K'.currentProcess ∈ l) ∧
      K'.currentProcess ≠ K.currentProcess ∧
      (procStatus K'.mem K'.currentProcess = PROCESS_RUNNABLE ∨
        K'.currentProcess = K.idleProcess)) ↔
    ∃ q, (survivors K.mem alive K.currentProcess).head? = some q ∧
      (procStatus K.mem q = PROCESS_RUNNABLE ∨ q = K.idleProcess) := by
  obtain ⟨hrec, hkeep, -⟩ := h.killed hcur hk
  have hrun : killCurrentProcess (H.sparing ((alive.erase K.currentProcess).map procBlock)) V K ticks
      = switchTo { K₁ with currentProcess := NULL } K₁.mem K₁.firstProcess := by
    unfold killCurrentProcess
    rw [hk]
    rfl
  have hfirst := hrec.chain.head
  cases hl : survivors K.mem alive K.currentProcess with
  | nil =>
      rw [hl] at hfirst
      have hfault : switchTo { K₁ with currentProcess := NULL } K₁.mem K₁.firstProcess
          = .error .nullLink := if_pos hfirst
      simp [hrun, hfault]
  | cons q l =>
      rw [hl, List.headD_cons] at hfirst
      have hq : q ∈ survivors K.mem alive K.currentProcess := by simp [hl]
      obtain ⟨-, hqne, hag⟩ := hkeep q hq
      obtain ⟨K', hs, hmem, hcur', hfirst'⟩ :=
        switchTo_ok (K := { K₁ with currentProcess := NULL }) (m := K₁.mem)
          (hfirst ▸ hrec.chain.ne_zero_of_mem hq)
      rw [hfirst] at hcur' hs
      have hstatus : procStatus K'.mem q = procStatus K.mem q := by
        rw [hmem]
        exact load8_congr (hag.mono (by omega) (by omega))
      rw [hrun, hfirst, hs]
      constructor
      · rintro ⟨st, K'', he, -, -, hgood⟩
        obtain ⟨-, rfl⟩ := Prod.mk.inj (Except.ok.inj he)
        rw [hcur', hstatus] at hgood
        exact ⟨q, rfl, hgood⟩
      · rintro ⟨r, hr, hgood⟩
        obtain rfl : q = r := by simpa using hr
        refine ⟨_, K', rfl, ⟨q :: l, ?_, by simp [hcur']⟩, by rwa [hcur'], ?_⟩
        · rw [hmem, hfirst', ← hl]
          exact hrec.chain
        · rw [hcur', hstatus]
          exact hgood

end

/-! ## A kill on the kernel heap -/

/-- Three processes made on the kernel heap. The newest is running, the one behind it has the
status `status` and the timer `timer`, and the oldest is `idle_process`. -/
structure ThreeUsers (K : Kernel Unit) (status timer : Nat) : Prop where
  list : ProcList plainContexts.area K.mem K.firstProcess [0x307108, 0x3050A4, 0x303040]
  current : K.currentProcess = 0x307108
  idle : K.idleProcess = 0x303040
  status : procStatus K.mem 0x3050A4 = status
  timer : sleepTimer K.mem 0x3050A4 = timer
  kill : ∃ K₁, killProcess
    ((firstFit Layout.least).toHeap.sparing ([0x3050A4, 0x303040].map procBlock)) plainContexts K
    0x307108 = .ok K₁

/-- The row of nodes after the third process. -/
def threeRow : List FirstFit.Node :=
  twoProcesses ++ [⟨0x3050D8, 4096, false⟩, ⟨0x3060E8, 4096, false⟩, ⟨0x3070F8, 52, false⟩]

theorem third_mallocs :
    FirstFit.malloc headerSize Layout.least.heapStart Layout.least.heapEnd STACK_SIZE
      twoProcesses = some (0x3050D8, threeRow.take 8) ∧
    FirstFit.malloc headerSize Layout.least.heapStart Layout.least.heapEnd STACK_SIZE
      (threeRow.take 8) = some (0x3060E8, threeRow.take 9) ∧
    FirstFit.malloc headerSize Layout.least.heapStart Layout.least.heapEnd sizeofProcess
      (threeRow.take 9) = some (0x3070F8, threeRow) := by
  decide

theorem exists_threeUsers (status timer : Nat) (hstatus : status < 256) (htimer : timer < 2 ^ 32) :
    ∃ K, ThreeUsers K status timer := by
  obtain ⟨K₁, K₂, w₁, w₂, hK₁, hK₂, hrun₂⟩ := two_made
  obtain ⟨h₁, h₂, h₃⟩ := third_mallocs
  obtain ⟨K₃, w₃, hK₃⟩ := firstFit_createUser hK₂.heap h₁ h₂ h₃ 0x40000000 0x102000
  obtain ⟨_, _, _, hstack, hustack, hrecord⟩ := firstFit_allotsUser
    [procBlock 0x3050A4, procBlock 0x303040] hK₂.heap h₁ h₂ h₃ (by decide)
  have hrun₃ : ProcRun (firstFit Layout.least).toHeap plainContexts K₃
      [0x307108, 0x3050A4, 0x303040] 3 := .createUser hrun₂ hstack hustack hrecord hK₃.create
  -- the second process goes to sleep
  obtain ⟨m, hm⟩ : ∃ m, m = store8 (store32 K₃.mem (0x3050A4 + 36) timer) (0x3050A4 + 40) status :=
    ⟨_, rfl⟩
  have hoff : ∀ x, (x < 0x3050C8 ∨ 0x3050CD ≤ x) → m x = K₃.mem x := by
    intro x hx
    rw [hm, store8_of_ne (by omega), store32_of_outside (by omega)]
  refine ⟨{ K₃ with mem := m, currentProcess := 0x307108, idleProcess := 0x303040 },
    (hrun₃.counted (by decide)).toProcList.congr (fun p hp => ⟨?_, ?_⟩), rfl, rfl, ?_, ?_, ?_⟩
  · exact fun x hx hx' => hoff x (by simp at hp; omega)
  · exact fun x hx hx' => hoff x (by simp at hp; omega)
  · rw [hm, procStatus, load8_store8]
    exact Nat.mod_eq_of_lt hstatus
  · rw [hm, sleepTimer, load32_store8_of_ne (by omega), load32_store32]
    exact Nat.mod_eq_of_lt htimer
  · have hword : ∀ k, k + 4 ≤ 52 → load32 m (0x307108 + k) = load32 K₃.mem (0x307108 + k) :=
      fun k hk => load32_congr (fun x _ _ => hoff x (by omega))
    have hheap : HeapState Layout.least (heapLimit Layout.least) m threeRow _ :=
      hK₃.heap.writeOutside (fun x _ hx => hoff x (by
        have hoff := hx ⟨0x3050A4, sizeofProcess⟩ (by simp)
        simp only [Block.Has, sizeofProcess] at hoff
        omega))
    have hkill := firstFit_killNewest (L := Layout.least) 0x3050D8 0x3060E8 0x3070F8
      (K := { K₃ with mem := m, currentProcess := 0x307108, idleProcess := 0x303040 })
      ([0x3050A4, 0x303040].map procBlock) hheap (congrArg Kernel.firstProcess hK₃.kernel)
    have h16 : headerSize = 16 := rfl
    rw [h16] at hkill
    obtain ⟨K₁, -, hk, -⟩ := hkill ((hword 28 (by omega)).trans hK₃.fields.stack_eq)
      ((hword 32 (by omega)).trans hK₃.userStack_eq) (by decide) (by decide) (by decide) (by decide)
    exact ⟨K₁, hk⟩

/-- With a runnable successor the kill resumes it. -/
theorem kill_schedule_successor : ∃ (K : Kernel Unit) (st : Nat) (K' : Kernel Unit),
    ThreeUsers K PROCESS_RUNNABLE 0 ∧ killCurrentProcess ((firstFit Layout.least).toHeap.sparing
      ([0x3050A4, 0x303040].map procBlock)) plainContexts K 0 = .ok (st, K') ∧
    (procStatus K'.mem K'.currentProcess = PROCESS_RUNNABLE ∨ K'.currentProcess = 0x303040) := by
  obtain ⟨K, hK⟩ := exists_threeUsers PROCESS_RUNNABLE 0 (by decide) (by decide)
  obtain ⟨K₁, hk⟩ := hK.kill
  have hcur : K.currentProcess ∈ [0x307108, 0x3050A4, 0x303040] := by simp [hK.current]
  have herase : [0x307108, 0x3050A4, 0x303040].erase K.currentProcess = [0x3050A4, 0x303040] := by
    rw [hK.current]
    decide
  have hsurvivors := survivors_eq_erase hcur hK.list.pids
  have hkill : killProcess ((firstFit Layout.least).toHeap.sparing
      (([0x307108, 0x3050A4, 0x303040].erase K.currentProcess).map procBlock)) plainContexts K
      K.currentProcess = .ok K₁ := by
    rw [herase, hK.current]
    exact hk
  have hmain := kill_schedule hK.list.records hcur 0 hkill
  rw [hsurvivors, herase] at hmain
  obtain ⟨st, K', hs, -, -, hgood⟩ := hmain.mpr ⟨0x3050A4, rfl, Or.inl hK.status⟩
  rw [hK.idle] at hgood
  exact ⟨K, st, K', hK, hs, hgood⟩

/-- With a sleeping successor, which has 100 ticks to go, the kill resumes that one. -/
theorem kill_schedule_fails : ∃ (K : Kernel Unit) (st : Nat) (K' : Kernel Unit),
    ThreeUsers K PROCESS_SLEEPING 100 ∧ killCurrentProcess ((firstFit Layout.least).toHeap.sparing
      ([0x3050A4, 0x303040].map procBlock)) plainContexts K 0 = .ok (st, K') ∧
    K'.currentProcess = 0x3050A4 ∧ procStatus K'.mem 0x3050A4 = PROCESS_SLEEPING := by
  obtain ⟨K, hK⟩ := exists_threeUsers PROCESS_SLEEPING 100 (by decide) (by decide)
  obtain ⟨K₁, hk⟩ := hK.kill
  have hpids : survivors K.mem [0x307108, 0x3050A4, 0x303040] 0x307108 = [0x3050A4, 0x303040] :=
    survivors_eq_erase (by simp) hK.list.pids
  obtain ⟨hrec, hkeep, -⟩ := hK.list.records.killed (p := 0x307108) (by simp) hk
  rw [hpids] at hrec hkeep
  have hfirst : K₁.firstProcess = 0x3050A4 := hrec.chain.head
  obtain ⟨K', hs, hmem, hcur', -⟩ := switchTo_ok (K := { K₁ with currentProcess := NULL })
    (m := K₁.mem) (p := 0x3050A4) (by decide)
  refine ⟨K, procState K₁.mem 0x3050A4, K', hK, ?_, hcur', ?_⟩
  · unfold killCurrentProcess
    rw [hK.current, hk]
    exact (congrArg (switchTo { K₁ with currentProcess := NULL } K₁.mem) hfirst).trans hs
  · rw [hmem, ← hK.status]
    have hag := (hkeep 0x3050A4 (by simp)).2.2
    exact load8_congr (hag.mono (by omega) (by omega))

end DayOS
