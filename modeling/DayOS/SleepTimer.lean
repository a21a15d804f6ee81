import DayOS.Interrupts

set_option autoImplicit false

/-! # How long `set_timer` sleeps (`syscall.c`, `multitasking.c`, `idt.c`)

`set_timer` stores the tick count at which to wake up, and `Schedule` compares it with the tick
count of the scan. Both are 32-bit words that wrap around, and the comparison does not know
whether they have; and a wake-up at the tick count 0 says that no timer is set.
`sleep_duration` says at which scans the test is right all the same.
-/

namespace DayOS

open ByteMemory Linked

/-- The test in the loop of `Schedule` that ends a process's sleep. -/
def wakeTest (m : Mem) (ticks p : Nat) : Prop := 0 < sleepTimer m p ∧ sleepTimer m p ≤ ticks

section
variable {σ : Type}

/-- The kernel in which the scan of `set_timer` takes place, at the tick count `ticks`. -/
def timerSet (K : Kernel σ) (ticks time : Nat) : Kernel σ :=
  let m := store32 K.mem (K.currentProcess + 36) (ticks + time)
  { K with mem := store8 m (K.currentProcess + 40) PROCESS_SLEEPING }

/-- The list of processes runs through `procs`, and so do the current and the idle process. -/
structure Listed (K : Kernel σ) (procs : List Nat) : Prop where
  records : ProcRecords (fun _ => False) K.mem K.firstProcess procs
  current : K.currentProcess = NULL ∨ K.currentProcess ∈ procs
  idle : K.idleProcess ∈ procs

/-- What happens while the process that called `set_timer` in `K₀`, at the tick count `t` and for
the time `d`, sleeps: the kernel, its processes and the ticks since the call. Ticks and scans
follow each other in any order, and anything else may happen to the other processes. -/
inductive SleepRun (K₀ : Kernel σ) (t d : Nat) : Kernel σ → List Nat → Nat → Prop
  | call {procs : List Nat} : Listed K₀ procs → K₀.currentProcess ∈ procs →
      SleepRun K₀ t d (timerSet K₀ t d) procs 0
  | tick {K : Kernel σ} {procs : List Nat} {k : Nat} : SleepRun K₀ t d K procs k →
      k + 1 < 2 ^ 32 → SleepRun K₀ t d K procs (k + 1)
  | scan {K K' : Kernel σ} {procs : List Nat} {k cpuOld st : Nat} : SleepRun K₀ t d K procs k →
      schedule K ((t + k) % 2 ^ 32) cpuOld = .ok (st, K') → K'.currentProcess ≠ K₀.currentProcess →
      SleepRun K₀ t d K' procs k
  | other {K K' : Kernel σ} {procs procs' : List Nat} {k : Nat} : SleepRun K₀ t d K procs k →
      AgreeOn K.mem K'.mem (K₀.currentProcess + 36) 5 → Listed K' procs' →
      K₀.currentProcess ∈ procs' → SleepRun K₀ t d K' procs' k

/-- What holds of the process `p` as long as it sleeps. -/
structure Sleeping (K : Kernel σ) (procs : List Nat) (p wakeAt : Nat) : Prop where
  listed : Listed K procs
  mem : p ∈ procs
  timer : sleepTimer K.mem p = wakeAt
  status : procStatus K.mem p = PROCESS_SLEEPING

/-- A scan `k` ticks after a call at `t` for `d` ticks at which the test decides rightly: no sum
has wrapped around and there is a timer; or both sums have; or the timer is 0, and not due. -/
def InTime (t d k : Nat) : Prop :=
  (t + d < 2 ^ 32 ∧ t + k < 2 ^ 32 ∧ 0 < t + d) ∨ (2 ^ 32 < t + d ∧ 2 ^ 32 ≤ t + k) ∨
    (t + d = 2 ^ 32 ∧ t + k < 2 ^ 32)

variable {K K' K₀ : Kernel σ} {procs procs' : List Nat} {p t d k cpuOld st ticks wakeAt : Nat}

/-! ## One step -/

theorem setTimerCall_eq (K : Kernel σ) (ticks time cpuOld : Nat) :
    setTimerCall K ticks time cpuOld = schedule (timerSet K ticks time) ticks cpuOld := rfl

/-- A change outside the links leaves the list as it is. -/
theorem ProcRecords.congr {area : Nat → Prop} {m m' : Mem} {first : Nat}
    (h : ProcRecords area m first procs) (hk : ∀ r ∈ procs, AgreeOn m m' (r + 48) 4) :
    ProcRecords area m' first procs :=
  ⟨h.chain.congr (fun r hr => load32_congr (hk r hr)), h.range, h.off, h.apart⟩

/-- While `p` sleeps, `Schedule` may take it exactly if the test holds. -/
theorem Sleeping.eligible_iff (h : Sleeping K procs p wakeAt) :
    eligible K.mem ticks p = true ↔ wakeTest K.mem ticks p := by
  unfold eligible wakeTest
  rw [h.status]
  simp [PROCESS_SLEEPING, PROCESS_RUNNABLE]

theorem Sleeping.call (h : Listed K procs) (hp : K.currentProcess ∈ procs) :
    Sleeping (timerSet K t d) procs K.currentProcess ((t + d) % 2 ^ 32) := by
  refine ⟨⟨h.records.congr (fun r hr => ?_), h.current, h.idle⟩, hp, ?_, ?_⟩
  · -- timer and status are no links
    have happart : ∀ x, r + 48 ≤ x → x < r + 48 + 4 →
        x < K.currentProcess + 36 ∨ K.currentProcess + 41 ≤ x := by
      intro x hx hx'
      by_cases hrp : r = K.currentProcess
      · omega
      · have := h.records.record_apart hr hp hrp
        omega
    intro x hx hx'
    have hout := happart x hx hx'
    show store8 _ _ _ x = _
    rw [store8_of_ne (by omega), store32_of_outside (by omega)]
  · show load32 (store8 _ _ _) (K.currentProcess + 36) = _
    rw [load32_store8_of_ne (by omega), load32_store32]
  · show load8 (store8 _ _ _) (K.currentProcess + 40) = _
    rw [load8_store8]
    rfl

/-- What else happens leaves the sleeper as it is. -/
theorem Sleeping.other (h : Sleeping K procs p wakeAt) (hag : AgreeOn K.mem K'.mem (p + 36) 5)
    (hlisted : Listed K' procs') (hp : p ∈ procs') : Sleeping K' procs' p wakeAt := by
  refine ⟨hlisted, hp, ?_, ?_⟩
  · rw [← h.timer]
    exact load32_congr (hag.mono (by omega) (by omega))
  · rw [← h.status]
    exact load8_congr (hag.mono (by omega) (by omega))

theorem switchTo_eq {m : Mem} {q : Nat} (h : switchTo K m q = .ok (st, K')) :
    K'.mem = m ∧ K'.currentProcess = q := by
  unfold switchTo at h
  split at h
  · cases h
  · obtain ⟨-, rfl⟩ := Prod.mk.inj (Except.ok.inj h)
    exact ⟨rfl, rfl⟩

/-- A scan that takes another process writes nothing into the timer and the status of `p`. -/
theorem schedule_agree (h : Listed K procs) (hp : p ∈ procs)
    (hs : schedule K ticks cpuOld = .ok (st, K')) (hne : K'.currentProcess ≠ p) :
    AgreeOn K.mem K'.mem (p + 36) 5 := by
  rcases h.current with hcur | hcur
  · -- no current process: nothing is written
    rw [schedule, if_pos hcur] at hs
    rw [(switchTo_eq hs).1]
    exact AgreeOn.refl _ _ _
  · obtain ⟨pre, post, hsplit⟩ := List.append_of_mem hcur
    have hrecords := h.records
    rw [hsplit] at hrecords
    rw [schedule_eq hrecords] at hs
    have hstore : AgreeOn K.mem (store32 K.mem K.currentProcess cpuOld) (p + 36) 5 := by
      apply agreeOn_store32
      by_cases hpc : p = K.currentProcess
      · omega
      · have := h.records.record_apart hp hcur hpc
        omega
    cases hf : (scanned pre K.currentProcess post).find? (eligible K.mem ticks) with
    | none =>
        rw [hf] at hs
        rw [(switchTo_eq hs).1]
        exact hstore
    | some q =>
        rw [hf] at hs
        have hq : q ∈ procs := by
          rw [hsplit]
          exact mem_scanned (List.mem_of_find?_eq_some hf)
        obtain ⟨hmem, hcurrent⟩ := switchTo_eq hs
        -- the process woken is another one
        have hpq : p ≠ q := by
          rintro rfl
          exact hne hcurrent
        have happart := h.records.record_apart hp hq hpq
        rw [hmem]
        refine hstore.trans (fun x hx hx' => ?_)
        exact wake_of_outside (by omega)

theorem Sleeping.scan (h : Sleeping K procs p wakeAt)
    (hs : schedule K ticks cpuOld = .ok (st, K')) (hne : K'.currentProcess ≠ p) :
    Sleeping K' procs p wakeAt := by
  have hsw := schedule_switched h.listed.records h.listed.current h.listed.idle hs
  refine h.other (schedule_agree h.listed h.mem hs hne) ⟨?_, Or.inr hsw.current, ?_⟩ h.mem
  · rw [hsw.first]
    refine h.listed.records.congr (fun r hr x hx hx' => hsw.mem x (fun q hq => ?_))
    by_cases hrq : r = q
    · omega
    · have := h.listed.records.record_apart hr hq hrq
      omega
  · rw [hsw.idle]
    exact h.listed.idle

/-! ## Runs -/

theorem SleepRun.sleeping (h : SleepRun K₀ t d K procs k) :
    Sleeping K procs K₀.currentProcess ((t + d) % 2 ^ 32) ∧ k < 2 ^ 32 := by
  induction h with
  | call hlisted hp => exact ⟨Sleeping.call hlisted hp, by decide⟩
  | tick _ hk ih => exact ⟨ih.1, hk⟩
  | scan _ hs hne ih => exact ⟨ih.1.scan hs hne, ih.2⟩
  | other _ hag hlisted hp ih => exact ⟨ih.1.other hag hlisted hp, ih.2⟩

/-- A timer interrupt that takes another process is a tick and a scan. -/
theorem SleepRun.interrupt (h : SleepRun K₀ t d K procs k) (hk : k + 1 < 2 ^ 32)
    (hs : irqSwitch K ((t + k) % 2 ^ 32) cpuOld 0x20 = .ok (st, K'))
    (hne : K'.currentProcess ≠ K₀.currentProcess) : SleepRun K₀ t d K' procs (k + 1) := by
  unfold irqSwitch at hs
  rw [if_pos rfl, Nat.mod_add_mod, Nat.add_assoc] at hs
  exact (h.tick hk).scan hs hne

/-- After any number of ticks, the process may still be asleep. -/
theorem SleepRun.wait (hlisted : Listed K₀ procs) (hp : K₀.currentProcess ∈ procs)
    (hk : k < 2 ^ 32) : SleepRun K₀ t d (timerSet K₀ t d) procs k := by
  induction k with
  | zero => exact .call hlisted hp
  | succ k ih => exact (ih (by omega)).tick hk

/-- The test at a scan, in terms of the ticks that have passed. -/
theorem Sleeping.wakeTest_iff (h : Sleeping K procs p ((t + d) % 2 ^ 32)) (ht : t < 2 ^ 32)
    (hd : d < 2 ^ 32) (hk : k < 2 ^ 32) :
    (wakeTest K.mem ((t + k) % 2 ^ 32) p ↔ d ≤ k) ↔ InTime t d k := by
  unfold wakeTest InTime
  rw [h.timer]
  omega

/-- Only a call at the tick count 0 is in time at every scan that may follow. -/
theorem inTime_all (ht : t < 2 ^ 32) (hd : d < 2 ^ 32) :
    (∀ k < 2 ^ 32, InTime t d k) ↔ t = 0 ∧ 0 < d := by
  unfold InTime
  constructor
  · intro h
    have hfirst := h 0 (by decide)
    have hlast := h (2 ^ 32 - 1) (by decide)
    omega
  · rintro ⟨rfl, hd0⟩ k hk
    omega

/-- **Sleep duration.** At every scan after a call of `set_timer`, the test decides by the ticks
that have passed if and only if the scan is in time. At all scans of all runs it does so if and
only if the call takes place at the tick count 0, for a time that is not 0. -/
theorem sleep_duration (ht : t < 2 ^ 32) (hd : d < 2 ^ 32) (hlisted : Listed K₀ procs)
    (hp : K₀.currentProcess ∈ procs) :
    (∀ K procs' k, SleepRun K₀ t d K procs' k → procStatus K.mem K₀.currentProcess = PROCESS_SLEEPING ∧
      ((wakeTest K.mem ((t + k) % 2 ^ 32) K₀.currentProcess ↔ d ≤ k) ↔ InTime t d k)) ∧
    ((∀ K procs' k, SleepRun K₀ t d K procs' k →
      (wakeTest K.mem ((t + k) % 2 ^ 32) K₀.currentProcess ↔ d ≤ k)) ↔ t = 0 ∧ 0 < d) := by
  constructor
  · intro K procs' k hrun
    obtain ⟨hsleeping, hk⟩ := hrun.sleeping
    exact ⟨hsleeping.status, hsleeping.wakeTest_iff ht hd hk⟩
  · rw [← inTime_all ht hd]
    constructor
    · intro hall k hk
      have hrun : SleepRun K₀ t d (timerSet K₀ t d) procs k := SleepRun.wait hlisted hp hk
      exact (hrun.sleeping.1.wakeTest_iff ht hd hk).mp (hall _ _ _ hrun)
    · intro hin K procs' k hrun
      obtain ⟨hsleeping, hk⟩ := hrun.sleeping
      exact (hsleeping.wakeTest_iff ht hd hk).mpr (hin k hk)

end

theorem threeProcesses_listed :
    Listed (threeProcesses PROCESS_RUNNABLE) [0x1000, 0x2000, 0x3000] :=
  ⟨threeProcesses_records _, Or.inr (by decide), by decide⟩

/-- A call at the tick count 0, for 5 ticks, sleeps at 4 ticks and wakes up at 5. -/
theorem sleep_duration_first :
    ¬ wakeTest (timerSet (threeProcesses PROCESS_RUNNABLE) 0 5).mem 4 0x1000 ∧
    wakeTest (timerSet (threeProcesses PROCESS_RUNNABLE) 0 5).mem 5 0x1000 := by
  have hcur : (threeProcesses PROCESS_RUNNABLE).currentProcess ∈ [0x1000, 0x2000, 0x3000] := by
    decide
  have hall := (sleep_duration (by decide) (by decide) threeProcesses_listed hcur).2.mpr
    (show 0 = 0 ∧ 0 < 5 by decide)
  have hfour := hall _ _ 4 (SleepRun.wait threeProcesses_listed hcur (by decide))
  have hfive := hall _ _ 5 (SleepRun.wait threeProcesses_listed hcur (by decide))
  exact ⟨fun htest => absurd (hfour.mp htest) (by decide), hfive.mpr (by decide)⟩

/-- A call for 2 ticks at the last tick count wakes up at once; one for a single tick never
wakes up. -/
theorem sleep_duration_fails :
    (∃ K procs, SleepRun (threeProcesses PROCESS_RUNNABLE) 0xFFFFFFFF 2 K procs 0 ∧
      wakeTest K.mem 0xFFFFFFFF 0x1000) ∧
    ∀ K procs k, SleepRun (threeProcesses PROCESS_RUNNABLE) 0xFFFFFFFF 1 K procs k →
      ¬ wakeTest K.mem ((0xFFFFFFFF + k) % 2 ^ 32) 0x1000 := by
  constructor
  · have hrun : SleepRun (threeProcesses PROCESS_RUNNABLE) 0xFFFFFFFF 2 _ _ 0 :=
      .call threeProcesses_listed (by decide)
    refine ⟨_, _, hrun, ?_⟩
    unfold wakeTest
    rw [show (0x1000 : Nat) = (threeProcesses PROCESS_RUNNABLE).currentProcess from rfl,
      hrun.sleeping.1.timer]
    decide
  · intro K procs k hrun htest
    have htimer := hrun.sleeping.1.timer
    have hzero : sleepTimer K.mem 0x1000 = 0 := htimer
    unfold wakeTest at htest
    omega

end DayOS
