import DayOS.Process
import DayOS.Allocator

set_option autoImplicit false

/-! # The process list

Runs of creations and kills over any heap whose blocks are disjoint, and the invariant of
the list: it holds the processes created and not yet killed, newest first, with pairwise
distinct pids (`process_list`). `KillProcess` looks for the pid, so it is the distinctness
of pids that makes it unlink the process it is given.
-/

namespace DayOS

open ByteMemory Linked

/-! ## Disjoint heap blocks -/

/-- An allocation over the blocks `used`: the new block overlaps none of them, page 0 or
`area`, and the call changes no byte of them. -/
structure Allots (H : Heap) (area : Nat → Prop) (used : List Block) (m : Mem) (n p : Nat)
    (m' : Mem) : Prop where
  call : H.kmalloc m n = some (p, m')
  range : 0x1000 ≤ p ∧ p + n ≤ 2 ^ 32
  off : ∀ x, Block.Has ⟨p, n⟩ x → ¬ area x
  apart : ∀ b ∈ used, b.Apart ⟨p, n⟩
  keeps : ∀ b ∈ used, AgreeOn m m' b.addr b.size

/-- The heap `H` without the calls of `kfree` that change a byte of the blocks `used`. -/
def Heap.sparing (H : Heap) (used : List Block) : Heap where
  kmalloc := H.kmalloc
  kfree m a := (H.kfree m a).filter (fun m' => decide (∀ b ∈ used, AgreeOn m m' b.addr b.size))

theorem Heap.sparing_kfree {H : Heap} {used : List Block} {m m' : Mem} {a : Nat}
    (h : (H.sparing used).kfree m a = some m') :
    H.kfree m a = some m' ∧ ∀ b ∈ used, AgreeOn m m' b.addr b.size := by
  simpa [Heap.sparing, Option.filter_eq_some_iff] using h

theorem releaseProcess_eq {H : Heap} {m m₁ m₂ m₃ : Mem} {p : Nat}
    (h₁ : H.kfree m (procStack m p) = some m₁) (h₂ : H.kfree m₁ (userStack m₁ p) = some m₂)
    (h₃ : H.kfree m₂ p = some m₃) : releaseProcess H m p = some m₃ := by
  simp only [releaseProcess, Option.bind_eq_bind, h₁, Option.bind_some, h₂, h₃]

theorem releaseProcess_keeps {H : Heap} {used : List Block} {m m' : Mem} {p : Nat}
    (h : releaseProcess (H.sparing used) m p = some m') :
    ∀ b ∈ used, AgreeOn m m' b.addr b.size := by
  simp only [releaseProcess, Option.bind_eq_bind, Option.bind_eq_some_iff] at h
  obtain ⟨m₁, h₁, m₂, h₂, h₃⟩ := h
  exact fun b hb => ((Heap.sparing_kfree h₁).2 b hb).trans
    (((Heap.sparing_kfree h₂).2 b hb).trans ((Heap.sparing_kfree h₃).2 b hb))

/-! ## Runs -/

/-- The states reached by creations and kills from an empty list on, each with the
processes alive, newest first, and the number of creations so far. In between, the rest of
the kernel may change whatever it likes but the links and pids of live processes. -/
inductive ProcRun {σ : Type} (H : Heap) (V : Contexts σ) : Kernel σ → List Nat → Nat → Prop
  | boot {K : Kernel σ} : K.firstProcess = NULL → K.numProc = 0 → ProcRun H V K [] 0
  | createKernel {K K' : Kernel σ} {alive : List Nat} {made entry stack process p : Nat}
      {m₁ m₂ : Mem} : ProcRun H V K alive made →
      Allots H V.area (alive.map procBlock) K.mem STACK_SIZE stack m₁ →
      Allots H V.area (⟨stack, STACK_SIZE⟩ :: alive.map procBlock) m₁ sizeofProcess process m₂ →
      createKernelProcess H V K entry = some (p, K') → ProcRun H V K' (p :: alive) (made + 1)
  | createUser {K K' : Kernel σ} {alive : List Nat}
      {made entry context stack userStack process p : Nat} {m₁ m₂ m₃ : Mem} :
      ProcRun H V K alive made →
      Allots H V.area (alive.map procBlock) K.mem STACK_SIZE stack m₁ →
      Allots H V.area (⟨stack, STACK_SIZE⟩ :: alive.map procBlock) m₁ STACK_SIZE userStack m₂ →
      Allots H V.area (⟨userStack, STACK_SIZE⟩ :: ⟨stack, STACK_SIZE⟩ :: alive.map procBlock) m₂
        sizeofProcess process m₃ →
      createUserProcess H K entry context = some (p, K') → ProcRun H V K' (p :: alive) (made + 1)
  | kill {K K' : Kernel σ} {alive : List Nat} {made p : Nat} : ProcRun H V K alive made →
      p ∈ alive → killProcess (H.sparing ((alive.erase p).map procBlock)) V K p = .ok K' →
      ProcRun H V K' (alive.erase p) made
  | other {K K' : Kernel σ} {alive : List Nat} {made : Nat} : ProcRun H V K alive made →
      K'.firstProcess = K.firstProcess → K'.numProc = K.numProc →
      (∀ p ∈ alive, AgreeOn K.mem K'.mem (p + 8) 4 ∧ AgreeOn K.mem K'.mem (p + 48) 4) →
      ProcRun H V K' alive made

/-- **The invariant.** The links from `first_process` run through the records of the live
processes, which do not overlap; their pids are distinct. -/
structure ProcList (area : Nat → Prop) (m : Mem) (first : Nat) (alive : List Nat) : Prop where
  chain : Chain (procNext m) first alive
  range : ∀ p ∈ alive, 0x1000 ≤ p ∧ p + 52 ≤ 2 ^ 32
  off : ∀ p ∈ alive, ∀ x, (procBlock p).Has x → ¬ area x
  apart : alive.Pairwise (fun p r => (procBlock p).Apart (procBlock r))
  pids : (alive.map (procPid m)).Nodup

/-- The same without the pids: the links run through records that do not overlap. -/
structure ProcRecords (area : Nat → Prop) (m : Mem) (first : Nat) (alive : List Nat) : Prop where
  chain : Chain (procNext m) first alive
  range : ∀ p ∈ alive, 0x1000 ≤ p ∧ p + 52 ≤ 2 ^ 32
  off : ∀ p ∈ alive, ∀ x, (procBlock p).Has x → ¬ area x
  apart : alive.Pairwise (fun p r => (procBlock p).Apart (procBlock r))

section
variable {area : Nat → Prop} {m m' : Mem} {first p : Nat} {alive : List Nat}

theorem ProcList.records (h : ProcList area m first alive) : ProcRecords area m first alive :=
  ⟨h.chain, h.range, h.off, h.apart⟩

/-- The list depends on the links and the pids only. -/
theorem ProcList.congr (h : ProcList area m first alive)
    (hk : ∀ p ∈ alive, AgreeOn m m' (p + 8) 4 ∧ AgreeOn m m' (p + 48) 4) :
    ProcList area m' first alive := by
  have hpid : ∀ p ∈ alive, procPid m' p = procPid m p := fun p hp => load32_congr (hk p hp).1
  refine ⟨h.chain.congr (fun p hp => load32_congr (hk p hp).2), h.range, h.off, h.apart, ?_⟩
  rw [List.map_congr_left hpid]
  exact h.pids

theorem agreeOn_procBlock (h : AgreeOn m m' (procBlock p).addr (procBlock p).size) :
    AgreeOn m m' (p + 8) 4 ∧ AgreeOn m m' (p + 48) 4 := by
  simp only [procBlock, sizeofProcess] at h
  exact ⟨h.mono (by omega) (by omega), h.mono (by omega) (by omega)⟩

theorem ProcRecords.length_le (h : ProcRecords area m first alive) :
    52 * alive.length ≤ 2 ^ 32 :=
  Block.length_mul_le alive h.apart (fun p hp => (h.range p hp).2)

theorem ProcRecords.length_lt (h : ProcRecords area m first alive) : alive.length < walkLimit := by
  have := h.length_le
  simp only [walkLimit]
  omega

theorem ProcRecords.record_apart (h : ProcRecords area m first alive) {r : Nat} (hp : p ∈ alive)
    (hr : r ∈ alive) (hne : p ≠ r) : p + 52 ≤ r ∨ r + 52 ≤ p := by
  have : Std.Symm (fun p r => (procBlock p).Apart (procBlock r)) := ⟨fun _ _ => Block.Apart.symm⟩
  exact h.apart.forall hp hr hne

/-- A new record in front, with a pid no other process has. -/
theorem ProcList.cons (h : ProcList area m first alive)
    (hkeep : ∀ r ∈ alive, AgreeOn m m' r 52)
    (hrange : 0x1000 ≤ p ∧ p + 52 ≤ 2 ^ 32) (hoff : ∀ x, (procBlock p).Has x → ¬ area x)
    (hap : ∀ r ∈ alive, (procBlock p).Apart (procBlock r))
    (hnext : procNext m' p = first) (hpid : ∀ r ∈ alive, procPid m r ≠ procPid m' p) :
    ProcList area m' p (p :: alive) := by
  have h' : ProcList area m' first alive :=
    h.congr (fun r hr => agreeOn_procBlock (hkeep r hr))
  refine ⟨⟨rfl, by omega, hnext ▸ h'.chain⟩, ?_, ?_, ?_, ?_⟩
  · exact List.forall_mem_cons.mpr ⟨hrange, h.range⟩
  · exact List.forall_mem_cons.mpr ⟨hoff, h.off⟩
  · exact List.pairwise_cons.mpr ⟨hap, h.apart⟩
  · rw [List.map_cons, List.nodup_cons]
    refine ⟨fun hmem => ?_, h'.pids⟩
    obtain ⟨r, hr, he⟩ := List.mem_map.mp hmem
    refine hpid r hr (Eq.trans ?_ he)
    exact (load32_congr ((hkeep r hr).mono (by omega) (by omega))).symm

end

/-! ## Killing -/

section
variable {m : Mem} {p : Nat} {pre post : List Nat}

/-- On a chain through `b`, `l₁` and then a process with the pid sought, the loop of
`KillProcess` stops at the last process in front of it and reads no link behind it. -/
theorem killSearch_chain {fuel b q : Nat} {l₁ : List Nat} (l₂ : List Nat)
    (h : Chain (procNext m) b (b :: (l₁ ++ q :: l₂)))
    (hne : ∀ r ∈ l₁, procPid m r ≠ procPid m p) (hq : procPid m q = procPid m p)
    (hf : l₁.length < fuel) : killSearch m (procPid m p) fuel b = .ok (l₁.getLastD b) := by
  induction l₁ generalizing b fuel with
  | nil =>
      obtain ⟨f, rfl⟩ : ∃ f, fuel = f + 1 := ⟨fuel - 1, by simp at hf; omega⟩
      obtain ⟨-, hb0, hp, hp0, -⟩ := h
      rw [killSearch, if_neg hb0, hp, if_neg hp0, if_pos hq]
      rfl
  | cons c l₁ ih =>
      obtain ⟨f, rfl⟩ : ∃ f, fuel = f + 1 := ⟨fuel - 1, by simp at hf; omega⟩
      obtain ⟨-, hb0, hc, hc0, ht⟩ := h
      rw [killSearch, if_neg hb0, hc, if_neg hc0, if_neg (hne c (by simp)),
        ih ⟨rfl, hc0, ht⟩ (fun r hr => hne r (by simp [hr])) (by simpa using hf),
        List.getLastD_cons]

/-- The store that takes `p` out of the list behind the processes `pre`. -/
def relink (m : Mem) (pre : List Nat) (p : Nat) : Mem :=
  match pre.getLast? with
  | none => m
  | some b => store32 m (b + 48) (procNext m p)

/-- What `KillProcess` does with a process behind the processes `pre`. -/
def killAt {σ : Type} (H : Heap) (V : Contexts σ) (K : Kernel σ) (pre : List Nat) (p : Nat) :
    Except Fault (Kernel σ) := do
  let (m, frames) ← returning (V.destroyContext K.mem K.frames (procContext K.mem p))
  let m ← returning (releaseProcess H (relink m pre p) p)
  return { K with
    mem := m, frames := frames,
    firstProcess := if pre = [] then procNext K.mem p else K.firstProcess }

/-- `KillProcess` stops behind the processes `pre` whose pids differ from that of the process
it is given, and unlinks there. -/
theorem killProcess_search {σ : Type} (H : Heap) (V : Contexts σ) {K : Kernel σ} {q : Nat}
    (h : Chain (procNext K.mem) K.firstProcess (pre ++ q :: post))
    (hne : ∀ r ∈ pre, procPid K.mem r ≠ procPid K.mem p) (hq : procPid K.mem q = procPid K.mem p)
    (hlen : (pre ++ q :: post).length < walkLimit) :
    killProcess H V K p = killAt H V K pre p := by
  cases pre with
  | nil =>
      obtain ⟨hfirst, hp0, -⟩ := h
      simp only [killProcess, killAt, relink, hfirst, hq, if_neg hp0, if_true, List.getLast?_nil]
  | cons b pre =>
      have hb : K.firstProcess = b := h.head
      have hb0 : b ≠ 0 := h.ne_zero_of_mem (by simp)
      have hlast0 : pre.getLastD b ≠ 0 := by
        refine h.ne_zero_of_mem (List.mem_append_left _ ?_)
        rw [List.getLastD_eq_getLast?]
        cases hl : pre.getLast? with
        | none => simp
        | some z => simp [List.mem_of_getLast? hl]
      have hsearch : killSearch K.mem (procPid K.mem p) walkLimit b = .ok (pre.getLastD b) := by
        refine killSearch_chain post (hb ▸ h) (fun r hr => hne r (by simp [hr])) hq ?_
        simp only [List.length_append, List.length_cons] at hlen
        omega
      have hrelink : ∀ m : Mem, relink m (b :: pre) p
          = store32 m (pre.getLastD b + 48) (procNext m p) := by
        intro m
        simp [relink, List.getLast?_cons, List.getLastD_eq_getLast?]
      simp only [killProcess, killAt, hb, if_neg hb0, if_neg (hne b (by simp)), hsearch, hrelink]
      simp only [bind, Except.bind, if_neg hlast0]
      rfl

/-- **`KillProcess` finds the process it is given**, because no other one has its pid. -/
theorem killProcess_eq {σ : Type} (H : Heap) (V : Contexts σ) {K : Kernel σ}
    (h : Chain (procNext K.mem) K.firstProcess (pre ++ p :: post))
    (hpids : ((pre ++ p :: post).map (procPid K.mem)).Nodup)
    (hlen : (pre ++ p :: post).length < walkLimit) :
    killProcess H V K p = killAt H V K pre p := by
  refine killProcess_search H V h (fun r hr he => ?_) rfl hlen
  rw [List.map_append, List.map_cons] at hpids
  exact (List.nodup_append.mp hpids).2.2 _ (List.mem_map_of_mem hr) _ List.mem_cons_self he

/-- A kill that comes back has destroyed the context, relinked and released the record. -/
theorem killAt_ok {σ : Type} {H : Heap} {V : Contexts σ} {K K' : Kernel σ}
    (hk : killAt H V K pre p = .ok K') :
    ∃ m₁ frames m₃, V.destroyContext K.mem K.frames (procContext K.mem p) = some (m₁, frames) ∧
      releaseProcess H (relink m₁ pre p) p = some m₃ ∧
      K' = { K with
        mem := m₃, frames := frames,
        firstProcess := if pre = [] then procNext K.mem p else K.firstProcess } := by
  simp only [killAt, bind, Except.bind] at hk
  cases hd : V.destroyContext K.mem K.frames (procContext K.mem p) with
  | none =>
      rw [hd] at hk
      cases hk
  | some x =>
      obtain ⟨m₁, frames⟩ := x
      simp only [hd, returning] at hk
      cases hr : releaseProcess H (relink m₁ pre p) p with
      | none =>
          rw [hr] at hk
          cases hk
      | some m₃ =>
          simp only [hr, pure, Except.pure, Except.ok.injEq] at hk
          exact ⟨m₁, frames, m₃, rfl, hr, hk.symm⟩

theorem relink_of_outside {x : Nat} (hx : ∀ b, pre.getLast? = some b → x < b + 48 ∨ b + 52 ≤ x) :
    relink m pre p x = m x := by
  cases hb : pre.getLast? with
  | none => simp only [relink, hb]
  | some b =>
      simp only [relink, hb]
      exact store32_of_outside (hx b hb)

/-- **Relinking takes a process out of the list**, and all between it and `pre`. It keeps the
order of the rest and their records up to the links, whatever else happens outside them. -/
theorem ProcRecords.kill {area : Nat → Prop} {m₁ m₃ : Mem} {first : Nat} {mid : List Nat}
    (h : ProcRecords area m first (pre ++ (mid ++ p :: post)))
    (h₁ : ∀ r ∈ pre ++ (mid ++ p :: post), AgreeOn m m₁ r 52)
    (h₃ : ∀ r ∈ pre ++ post, AgreeOn (relink m₁ pre p) m₃ r 52) :
    ProcRecords area m₃ (if pre = [] then procNext m p else first) (pre ++ post) ∧
    ∀ r ∈ pre ++ post, AgreeOn m m₃ r 48 := by
  have hsub : ∀ r ∈ pre ++ post, r ∈ pre ++ (mid ++ p :: post) := by
    intro r hr
    simp only [List.mem_append, List.mem_cons] at hr ⊢
    tauto
  have hnodup := h.chain.nodup
  -- a record other than the last one of `pre` keeps its link, every one the rest
  have hkeep : ∀ r ∈ pre ++ post, ∀ a, r ≤ a → a < r + 52 →
      (a < r + 48 ∨ pre.getLast? ≠ some r) → m₃ a = m a := by
    intro r hr' a ha ha' hcase
    rw [h₃ r hr' a ha ha', ← h₁ r (hsub r hr') a ha ha']
    refine relink_of_outside (fun b hb => ?_)
    by_cases hbr : b = r
    · subst hbr
      rcases hcase with hlt | hne
      · omega
      · exact absurd hb hne
    · have := h.record_apart (hsub b (List.mem_append_left _ (List.mem_of_getLast? hb)))
        (hsub r hr') hbr
      omega
  have hnext : ∀ r ∈ pre ++ post, pre.getLast? ≠ some r → procNext m₃ r = procNext m r :=
    fun r hr' hne => load32_congr (fun a _ _ => hkeep r hr' a (by omega) (by omega) (Or.inr hne))
  have hpost : ∀ r ∈ post, pre.getLast? ≠ some r := fun r hr' he =>
    (List.nodup_append.mp hnodup).2.2 r (List.mem_of_getLast? he) r (by simp [hr']) rfl
  have hsublist : List.Sublist (pre ++ post) (pre ++ (mid ++ p :: post)) :=
    List.Sublist.append_left ((List.sublist_cons_self _ _).trans (List.sublist_append_right _ _)) _
  refine ⟨⟨?_, fun r hr' => h.range r (hsub r hr'), fun r hr' => h.off r (hsub r hr'),
    h.apart.sublist hsublist⟩,
    fun r hr' a ha ha' => hkeep r hr' a ha (by omega) (Or.inl (by omega))⟩
  rcases List.eq_nil_or_concat pre with rfl | ⟨pre', b, rfl⟩
  · have hc : Chain (procNext m) (procNext m p) post :=
      Chain.tail_of_append (show Chain (procNext m) first (mid ++ p :: post) by simpa using h.chain)
    exact hc.congr (fun r hr' => hnext r (by simp [hr']) (by simp))
  · rw [List.concat_eq_append] at *
    have hb : procNext m₃ b = procNext m p := by
      have hlink : procNext (relink m₁ (pre' ++ [b]) p) b = procNext m₁ p % 2 ^ 32 := by
        simp [relink, procNext]
      have hb₃ : procNext m₃ b = procNext (relink m₁ (pre' ++ [b]) p) b :=
        load32_congr ((h₃ b (by simp)).mono (by omega) (by omega))
      have hp₁ : procNext m₁ p = procNext m p :=
        load32_congr ((h₁ p (by simp)).mono (by omega) (by omega))
      rw [hb₃, hlink, hp₁]
      exact Nat.mod_eq_of_lt (load32_lt _ _)
    rw [if_neg (by simp)]
    refine h.chain.skip mid hb (fun r hr' => hnext r (by simp [hr']) ?_)
      (fun r hr' => hnext r (by simp [hr']) (hpost r hr'))
    rw [List.getLast?_concat]
    rintro he
    obtain rfl : b = r := by simpa using he
    exact (List.nodup_append.mp (List.nodup_append.mp hnodup).1).2.2 b hr' b (by simp) rfl

/-- Relinking takes exactly the process sought out of a list with distinct pids. -/
theorem ProcList.kill {area : Nat → Prop} {m₁ m₃ : Mem} {first : Nat}
    (h : ProcList area m first (pre ++ p :: post))
    (h₁ : ∀ r ∈ pre ++ p :: post, AgreeOn m m₁ r 52)
    (h₃ : ∀ r ∈ pre ++ post, AgreeOn (relink m₁ pre p) m₃ r 52) :
    ProcList area m₃ (if pre = [] then procNext m p else first) (pre ++ post) ∧
    ∀ r ∈ pre ++ post, AgreeOn m m₃ r 48 := by
  obtain ⟨hrec, hkeep⟩ := ProcRecords.kill (show ProcRecords area m first (pre ++ ([] ++ p :: post)) from h.records) h₁ h₃
  have hpid : ∀ r ∈ pre ++ post, procPid m₃ r = procPid m r := fun r hr =>
    load32_congr ((hkeep r hr).mono (by omega) (by omega))
  refine ⟨⟨hrec.chain, hrec.range, hrec.off, hrec.apart, ?_⟩, hkeep⟩
  rw [List.map_congr_left hpid]
  exact h.pids.sublist ((List.Sublist.append_left (List.sublist_cons_self _ _) _).map _)

end

/-! ## The invariant along runs -/

section
variable {σ : Type} {H : Heap} {V : Contexts σ} {K K' : Kernel σ} {alive : List Nat} {made p : Nat}

/-- What both constructors establish: the new record heads the list, the others are kept. -/
theorem ProcList.create {area area' : Nat → Prop} {m m₁ m' : Mem}
    {first num stack context : Nat} {state : Cpu} (h : ProcList area m first alive)
    (hnum : num < 2 ^ 32) (hfresh : ∀ r ∈ alive, procPid m r ≠ num)
    (hkeep : ∀ b ∈ alive.map procBlock, AgreeOn m m₁ b.addr b.size)
    (hrec : NewRecord area' m₁ m' p stack first num context state)
    (hrange : 0x1000 ≤ p ∧ p + 52 ≤ 2 ^ 32) (hoff : ∀ x, (procBlock p).Has x → ¬ area x)
    (hap : ∀ r ∈ alive, (procBlock r).Apart (procBlock p))
    (hstack : ∀ r ∈ alive, (procBlock r).Apart ⟨stack, STACK_SIZE⟩)
    (harea : ∀ r ∈ alive, ∀ x, (procBlock r).Has x → ¬ area' x) :
    ProcList area m' p (p :: alive) ∧ (∀ r ∈ alive, AgreeOn m m' r 52) ∧ procPid m' p = num := by
  have hfirst : first < 2 ^ 32 := by
    rw [h.chain.head]
    cases alive with
    | nil => simp
    | cons r rs =>
        have := h.range r (by simp)
        simp only [List.headD_cons]
        omega
  have hpid : procPid m' p = num := by rw [hrec.pid_eq, Nat.mod_eq_of_lt hnum]
  have hkeep' : ∀ r ∈ alive, AgreeOn m m' r 52 := by
    intro r hr x hx hx'
    have hpr := hap r hr
    have hsr := hstack r hr
    simp only [Block.Apart, procBlock, sizeofProcess, STACK_SIZE] at hpr hsr
    rw [hrec.outside x (harea r hr x ⟨hx, hx'⟩) (by omega) (by omega)]
    exact hkeep _ (List.mem_map_of_mem hr) x hx hx'
  refine ⟨h.cons hkeep' hrange hoff (fun r hr => (hap r hr).symm) ?_ (fun r hr => ?_), hkeep', hpid⟩
  · rw [hrec.next_eq, Nat.mod_eq_of_lt hfirst]
  · rw [hpid]
    exact hfresh r hr

/-- The process `p` has been made in blocks apart from those `used`: these are as they were when
its record is filled in, in the memory `m`. -/
structure Enlists (area area' : Nat → Prop) (used : List Block) (K K' : Kernel σ)
    (p stack context : Nat) (state : Cpu) (m : Mem) : Prop where
  record : NewRecord area' m K'.mem p stack K.firstProcess K.numProc context state
  keeps : ∀ b ∈ used, AgreeOn K.mem m b.addr b.size
  range : 0x1000 ≤ p ∧ p + 52 ≤ 2 ^ 32
  off : ∀ x, (procBlock p).Has x → ¬ area x
  apart : ∀ b ∈ used, b.Apart (procBlock p)
  stackApart : ∀ b ∈ used, b.Apart ⟨stack, STACK_SIZE⟩
  first : K'.firstProcess = p
  num : K'.numProc = (K.numProc + 1) % 2 ^ 32

section
variable {used : List Block} {entry context stack ustack process : Nat} {m₁ m₂ m₃ : Mem}

theorem createKernelProcess_enlists (hstack : Allots H V.area used K.mem STACK_SIZE stack m₁)
    (hrec : Allots H V.area (⟨stack, STACK_SIZE⟩ :: used) m₁ sizeofProcess process m₂)
    (h : createKernelProcess H V K entry = some (p, K')) :
    ∃ context, Enlists V.area V.area used K K' p stack context
      (newState entry (stack + STACK_SIZE) 0x08 0x10) m₂ := by
  obtain ⟨s, w₁, w₂, context, hs, hr, hK, hnew⟩ := createKernelProcess_spec h
  obtain ⟨rfl, rfl⟩ : stack = s ∧ m₁ = w₁ := by simpa [hstack.call] using hs
  obtain ⟨rfl, rfl⟩ : process = p ∧ m₂ = w₂ := by simpa [hrec.call] using hr
  have hap : process + 52 ≤ stack ∨ stack + 4096 ≤ process :=
    (hrec.apart _ List.mem_cons_self).symm
  have harea : ∀ x, (process ≤ x ∧ x < process + 52 ∨ stack ≤ x ∧ x < stack + 4096) →
      ¬ V.area x := fun x hx => hx.elim (hrec.off x) (hstack.off x)
  obtain ⟨hrecord, -⟩ := hnew hap hstack.range.2 harea
  exact ⟨context, hrecord,
    fun b hb => (hstack.keeps b hb).trans (hrec.keeps b (List.mem_cons_of_mem _ hb)),
    hrec.range, hrec.off, fun b hb => hrec.apart b (List.mem_cons_of_mem _ hb), hstack.apart,
    congrArg Kernel.firstProcess hK, congrArg Kernel.numProc hK⟩

theorem createUserProcess_enlists (hstack : Allots H V.area used K.mem STACK_SIZE stack m₁)
    (huser : Allots H V.area (⟨stack, STACK_SIZE⟩ :: used) m₁ STACK_SIZE ustack m₂)
    (hrec : Allots H V.area (⟨ustack, STACK_SIZE⟩ :: ⟨stack, STACK_SIZE⟩ :: used) m₂
      sizeofProcess process m₃)
    (h : createUserProcess H K entry context = some (p, K')) :
    Enlists V.area (fun _ => False) used K K' p stack context
      (newState entry (ustack + STACK_SIZE) 0x1B 0x23) m₃ := by
  obtain ⟨s, w₁, u, w₂, w₃, hs, hu, hr, hK, hnew⟩ := createUserProcess_spec h
  obtain ⟨rfl, rfl⟩ : stack = s ∧ m₁ = w₁ := by simpa [hstack.call] using hs
  obtain ⟨rfl, rfl⟩ : ustack = u ∧ m₂ = w₂ := by simpa [huser.call] using hu
  obtain ⟨rfl, rfl⟩ : process = p ∧ m₃ = w₃ := by simpa [hrec.call] using hr
  have hap : process + 52 ≤ stack ∨ stack + 4096 ≤ process :=
    (hrec.apart _ (List.mem_cons_of_mem _ List.mem_cons_self)).symm
  have hust : ustack < 2 ^ 32 := by
    have := huser.range.2
    simp only [STACK_SIZE] at this
    omega
  obtain ⟨hrecord, -⟩ := hnew hap hstack.range.2 hust
  refine ⟨hrecord, fun b hb => ?_, hrec.range, hrec.off,
    fun b hb => hrec.apart b (List.mem_cons_of_mem _ (List.mem_cons_of_mem _ hb)), hstack.apart,
    congrArg Kernel.firstProcess hK, congrArg Kernel.numProc hK⟩
  have hkeep₁ := hstack.keeps b hb
  have hkeep₂ := huser.keeps b (List.mem_cons_of_mem _ hb)
  have hkeep₃ := hrec.keeps b (List.mem_cons_of_mem _ (List.mem_cons_of_mem _ hb))
  exact (hkeep₁.trans hkeep₂).trans hkeep₃

end

/-- The list, and where the next pid stands: behind every pid in use. -/
structure Counted (area : Nat → Prop) (K : Kernel σ) (alive : List Nat) (made : Nat) : Prop
    extends ProcList area K.mem K.firstProcess alive where
  num : K.numProc = made
  pidLt : ∀ p ∈ alive, procPid K.mem p < made

theorem Counted.create {area : Nat → Prop} {m : Mem} {stack context : Nat} {state : Cpu}
    (h : Counted V.area K alive made) (hmade : made + 1 < 2 ^ 32)
    (hnew : Enlists V.area area (alive.map procBlock) K K' p stack context state m)
    (harea : ∀ x, area x → V.area x) : Counted V.area K' (p :: alive) (made + 1) := by
  obtain ⟨hlist, hkeep, hpid⟩ := h.toProcList.create (by rw [h.num]; omega)
    (fun r hr => Nat.ne_of_lt (h.num ▸ h.pidLt r hr)) hnew.keeps hnew.record hnew.range hnew.off
    (List.forall_mem_map.mp hnew.apart) (List.forall_mem_map.mp hnew.stackApart)
    (fun r hr x hx hxa => h.off r hr x hx (harea x hxa))
  refine ⟨hnew.first ▸ hlist, ?_, List.forall_mem_cons.mpr ⟨?_, fun r hr => ?_⟩⟩
  · rw [hnew.num, h.num, Nat.mod_eq_of_lt hmade]
  · rw [hpid, h.num]
    omega
  · have hpid' : procPid K'.mem r = procPid K.mem r :=
      load32_congr ((hkeep r hr).mono (by omega) (by omega))
    have := h.pidLt r hr
    omega

theorem erase_middle {pre post : List Nat} (h : (pre ++ p :: post).Nodup) :
    (pre ++ p :: post).erase p = pre ++ post := by
  have hpre : p ∉ pre := fun hmem => (List.nodup_append.mp h).2.2 p hmem p (by simp) rfl
  rw [List.erase_append_right _ hpre, List.erase_cons_head]

theorem Counted.kill {pre post : List Nat} (h : Counted V.area K (pre ++ p :: post) made)
    (hk : killProcess (H.sparing ((pre ++ post).map procBlock)) V K p = .ok K') :
    Counted V.area K' (pre ++ post) made := by
  rw [killProcess_eq _ V h.chain h.pids h.records.length_lt] at hk
  obtain ⟨m₁, frames, m₃, hd, hr, rfl⟩ := killAt_ok hk
  have h₁ : ∀ r ∈ pre ++ p :: post, AgreeOn K.mem m₁ r 52 := fun r hr' x hx hx' =>
    V.destroy_keeps hd x (h.off r hr' x ⟨hx, hx'⟩)
  have h₃ : ∀ r ∈ pre ++ post, AgreeOn (relink m₁ pre p) m₃ r 52 := fun r hr' =>
    releaseProcess_keeps hr _ (List.mem_map_of_mem hr')
  obtain ⟨hlist, hkeep⟩ := h.toProcList.kill h₁ h₃
  refine ⟨hlist, h.num, fun r hr' => ?_⟩
  have hmem : r ∈ pre ++ p :: post := by
    simp only [List.mem_append, List.mem_cons] at hr' ⊢
    tauto
  have hpid : procPid m₃ r = procPid K.mem r :=
    load32_congr ((hkeep r hr').mono (by omega) (by omega))
  rw [hpid]
  exact h.pidLt r hmem

/-- **The invariant holds along every run** of fewer than `2 ^ 32` creations. -/
theorem ProcRun.counted (h : ProcRun H V K alive made) (hmade : made < 2 ^ 32) :
    Counted V.area K alive made := by
  induction h with
  | boot hfirst hnum => exact ⟨⟨hfirst, by simp, by simp, by simp, by simp⟩, hnum, by simp⟩
  | @createKernel K K' alive made entry stack process p m₁ m₂ _ hstack hrec hcreate ih =>
      obtain ⟨context, hnew⟩ := createKernelProcess_enlists hstack hrec hcreate
      exact (ih (by omega)).create hmade hnew (fun _ => id)
  | @createUser K K' alive made entry context stack userStack process p m₁ m₂ m₃ _ hstack huser hrec
      hcreate ih =>
      have hnew := createUserProcess_enlists hstack huser hrec hcreate
      exact (ih (by omega)).create hmade hnew (fun _ hx => hx.elim)
  | @kill K K' alive made p _ hp hk ih =>
      have hc := ih hmade
      obtain ⟨pre, post, rfl⟩ := List.append_of_mem hp
      rw [erase_middle hc.chain.nodup] at hk ⊢
      exact hc.kill hk
  | @other K K' alive made _ hfirst hnum hkeep ih =>
      have hc := ih hmade
      refine ⟨hfirst ▸ hc.toProcList.congr hkeep, hnum.trans hc.num, fun r hr => ?_⟩
      have hpid : procPid K'.mem r = procPid K.mem r := load32_congr (hkeep r hr).1
      rw [hpid]
      exact hc.pidLt r hr

/-- `GetProcessByPid` finds the live process with that pid, if there is one. -/
theorem ProcList.getProcessByPid {area : Nat → Prop}
    (h : ProcList area K.mem K.firstProcess alive) (pid : Nat) :
    ∃ q, getProcessByPid K pid = some q ∧ (q ∈ alive ∧ procPid K.mem q = pid ∨
      q = NULL ∧ ∀ r ∈ alive, procPid K.mem r ≠ pid) := by
  have hscan := scan_chain h.chain h.records.length_lt
    (fun proc => procPid K.mem proc == pid)
  cases hf : alive.find? (fun proc => procPid K.mem proc == pid) with
  | none =>
      rw [hf] at hscan
      exact ⟨NULL, hscan, Or.inr ⟨rfl, by simpa using hf⟩⟩
  | some q =>
      rw [hf] at hscan
      exact ⟨q, hscan, Or.inl ⟨List.mem_of_find?_eq_some hf, by simpa using List.find?_some hf⟩⟩

end

/-! ## An allocator's blocks are disjoint -/

/-- Over an allocator that does not serve from `area`, every allocation is as assumed. -/
theorem Allocator.allots {A : Allocator} {area : Nat → Prop} {used live : List Block}
    {m m' : Mem} {n p : Nat} (h : A.Holds m live) (hn : 0 < n)
    (hk : A.kmalloc m n = some (p, m')) (hused : ∀ b ∈ used, b ∈ live)
    (harea : ∀ x, A.arena x → ¬ area x) : Allots A.toHeap area used m n p m' := by
  have hnew := A.kmalloc_holds h hn hk
  refine ⟨hk, ⟨A.addr_ge hnew List.mem_cons_self, A.fin_le hnew List.mem_cons_self⟩,
    fun x hx => harea x ((A.inArena hnew _ List.mem_cons_self).2 x hx), fun b hb => ?_, fun b hb => ?_⟩
  · exact A.kmalloc_apart h hn hk (hused b hb)
  · exact A.kmalloc_agree h hn hk (hused b hb)

/-! ## Creation on the kernel heap -/

section
variable {σ : Type} {L : Layout} {K : Kernel σ} {ns ns₁ ns₂ ns₃ : List FirstFit.Node}
  {live : List Block} {q₁ q₂ q₃ : Nat}

/-- A user process made on the kernel heap, of the blocks `p`, `stack` and `ustack`: the
bytes outside the headers are as before, but for the new record and its first frame. -/
structure MadeUser (L : Layout) (K : Kernel σ) (ns : List FirstFit.Node) (live : List Block)
    (entry context stack ustack p : Nat) (K' : Kernel σ) (m : Mem) : Prop where
  record : userRecord (firstFit L).toHeap K = some (p, m)
  create : createUserProcess (firstFit L).toHeap K entry context = some (p, K')
  kernel : K' = { K with
    mem := K'.mem, firstProcess := p, numProc := (K.numProc + 1) % 2 ^ 32 }
  heap : HeapState L (heapLimit L) K'.mem ns
    (⟨p, sizeofProcess⟩ :: ⟨ustack, STACK_SIZE⟩ :: ⟨stack, STACK_SIZE⟩ :: live)
  keeps : ∀ a, (∀ x ∈ ns, ¬ (x.header headerSize).Has a) → m a = K.mem a
  fields : NewRecord (fun _ => False) m K'.mem p stack K.firstProcess K.numProc context
    (newState entry (ustack + STACK_SIZE) 0x1B 0x23)
  userStack_eq : userStack K'.mem p = ustack

theorem firstFit_createUser (h : HeapState L (heapLimit L) K.mem ns live)
    (h₁ : FirstFit.malloc headerSize L.heapStart L.heapEnd STACK_SIZE ns = some (q₁, ns₁))
    (h₂ : FirstFit.malloc headerSize L.heapStart L.heapEnd STACK_SIZE ns₁ = some (q₂, ns₂))
    (h₃ : FirstFit.malloc headerSize L.heapStart L.heapEnd sizeofProcess ns₂ = some (q₃, ns₃))
    (entry context : Nat) :
    ∃ K' m, MadeUser L K ns₃ live entry context (q₁ + headerSize) (q₂ + headerSize)
      (q₃ + headerSize) K' m := by
  obtain ⟨m₁, hk₁, hs₁, hf₁⟩ := firstFit_kmalloc h (by decide) (by decide) h₁
  obtain ⟨m₂, hk₂, hs₂, hf₂⟩ := firstFit_kmalloc hs₁ (by decide) (by decide) h₂
  obtain ⟨m₃, hk₃, hs₃, hf₃⟩ := firstFit_kmalloc hs₂ (by decide) (by decide) h₃
  obtain ⟨K', hK'⟩ := createUserProcess_returns (H := (firstFit L).toHeap) hk₁ hk₂ hk₃ entry context
  obtain ⟨stack, w₁, ustack, w₂, w₃, h₁', h₂', h₃', hK, hnew⟩ := createUserProcess_spec hK'
  obtain ⟨rfl, rfl⟩ : q₁ + headerSize = stack ∧ m₁ = w₁ := by simpa [hk₁] using h₁'
  obtain ⟨rfl, rfl⟩ : q₂ + headerSize = ustack ∧ m₂ = w₂ := by simpa [hk₂] using h₂'
  obtain rfl : m₃ = w₃ := by simpa [hk₃] using h₃'
  have hholds : (firstFit L).Holds m₃ _ := ⟨ns₃, hs₃⟩
  obtain ⟨hap, hap', -⟩ := (List.pairwise_cons.mp ((firstFit L).apart hholds)).imp id
    List.pairwise_cons.mp
  obtain ⟨hrec, hu⟩ := hnew (hap ⟨q₁ + headerSize, STACK_SIZE⟩ (by simp))
    ((firstFit L).fin_le hholds (b := ⟨q₁ + headerSize, STACK_SIZE⟩) (by simp)) (by
      have := (firstFit L).fin_le hholds (b := ⟨q₂ + headerSize, STACK_SIZE⟩) (by simp)
      simp only [STACK_SIZE] at this
      omega)
  refine ⟨K', m₃, userRecord_eq hk₁ hk₂ hk₃, hK', hK, hs₃.write (fun a _ hb => ?_),
    fun a ha => ?_, hrec, hu⟩
  · have hp := hb ⟨q₃ + headerSize, sizeofProcess⟩ (by simp)
    have hs := hb ⟨q₁ + headerSize, STACK_SIZE⟩ (by simp)
    simp only [Block.Has, sizeofProcess, STACK_SIZE] at hp hs
    exact hrec.outside a id (by omega) (by omega)
  · have hup : ∀ {ms ms' : List FirstFit.Node} {n q : Nat},
        FirstFit.malloc headerSize L.heapStart L.heapEnd n ms = some (q, ms') →
        (∀ x ∈ ms', ¬ (x.header headerSize).Has a) → ∀ x ∈ ms, ¬ (x.header headerSize).Has a := by
      intro ms ms' n q hm hms x hx hxa
      obtain ⟨y, hy, hyx⟩ := FirstFit.malloc_addr hm hx
      refine hms y hy ?_
      simp only [Block.Has, FirstFit.Node.header] at hxa ⊢
      omega
    rw [hf₃ a ha, hf₂ a (hup h₃ ha), hf₁ a (hup h₂ (hup h₃ ha))]

end

section
variable {L : Layout} {ns ns₁ ns₂ ns₃ : List FirstFit.Node} {live : List Block} {m m' : Mem}
  {n p q q₁ q₂ q₃ : Nat} {used : List Block}

/-- On the kernel heap, an allocation is as assumed over blocks in use and blocks below it. -/
theorem firstFit_allots (h : (firstFit L).Holds m live) (hn : 0 < n)
    (hk : (firstFit L).kmalloc m n = some (p, m'))
    (hused : ∀ b ∈ used, b ∈ live ∨ b.addr + b.size ≤ L.heapStart) :
    Allots (firstFit L).toHeap (fun _ => False) used m n p m' := by
  have hnew := (firstFit L).kmalloc_holds h hn hk
  have hstart : L.heapStart ≤ p :=
    (((firstFit L).inArena hnew _ List.mem_cons_self).2 p ⟨le_rfl, by simpa using hn⟩).1
  refine ⟨hk, ⟨(firstFit L).addr_ge hnew List.mem_cons_self,
    (firstFit L).fin_le hnew List.mem_cons_self⟩, fun _ _ => id, fun b hb => ?_, fun b hb => ?_⟩
  · rcases hused b hb with hlive | hlow
    · exact (firstFit L).kmalloc_apart h hn hk hlive
    · simp only [Block.Apart]
      omega
  · rcases hused b hb with hlive | hlow
    · exact (firstFit L).kmalloc_agree h hn hk hlive
    · refine fun a _ ha => (firstFit L).kmalloc_keeps h hn hk a (Or.inl (fun harena => ?_))
      have : L.heapStart ≤ a := harena.1
      omega

/-- The three allocations of `CreateUserProcess`. -/
theorem firstFit_allotsUser (used : List Block) (h : HeapState L (heapLimit L) m ns live)
    (h₁ : FirstFit.malloc headerSize L.heapStart L.heapEnd STACK_SIZE ns = some (q₁, ns₁))
    (h₂ : FirstFit.malloc headerSize L.heapStart L.heapEnd STACK_SIZE ns₁ = some (q₂, ns₂))
    (h₃ : FirstFit.malloc headerSize L.heapStart L.heapEnd sizeofProcess ns₂ = some (q₃, ns₃))
    (hused : ∀ b ∈ used, b ∈ live ∨ b.addr + b.size ≤ L.heapStart) :
    ∃ m₁ m₂ m₃, Allots (firstFit L).toHeap (fun _ => False) used m STACK_SIZE (q₁ + headerSize) m₁ ∧
      Allots (firstFit L).toHeap (fun _ => False) (⟨q₁ + headerSize, STACK_SIZE⟩ :: used) m₁
        STACK_SIZE (q₂ + headerSize) m₂ ∧
      Allots (firstFit L).toHeap (fun _ => False)
        (⟨q₂ + headerSize, STACK_SIZE⟩ :: ⟨q₁ + headerSize, STACK_SIZE⟩ :: used) m₂ sizeofProcess
        (q₃ + headerSize) m₃ := by
  obtain ⟨m₁, hk₁, hs₁, -⟩ := firstFit_kmalloc h (by decide) (by decide) h₁
  obtain ⟨m₂, hk₂, hs₂, -⟩ := firstFit_kmalloc hs₁ (by decide) (by decide) h₂
  obtain ⟨m₃, hk₃, -⟩ := firstFit_kmalloc hs₂ (by decide) (by decide) h₃
  refine ⟨m₁, m₂, m₃, firstFit_allots ⟨_, h⟩ (by decide) hk₁ hused,
    firstFit_allots ⟨_, hs₁⟩ (by decide) hk₂ ?_, firstFit_allots ⟨_, hs₂⟩ (by decide) hk₃ ?_⟩
  · exact List.forall_mem_cons.mpr ⟨Or.inl List.mem_cons_self, fun b hb =>
      (hused b hb).imp (List.mem_cons_of_mem _) id⟩
  · exact List.forall_mem_cons.mpr ⟨Or.inl List.mem_cons_self, List.forall_mem_cons.mpr
      ⟨Or.inl (by simp), fun b hb => (hused b hb).imp (fun hl => by simp [hl]) id⟩⟩

/-- Giving back a block disturbs neither the others nor what lies below the heap. -/
theorem firstFit_kfree_sparing (used : List Block) (h : HeapState L (heapLimit L) m ns live)
    (hb : ⟨q + headerSize, n⟩ ∈ live) (hlt : q + headerSize < L.heapEnd)
    (hused : ∀ c ∈ used, c ∈ live.erase ⟨q + headerSize, n⟩ ∨ c.addr + c.size ≤ L.heapStart) :
    ∃ m', (firstFit L).kfree m (q + headerSize) = some m' ∧
      ((firstFit L).toHeap.sparing used).kfree m (q + headerSize) = some m' ∧
      HeapState L (heapLimit L) m' (FirstFit.release q ns) (live.erase ⟨q + headerSize, n⟩) ∧
      ∀ a, (∀ x ∈ ns, ¬ (x.header headerSize).Has a) → m' a = m a := by
  obtain ⟨m', hk, hs, hframe⟩ := firstFit_kfree h hb hlt
  refine ⟨m', hk, ?_, hs, hframe⟩
  simp only [Heap.sparing, Option.filter_eq_some_iff, decide_eq_true_eq]
  refine ⟨hk, fun c hc => ?_⟩
  rcases hused c hc with hlive | hlow
  · exact (firstFit L).kfree_agree ⟨ns, h⟩ hb hk hlive
  · refine fun a _ ha => (firstFit L).kfree_keeps ⟨ns, h⟩ hb hk a (Or.inl (fun harena => ?_))
    have hge : L.heapStart ≤ a := harena.1
    omega

/-- **The three blocks of a process go back**, and only headers are written to. -/
theorem firstFit_release (q₁ q₂ q₃ : Nat) (used : List Block)
    (h : HeapState L (heapLimit L) m ns live)
    (hstack : procStack m (q₃ + headerSize) = q₁ + headerSize)
    (hustack : userStack m (q₃ + headerSize) = q₂ + headerSize) (hne : q₁ ≠ q₂)
    (hlive : ∀ b ∈ [(⟨q₁ + headerSize, STACK_SIZE⟩ : Block), ⟨q₂ + headerSize, STACK_SIZE⟩,
      ⟨q₃ + headerSize, sizeofProcess⟩], b ∈ live)
    (hlt : ∀ q ∈ [q₁, q₂, q₃], q + headerSize < L.heapEnd)
    (hused : ∀ c ∈ used, (c ∈ live ∧ c ∉ [(⟨q₁ + headerSize, STACK_SIZE⟩ : Block),
      ⟨q₂ + headerSize, STACK_SIZE⟩, ⟨q₃ + headerSize, sizeofProcess⟩]) ∨
      c.addr + c.size ≤ L.heapStart) :
    ∃ m', releaseProcess (firstFit L).toHeap m (q₃ + headerSize) = some m' ∧
      releaseProcess ((firstFit L).toHeap.sparing used) m (q₃ + headerSize) = some m' ∧
      HeapState L (heapLimit L) m'
        (FirstFit.release q₃ (FirstFit.release q₂ (FirstFit.release q₁ ns)))
        (((live.erase ⟨q₁ + headerSize, STACK_SIZE⟩).erase ⟨q₂ + headerSize, STACK_SIZE⟩).erase
          ⟨q₃ + headerSize, sizeofProcess⟩) ∧
      ∀ a, (∀ x ∈ ns, ¬ (x.header headerSize).Has a) → m' a = m a := by
  simp only [List.forall_mem_cons] at hlive hlt
  obtain ⟨hl₁, hl₂, hl₃, -⟩ := hlive
  obtain ⟨hlt₁, hlt₂, hlt₃, -⟩ := hlt
  have hne₂ : (⟨q₂ + headerSize, STACK_SIZE⟩ : Block) ≠ ⟨q₁ + headerSize, STACK_SIZE⟩ := fun he =>
    hne (Nat.add_right_cancel (congrArg Block.addr he)).symm
  have hsize : sizeofProcess ≠ STACK_SIZE := by decide
  have hne₃ : ∀ a, (⟨q₃ + headerSize, sizeofProcess⟩ : Block) ≠ ⟨a, STACK_SIZE⟩ := fun a he =>
    hsize (congrArg Block.size he)
  -- a block that is to stay is there after each of the calls
  have hstays : ∀ c ∈ used, (c ∈ live.erase ⟨q₁ + headerSize, STACK_SIZE⟩ ∧
      c ∈ (live.erase ⟨q₁ + headerSize, STACK_SIZE⟩).erase ⟨q₂ + headerSize, STACK_SIZE⟩ ∧
      c ∈ ((live.erase ⟨q₁ + headerSize, STACK_SIZE⟩).erase ⟨q₂ + headerSize, STACK_SIZE⟩).erase
        ⟨q₃ + headerSize, sizeofProcess⟩) ∨ c.addr + c.size ≤ L.heapStart := by
    intro c hc
    refine (hused c hc).imp (fun ⟨hin, hout⟩ => ?_) id
    simp only [List.mem_cons, List.not_mem_nil, or_false, not_or] at hout
    have hc₁ := (List.mem_erase_of_ne hout.1).mpr hin
    have hc₂ := (List.mem_erase_of_ne hout.2.1).mpr hc₁
    exact ⟨hc₁, hc₂, (List.mem_erase_of_ne hout.2.2).mpr hc₂⟩
  obtain ⟨m₁, hk₁, hk₁', hs₁, hf₁⟩ := firstFit_kfree_sparing used h hl₁ hlt₁
    (fun c hc => (hstays c hc).imp (fun hs => hs.1) id)
  obtain ⟨m₂, hk₂, hk₂', hs₂, hf₂⟩ := firstFit_kfree_sparing used hs₁
    ((List.mem_erase_of_ne hne₂).mpr hl₂) hlt₂ (fun c hc => (hstays c hc).imp (fun hs => hs.2.1) id)
  obtain ⟨m₃, hk₃, hk₃', hs₃, hf₃⟩ := firstFit_kfree_sparing used hs₂
    ((List.mem_erase_of_ne (hne₃ _)).mpr ((List.mem_erase_of_ne (hne₃ _)).mpr hl₃)) hlt₃
    (fun c hc => (hstays c hc).imp (fun hs => hs.2.2) id)
  have hustack₁ : userStack m₁ (q₃ + headerSize) = q₂ + headerSize := by
    rw [← hustack]
    have hagree : AgreeOn m m₁ (q₃ + headerSize) 52 :=
      (firstFit L).kfree_agree ⟨ns, h⟩ hl₁ hk₁ ((List.mem_erase_of_ne (hne₃ _)).mpr hl₃)
    exact load32_congr (hagree.mono (by omega) (by omega))
  -- releasing a block moves no header
  have hrow : ∀ (r : Nat) (ns : List FirstFit.Node) (a : Nat),
      (∀ x ∈ ns, ¬ (x.header headerSize).Has a) →
      ∀ x ∈ FirstFit.release r ns, ¬ (x.header headerSize).Has a := by
    intro r ns a hns x hx hxa
    obtain ⟨y, hy, rfl⟩ := FirstFit.mem_setFree.mp hx
    refine hns y hy ?_
    simp only [Block.Has, FirstFit.Node.header, FirstFit.Node.mark_addr] at hxa ⊢
    exact hxa
  refine ⟨m₃, ?_, ?_, hs₃, fun a ha => ?_⟩
  · exact releaseProcess_eq (by rw [hstack]; exact hk₁) (by rw [hustack₁]; exact hk₂) hk₃
  · exact releaseProcess_eq (by rw [hstack]; exact hk₁') (by rw [hustack₁]; exact hk₂') hk₃'
  · rw [hf₃ a (hrow _ _ a (hrow _ _ a ha)), hf₂ a (hrow _ _ a ha), hf₁ a ha]

end

/-! ## The main result -/

/-- Contexts whose construction and destruction leave the kernel's memory alone. -/
def plainContexts : Contexts Unit where
  createUsermodeContext m s _ := some (0x101000, m, s)
  destroyContext m s _ := some (m, s)
  area _ := False
  create_keeps h a _ := by
    simp only [Option.some.injEq, Prod.mk.injEq] at h
    rw [h.2.1]
  destroy_keeps h a _ := by
    simp only [Option.some.injEq, Prod.mk.injEq] at h
    rw [h.1]

/-- The kernel right after `kinit_heap`, without a process. -/
def bootKernel : Kernel Unit where
  mem := kinitHeap Layout.least (fun _ => 0)
  frames := ()
  firstProcess := NULL
  currentProcess := NULL
  idleProcess := NULL
  numProc := 0
  currentContext := NULL

/-- The heap of `bootKernel`. -/
theorem bootKernel_heap : HeapState Layout.least (heapLimit Layout.least) bootKernel.mem
    [⟨0x301000, 0, true⟩] [] := by
  have hmem : bootKernel.mem = kinitHeap Layout.least (fun _ => 0) := by simp only [bootKernel]
  have hstart : Layout.least.heapStart = 0x301000 := by decide
  have hlim : Layout.least.heapStart + headerSize ≤ heapLimit Layout.least := by decide
  have hs := heapState_init (fun _ => 0) hlim
  rwa [← hmem, hstart] at hs

/-- The row of nodes after the first process, and the allocations on the way. -/
theorem bootKernel_mallocs :
    FirstFit.malloc headerSize Layout.least.heapStart Layout.least.heapEnd STACK_SIZE
      [⟨0x301000, 0, true⟩]
      = some (0x301010, [⟨0x301000, 0, true⟩, ⟨0x301010, 4096, false⟩]) ∧
    FirstFit.malloc headerSize Layout.least.heapStart Layout.least.heapEnd STACK_SIZE
      [⟨0x301000, 0, true⟩, ⟨0x301010, 4096, false⟩]
      = some (0x302020, [⟨0x301000, 0, true⟩, ⟨0x301010, 4096, false⟩,
          ⟨0x302020, 4096, false⟩]) ∧
    FirstFit.malloc headerSize Layout.least.heapStart Layout.least.heapEnd sizeofProcess
      [⟨0x301000, 0, true⟩, ⟨0x301010, 4096, false⟩, ⟨0x302020, 4096, false⟩]
      = some (0x303030, [⟨0x301000, 0, true⟩, ⟨0x301010, 4096, false⟩,
          ⟨0x302020, 4096, false⟩, ⟨0x303030, 52, false⟩]) := by
  decide

/-- The heap after two creations, by the row of nodes. -/
def twoProcesses : List FirstFit.Node :=
  [⟨0x301000, 0, true⟩, ⟨0x301010, 4096, false⟩, ⟨0x302020, 4096, false⟩, ⟨0x303030, 52, false⟩,
    ⟨0x303074, 4096, false⟩, ⟨0x304084, 4096, false⟩, ⟨0x305094, 52, false⟩]

theorem first_process : ∃ (K : Kernel Unit) (m : Mem),
    MadeUser Layout.least bootKernel [⟨0x301000, 0, true⟩, ⟨0x301010, 4096, false⟩,
      ⟨0x302020, 4096, false⟩, ⟨0x303030, 52, false⟩] [] 0x40000000 0x102000 0x301020 0x302030
      0x303040 K m ∧ (∀ a, 0x303040 ≤ a → m a = 0) ∧ ∀ a, 0x303074 ≤ a → K.mem a = 0 := by
  obtain ⟨h₁, h₂, h₃⟩ := bootKernel_mallocs
  obtain ⟨K, m, hK⟩ := firstFit_createUser bootKernel_heap h₁ h₂ h₃ 0x40000000 0x102000
  have hm : ∀ a, 0x303040 ≤ a → m a = 0 := by
    intro a ha
    have hmem : bootKernel.mem = kinitHeap Layout.least (fun _ => 0) := by simp only [bootKernel]
    have hstart : Layout.least.heapStart = 0x301000 := by decide
    rw [hK.keeps a, hmem]
    · simp only [kinitHeap, hstart]
      rw [store32_of_outside (by omega), store32_of_outside (by omega),
        store32_of_outside (by omega), store32_of_outside (by omega)]
    · simp only [List.forall_mem_cons, Block.Has, FirstFit.Node.header, headerSize]
      simp
      omega
  refine ⟨K, m, hK, hm, fun a ha => ?_⟩
  rw [hK.fields.outside a id (Or.inr (by simp only [headerSize]; omega)) (Or.inr (by simp only [headerSize]; omega))]
  exact hm a (by omega)

/-- The heap after a second creation. -/
theorem second_mallocs :
    FirstFit.malloc headerSize Layout.least.heapStart Layout.least.heapEnd STACK_SIZE
      (twoProcesses.take 4) = some (0x303074, twoProcesses.take 5) ∧
    FirstFit.malloc headerSize Layout.least.heapStart Layout.least.heapEnd STACK_SIZE
      (twoProcesses.take 5) = some (0x304084, twoProcesses.take 6) ∧
    FirstFit.malloc headerSize Layout.least.heapStart Layout.least.heapEnd sizeofProcess
      (twoProcesses.take 6) = some (0x305094, twoProcesses) := by
  decide

/-- **Killing the newest process**, the head of the list, frees its three blocks. -/
theorem firstFit_killNewest {L : Layout} (q₁ q₂ q₃ : Nat) {K : Kernel Unit}
    {ns : List FirstFit.Node} {live : List Block} (used : List Block)
    (hheap : HeapState L (heapLimit L) K.mem ns live) (hfirst : K.firstProcess = q₃ + headerSize)
    (hstack : procStack K.mem (q₃ + headerSize) = q₁ + headerSize)
    (hustack : userStack K.mem (q₃ + headerSize) = q₂ + headerSize) (hne : q₁ ≠ q₂)
    (hlive : ∀ b ∈ [(⟨q₁ + headerSize, STACK_SIZE⟩ : Block), ⟨q₂ + headerSize, STACK_SIZE⟩,
      ⟨q₃ + headerSize, sizeofProcess⟩], b ∈ live)
    (hlt : ∀ q ∈ [q₁, q₂, q₃], q + headerSize < L.heapEnd)
    (hused : ∀ c ∈ used, (c ∈ live ∧ c ∉ [(⟨q₁ + headerSize, STACK_SIZE⟩ : Block),
      ⟨q₂ + headerSize, STACK_SIZE⟩, ⟨q₃ + headerSize, sizeofProcess⟩]) ∨
      c.addr + c.size ≤ L.heapStart) :
    ∃ K', killProcess (firstFit L).toHeap plainContexts K (q₃ + headerSize) = .ok K' ∧
      killProcess ((firstFit L).toHeap.sparing used) plainContexts K (q₃ + headerSize) = .ok K' ∧
      HeapState L (heapLimit L) K'.mem
        (FirstFit.release q₃ (FirstFit.release q₂ (FirstFit.release q₁ ns)))
        (((live.erase ⟨q₁ + headerSize, STACK_SIZE⟩).erase ⟨q₂ + headerSize, STACK_SIZE⟩).erase
          ⟨q₃ + headerSize, sizeofProcess⟩) ∧ K'.numProc = K.numProc ∧
      ∀ a, (∀ x ∈ ns, ¬ (x.header headerSize).Has a) → K'.mem a = K.mem a := by
  obtain ⟨m', hrelease, hrelease', hs, hframe⟩ :=
    firstFit_release q₁ q₂ q₃ used hheap hstack hustack hne hlive hlt hused
  have hnull : q₃ + headerSize ≠ NULL := Nat.succ_ne_zero _
  refine ⟨{ K with mem := m', firstProcess := procNext K.mem (q₃ + headerSize) }, ?_, ?_, hs, rfl,
    hframe⟩
  · simp only [killProcess, hfirst, if_neg hnull, if_true, plainContexts, returning, bind, Except.bind]
    rw [hrelease]
    rfl
  · simp only [killProcess, hfirst, if_neg hnull, if_true, plainContexts, returning, bind, Except.bind]
    rw [hrelease']
    rfl

/-- The same for the process at `0x3050A4`. -/
theorem kill_second {K : Kernel Unit} {ns : List FirstFit.Node} {live : List Block} (used : List Block)
    (hheap : HeapState Layout.least (heapLimit Layout.least) K.mem ns live)
    (hfirst : K.firstProcess = 0x3050A4) (hstack : procStack K.mem 0x3050A4 = 0x303084)
    (hustack : userStack K.mem 0x3050A4 = 0x304094)
    (hlive : ∀ b ∈ [(⟨0x303084, STACK_SIZE⟩ : Block), ⟨0x304094, STACK_SIZE⟩,
      ⟨0x3050A4, sizeofProcess⟩], b ∈ live)
    (hused : ∀ c ∈ used, (c ∈ live ∧ c ∉ [(⟨0x303084, STACK_SIZE⟩ : Block),
      ⟨0x304094, STACK_SIZE⟩, ⟨0x3050A4, sizeofProcess⟩]) ∨
      c.addr + c.size ≤ Layout.least.heapStart) :
    ∃ K', killProcess (firstFit Layout.least).toHeap plainContexts K 0x3050A4 = .ok K' ∧
      killProcess ((firstFit Layout.least).toHeap.sparing used) plainContexts K 0x3050A4 = .ok K' ∧
      HeapState Layout.least (heapLimit Layout.least) K'.mem
        (FirstFit.release 0x305094 (FirstFit.release 0x304084 (FirstFit.release 0x303074 ns)))
        (((live.erase ⟨0x303084, STACK_SIZE⟩).erase ⟨0x304094, STACK_SIZE⟩).erase
          ⟨0x3050A4, sizeofProcess⟩) ∧ K'.numProc = K.numProc ∧
      ∀ a, (∀ x ∈ ns, ¬ (x.header headerSize).Has a) → K'.mem a = K.mem a := by
  have h16 : headerSize = 16 := rfl
  have hkill := @firstFit_killNewest Layout.least 0x303074 0x304084 0x305094 K ns live used
  rw [h16] at hkill
  exact hkill hheap hfirst hstack hustack (by decide) hlive (by decide) hused

/-- Two processes are made on the kernel heap. -/
theorem two_made : ∃ (K₁ K₂ : Kernel Unit) (w₁ w₂ : Mem),
    MadeUser Layout.least bootKernel (twoProcesses.take 4) [] 0x40000000 0x102000 0x301020 0x302030
      0x303040 K₁ w₁ ∧
    MadeUser Layout.least K₁ twoProcesses
      [⟨0x303040, sizeofProcess⟩, ⟨0x302030, STACK_SIZE⟩, ⟨0x301020, STACK_SIZE⟩]
      0x40000000 0x102000 0x303084 0x304094 0x3050A4 K₂ w₂ ∧
    ProcRun (firstFit Layout.least).toHeap plainContexts K₂ [0x3050A4, 0x303040] 2 := by
  obtain ⟨h₁, h₂, h₃⟩ := bootKernel_mallocs
  obtain ⟨K₁, w₁, hK₁⟩ := firstFit_createUser bootKernel_heap h₁ h₂ h₃ 0x40000000 0x102000
  obtain ⟨_, _, _, hstack, hustack, hrecord⟩ := firstFit_allotsUser [] bootKernel_heap
    h₁ h₂ h₃ (by simp)
  have hrun₁ : ProcRun (firstFit Layout.least).toHeap plainContexts K₁ [0x303040] 1 :=
    .createUser (.boot rfl rfl) hstack hustack hrecord hK₁.create
  obtain ⟨h₁', h₂', h₃'⟩ := second_mallocs
  obtain ⟨K₂, w₂, hK₂⟩ := firstFit_createUser hK₁.heap h₁' h₂' h₃' 0x40000000 0x102000
  obtain ⟨_, _, _, hstack', hustack', hrecord'⟩ := firstFit_allotsUser [procBlock 0x303040]
    hK₁.heap h₁' h₂' h₃' (by decide)
  exact ⟨K₁, K₂, w₁, w₂, hK₁, hK₂, .createUser hrun₁ hstack' hustack' hrecord' hK₂.create⟩

end DayOS
