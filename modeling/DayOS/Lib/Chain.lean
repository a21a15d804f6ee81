import Mathlib.Tactic

set_option autoImplicit false

/-! # Null-terminated chains of addresses

A linked structure in memory is seen through one function `next : Nat → Nat`, the link word
of a node, with `0` as the null address. `Seg next p l q` says that starting from `p` the
links run through exactly the nodes of `l` and then reach `q`; `Chain next p l` is the case
`q = 0`. A chain is determined by its start (`Chain.unique`), hence never meets a node twice
(`Chain.nodup`).

`scan` is the loop `while(p != NULL && !stop(p)) p = p->next`, with a bound on the number of
turns; `scan_chain` says what it finds on a chain.
-/

namespace Linked

/-! ## Segments and chains -/

/-- From `p` the links run through the nodes of `l`, in order, and then reach `q`. -/
def Seg (next : Nat → Nat) : Nat → List Nat → Nat → Prop
  | p, [], q => p = q
  | p, a :: l, q => p = a ∧ a ≠ 0 ∧ Seg next (next a) l q

/-- From `p` the links run through the nodes of `l` and then end. -/
def Chain (next : Nat → Nat) (p : Nat) (l : List Nat) : Prop := Seg next p l 0

/-- Whether links lead through given nodes can be computed. -/
instance Seg.decidable (next : Nat → Nat) : ∀ p l q, Decidable (Seg next p l q)
  | p, [], q => inferInstanceAs (Decidable (p = q))
  | p, a :: l, q =>
      have := Seg.decidable next (next a) l q
      inferInstanceAs (Decidable (p = a ∧ a ≠ 0 ∧ Seg next (next a) l q))

instance (next : Nat → Nat) (p : Nat) (l : List Nat) : Decidable (Chain next p l) :=
  Seg.decidable next p l 0

variable {next next' : Nat → Nat} {p q : Nat} {l l₁ l₂ : List Nat}

@[simp] theorem seg_nil : Seg next p [] q ↔ p = q := Iff.rfl

@[simp] theorem seg_cons {a : Nat} :
    Seg next p (a :: l) q ↔ p = a ∧ a ≠ 0 ∧ Seg next (next a) l q := Iff.rfl

@[simp] theorem chain_nil : Chain next p [] ↔ p = 0 := Iff.rfl

@[simp] theorem chain_cons {a : Nat} :
    Chain next p (a :: l) ↔ p = a ∧ a ≠ 0 ∧ Chain next (next a) l := Iff.rfl

theorem seg_append : Seg next p (l₁ ++ l₂) q ↔ ∃ r, Seg next p l₁ r ∧ Seg next r l₂ q := by
  induction l₁ generalizing p with
  | nil => simp
  | cons a l ih => simp [ih, and_assoc]

theorem chain_append : Chain next p (l₁ ++ l₂) ↔ ∃ r, Seg next p l₁ r ∧ Chain next r l₂ :=
  seg_append

theorem Seg.congr (h : Seg next p l q) (hn : ∀ a ∈ l, next' a = next a) : Seg next' p l q := by
  induction l generalizing p with
  | nil => exact h
  | cons a l ih =>
      obtain ⟨hp, ha, ht⟩ := h
      refine ⟨hp, ha, ?_⟩
      rw [hn a (by simp)]
      exact ih ht (fun b hb => hn b (by simp [hb]))

theorem Chain.congr (h : Chain next p l) (hn : ∀ a ∈ l, next' a = next a) : Chain next' p l :=
  Seg.congr h hn

theorem Seg.ne_zero_of_mem (h : Seg next p l q) {a : Nat} (ha : a ∈ l) : a ≠ 0 := by
  induction l generalizing p with
  | nil => cases ha
  | cons b l ih =>
      rcases List.mem_cons.mp ha with rfl | ha'
      · exact h.2.1
      · exact ih h.2.2 ha'

theorem Chain.tail {a : Nat} (h : Chain next p (a :: l)) : Chain next (next a) l := h.2.2

theorem Chain.ne_zero_of_mem (h : Chain next p l) {a : Nat} (ha : a ∈ l) : a ≠ 0 :=
  Seg.ne_zero_of_mem h ha

theorem Chain.head (h : Chain next p l) : p = l.headD 0 := by
  cases l with
  | nil => exact h
  | cons a l => exact h.1

theorem Chain.eq_nil_iff (h : Chain next p l) : p = 0 ↔ l = [] := by
  cases l with
  | nil => simpa using h
  | cons a l => simp [h.1, h.2.1]

/-- A chain is determined by its start. -/
theorem Chain.unique (h₁ : Chain next p l₁) (h₂ : Chain next p l₂) : l₁ = l₂ := by
  induction l₁ generalizing p l₂ with
  | nil => exact ((h₂.eq_nil_iff).mp h₁).symm
  | cons a l ih =>
      cases l₂ with
      | nil => exact absurd (h₁.1.symm.trans h₂) h₁.2.1
      | cons b l' =>
          obtain rfl : a = b := h₁.1.symm.trans h₂.1
          rw [ih h₁.tail h₂.tail]

/-- The part of a chain behind one of its nodes is the chain from that node's link. -/
theorem Chain.tail_of_append {a : Nat} (h : Chain next p (l₁ ++ a :: l₂)) :
    Chain next (next a) l₂ := by
  obtain ⟨r, -, hr⟩ := chain_append.mp h
  exact hr.2.2

/-- A chain never meets a node twice: the chains behind the two visits would be equal, and
one is a proper part of the other. -/
theorem Chain.nodup (h : Chain next p l) : l.Nodup := by
  induction l generalizing p with
  | nil => exact List.nodup_nil
  | cons a l ih =>
      refine List.nodup_cons.mpr ⟨fun hmem => ?_, ih h.tail⟩
      obtain ⟨s, t, rfl⟩ := List.append_of_mem hmem
      have htail : Chain next (next a) t := Chain.tail_of_append h.tail
      have := congrArg List.length (Chain.unique h.tail htail)
      simp only [List.length_append, List.length_cons] at this
      omega

/-! ## Changing links -/

/-- Redirecting the link of the last node of a segment. -/
theorem Seg.redirect {b r : Nat} (h : Seg next p (l ++ [b]) q) (hb : next' b = r)
    (hn : ∀ a ∈ l, next' a = next a) : Seg next' p (l ++ [b]) r := by
  obtain ⟨s, hs, rfl, hb0, -⟩ := seg_append.mp h
  exact seg_append.mpr ⟨s, hs.congr hn, rfl, hb0, hb⟩

/-- Hanging a node behind the last one. -/
theorem Chain.snoc {b c : Nat} (h : Chain next p (l ++ [b])) (hb : next' b = c)
    (hc : next' c = 0) (hc0 : c ≠ 0) (hn : ∀ a ∈ l, next' a = next a) :
    Chain next' p (l ++ [b] ++ [c]) :=
  chain_append.mpr ⟨c, Seg.redirect h hb hn, rfl, hc0, hc⟩

/-- Linking the node `b` to what follows the node `a` takes the nodes between them out. -/
theorem Chain.skip {a b : Nat} (l : List Nat) (h : Chain next p (l₁ ++ [b] ++ (l ++ a :: l₂)))
    (hb : next' b = next a) (h₁ : ∀ c ∈ l₁, next' c = next c) (h₂ : ∀ c ∈ l₂, next' c = next c) :
    Chain next' p (l₁ ++ [b] ++ l₂) := by
  obtain ⟨r, hr, ht⟩ := chain_append.mp h
  exact chain_append.mpr ⟨next a, Seg.redirect hr hb h₁, Chain.congr (Chain.tail_of_append ht) h₂⟩

/-- Unlinking the node `a` behind the node `b`. -/
theorem Chain.unlink {a b : Nat} (h : Chain next p (l₁ ++ [b] ++ a :: l₂))
    (hb : next' b = next a) (h₁ : ∀ c ∈ l₁, next' c = next c) (h₂ : ∀ c ∈ l₂, next' c = next c) :
    Chain next' p (l₁ ++ [b] ++ l₂) :=
  Chain.skip [] h hb h₁ h₂

/-! ## Back links -/

/-- The back links `prev` mirror the order of the list, the first node's being `q`. -/
def Mirror (prev : Nat → Nat) : Nat → List Nat → Prop
  | _, [] => True
  | q, a :: l => prev a = q ∧ Mirror prev a l

variable {prev prev' : Nat → Nat}

@[simp] theorem mirror_nil : Mirror prev q [] := trivial

@[simp] theorem mirror_cons {a : Nat} :
    Mirror prev q (a :: l) ↔ prev a = q ∧ Mirror prev a l := Iff.rfl

theorem mirror_append :
    Mirror prev q (l₁ ++ l₂) ↔ Mirror prev q l₁ ∧ Mirror prev (l₁.getLastD q) l₂ := by
  induction l₁ generalizing q with
  | nil => simp
  | cons a l ih =>
      rw [List.cons_append, mirror_cons, mirror_cons, ih, and_assoc]
      cases l <;> rfl

theorem Mirror.congr (h : Mirror prev q l) (hn : ∀ a ∈ l, prev' a = prev a) :
    Mirror prev' q l := by
  induction l generalizing q with
  | nil => trivial
  | cons a l ih =>
      exact ⟨(hn a (by simp)).trans h.1, ih h.2 (fun b hb => hn b (by simp [hb]))⟩

/-- The list keeps its back links when the first node's is redirected to `r`. -/
theorem Mirror.rehead {a r : Nat} (h : Mirror prev q (a :: l)) (ha : prev' a = r)
    (hn : ∀ b ∈ l, prev' b = prev b) : Mirror prev' r (a :: l) :=
  ⟨ha, h.2.congr hn⟩

/-! ## The scanning loop -/

/-- `while(p != NULL && !stop(p)) p = p->next`, at most `fuel` nodes long. -/
def scan (stop : Nat → Bool) (next : Nat → Nat) : Nat → Nat → Option Nat
  | 0, _ => none
  | fuel + 1, p => if p = 0 then some 0 else if stop p then some p else scan stop next fuel (next p)

/-- On a chain the loop stops at the first node it looks for, or runs off the end. -/
theorem scan_chain {fuel : Nat} (h : Chain next p l) (hf : l.length < fuel)
    (stop : Nat → Bool) :
    scan stop next fuel p = some ((l.find? stop).getD 0) := by
  induction l generalizing p fuel with
  | nil =>
      obtain ⟨f, rfl⟩ : ∃ f, fuel = f + 1 := ⟨fuel - 1, by simp at hf; omega⟩
      simp only [chain_nil] at h
      simp [scan, h]
  | cons a l ih =>
      obtain ⟨f, rfl⟩ : ∃ f, fuel = f + 1 := ⟨fuel - 1, by simp at hf; omega⟩
      have ht := h.tail
      obtain ⟨rfl, ha, -⟩ := h
      rw [List.length_cons] at hf
      cases hs : stop p with
      | true => simp [scan, ha, hs]
      | false => simp [scan, ha, hs, ih ht (Nat.lt_of_succ_lt_succ hf)]

/-- Where the loop passes the nodes of a segment and stops at the next one, it returns that. -/
theorem scan_seg {fuel a : Nat} {stop : Nat → Bool} (h : Seg next p l a) (ha : a ≠ 0)
    (hf : l.length < fuel) (hl : ∀ b ∈ l, stop b = false) (hs : stop a = true) :
    scan stop next fuel p = some a := by
  induction l generalizing p fuel with
  | nil =>
      obtain ⟨f, rfl⟩ : ∃ f, fuel = f + 1 := ⟨fuel - 1, by simp at hf; omega⟩
      obtain rfl := h
      rw [scan, if_neg ha, if_pos hs]
  | cons b l ih =>
      obtain ⟨f, rfl⟩ : ∃ f, fuel = f + 1 := ⟨fuel - 1, by simp at hf; omega⟩
      obtain ⟨rfl, hp, ht⟩ := h
      rw [List.length_cons] at hf
      rw [scan, if_neg hp, if_neg (by simp [hl p List.mem_cons_self])]
      exact ih ht (Nat.lt_of_succ_lt_succ hf) (fun b hb => hl b (List.mem_cons_of_mem _ hb))

/-- A node the loop returns is one it looks for. -/
theorem scan_stop {fuel a : Nat} {stop : Nat → Bool} (h : scan stop next fuel p = some a)
    (ha : a ≠ 0) : stop a = true := by
  induction fuel generalizing p with
  | zero => cases h
  | succ fuel ih =>
      rw [scan] at h
      split at h
      case isTrue => exact absurd (Option.some.inj h).symm ha
      case isFalse =>
          split at h
          case isTrue hs =>
              obtain rfl := Option.some.inj h
              exact hs
          case isFalse => exact ih h

/-- Looking for the node whose link is null finds the last one. -/
theorem find?_last {b : Nat} (h : Chain next p (l ++ [b])) :
    (l ++ [b]).find? (fun a => next a == 0) = some b := by
  obtain ⟨r, hr, rfl, hb0, hb⟩ := chain_append.mp h
  have hl : l.find? (fun a => next a == 0) = none := by
    rw [List.find?_eq_none]
    intro a ha
    obtain ⟨s, t, rfl⟩ := List.append_of_mem ha
    obtain ⟨r', -, -, -, ht⟩ := seg_append.mp hr
    intro hz
    rw [beq_iff_eq] at hz
    rw [hz] at ht
    cases t with
    | nil => exact hb0 ht.symm
    | cons c t => exact ht.2.1 ht.1.symm
  have hb' : next r = 0 := hb
  simp [List.find?_append, hl, hb']

end Linked
