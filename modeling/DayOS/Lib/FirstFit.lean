import DayOS.Lib.Memory

set_option autoImplicit false

/-! # First-fit allocation over a row of blocks

The abstract heap is the list of its nodes in address order. Each node has a header of `h`
bytes followed by `size` payload bytes, and the nodes stand side by side without gaps
(`Laid`). `malloc` takes the first free node that is large enough and otherwise appends one
at the end, as long as the new header starts below a limit; `release` sets a node free again.
Neither moves, resizes, drops or reorders a node, so payloads keep their places and stay
apart from each other and from all headers.
-/

namespace FirstFit

open ByteMemory

/-- A heap node: the address of its header, the size of its payload, whether it is free. -/
structure Node where
  addr : Nat
  size : Nat
  free : Bool
  deriving DecidableEq, Repr

variable (h : Nat)

/-- The payload of a node: the bytes behind its header. -/
def Node.payload (x : Node) : Block := ⟨x.addr + h, x.size⟩

/-- The header of a node. -/
def Node.header (x : Node) : Block := ⟨x.addr, h⟩

/-- The address just behind a node. -/
def Node.fin (x : Node) : Nat := x.addr + h + x.size

/-- The nodes stand side by side from the address `a` on. -/
def Laid : Nat → List Node → Prop
  | _, [] => True
  | a, x :: ns => x.addr = a ∧ Laid (x.fin h) ns

/-- The address just behind the last node. -/
def endOf (a : Nat) (ns : List Node) : Nat := ns.foldl (fun _ x => x.fin h) a

/-- A free node that can hold `n` bytes. -/
def fits (n : Nat) (x : Node) : Bool := decide (n ≤ x.size) && x.free

/-- The node `x` after setting the free flag of the node at address `a`. -/
def Node.mark (a : Nat) (b : Bool) (x : Node) : Node :=
  if x.addr = a then { x with free := b } else x

/-- Set the free flag of the node at address `a`. -/
def setFree (a : Nat) (b : Bool) (ns : List Node) : List Node := ns.map (Node.mark a b)

/-- First fit: the header address of the node taken, and the heap after it. -/
def malloc (start limit n : Nat) (ns : List Node) : Option (Nat × List Node) :=
  match ns.find? (fits n) with
  | some x => some (x.addr, setFree x.addr false ns)
  | none =>
      if endOf h start ns < limit then
        some (endOf h start ns, ns ++ [⟨endOf h start ns, n, false⟩])
      else none

def release (a : Nat) (ns : List Node) : List Node := setFree a true ns

/-! ## The row of nodes -/

variable {h} {a : Nat} {ns : List Node} {x y : Node}

@[simp] theorem endOf_nil : endOf h a [] = a := rfl

@[simp] theorem endOf_cons : endOf h a (x :: ns) = endOf h (x.fin h) ns := rfl

@[simp] theorem endOf_append {ns' : List Node} :
    endOf h a (ns ++ ns') = endOf h (endOf h a ns) ns' := List.foldl_append

theorem endOf_of_getLast? (hx : ns.getLast? = some x) : endOf h a ns = x.fin h := by
  obtain ⟨pre, rfl⟩ := List.getLast?_eq_some_iff.mp hx
  simp

theorem laid_append {ns' : List Node} :
    Laid h a (ns ++ ns') ↔ Laid h a ns ∧ Laid h (endOf h a ns) ns' := by
  induction ns generalizing a with
  | nil => simp [Laid]
  | cons x ns ih => simp [Laid, ih, and_assoc]

theorem Laid.start_le (hl : Laid h a ns) (hx : x ∈ ns) : a ≤ x.addr := by
  induction ns generalizing a with
  | nil => cases hx
  | cons y ns ih =>
      rcases List.mem_cons.mp hx with rfl | hx'
      · exact hl.1.ge
      · have hle := ih hl.2 hx'
        have hy := hl.1
        simp only [Node.fin] at hle
        omega

theorem Laid.le_endOf (hl : Laid h a ns) : a ≤ endOf h a ns := by
  induction ns generalizing a with
  | nil => exact Nat.le_refl a
  | cons y ns ih =>
      have hle := ih hl.2
      have hy := hl.1
      simp only [endOf_cons, Node.fin] at *
      omega

theorem Laid.fin_le_endOf (hl : Laid h a ns) (hx : x ∈ ns) : x.fin h ≤ endOf h a ns := by
  induction ns generalizing a with
  | nil => cases hx
  | cons y ns ih =>
      rcases List.mem_cons.mp hx with rfl | hx'
      · exact hl.2.le_endOf
      · exact ih hl.2 hx'

/-- Of two nodes in a row the earlier one ends before the later one starts. -/
theorem Laid.pairwise (hl : Laid h a ns) : ns.Pairwise (fun x y => x.fin h ≤ y.addr) := by
  induction ns generalizing a with
  | nil => exact List.Pairwise.nil
  | cons x ns ih => exact List.Pairwise.cons (fun y hy => hl.2.start_le hy) (ih hl.2)

theorem Laid.fin_le_or (hl : Laid h a ns) (hx : x ∈ ns) (hy : y ∈ ns) (hne : x ≠ y) :
    x.fin h ≤ y.addr ∨ y.fin h ≤ x.addr := by
  have hp := hl.pairwise
  have hs : ns.Pairwise (fun x y => x.fin h ≤ y.addr ∨ y.fin h ≤ x.addr) :=
    hp.imp (fun h => Or.inl h)
  have : Std.Symm (fun x y : Node => x.fin h ≤ y.addr ∨ y.fin h ≤ x.addr) := ⟨fun _ _ => Or.symm⟩
  exact hs.forall hx hy hne

/-- With a header of positive length, a node is determined by its address. -/
theorem Laid.eq_of_addr (hl : Laid h a ns) (hh : 0 < h) (hx : x ∈ ns) (hy : y ∈ ns)
    (he : x.addr = y.addr) : x = y := by
  by_contra hne
  have := hl.fin_le_or hx hy hne
  simp only [Node.fin] at this
  omega

/-! ## Changing a flag -/

variable {b : Bool}

@[simp] theorem Node.mark_addr : (x.mark a b).addr = x.addr := by
  unfold Node.mark
  split <;> rfl

@[simp] theorem Node.mark_size : (x.mark a b).size = x.size := by
  unfold Node.mark
  split <;> rfl

@[simp] theorem Node.mark_fin : (x.mark a b).fin h = x.fin h := by
  simp [Node.fin]

theorem Node.mark_free_of_eq (hx : x.addr = a) : (x.mark a b).free = b := by
  simp [Node.mark, hx]

theorem Node.mark_of_ne (hx : x.addr ≠ a) : x.mark a b = x := if_neg hx

/-- Only the last of two marks counts. -/
theorem Node.mark_mark {c : Bool} : (x.mark a b).mark a c = x.mark a c := by
  by_cases hx : x.addr = a
  · simp [Node.mark, hx]
  · rw [Node.mark_of_ne hx]

/-- A free node stays as it is when a node is released. -/
theorem Node.mark_true (hx : x.free = true) : x.mark a true = x := by
  unfold Node.mark
  split
  case isTrue => rw [← hx]
  case isFalse => rfl

theorem mem_setFree : y ∈ setFree a b ns ↔ ∃ x ∈ ns, x.mark a b = y := List.mem_map

@[simp] theorem setFree_addrs : (setFree a b ns).map Node.addr = ns.map Node.addr := by
  simp [setFree]

theorem Laid.setFree {s : Nat} (hl : Laid h s ns) : Laid h s (setFree a b ns) := by
  induction ns generalizing s with
  | nil => trivial
  | cons x ns ih =>
      refine ⟨Node.mark_addr.trans hl.1, ?_⟩
      rw [Node.mark_fin]
      exact ih hl.2

@[simp] theorem endOf_setFree {s : Nat} : endOf h s (setFree a b ns) = endOf h s ns := by
  induction ns generalizing s with
  | nil => rfl
  | cons x ns ih =>
      rw [endOf_cons, ← ih, ← Node.mark_fin]
      rfl

/-! ## What an allocation can do -/

variable {start limit n p : Nat} {ns' : List Node}

/-- Either the first fitting node is taken, or there is none and a node is appended. -/
theorem malloc_cases (hm : malloc h start limit n ns = some (p, ns')) :
    (∃ x, ns.find? (fits n) = some x ∧ p = x.addr ∧ ns' = setFree x.addr false ns) ∨
    (ns.find? (fits n) = none ∧ endOf h start ns < limit ∧ p = endOf h start ns ∧
      ns' = ns ++ [⟨endOf h start ns, n, false⟩]) := by
  unfold malloc at hm
  split at hm
  case h_1 x hx =>
      simp only [Option.some.injEq, Prod.mk.injEq] at hm
      exact Or.inl ⟨x, hx, hm.1.symm, hm.2.symm⟩
  case h_2 hx =>
      split at hm
      case isTrue hlt =>
          simp only [Option.some.injEq, Prod.mk.injEq] at hm
          exact Or.inr ⟨hx, hlt, hm.1.symm, hm.2.symm⟩
      case isFalse => cases hm

/-- The node an allocation hands out is in the heap afterwards, in use and large enough. -/
theorem malloc_mem (hm : malloc h start limit n ns = some (p, ns')) :
    ∃ x ∈ ns', x.addr = p ∧ x.free = false ∧ n ≤ x.size := by
  rcases malloc_cases hm with ⟨x, hx, rfl, rfl⟩ | ⟨-, -, rfl, rfl⟩
  · have hfit := List.find?_some hx
    simp only [fits, Bool.and_eq_true, decide_eq_true_eq] at hfit
    exact ⟨_, mem_setFree.mpr ⟨x, List.mem_of_find?_eq_some hx, rfl⟩, Node.mark_addr,
      Node.mark_free_of_eq rfl, by rw [Node.mark_size]; exact hfit.1⟩
  · exact ⟨_, List.mem_append_right ns (List.mem_singleton_self _), rfl, rfl, Nat.le_refl n⟩

/-- Marks leave a node in its place. -/
theorem setFree_node (hx : x ∈ ns) : ∃ y ∈ setFree a b ns, y.addr = x.addr ∧ y.size = x.size :=
  ⟨_, mem_setFree.mpr ⟨x, hx, rfl⟩, Node.mark_addr, Node.mark_size⟩

/-- An allocation keeps every node in its place. -/
theorem malloc_node (hm : malloc h start limit n ns = some (p, ns')) (hx : x ∈ ns) :
    ∃ y ∈ ns', y.addr = x.addr ∧ y.size = x.size := by
  rcases malloc_cases hm with ⟨z, -, -, rfl⟩ | ⟨-, -, -, rfl⟩
  · exact setFree_node hx
  · exact ⟨x, List.mem_append_left _ hx, rfl, rfl⟩

/-- An allocation keeps every node where it is. -/
theorem malloc_addr (hm : malloc h start limit n ns = some (p, ns')) (hx : x ∈ ns) :
    ∃ y ∈ ns', y.addr = x.addr := by
  obtain ⟨y, hy, haddr, -⟩ := malloc_node hm hx
  exact ⟨y, hy, haddr⟩

theorem malloc_laid (hl : Laid h start ns) (hm : malloc h start limit n ns = some (p, ns')) :
    Laid h start ns' := by
  rcases malloc_cases hm with ⟨x, -, -, rfl⟩ | ⟨-, -, -, rfl⟩
  · exact hl.setFree
  · exact laid_append.mpr ⟨hl, rfl, trivial⟩

/-- A node too small for the request stays where it was at the head of the row. -/
theorem malloc_head (hm : malloc h start limit n (x :: ns) = some (p, ns')) (hx : x.size < n)
    (hl : Laid h start (x :: ns)) (hh : 0 < h) : ∃ rest, ns' = x :: rest := by
  rcases malloc_cases hm with ⟨y, hy, -, rfl⟩ | ⟨-, -, -, rfl⟩
  · have hfit := List.find?_some hy
    simp only [fits, Bool.and_eq_true, decide_eq_true_eq] at hfit
    have hne : x.addr ≠ y.addr := fun he => by
      have hxy := hl.eq_of_addr hh List.mem_cons_self (List.mem_of_find?_eq_some hy) he
      rw [hxy] at hx
      omega
    exact ⟨_, congrArg (· :: _) (Node.mark_of_ne hne)⟩
  · exact ⟨_, rfl⟩

theorem release_head (hx : x.free = true) : ∃ rest, release a (x :: ns) = x :: rest :=
  ⟨_, congrArg (· :: _) (Node.mark_true hx)⟩

/-- Taking a node and giving it back leaves a free head of the row as it is. -/
theorem release_malloc_head (hm : malloc h start limit n (x :: ns) = some (p, ns'))
    (hx : x.free = true) : ∃ rest, release p ns' = x :: rest := by
  rcases malloc_cases hm with ⟨y, -, rfl, rfl⟩ | ⟨-, -, -, rfl⟩
  · exact ⟨_, congrArg (· :: _) (Node.mark_mark.trans (Node.mark_true hx))⟩
  · exact release_head hx

/-! ## The blocks in use

`Serves h ns live` relates a heap to the list of blocks its clients hold: every held block
is the payload of its own node in use, and every node in use is held by someone. -/

/-- The heap `ns` serves exactly the blocks `live`. -/
structure Serves (h : Nat) (ns : List Node) (live : List Block) : Prop where
  nodup : (live.map Block.addr).Nodup
  node : ∀ b ∈ live, ∃ x ∈ ns, x.free = false ∧ b.addr = x.addr + h ∧ b.size ≤ x.size
  used : ∀ x ∈ ns, x.free = false → ∃ b ∈ live, b.addr = x.addr + h

variable {live : List Block}

/-- Held blocks are apart from each other. -/
theorem Serves.apart (hs : Serves h ns live) (hl : Laid h start ns) :
    live.Pairwise Block.Apart := by
  refine List.Pairwise.imp_of_mem ?_ (List.pairwise_map.mp hs.nodup)
  intro b c hb hc hne
  obtain ⟨x, hx, -, hbx, hbs⟩ := hs.node b hb
  obtain ⟨y, hy, -, hcy, hcs⟩ := hs.node c hc
  have hxy : x ≠ y := by
    rintro rfl
    exact hne (hbx.trans hcy.symm)
  have := hl.fin_le_or hx hy hxy
  simp only [Node.fin, Block.Apart] at *
  omega

/-- A held block is apart from every header. -/
theorem Serves.apart_header (hs : Serves h ns live) (hl : Laid h start ns) {c : Block}
    (hc : c ∈ live) (hx : x ∈ ns) : c.Apart (x.header h) := by
  obtain ⟨y, hy, -, hcy, hcs⟩ := hs.node c hc
  by_cases hxy : x = y
  · subst hxy
    simp only [Node.header, Block.Apart]
    omega
  · have := hl.fin_le_or hx hy hxy
    simp only [Node.fin, Node.header, Block.Apart] at *
    omega

/-- A block at an address where no block is held joins the others once it has its node in use. -/
theorem Serves.join (hs : Serves h ns live) (hfresh : ∀ c ∈ live, c.addr ≠ p + h)
    (hkeep : ∀ y ∈ ns, y.free = false → ∃ z ∈ ns', z.free = false ∧ z.addr = y.addr ∧
      z.size = y.size)
    (hnew : ∃ x ∈ ns', x.free = false ∧ x.addr = p ∧ n ≤ x.size)
    (hold : ∀ z ∈ ns', z.free = false → z.addr = p ∨ z ∈ ns) :
    Serves h ns' (⟨p + h, n⟩ :: live) := by
  refine ⟨?_, ?_, fun z hz hzf => ?_⟩
  · rw [List.map_cons, List.nodup_cons]
    refine ⟨fun hmem => ?_, hs.nodup⟩
    obtain ⟨c, hc, he⟩ := List.mem_map.mp hmem
    exact hfresh c hc he
  · intro c hc
    rcases List.mem_cons.mp hc with rfl | hc'
    · obtain ⟨x, hx, hxf, rfl, hxn⟩ := hnew
      exact ⟨x, hx, hxf, rfl, hxn⟩
    · obtain ⟨y, hy, hyf, hcy, hcs⟩ := hs.node c hc'
      obtain ⟨z, hz, hzf, haddr, hsize⟩ := hkeep y hy hyf
      exact ⟨z, hz, hzf, by rw [hcy, haddr], by rw [hsize]; exact hcs⟩
  · rcases hold z hz hzf with hp | hmem
    · exact ⟨_, List.mem_cons_self, by rw [hp]⟩
    · obtain ⟨c, hc, he⟩ := hs.used z hmem hzf
      exact ⟨c, List.mem_cons_of_mem _ hc, he⟩

/-- Taking a free node adds the block in it. -/
theorem Serves.take (hs : Serves h ns live) (hl : Laid h start ns) (hh : 0 < h) (hx : x ∈ ns)
    (hfree : x.free = true) (hn : n ≤ x.size) :
    Serves h (setFree x.addr false ns) (⟨x.addr + h, n⟩ :: live) := by
  have hne : ∀ y ∈ ns, y.free = false → y.addr ≠ x.addr := by
    intro y hy hyf he
    rw [hl.eq_of_addr hh hy hx he, hfree] at hyf
    cases hyf
  refine hs.join (fun c hc he => ?_) (fun y hy hyf => ?_) ?_ (fun z hz hzf => ?_)
  · obtain ⟨y, hy, hyf, hcy, -⟩ := hs.node c hc
    exact hne y hy hyf (by omega)
  · exact ⟨y, mem_setFree.mpr ⟨y, hy, Node.mark_of_ne (hne y hy hyf)⟩, hyf, rfl, rfl⟩
  · exact ⟨_, mem_setFree.mpr ⟨x, hx, rfl⟩, Node.mark_free_of_eq rfl, Node.mark_addr,
      by rw [Node.mark_size]; exact hn⟩
  · obtain ⟨y, hy, rfl⟩ := mem_setFree.mp hz
    by_cases hyx : y.addr = x.addr
    · exact Or.inl (Node.mark_addr.trans hyx)
    · rw [Node.mark_of_ne hyx]
      exact Or.inr hy

/-- Appending a node in use adds the block in it. -/
theorem Serves.append (hs : Serves h ns live) (hl : Laid h start ns) (hh : 0 < h) :
    Serves h (ns ++ [⟨endOf h start ns, n, false⟩]) (⟨endOf h start ns + h, n⟩ :: live) := by
  refine hs.join (fun c hc he => ?_) (fun y hy hyf => ?_) ?_ (fun z hz _ => ?_)
  · obtain ⟨y, hy, -, hcy, -⟩ := hs.node c hc
    have hfin := hl.fin_le_endOf hy
    simp only [Node.fin] at hfin
    omega
  · exact ⟨y, List.mem_append_left _ hy, hyf, rfl, rfl⟩
  · exact ⟨_, List.mem_append_right _ (List.mem_singleton_self _), rfl, rfl, le_rfl⟩
  · rcases List.mem_append.mp hz with hz | hz
    · exact Or.inr hz
    · rw [List.mem_singleton.mp hz]
      exact Or.inl rfl

/-- An allocation adds the block it hands out. -/
theorem Serves.malloc (hs : Serves h ns live) (hl : Laid h start ns) (hh : 0 < h)
    (hm : malloc h start limit n ns = some (p, ns')) : Serves h ns' (⟨p + h, n⟩ :: live) := by
  rcases malloc_cases hm with ⟨x, hx, rfl, rfl⟩ | ⟨-, -, rfl, rfl⟩
  · have hfit := List.find?_some hx
    simp only [fits, Bool.and_eq_true, decide_eq_true_eq] at hfit
    exact hs.take hl hh (List.mem_of_find?_eq_some hx) hfit.2 hfit.1
  · exact hs.append hl hh

/-- Free nodes at the end of the row can be replaced by others. -/
theorem Serves.replace_free {fs fs' : List Node} (hs : Serves h (ns ++ fs) live)
    (hfs : ∀ x ∈ fs, x.free = true) (hfs' : ∀ x ∈ fs', x.free = true) :
    Serves h (ns ++ fs') live := by
  have hfirst : ∀ gs : List Node, (∀ x ∈ gs, x.free = true) → ∀ x ∈ ns ++ gs, x.free = false →
      x ∈ ns := by
    intro gs hgs x hx hxf
    refine (List.mem_append.mp hx).resolve_right (fun hmem => ?_)
    rw [hgs x hmem] at hxf
    cases hxf
  refine ⟨hs.nodup, fun c hc => ?_, fun x hx hxf => ?_⟩
  · obtain ⟨x, hx, hxf, hcx⟩ := hs.node c hc
    exact ⟨x, List.mem_append_left _ (hfirst fs hfs x hx hxf), hxf, hcx⟩
  · exact hs.used x (List.mem_append_left _ (hfirst fs' hfs' x hx hxf)) hxf

/-- Releasing a held block removes it and leaves the others. -/
theorem Serves.release (hs : Serves h ns live) {c : Block}
    (hc : c ∈ live) (ha : c.addr = a + h) : Serves h (release a ns) (live.erase c) := by
  have hnd : live.Nodup := List.Nodup.of_map _ hs.nodup
  refine ⟨(hs.nodup.sublist (List.erase_sublist.map _)), ?_, ?_⟩
  · intro d hd
    obtain ⟨hdc, hd'⟩ := (List.Nodup.mem_erase_iff hnd).mp hd
    obtain ⟨y, hy, hyf, hdy, hds⟩ := hs.node d hd'
    have hya : y.addr ≠ a := by
      intro he
      exact hdc (List.inj_on_of_nodup_map hs.nodup hd' hc (by omega))
    exact ⟨y, mem_setFree.mpr ⟨y, hy, Node.mark_of_ne hya⟩, hyf, hdy, hds⟩
  · intro y hy hyf
    obtain ⟨z, hz, rfl⟩ := mem_setFree.mp hy
    by_cases hza : z.addr = a
    · rw [Node.mark_free_of_eq hza] at hyf
      cases hyf
    · rw [Node.mark_of_ne hza] at hyf ⊢
      obtain ⟨d, hd, he⟩ := hs.used z hz hyf
      refine ⟨d, (List.Nodup.mem_erase_iff hnd).mpr ⟨?_, hd⟩, he⟩
      rintro rfl
      omega

/-! ## Replaying allocations

Allocations without a release in between keep the nodes they find, in use or free, and append
others. When all they took is released again, the row is the old one with free nodes behind it
(`mallocAll_replay`), so that each request meets its block again: a node that fits among the old
ones comes first, and behind them the first free node is the one appended for this request. -/

section
variable {sizes ps qs : List Nat}

/-- One allocation for each size: the header addresses, and the heap after them. -/
def mallocAll (h start limit : Nat) : List Nat → List Node → Option (List Nat × List Node)
  | [], ns => some ([], ns)
  | n :: sizes, ns =>
      (malloc h start limit n ns).bind (fun (p, ns) =>
        (mallocAll h start limit sizes ns).map (fun (ps, ns) => (p :: ps, ns)))

/-- Release the nodes at these addresses, in this order. -/
def releaseAll (ps : List Nat) (ns : List Node) : List Node := ps.foldl (fun ns p => release p ns) ns

theorem mallocAll_cons (hm : mallocAll h start limit (n :: sizes) ns = some (qs, ns')) :
    ∃ p ns₁ ps, malloc h start limit n ns = some (p, ns₁) ∧
      mallocAll h start limit sizes ns₁ = some (ps, ns') ∧ qs = p :: ps := by
  simp only [mallocAll, Option.bind_eq_some_iff, Option.map_eq_some_iff, Prod.exists,
    Prod.mk.injEq] at hm
  obtain ⟨p, ns₁, hp, ps, ns₂, hps, rfl, rfl⟩ := hm
  exact ⟨p, ns₁, ps, hp, hps, rfl⟩

theorem mallocAll_laid (hl : Laid h start ns)
    (hm : mallocAll h start limit sizes ns = some (ps, ns')) : Laid h start ns' := by
  induction sizes generalizing ns ps with
  | nil =>
      cases hm
      exact hl
  | cons n sizes ih =>
      obtain ⟨p, ns₁, ps, hp, hps, rfl⟩ := mallocAll_cons hm
      exact ih (malloc_laid hl hp) hps

/-- Allocations never move the end of the row back. -/
theorem malloc_endOf (hm : malloc h start limit n ns = some (p, ns')) :
    endOf h start ns ≤ endOf h start ns' ∧
      (ns.find? (fits n) = none → endOf h start ns' = endOf h start ns + h + n) := by
  rcases malloc_cases hm with ⟨x, hx, -, rfl⟩ | ⟨-, -, -, rfl⟩
  · rw [endOf_setFree]
    refine ⟨le_rfl, fun hnone => ?_⟩
    rw [hx] at hnone
    cases hnone
  · rw [endOf_append]
    exact ⟨by simp only [endOf_cons, endOf_nil, Node.fin]; omega, fun _ => rfl⟩

theorem mallocAll_endOf (hm : mallocAll h start limit sizes ns = some (ps, ns')) :
    endOf h start ns ≤ endOf h start ns' := by
  induction sizes generalizing ns ps with
  | nil =>
      cases hm
      exact le_rfl
  | cons n sizes ih =>
      obtain ⟨p, ns₁, ps, hp, hps, rfl⟩ := mallocAll_cons hm
      exact (malloc_endOf hp).1.trans (ih hps)

theorem Laid.releaseAll (hl : Laid h start ns) : Laid h start (releaseAll ps ns) := by
  induction ps generalizing ns with
  | nil => exact hl
  | cons p ps ih => exact ih hl.setFree

/-- Releases do not depend on their order. -/
theorem releaseAll_eq : releaseAll ps ns =
    ns.map (fun x => if x.addr ∈ ps then { x with free := true } else x) := by
  induction ps generalizing ns with
  | nil =>
      unfold FirstFit.releaseAll
      simp
  | cons p ps ih =>
      show FirstFit.releaseAll ps (release p ns) = _
      rw [ih, release, setFree, List.map_map]
      refine List.map_congr_left (fun x _ => ?_)
      simp only [Function.comp_apply, Node.mark_addr, List.mem_cons]
      by_cases hx : x.addr = p
      · by_cases hmem : x.addr ∈ ps
        · simp [Node.mark, hx, hx ▸ hmem]
        · simp [Node.mark, hx]
      · rw [Node.mark_of_ne hx]
        simp [hx]

theorem releaseAll_perm (hp : ps.Perm qs) : releaseAll ps ns = releaseAll qs ns := by
  rw [releaseAll_eq, releaseAll_eq]
  refine List.map_congr_left (fun x _ => ?_)
  simp only [hp.mem_iff]

/-- The first release may as well come last. -/
theorem releaseAll_cons : releaseAll (p :: ps) ns = release p (releaseAll ps ns) := by
  rw [releaseAll_perm (List.perm_append_singleton p ps).symm]
  exact List.foldl_append

theorem setFree_of_forall_ne (hne : ∀ x ∈ ns, x.addr ≠ a) : setFree a b ns = ns := by
  refine (List.map_congr_left (fun x hx => ?_)).trans (List.map_id _)
  exact Node.mark_of_ne (hne x hx)

theorem release_of_forall_free (hfree : ∀ x ∈ ns, x.free = true) : release a ns = ns := by
  refine (List.map_congr_left (fun x hx => ?_)).trans (List.map_id _)
  exact Node.mark_true (hfree x hx)

/-- Releasing a node that was free before it was taken restores the row. -/
theorem release_setFree (hl : Laid h start ns) (hh : 0 < h) (hx : x ∈ ns) (hfree : x.free = true) :
    release x.addr (setFree x.addr false ns) = ns := by
  rw [release, setFree, setFree, List.map_map]
  refine (List.map_congr_left (fun y hy => ?_)).trans (List.map_id _)
  by_cases hxy : y.addr = x.addr
  · rw [hl.eq_of_addr hh hy hx hxy]
    exact Node.mark_mark.trans (Node.mark_true hfree)
  · rw [Function.comp_apply, Node.mark_of_ne hxy, Node.mark_of_ne hxy]
    rfl

/-- In a row no node of the second part stands where one of the first part does. -/
theorem Laid.ne_of_append (hl : Laid h start (ns ++ ns')) (hh : 0 < h) (hx : x ∈ ns) (hy : y ∈ ns') :
    x.addr ≠ y.addr := by
  have hpair := (List.pairwise_append.mp hl.pairwise).2.2 x hx y hy
  simp only [Node.fin] at hpair
  omega

/-- **The requests meet their blocks again.** -/
theorem mallocAll_replay (hl : Laid h start ns) (hh : 0 < h)
    (hm : mallocAll h start limit sizes ns = some (ps, ns')) :
    ∃ extra, releaseAll ps ns' = ns ++ extra ∧ (∀ x ∈ extra, x.free = true) ∧
      mallocAll h start limit sizes (ns ++ extra) = some (ps, ns') := by
  induction sizes generalizing ns ps with
  | nil =>
      cases hm
      refine ⟨[], ?_, fun x hx => absurd hx (by simp), ?_⟩
      · rw [List.append_nil]
        rfl
      · rw [List.append_nil]
        rfl
  | cons n sizes ih =>
      obtain ⟨p, ns₁, ps, hp, hps, rfl⟩ := mallocAll_cons hm
      have hl₁ := malloc_laid hl hp
      obtain ⟨extra, hrelease, hfree, hreplay⟩ := ih hl₁ hps
      have hlaid : Laid h start (ns₁ ++ extra) := by
        rw [← hrelease]
        exact (mallocAll_laid hl₁ hps).releaseAll
      -- it is enough that this request meets its block again
      suffices hstep : ∃ extra', release p (ns₁ ++ extra) = ns ++ extra' ∧
          (∀ x ∈ extra', x.free = true) ∧
          malloc h start limit n (ns ++ extra') = some (p, ns₁ ++ extra) by
        obtain ⟨extra', hrow, hfree', hagain⟩ := hstep
        refine ⟨extra', ?_, hfree', ?_⟩
        · rw [releaseAll_cons, hrelease, hrow]
        · rw [mallocAll, hagain, Option.bind_some]
          show (mallocAll h start limit sizes (ns₁ ++ extra)).map _ = _
          rw [hreplay]
          rfl
      have happ : ∀ ms, release p (ms ++ extra) = release p ms ++ extra := fun ms => by
        rw [release, setFree, List.map_append]
        exact congrArg _ (release_of_forall_free hfree)
      rcases malloc_cases hp with ⟨x, hx, rfl, rfl⟩ | ⟨hnone, hlt, rfl, rfl⟩
      · -- a node of the old row
        have hmem := List.mem_of_find?_eq_some hx
        have hfit := List.find?_some hx
        simp only [fits, Bool.and_eq_true] at hfit
        have hfind : (ns ++ extra).find? (fits n) = some x := by
          rw [List.find?_append, hx]
          rfl
        refine ⟨extra, ?_, hfree, ?_⟩
        · rw [happ, release_setFree hl hh hmem hfit.2]
        · have hne : ∀ y ∈ extra, y.addr ≠ x.addr := fun y hy => by
            have hmark : x.mark x.addr false ∈ FirstFit.setFree x.addr false ns :=
              mem_setFree.mpr ⟨x, hmem, rfl⟩
            have := hlaid.ne_of_append hh hmark hy
            rw [Node.mark_addr] at this
            exact this.symm
          rw [malloc, hfind]
          show some (x.addr, FirstFit.setFree x.addr false (ns ++ extra)) = _
          rw [FirstFit.setFree, List.map_append]
          exact congrArg (fun ms => some (x.addr, _ ++ ms)) (setFree_of_forall_ne hne)
      · -- the node appended for this request
        have hold : ∀ x ∈ ns, x.addr ≠ endOf h start ns := fun x hx => by
          have := hl.fin_le_endOf hx
          simp only [Node.fin] at this
          omega
        have hne : ∀ y ∈ extra, y.addr ≠ endOf h start ns := fun y hy =>
          (hlaid.ne_of_append hh (List.mem_append_right ns (List.mem_singleton_self _)) hy).symm
        have hfits : fits n ⟨endOf h start ns, n, true⟩ = true := by
          simp [fits]
        have hfind : (ns ++ ⟨endOf h start ns, n, true⟩ :: extra).find? (fits n) =
            some ⟨endOf h start ns, n, true⟩ := by
          rw [List.find?_append, hnone, List.find?_cons_of_pos hfits]
          rfl
        refine ⟨⟨endOf h start ns, n, true⟩ :: extra, ?_, ?_, ?_⟩
        · rw [happ, release, FirstFit.setFree, List.map_append, ← FirstFit.setFree,
            setFree_of_forall_ne hold, List.map_singleton, List.append_assoc]
          simp [Node.mark]
        · rintro y hy
          rcases List.mem_cons.mp hy with rfl | hy
          · rfl
          · exact hfree y hy
        · rw [malloc, hfind]
          show some (endOf h start ns, FirstFit.setFree (endOf h start ns) false _) = _
          rw [FirstFit.setFree, List.map_append, List.map_cons, ← FirstFit.setFree,
            ← FirstFit.setFree, setFree_of_forall_ne hold, setFree_of_forall_ne hne]
          simp [Node.mark]

end

end FirstFit
