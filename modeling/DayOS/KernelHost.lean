import DayOS.Boot
import DayOS.Launch
import DayOS.Sbrk

set_option autoImplicit false

/-! # The kernel with its own heap and memory manager

`int_handler` and `InitMultitasking` take the heap, the memory manager and two system calls from
outside (`Host`). Here they get those of the repository: the first-fit heap, and `vmm.c` behind
an `InitVmm` that has made the kernel context. The page pool is the area that contexts are made
in, and nothing but `vmm.c` writes there.
-/

namespace DayOS

open ByteMemory Paging

/-! ## The memory manager -/

section
variable {L : Layout} {KC c : Nat} {m m' : Mem} {s s' : Pmm}

theorem toOption_eq_some {ε α : Type} {x : Except ε α} {a : α} :
    x.toOption = some a ↔ x = .ok a := by
  cases x <;> simp [Except.toOption]

/-- An address in the page pool. -/
def Layout.InPool (L : Layout) (a : Nat) : Prop := L.pagepoolStart ≤ a ∧ a < L.pagepoolEnd

theorem Layout.PoolPage.off {p x : Nat} (h : L.PoolPage p) (hx : ¬ L.InPool x) :
    x < p ∨ p + 0x1000 ≤ x := by
  have hstart := h.start
  have hbelow := h.below
  have hend : L.pagepoolEnd = L.heapStart := rfl
  unfold Layout.InPool at hx
  omega

/-- Whatever the kernel context is, a new context is made out of pages of the pool. -/
theorem createUsermodeContext_outside (h : createUsermodeContext L KC m s = .ok (c, m', s')) :
    ∀ x, ¬ L.InPool x → m' x = m x := by
  unfold createUsermodeContext at h
  obtain ⟨⟨c, m₁, s₁⟩, hc, h⟩ := bind_eq_ok.mp h
  obtain ⟨rfl, hrest⟩ := Prod.mk.inj (Except.ok.inj h)
  obtain ⟨rfl, rfl⟩ := Prod.mk.inj hrest
  obtain ⟨d, hnew⟩ := createContext_ok hc
  have hap := hnew.context.apart hnew.dir hnew.ne
  intro x hx
  have hxd := hnew.dir.off hx
  have hptr : ∀ m'' : Mem, (∀ y, y < d ∨ d + 4 * 1024 ≤ y → m'' y = m₁ y) →
      pagedir m'' c = d := fun m'' hm => by
    have hsame : AgreeOn m₁ m'' c 4 := fun y _ _ => hm y (by omega)
    exact (load32_congr hsame).trans hnew.pagedir
  rw [fill_outside hptr le_rfl x (by omega)]
  exact hnew.keeps x (hnew.context.off hx) hxd

end

/-- `vmm.c` with the kernel context `kernelContext`. -/
def vmmContexts (L : Layout) (kernelContext : Nat) : Contexts Pmm where
  createUsermodeContext m s _ := (createUsermodeContext L kernelContext m s).toOption
  destroyContext m s c := (destroyContext L kernelContext m s c).toOption.map (fun s => (m, s))
  area := L.InPool
  create_keeps h := createUsermodeContext_outside (toOption_eq_some.mp h)
  destroy_keeps h := by
    obtain ⟨s', -, he⟩ := Option.map_eq_some_iff.mp h
    obtain ⟨rfl, -⟩ := Prod.mk.inj he
    exact fun _ _ => rfl

section
variable {L : Layout} {KC n : Nat} {s : Pmm}

/-- Each context takes two pages. -/
theorem vmmContexts_available (h : poolCount L s + 2 * n ≤ 0x200) :
    (vmmContexts L KC).Available n s := by
  induction n generalizing s with
  | zero => trivial
  | succ n ih =>
      intro m
      obtain ⟨c, m', s', hc, hcount, -⟩ :=
        createUsermodeContext_returns (L := L) (K := KC) (m := m) (s := s) (by omega)
      exact ⟨c, m', s', toOption_eq_some.mpr hc, ih (by omega)⟩

end

/-! ## The kernel's own data -/

/-- Where the linker has put the kernel's tables, and its entry points. -/
structure KernelData where
  tss : Nat
  gp : Nat
  gdtEntries : Nat
  ip : Nat
  idt : Nat
  irqHandlers : Nat
  stub : Nat → UInt32
  kernelProcess : Nat
  idle : Nat
  ramdiskProcess : Nat

/-- Where its tables lie. -/
def KernelData.tables (D : KernelData) : List Block :=
  [⟨D.tss, 128⟩, ⟨D.gp, 6⟩, ⟨D.gdtEntries, 48⟩, ⟨D.ip, 6⟩, ⟨D.idt, 2048⟩, ⟨D.irqHandlers, 192⟩]

/-- The tables lie apart in the image, behind the first page. The image and the heap end below the
user space. -/
structure KernelData.Fits (D : KernelData) (L : Layout) : Prop where
  user : L.heapEnd < 0x40000000
  inside : ∀ b ∈ D.tables, 0x1000 ≤ b.addr ∧ b.addr + b.size ≤ L.vmKernelEnd
  apart : D.tables.Pairwise Block.Apart

instance (D : KernelData) (L : Layout) : Decidable (D.Fits L) :=
  decidable_of_iff (L.heapEnd < 0x40000000 ∧
      (∀ b ∈ D.tables, 0x1000 ≤ b.addr ∧ b.addr + b.size ≤ L.vmKernelEnd) ∧
      D.tables.Pairwise Block.Apart)
    ⟨fun h => ⟨h.1, h.2.1, h.2.2⟩, fun h => ⟨h.user, h.inside, h.apart⟩⟩

/-- A call into `vmm.c` that does not come back. -/
def VmmFault.toFault : VmmFault → Fault
  | .endless => .endless
  | _ => .noReturn

/-- A page fault in the kernel is a panic. -/
def ElfFault.toFault : ElfFault → Fault
  | .vmm fault => fault.toFault
  | _ => .noReturn

/-- The kernel as it is. Process records, message nodes and stacks take at most a page of the
heap. -/
def kernelHost (L : Layout) (kernelContext : Nat) (D : KernelData) : Host Pmm where
  alloc := firstFit L
  contexts := vmmContexts L kernelContext
  irqHandlers := D.irqHandlers
  tss := D.tss
  idt := D.idt
  stub := D.stub
  sbrk K ebx := (sbrkCall L K ebx).mapError VmmFault.toFault
  launchElfProgram K ebx :=
    (launchElfProgram L (kernelHeap L) kernelContext K ebx).mapError ElfFault.toFault

section
variable {L : Layout} {D : KernelData} {KC : Nat}

/-- The tables that are read behind `init` lie apart from each other and from the pointers to
them. -/
theorem KernelData.Fits.offsets (h : D.Fits L) :
    (0x1000 ≤ D.tss ∧ D.tss + 128 ≤ L.vmKernelEnd) ∧ (0x1000 ≤ D.idt ∧ D.idt + 2048 ≤ L.vmKernelEnd) ∧
    (0x1000 ≤ D.irqHandlers ∧ D.irqHandlers + 192 ≤ L.vmKernelEnd) ∧
    (D.idt + 2048 ≤ D.tss ∨ D.tss + 128 ≤ D.idt) ∧
    (D.idt + 2048 ≤ D.irqHandlers ∨ D.irqHandlers + 192 ≤ D.idt) ∧
    (D.tss + 128 ≤ D.irqHandlers ∨ D.irqHandlers + 192 ≤ D.tss) := by
  have hin := h.inside
  have hap := h.apart
  simp only [KernelData.tables, List.forall_mem_cons, List.pairwise_cons, Block.Apart] at hin hap
  omega

/-- The tables lie in front of the page pool. -/
theorem KernelData.Fits.table_below (h : D.Fits L) {x : Nat} (hx : (kernelHost L KC D).Table x) :
    0x1000 ≤ x ∧ x < L.pagepoolStart := by
  obtain ⟨htss, hidt, hirq, -⟩ := h.offsets
  have hpool : L.pagepoolStart = L.vmKernelEnd := rfl
  have hdata : (kernelHost L KC D).tss = D.tss ∧ (kernelHost L KC D).idt = D.idt ∧
    (kernelHost L KC D).irqHandlers = D.irqHandlers := ⟨rfl, rfl, rfl⟩
  rcases hx with hx | hx | hx <;> omega

theorem KernelData.Fits.separate (h : D.Fits L) : (kernelHost L KC D).Separate := by
  obtain ⟨htss, hidt, hirq, hidtTss, hirqIdt, hirqTss⟩ := h.offsets
  have hpool : L.pagepoolStart = L.vmKernelEnd := rfl
  have hend : L.pagepoolEnd = L.heapStart := rfl
  have hstart := L.heapStart_eq
  have hheap := L.heapEnd_eq
  have hfits := L.heapEnd_le
  have hdata : (kernelHost L KC D).tss = D.tss ∧ (kernelHost L KC D).idt = D.idt ∧
    (kernelHost L KC D).irqHandlers = D.irqHandlers := ⟨rfl, rfl, rfl⟩
  refine ⟨fun x hx hpool => ?_, fun x hx => ?_, fun x hx => ?_, ?_, ?_, ?_, ?_⟩
  · have hge : L.heapStart ≤ x := hx.1
    have hlt : x < L.pagepoolEnd := hpool.2
    omega
  · have hge : L.pagepoolStart ≤ x := hx.1
    omega
  · obtain ⟨hpage, hbelow⟩ := h.table_below hx
    refine ⟨hpage, fun hx => ?_, fun hx => ?_⟩
    · have hge : L.heapStart ≤ x := hx.1
      omega
    · have hge : L.pagepoolStart ≤ x := hx.1
      omega
  all_goals omega

end

end DayOS
