import WengShiOS.Mm.TableForest

/-! # Address spaces

The rest of `src/mm/vmm.cpp`, the tables that `src/boot/boot.S` builds, and the runs
of the virtual memory manager from there: pages are mapped and unmapped in the
current address space, address spaces are created and switched to.

Two of the 512 entries of a PML4 are copied into a new address space, 0 and 511, so
the tables below them belong to all address spaces. The boot tables also reach one
page directory on two ways: the first GiB and the last but one share it. -/

namespace WengShiOS.Mm

open Math

/-- `KERNEL_PLM4_INDEX` -/
def kernelPlm4Index : Nat := 511

/-- Where `createAddressSpace` maps the new PML4 while it is filled. -/
def scratchVirt : Nat := 0xFFFFFFFFC6000000

/-! ### The code -/

namespace Machine

def unmapPage (m : Machine) (virtualAddr : Nat) : Option Machine :=
  let virtualAddr := virtualAddr / pageSize * pageSize
  let idx₄ := virtualAddr / 2 ^ 39 % 512
  let idx₃ := virtualAddr / 2 ^ 30 % 512
  let idx₂ := virtualAddr / 2 ^ 21 % 512
  let idx₁ := virtualAddr / 2 ^ 12 % 512
  (m.readWord pml4Virt idx₄).bind fun entry =>
    if present entry then
      (m.readWord (pdptVirt idx₄) idx₃).bind fun entry =>
        if present entry then
          (m.readWord (pdVirt idx₄ idx₃) idx₂).bind fun entry =>
            -- a 2 MiB page is present too, but has no page table
            if present entry then m.writeWord (ptVirt idx₄ idx₃ idx₂) idx₁ 0 else some m
        else some m
    else some m

def allocAndMapPage (m : Machine) (virtualAddr flags : Nat) : Option (Bool × Machine) :=
  let (frame, pmm) := m.pmm.allocFrame
  let m := { m with pmm }
  if frame = noFrame then some (false, m)
  else (m.mapPage virtualAddr frame flags).map fun m => (true, m)

def switchAddressSpace (m : Machine) (plm4Phys : Nat) : Machine := { m with cr3 := frameOf plm4Phys }

/-- The address of the new PML4, or 0 if there is no frame for it. -/
def createAddressSpace (m : Machine) : Option (Nat × Machine) :=
  let (newPlm4Phys, pmm) := m.pmm.allocFrame
  let m := { m with pmm }
  if newPlm4Phys = noFrame then some (0, m)
  else
    (m.mapPage scratchVirt newPlm4Phys pageWritable).bind fun m =>
    (m.fill scratchVirt 512 fun _ => 0).bind fun m =>
    (m.readWord pml4Virt 0).bind fun low =>
    (m.writeWord scratchVirt 0 low).bind fun m =>
    (m.writeWord scratchVirt recursiveIndex (newPlm4Phys ||| pagePresent ||| pageWritable)).bind
      fun m =>
    (m.readWord pml4Virt kernelPlm4Index).bind fun high =>
    (m.writeWord scratchVirt kernelPlm4Index high).bind fun m =>
    (m.unmapPage scratchVirt).map fun m => (newPlm4Phys, m)

variable {m m' : Machine}

theorem unmapPage_pmm {virtualAddr : Nat} (h : m.unmapPage virtualAddr = some m') :
    m'.pmm = m.pmm := by
  obtain ⟨e₄, -, h⟩ := Option.bind_eq_some_iff.mp h
  split_ifs at h
  · obtain ⟨e₃, -, h⟩ := Option.bind_eq_some_iff.mp h
    split_ifs at h
    · obtain ⟨e₂, -, h⟩ := Option.bind_eq_some_iff.mp h
      split_ifs at h
      · exact writeWord_pmm h
      · rw [Option.some.inj h]
    · rw [Option.some.inj h]
  · rw [Option.some.inj h]

variable {plm4Phys : Nat}

section

variable (h : m.createAddressSpace = some (plm4Phys, m'))
include h

/-- Without a free frame nothing happens; with one, it is taken and mapped. -/
theorem createAddressSpace_cases :
    m.pmm.freeSet = ∅ ∧ plm4Phys = 0 ∧ m' = m ∨
      ∃ N ∈ m.pmm.freeSet, plm4Phys = N * frameSize ∧
        ∃ m₁, { m with pmm := m.pmm.allocFrame.2 }.mapPage scratchVirt plm4Phys pageWritable =
          some m₁ ∧ m'.pmm = m₁.pmm := by
  unfold createAddressSpace at h
  by_cases hfree : m.pmm.freeSet.Nonempty
  · obtain ⟨N, hN, halloc⟩ := Pmm.allocFrame_eq hfree
    rw [halloc] at h
    dsimp only at h
    rw [if_neg (Pmm.noFrame_ne N).symm] at h
    obtain ⟨m₁, hmap, h⟩ := Option.bind_eq_some_iff.mp h
    obtain ⟨m₂, hfill, h⟩ := Option.bind_eq_some_iff.mp h
    obtain ⟨low, -, h⟩ := Option.bind_eq_some_iff.mp h
    obtain ⟨m₃, hlow, h⟩ := Option.bind_eq_some_iff.mp h
    obtain ⟨m₄, hrec, h⟩ := Option.bind_eq_some_iff.mp h
    obtain ⟨high, -, h⟩ := Option.bind_eq_some_iff.mp h
    obtain ⟨m₅, hhigh, h⟩ := Option.bind_eq_some_iff.mp h
    obtain ⟨m₆, hunmap, h⟩ := Option.map_eq_some_iff.mp h
    cases h
    refine .inr ⟨N, hN, rfl, m₁, by rw [halloc]; exact hmap, ?_⟩
    rw [unmapPage_pmm hunmap, writeWord_pmm hhigh, writeWord_pmm hrec, writeWord_pmm hlow,
      fill_pmm hfill]
  · have hempty := Finset.not_nonempty_iff_eq_empty.mp hfree
    rw [Pmm.allocFrame_of_freeSet_empty hempty] at h
    cases h
    exact .inl ⟨hempty, rfl, rfl⟩

/-- One frame is taken for the PML4, and at most three for tables. -/
theorem createAddressSpace_card :
    m.pmm.freeSet.card ≤ m'.pmm.freeSet.card + 4 := by
  rcases createAddressSpace_cases h with ⟨-, -, rfl⟩ | ⟨N, -, -, m₁, hmap, hpmm⟩
  · omega
  · have halloc := card_allocFrame m.pmm
    have hcard := mapPage_card hmap
    rw [hpmm]
    dsimp only at hcard
    omega

theorem createAddressSpace_usedFrames_le :
    m.pmm.usedFrames ≤ m'.pmm.usedFrames := by
  rcases createAddressSpace_cases h with ⟨-, -, rfl⟩ | ⟨N, -, -, m₁, hmap, hpmm⟩
  · exact le_rfl
  · rw [hpmm]
    exact (usedFrames_allocFrame_le m.pmm).trans (mapPage_takesFrames hmap).usedFrames_le

end

end Machine

/-! ### The boot tables -/

/-- A store of 32 bits into the lower half of a word. -/
def store32 (phys : Nat → Nat → Nat) (frame i value : Nat) : Nat → Nat → Nat :=
  Function.update phys frame
    (Function.update (phys frame) i (phys frame i / 2 ^ 32 * 2 ^ 32 + value % 2 ^ 32))

/-- `setup_page_tables`. The four tables follow each other in `.boot.bss`: `p4_table`,
`p3_table_lo`, `p3_table_hi` and `p2_table`. -/
def setupPageTables (p4Table : Nat) (phys : Nat → Nat → Nat) : Nat → Nat → Nat :=
  let p3TableLo := p4Table + 1
  let p3TableHi := p4Table + 2
  let p2Table := p4Table + 3
  let phys := store32 phys p4Table 0 (p3TableLo * frameSize ||| 0b111)
  let phys := store32 phys p4Table 511 (p3TableHi * frameSize ||| 0b11)
  let phys := store32 phys p4Table 510 (p4Table * frameSize ||| 0b11)
  let phys := store32 phys p3TableLo 0 (p2Table * frameSize ||| 0b111)
  let phys := store32 phys p3TableHi 510 (p2Table * frameSize ||| 0b11)
  (List.range 512).foldl
    (fun phys ecx => store32 phys p2Table ecx (0x200000 * ecx ||| 0b10000011)) phys

/-! ### Runs -/

/-- The machine with its address spaces. What the run has done so far is recorded in
`mapped`, the pages that were mapped, and in `kernelMap`, the kernel half as the boot
code and the calls for addresses in it have left it. -/
structure Vm where
  machine : Machine
  /-- the frames of the PML4s -/
  spaces : List Nat
  mapped : List (List Nat)
  kernelMap : List Nat → Option (Nat × Nat)

inductive VmAction where
  | mapPage (virtualAddr physicalAddr flags : Nat)
  | allocAndMapPage (virtualAddr flags : Nat)
  | unmapPage (virtualAddr : Nat)
  | createAddressSpace
  | switchAddressSpace (plm4Phys : Nat)
  /-- frames that the PMM hands out to other parts of the kernel, and takes back -/
  | allocFrame
  | freeFrame (physAddress : Nat)

/-- The kernel half at boot: the last but one GiB is the first GiB of the memory. -/
def bootKernelMap : List Nat → Option (Nat × Nat)
  | [i₄, i₃, i₂, i₁] => if i₄ = 511 ∧ i₃ = 510 then some (512 * i₂ + i₁, 0b11) else none
  | _ => none

/-- What the processor uses of the entry that `mapPage` writes. -/
def pageView (physicalAddr flags : Nat) : Nat × Nat :=
  Leaf.view ⟨pageEntry physicalAddr flags, frameOf (pageEntry physicalAddr flags)⟩

namespace Vm

/-- The page tables of `boot.S`, somewhere in the first 4 GiB, with the PML4 loaded.
The PMM does not hand out their frames. Physical addresses have 52 bits. -/
structure Boot (σ : Vm) : Prop where
  zeroed : ∃ phys p4Table, p4Table + 3 < 2 ^ 20 ∧
    (∀ k < 4, ∀ i < 512, phys (p4Table + k) i = 0) ∧
    σ.machine.phys = setupPageTables p4Table phys ∧ σ.machine.cr3 = p4Table ∧
    σ.spaces = [p4Table] ∧ ∀ k < 4, p4Table + k ∉ σ.machine.pmm.freeSet
  frames : σ.machine.pmm.totalFrames ≤ 2 ^ 40
  mapped : σ.mapped = []
  kernelMap : σ.kernelMap = bootKernelMap

/-- The memory and the address spaces after an action. -/
def exec (σ : Vm) : VmAction → Option (Machine × List Nat)
  | .mapPage v physicalAddr flags =>
    (σ.machine.mapPage v physicalAddr flags).map fun m => (m, σ.spaces)
  | .allocAndMapPage v flags =>
    (σ.machine.allocAndMapPage v flags).map fun (_, m) => (m, σ.spaces)
  | .unmapPage v => (σ.machine.unmapPage v).map fun m => (m, σ.spaces)
  | .createAddressSpace =>
    -- the callers take 0 for a failure
    σ.machine.createAddressSpace.map fun (plm4Phys, m) =>
      (m, if plm4Phys = 0 then σ.spaces else frameOf plm4Phys :: σ.spaces)
  | .switchAddressSpace plm4Phys => some (σ.machine.switchAddressSpace plm4Phys, σ.spaces)
  | .allocFrame => some ({ σ.machine with pmm := σ.machine.pmm.allocFrame.2 }, σ.spaces)
  | .freeFrame physAddress =>
    some ({ σ.machine with pmm := σ.machine.pmm.freeFrame physAddress }, σ.spaces)

/-- The page an action is a call for, and the translation that the caller asks for. -/
def call (σ : Vm) : VmAction → Option (Nat × Option (Nat × Nat))
  | .mapPage v physicalAddr flags => some (v, some (pageView physicalAddr flags))
  | .allocAndMapPage v flags =>
    let frame := σ.machine.pmm.allocFrame.1
    if frame = noFrame then none else some (v, some (pageView frame flags))
  | .unmapPage v => some (v, none)
  | .createAddressSpace =>
    if σ.machine.pmm.allocFrame.1 = noFrame then none else some (scratchVirt, none)
  | .switchAddressSpace _ | .allocFrame | .freeFrame _ => none

def mappedAfter (σ : Vm) (a : VmAction) : List (List Nat) :=
  match σ.call a with
  | some (v, some _) => indices v :: σ.mapped
  | _ => σ.mapped

def kernelMapAfter (σ : Vm) (a : VmAction) : List Nat → Option (Nat × Nat) :=
  match σ.call a with
  | some (v, t) =>
    if v / 2 ^ 39 % 512 = kernelPlm4Index then Function.update σ.kernelMap (indices v) t
    else σ.kernelMap
  | none => σ.kernelMap

def next (σ : Vm) (a : VmAction) : Option Vm :=
  (σ.exec a).map fun (machine, spaces) =>
    ⟨machine, spaces, σ.mappedAfter a, σ.kernelMapAfter a⟩

def system : System Vm VmAction := .ofNext next Boot

/-- How many frames a call for a page takes for tables. -/
def needs (σ : Vm) (v : Nat) : Nat := missing σ.machine.phys σ.machine.cr3 (indices v)

/-- The steps of a kernel that has enough frames and does not free its page tables.
Pages are outside the recursive slot, and only those are unmapped that were mapped. -/
def Allowed (σ : Vm) : VmAction → Prop
  | .mapPage v _ _ =>
    v / 2 ^ 39 % 512 ≠ recursiveIndex ∧ σ.needs v ≤ σ.machine.pmm.freeSet.card
  | .allocAndMapPage v _ =>
    v / 2 ^ 39 % 512 ≠ recursiveIndex ∧ σ.needs v + 1 ≤ σ.machine.pmm.freeSet.card
  | .unmapPage v => indices v ∈ σ.mapped
  | .createAddressSpace => σ.needs scratchVirt + 1 ≤ σ.machine.pmm.freeSet.card
  | .switchAddressSpace plm4Phys => frameOf plm4Phys ∈ σ.spaces
  | .allocFrame => True
  | .freeFrame physAddress => ∀ s ∈ σ.spaces, ∀ p, TablePath p →
      tableAt σ.machine.phys s p ≠ some (physAddress / frameSize)

end Vm

end WengShiOS.Mm
