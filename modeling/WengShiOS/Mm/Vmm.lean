import WengShiOS.Mm.Pmm

/-! # The virtual memory manager

`src/mm/vmm.cpp` on top of the hardware's four-level page walk. Physical memory is
seen as frames of 512 words of 64 bits. All accesses of the kernel to page tables
go through virtual addresses made with the recursive slot 510 of the PML4, so every
one of them is translated by the same walk; `none` is a page fault or a halt.

The translation cache is not part of the model: each table is invalidated with
`invlpg` before it is first used. `CR0.WP` is clear, so the kernel may write to
every page that is present. -/

namespace WengShiOS.Mm

open Math

def pagePresent : Nat := 1

def pageWritable : Nat := 2

def pageUser : Nat := 4

def pagePwt : Nat := 8

def pageCacheDisable : Nat := 16

def addrMask : Nat := 0x000FFFFFFFFFF000

def recursiveIndex : Nat := 510

def huge2MB : Nat := 512 * pageSize

def huge1GB : Nat := 512 * huge2MB

/-- `entry & PAGE_PRESENT` -/
def present (entry : Nat) : Bool := entry.testBit 0

/-- `entry & PAGE_SIZE_BIT` -/
def pageSizeBit (entry : Nat) : Bool := entry.testBit 7

/-- The number of the frame an entry points to. -/
def frameOf (entry : Nat) : Nat := (entry &&& addrMask) / pageSize

/-! ### The hardware -/

/-- Where a walk ends: the last entry it read and the 4 KiB frame it gives. -/
structure Leaf where
  entry : Nat
  frame : Nat
  deriving DecidableEq, Repr

/-- What the processor uses of a leaf: the frame, and the present, writable, user,
write-through and cache-disable bits. -/
def Leaf.view (l : Leaf) : Nat × Nat := (l.frame, l.entry &&& 31)

/-- The number with the given digits in base 512. -/
def digits : List Nat → Nat := List.foldl (fun acc i => acc * 512 + i) 0

/-- The frame at the position `rest` of a large page. -/
def hugeFrame (entry : Nat) (rest : List Nat) : Nat :=
  frameOf entry / 512 ^ rest.length * 512 ^ rest.length + digits rest

/-- The walk from a table on, along the indices that are left. A page-size bit ends
it early, except in the PML4, where it is reserved. -/
def lookup (phys : Nat → Nat → Nat) (table : Nat) : List Nat → Option Leaf
  | [] => none
  | [i] => if present (phys table i) then some ⟨phys table i, frameOf (phys table i)⟩ else none
  | i :: j :: rest =>
    if present (phys table i) then
      if pageSizeBit (phys table i) then
        if rest.length < 2 then some ⟨phys table i, hugeFrame (phys table i) (j :: rest)⟩ else none
      else lookup phys (frameOf (phys table i)) (j :: rest)
    else none

/-- The four table indices of a virtual address. -/
def indices (v : Nat) : List Nat :=
  [v / 2 ^ 39 % 512, v / 2 ^ 30 % 512, v / 2 ^ 21 % 512, v / 2 ^ 12 % 512]

/-- Bits 63 to 47 are equal. -/
def canonical (v : Nat) : Prop := v < 2 ^ 47 ∨ 2 ^ 64 - 2 ^ 47 ≤ v ∧ v < 2 ^ 64

instance (v : Nat) : Decidable (canonical v) := inferInstanceAs (Decidable (_ ∨ _))

structure Machine where
  phys : Nat → Nat → Nat
  /-- the frame of the PML4 -/
  cr3 : Nat
  pmm : Pmm

namespace Machine

def walk (m : Machine) (v : Nat) : Option Leaf := lookup m.phys m.cr3 (indices v)

/-- The frame that an access to a virtual address goes to. -/
def access (m : Machine) (v : Nat) : Option Nat :=
  if canonical v then (m.walk v).map Leaf.frame else none

def setWord (m : Machine) (frame i value : Nat) : Machine :=
  { m with phys := Function.update m.phys frame (Function.update (m.phys frame) i value) }

/-- `table[i]` -/
def readWord (m : Machine) (table i : Nat) : Option Nat :=
  (m.access (wrap (table + 8 * i))).map fun frame => m.phys frame (wrap (table + 8 * i) % 4096 / 8)

/-- `table[i] = value;` -/
def writeWord (m : Machine) (table i value : Nat) : Option Machine :=
  (m.access (wrap (table + 8 * i))).map fun frame =>
    m.setWord frame (wrap (table + 8 * i) % 4096 / 8) value

/-- `*v` for a pointer to bytes. -/
def readByte (m : Machine) (v : Nat) : Option UInt8 :=
  (m.access v).map fun frame => UInt8.ofNat (m.phys frame (v % 4096 / 8) / 256 ^ (v % 8))

/-- `*v = value;` for a pointer to bytes: the other bytes of the word stay. -/
def writeByte (m : Machine) (v : Nat) (value : UInt8) : Option Machine :=
  (m.access v).map fun frame =>
    let word := m.phys frame (v % 4096 / 8)
    let old := word / 256 ^ (v % 8) % 256
    m.setWord frame (v % 4096 / 8) (word - old * 256 ^ (v % 8) + value.toNat * 256 ^ (v % 8))

end Machine

/-! ### The code -/

def canonicalize (addr : Nat) : Nat :=
  if addr.testBit 47 then addr ||| 0xFFFF000000000000 else addr

/-- The address whose four indices are given. -/
def tableVirt (i₄ i₃ i₂ i₁ : Nat) : Nat :=
  canonicalize (i₄ <<< 39 ||| i₃ <<< 30 ||| i₂ <<< 21 ||| i₁ <<< 12)

def pml4Virt : Nat := tableVirt recursiveIndex recursiveIndex recursiveIndex recursiveIndex

def pdptVirt (pml4Idx : Nat) : Nat :=
  tableVirt recursiveIndex recursiveIndex recursiveIndex pml4Idx

def pdVirt (pml4Idx pdptIdx : Nat) : Nat :=
  tableVirt recursiveIndex recursiveIndex pml4Idx pdptIdx

def ptVirt (pml4Idx pdptIdx pdIdx : Nat) : Nat :=
  tableVirt recursiveIndex pml4Idx pdptIdx pdIdx

namespace Machine

/-- `for (i = 0; i < n; ++i) table[i] = value(i);` -/
def fill (m : Machine) (table n : Nat) (value : Nat → Nat) : Option Machine :=
  (List.range n).foldlM (fun m i => m.writeWord table i (value i)) m

def zeroPage (m : Machine) (table : Nat) : Option Machine := m.fill table 512 fun _ => 0

/-- A frame from the PMM, which is not checked, as an entry for a new table. -/
def newTable (m : Machine) : Nat × Machine :=
  let (frame, pmm) := m.pmm.allocFrame
  (frame ||| pagePresent ||| pageWritable ||| pageUser, { m with pmm })

def splitHugePage (m : Machine) (parent index child hugePageSize : Nat) : Option Machine :=
  (m.readWord parent index).bind fun hugeEntry =>
    let hugeBase := hugeEntry &&& addrMask
    let flags := hugeEntry &&&
      (pagePresent ||| pageWritable ||| pageUser ||| pagePwt ||| pageCacheDisable)
    let (entry, m) := m.newTable
    (m.writeWord parent index entry).bind fun m =>
      (m.zeroPage child).bind fun m =>
        m.fill child (hugePageSize / pageSize) fun i => wrap (hugeBase + i * pageSize) ||| flags

/-- The child table exists afterwards. No caller uses the address it returns. -/
def ensureTable (m : Machine) (parent index child hugePageSize : Nat) : Option Machine :=
  (m.readWord parent index).bind fun entry =>
    if present entry then
      if pageSizeBit entry then
        -- a huge page where none can be split halts the kernel
        if hugePageSize = 0 then none else m.splitHugePage parent index child hugePageSize
      else some m
    else
      let (entry, m) := m.newTable
      (m.writeWord parent index entry).bind fun m => m.zeroPage child

def mapPage (m : Machine) (virtualAddr physicalAddr flags : Nat) : Option Machine :=
  let virtualAddr := virtualAddr / pageSize * pageSize
  let physicalAddr := physicalAddr / pageSize * pageSize
  let idx₄ := virtualAddr / 2 ^ 39 % 512
  let idx₃ := virtualAddr / 2 ^ 30 % 512
  let idx₂ := virtualAddr / 2 ^ 21 % 512
  let idx₁ := virtualAddr / 2 ^ 12 % 512
  (m.ensureTable pml4Virt idx₄ (pdptVirt idx₄) 0).bind fun m =>
    (m.ensureTable (pdptVirt idx₄) idx₃ (pdVirt idx₄ idx₃) huge1GB).bind fun m =>
      (m.ensureTable (pdVirt idx₄ idx₃) idx₂ (ptVirt idx₄ idx₃ idx₂) huge2MB).bind fun m =>
        m.writeWord (ptVirt idx₄ idx₃ idx₂) idx₁ (physicalAddr ||| flags ||| pagePresent)

variable {m m' : Machine}

/-! ### What becomes of the frame pool -/

/-- The pool loses some frames, one after the other, and nothing else happens to it. -/
def TakesFrames (p p' : Pmm) : Prop := ∃ n, p' = (fun q => q.allocFrame.2)^[n] p

theorem TakesFrames.refl (p : Pmm) : TakesFrames p p := ⟨0, rfl⟩

theorem TakesFrames.one (p : Pmm) : TakesFrames p p.allocFrame.2 := ⟨1, rfl⟩

theorem TakesFrames.trans {p q r : Pmm} (h : TakesFrames p q) (h' : TakesFrames q r) :
    TakesFrames p r := by
  obtain ⟨n, rfl⟩ := h
  obtain ⟨k, rfl⟩ := h'
  exact ⟨k + n, (Function.iterate_add_apply _ k n p).symm⟩

theorem usedFrames_allocFrame_le (p : Pmm) : p.usedFrames ≤ p.allocFrame.2.usedFrames := by
  by_cases hfree : p.freeSet.Nonempty
  · obtain ⟨frame, -, halloc⟩ := Pmm.allocFrame_eq hfree
    rw [halloc]
    exact Nat.le_succ _
  · rw [Pmm.allocFrame_of_freeSet_empty (Finset.not_nonempty_iff_eq_empty.mp hfree)]

theorem TakesFrames.usedFrames_le {p p' : Pmm} (h : TakesFrames p p') :
    p.usedFrames ≤ p'.usedFrames := by
  obtain ⟨n, rfl⟩ := h
  induction n with
  | zero => exact le_rfl
  | succ n ih =>
    rw [Function.iterate_succ_apply']
    exact ih.trans (usedFrames_allocFrame_le _)

theorem writeWord_pmm {table i value : Nat} (h : m.writeWord table i value = some m') :
    m'.pmm = m.pmm := by
  obtain ⟨frame, -, rfl⟩ := Option.map_eq_some_iff.mp h
  rfl

theorem writeByte_pmm {v : Nat} {value : UInt8} (h : m.writeByte v value = some m') :
    m'.pmm = m.pmm := by
  obtain ⟨frame, -, rfl⟩ := Option.map_eq_some_iff.mp h
  rfl

/-- A loop of stores does not touch the pool. -/
theorem foldlM_pmm {ι : Type} {step : Machine → ι → Option Machine}
    (hstep : ∀ m i m', step m i = some m' → m'.pmm = m.pmm) {items : List ι}
    (h : items.foldlM step m = some m') : m'.pmm = m.pmm := by
  induction items generalizing m with
  | nil =>
    obtain rfl : m = m' := by simpa using h
    rfl
  | cons i rest ih =>
    obtain ⟨m₁, hone, hrest⟩ := Option.bind_eq_some_iff.mp h
    exact (ih hrest).trans (hstep m i m₁ hone)

theorem fill_pmm {table n : Nat} {value : Nat → Nat} (h : m.fill table n value = some m') :
    m'.pmm = m.pmm :=
  foldlM_pmm (fun _ _ _ => writeWord_pmm) h

variable {parent index child hugePageSize : Nat}

theorem splitHugePage_pmm (h : m.splitHugePage parent index child hugePageSize = some m') :
    m'.pmm = m.pmm.allocFrame.2 := by
  obtain ⟨entry, -, h⟩ := Option.bind_eq_some_iff.mp h
  obtain ⟨m₁, hparent, h⟩ := Option.bind_eq_some_iff.mp h
  obtain ⟨m₂, hzero, hfill⟩ := Option.bind_eq_some_iff.mp h
  rw [fill_pmm hfill, fill_pmm hzero, writeWord_pmm hparent]
  rfl

/-- At most one frame is taken for a table. -/
theorem ensureTable_pmm (h : m.ensureTable parent index child hugePageSize = some m') :
    m'.pmm = m.pmm ∨ m'.pmm = m.pmm.allocFrame.2 := by
  obtain ⟨entry, -, h⟩ := Option.bind_eq_some_iff.mp h
  split_ifs at h
  · exact .inr (splitHugePage_pmm h)
  · cases h
    exact .inl rfl
  · obtain ⟨m₁, hparent, hzero⟩ := Option.bind_eq_some_iff.mp h
    rw [fill_pmm hzero, writeWord_pmm hparent]
    exact .inr rfl

theorem ensureTable_takesFrames (h : m.ensureTable parent index child hugePageSize = some m') :
    TakesFrames m.pmm m'.pmm := by
  rcases ensureTable_pmm h with hpmm | hpmm
  · rw [hpmm]
    exact .refl m.pmm
  · rw [hpmm]
    exact .one m.pmm

theorem mapPage_takesFrames {virtualAddr physicalAddr flags : Nat}
    (h : m.mapPage virtualAddr physicalAddr flags = some m') : TakesFrames m.pmm m'.pmm := by
  obtain ⟨m₁, h₁, h⟩ := Option.bind_eq_some_iff.mp h
  obtain ⟨m₂, h₂, h⟩ := Option.bind_eq_some_iff.mp h
  obtain ⟨m₃, h₃, hwrite⟩ := Option.bind_eq_some_iff.mp h
  rw [writeWord_pmm hwrite]
  exact ((ensureTable_takesFrames h₁).trans (ensureTable_takesFrames h₂)).trans
    (ensureTable_takesFrames h₃)

theorem card_allocFrame (p : Pmm) : p.freeSet.card ≤ p.allocFrame.2.freeSet.card + 1 := by
  by_cases hfree : p.freeSet.Nonempty
  · obtain ⟨frame, hframe, halloc⟩ := Pmm.allocFrame_eq hfree
    rw [halloc, Pmm.freeSet_take, Finset.card_erase_of_mem hframe]
    omega
  · rw [Pmm.allocFrame_of_freeSet_empty (Finset.not_nonempty_iff_eq_empty.mp hfree)]
    exact Nat.le_succ _

theorem ensureTable_card (h : m.ensureTable parent index child hugePageSize = some m') :
    m.pmm.freeSet.card ≤ m'.pmm.freeSet.card + 1 := by
  rcases ensureTable_pmm h with hpmm | hpmm
  · rw [hpmm]
    omega
  · rw [hpmm]
    exact card_allocFrame m.pmm

/-- At most three frames are taken for tables. -/
theorem mapPage_card {virtualAddr physicalAddr flags : Nat}
    (h : m.mapPage virtualAddr physicalAddr flags = some m') :
    m.pmm.freeSet.card ≤ m'.pmm.freeSet.card + 3 := by
  obtain ⟨m₁, h₁, h⟩ := Option.bind_eq_some_iff.mp h
  obtain ⟨m₂, h₂, h⟩ := Option.bind_eq_some_iff.mp h
  obtain ⟨m₃, h₃, hwrite⟩ := Option.bind_eq_some_iff.mp h
  have hcard₁ := ensureTable_card h₁
  have hcard₂ := ensureTable_card h₂
  have hcard₃ := ensureTable_card h₃
  rw [writeWord_pmm hwrite]
  omega

end Machine

end WengShiOS.Mm
