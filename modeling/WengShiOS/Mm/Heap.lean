import WengShiOS.Math.Bytes
import WengShiOS.Math.DoublyLinked
import WengShiOS.Math.Transition

/-! # The kernel heap

`src/mm/heap.cpp`: a first-fit allocator whose blocks form a doubly linked list of
32-byte headers kept in front of the payloads. Pointers are addresses, 0 is the
null pointer, and `size_t` arithmetic wraps at 64 bits.

The memory is the virtual memory as the kernel sees it. `VMM::allocAndMapPage`
makes a page of it accessible or fails; which of the two is given by `mapped`, for
every page a call asks for. The heap never unmaps a page, so what a page holds
when it is first mapped is what the memory holds there at the start. -/

namespace WengShiOS.Mm

open Math

/-- 64-bit arithmetic. -/
def wrap (n : Nat) : Nat := n % 2 ^ 64

def wrapSub (m n : Nat) : Nat := wrap (m + 2 ^ 64 - n)

def heapStart : Nat := 0xFFFFFFFFC0000000

def heapInitialSize : Nat := 64 * 1024

def heapMaxSize : Nat := 64 * 1024 * 1024

/-- `sizeof(BlockHeader)`: `size` at 0, `free` at 8, `next` at 16, `prev` at 24. -/
def headerSize : Nat := 32

def alignment : Nat := 16

def pageSize : Nat := 4096

/-- `(value + align - 1) & ~(align - 1)` for a power of two `align`. -/
def alignUp (value align : Nat) : Nat := wrap (value + align - 1) / align * align

/-- What a header says about its block. -/
structure Block where
  size : Nat
  free : Bool
  deriving DecidableEq, Repr

structure Heap where
  mem : Bytes
  firstBlock : Nat
  currentEnd : Nat
  mappedEnd : Nat

namespace Heap

def size (h : Heap) (block : Nat) : Nat := readLE 8 h.mem block

def free (h : Heap) (block : Nat) : Bool := h.mem (block + 8) ≠ 0

def next (h : Heap) (block : Nat) : Nat := readLE 8 h.mem (block + 16)

def prev (h : Heap) (block : Nat) : Nat := readLE 8 h.mem (block + 24)

/-- The header at an address. -/
def node (h : Heap) (block : Nat) : Node Block :=
  ⟨⟨h.size block, h.free block⟩, h.next block, h.prev block⟩

def setSize (h : Heap) (block value : Nat) : Heap := { h with mem := writeLE 8 h.mem block value }

def setFree (h : Heap) (block : Nat) (value : Bool) : Heap :=
  { h with mem := writeLE 1 h.mem (block + 8) value.toNat }

def setNext (h : Heap) (block value : Nat) : Heap :=
  { h with mem := writeLE 8 h.mem (block + 16) value }

def setPrev (h : Heap) (block value : Nat) : Heap :=
  { h with mem := writeLE 8 h.mem (block + 24) value }

/-- The loop of `growHeap`, for the pages that are left. -/
def mapPages (mapped : Nat → Bool) : Nat → Heap → Bool × Heap
  | 0, h => (true, h)
  | pages + 1, h =>
    if mapped h.mappedEnd then
      mapPages mapped pages { h with mappedEnd := wrap (h.mappedEnd + pageSize) }
    else (false, h)

def growHeap (h : Heap) (mapped : Nat → Bool) (minBytes : Nat) : Bool × Heap :=
  let bytesNeeded := alignUp minBytes pageSize
  if heapStart + heapMaxSize < wrap (h.mappedEnd + bytesNeeded) then (false, h)
  else mapPages mapped (bytesNeeded / pageSize) h

/-- `Heap::init`; without the initial region the kernel halts. -/
def init (h : Heap) (mapped : Nat → Bool) : Option Heap :=
  match h.growHeap mapped heapInitialSize with
  | (false, _) => none
  | (true, h) =>
    let h := { h with firstBlock := heapStart }
    let h := h.setSize h.firstBlock (heapInitialSize - headerSize)
    let h := h.setFree h.firstBlock true
    let h := h.setNext h.firstBlock 0
    let h := h.setPrev h.firstBlock 0
    some { h with currentEnd := h.mappedEnd }

/-- The search of `kmalloc`: the first free block that is large enough, or null.
The first argument bounds the number of iterations. -/
def findFit (h : Heap) (size : Nat) : Nat → Nat → Option Nat
  | 0, _ => none
  | fuel + 1, block =>
    if block = 0 then some 0
    else if h.free block ∧ size ≤ h.size block then some block
    else h.findFit size fuel (h.next block)

/-- `while (tail->next) tail = tail->next;` -/
def findTail (h : Heap) : Nat → Nat → Option Nat
  | 0, _ => none
  | fuel + 1, tail => if h.next tail = 0 then some tail else h.findTail fuel (h.next tail)

/-- The part of a block that a request leaves over becomes a block of its own. -/
def split (h : Heap) (block size : Nat) : Heap :=
  let newBlock := wrap (block + headerSize + size)
  let h := h.setSize newBlock (wrapSub (wrapSub (h.size block) size) headerSize)
  let h := h.setFree newBlock true
  let h := h.setNext newBlock (h.next block)
  let h := h.setPrev newBlock block
  let h := if h.next block ≠ 0 then h.setPrev (h.next block) newBlock else h
  let h := h.setNext block newBlock
  h.setSize block size

/-- The block is given to a request that fits into it. -/
def take (h : Heap) (block size : Nat) : Heap :=
  let h := if wrap (size + headerSize + alignment) ≤ h.size block then h.split block size else h
  h.setFree block false

/-- `grow_amount`. -/
def growAmount (size : Nat) : Nat :=
  if wrap (size + headerSize) < 4096 then 4096 else wrap (size + headerSize)

/-- The pages from `newBlock` to the mapped end become the last block. -/
def addBlock (h : Heap) (newBlock fuel : Nat) : Option Heap :=
  let h := h.setSize newBlock (wrapSub (wrapSub h.mappedEnd newBlock) headerSize)
  let h := h.setFree newBlock true
  let h := h.setNext newBlock 0
  let h := h.setPrev newBlock 0
  (h.findTail fuel h.firstBlock).map fun tail =>
    (h.setNext tail newBlock).setPrev newBlock tail

/-- `kmalloc`, with a bound on the iterations of its loops and on its recursion. -/
def kmallocLoop (mapped : Nat → Bool) : Nat → Heap → Nat → Option (Nat × Heap)
  | 0, _, _ => none
  | fuel + 1, h, request =>
    if request = 0 then some (0, h)
    else
      let size := alignUp request alignment
      (h.findFit size fuel h.firstBlock).bind fun block =>
        if block ≠ 0 then some (wrap (block + headerSize), h.take block size)
        else
          match h.growHeap mapped (growAmount size) with
          | (false, grown) => some (0, grown)
          | (true, grown) =>
            (grown.addBlock h.mappedEnd fuel).bind fun grown => kmallocLoop mapped fuel grown size

/-- More than the number of headers that fit into the largest heap. -/
def loopBound : Nat := heapMaxSize / headerSize + 4

def kmalloc (h : Heap) (mapped : Nat → Bool) (size : Nat) : Option (Nat × Heap) :=
  kmallocLoop mapped loopBound h size

/-- `left` swallows the block `right` that follows it. -/
def absorb (h : Heap) (left right : Nat) : Heap :=
  let h := h.setSize left (wrap (h.size left + (headerSize + h.size right)))
  let h := h.setNext left (h.next right)
  if h.next right ≠ 0 then h.setPrev (h.next right) left else h

def kfree (h : Heap) (ptr : Nat) : Heap :=
  if ptr = 0 then h
  else
    let block := wrapSub ptr headerSize
    let h := h.setFree block true
    let h := if h.next block ≠ 0 ∧ h.free (h.next block) then h.absorb block (h.next block) else h
    if h.prev block ≠ 0 ∧ h.free (h.prev block) then h.absorb (h.prev block) block else h

/-! ### The mapped end

Only `growHeap` moves it. -/

section MappedEnd

variable {h h' : Heap} {ptr fuel : Nat} (block value size : Nat)

@[simp] theorem setSize_mappedEnd : (h.setSize block value).mappedEnd = h.mappedEnd := rfl

@[simp] theorem setFree_mappedEnd (free : Bool) :
    (h.setFree block free).mappedEnd = h.mappedEnd := rfl

@[simp] theorem setNext_mappedEnd : (h.setNext block value).mappedEnd = h.mappedEnd := rfl

@[simp] theorem setPrev_mappedEnd : (h.setPrev block value).mappedEnd = h.mappedEnd := rfl

theorem take_mappedEnd : (h.take block size).mappedEnd = h.mappedEnd := by
  simp [take, split, apply_ite Heap.mappedEnd]

@[simp] theorem absorb_mappedEnd (left right : Nat) :
    (h.absorb left right).mappedEnd = h.mappedEnd := by
  simp [absorb, apply_ite Heap.mappedEnd]

/-- A merge that happens only if the neighbour is free. -/
theorem ite_absorb_mappedEnd (c : Prop) [Decidable c] (left right : Nat) :
    (if c then h.absorb left right else h).mappedEnd = h.mappedEnd := by
  split_ifs
  · exact absorb_mappedEnd left right
  · rfl

theorem kfree_mappedEnd : (h.kfree ptr).mappedEnd = h.mappedEnd := by
  by_cases h0 : ptr = 0
  · rw [kfree, if_pos h0]
  · obtain ⟨block, hblock⟩ : ∃ block, block = wrapSub ptr headerSize := ⟨_, rfl⟩
    obtain ⟨h₁, hh₁⟩ : ∃ h₁, h₁ = h.setFree block true := ⟨_, rfl⟩
    obtain ⟨h₂, hh₂⟩ : ∃ h₂, h₂ = if h₁.next block ≠ 0 ∧ h₁.free (h₁.next block) then
      h₁.absorb block (h₁.next block) else h₁ := ⟨_, rfl⟩
    have hkfree : h.kfree ptr = if h₂.prev block ≠ 0 ∧ h₂.free (h₂.prev block) then
        h₂.absorb (h₂.prev block) block else h₂ := by
      rw [kfree, if_neg h0, hh₂, hh₁, hblock]
    rw [hkfree, ite_absorb_mappedEnd, hh₂, ite_absorb_mappedEnd, hh₁, setFree_mappedEnd]

theorem addBlock_mappedEnd {newBlock : Nat} (hadd : h.addBlock newBlock fuel = some h') :
    h'.mappedEnd = h.mappedEnd := by
  obtain ⟨tail, -, rfl⟩ := Option.map_eq_some_iff.mp hadd
  rfl

end MappedEnd

end Heap

/-- The heap and the allocations its clients hold: pointer and requested size. -/
structure HeapState where
  heap : Heap
  live : List (Nat × Nat)

inductive HeapAction
  | kmalloc (size : Nat) (mapped : Nat → Bool)
  | kfree (ptr : Nat)
  /-- a client writes into a payload it holds -/
  | store (addr : Nat) (value : UInt8)

namespace HeapState

def next (s : HeapState) : HeapAction → Option HeapState
  | .kmalloc size mapped =>
    if size ≤ heapMaxSize then
      (s.heap.kmalloc mapped size).map fun (ptr, heap) =>
        ⟨heap, if ptr = 0 then s.live else (ptr, size) :: s.live⟩
    else none
  | .kfree ptr =>
    if ∃ x ∈ s.live, x.1 = ptr then
      some ⟨s.heap.kfree ptr, s.live.filter fun x => x.1 ≠ ptr⟩
    else none
  | .store addr value =>
    if ∃ x ∈ s.live, x.1 ≤ addr ∧ addr < x.1 + x.2 then
      some { s with heap := { s.heap with mem := overlay s.heap.mem addr 1 fun _ => value } }
    else none

end HeapState

/-- All runs of the heap after a successful `Heap::init`. -/
def heapSystem : System HeapState HeapAction :=
  .ofNext HeapState.next fun s =>
    s.live = [] ∧ ∃ (mem : Bytes) (mapped : Nat → Bool),
      Heap.init ⟨mem, 0, heapStart, heapStart⟩ mapped = some s.heap

end WengShiOS.Mm
