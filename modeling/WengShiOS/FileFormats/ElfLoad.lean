import WengShiOS.FileFormats.Elf
import WengShiOS.Mm.UserBytes

/-! # Loading an executable

`Elf::load` and `setupArgs` in `src/file_formats/elf/elf.cpp`, over the VFS and the page
tables. Pages are mapped in the address space that is active, and `none` is a page fault.

The loader keeps no account of what it does. Here it comes with one (`Traced.log`): the
pages that were mapped and the ranges that were stored to, with the segment they were for.
The heap of the kernel is not part of this machine; `kmalloc` gives memory for the program
headers or does not. -/

namespace WengShiOS.FileFormats.Elf

open Math Fs Mm

variable {D I P W : Type*} (drivers : D → FilesystemDriver W I P)

/-! ### Headers -/

/-- `sizeof(Elf64_Ehdr)` -/
def ehdrSize : Nat := 64

/-- `sizeof(Elf64_Phdr)` -/
def phdrSize : Nat := 56

/-- The fields of `Elf64_Ehdr` that the loader uses. -/
structure Ehdr where
  eIdent : Nat → UInt8
  eType : Nat
  eMachine : Nat
  eEntry : Nat
  ePhoff : Nat
  ePhentsize : Nat
  ePhnum : Nat

/-- The fields of `Elf64_Phdr` that the loader uses. -/
structure Phdr where
  pType : Nat
  pFlags : Nat
  pOffset : Nat
  pVaddr : Nat
  pFilesz : Nat
  pMemsz : Nat
  deriving DecidableEq, Repr

/-- A buffer as memory. -/
def bytesOf (buf : List UInt8) : Bytes := fun i => buf.getD i 0

def Ehdr.ofBytes (buf : Bytes) : Ehdr where
  eIdent := window buf 0 16
  eType := readLE 2 buf 16
  eMachine := readLE 2 buf 18
  eEntry := readLE 8 buf 24
  ePhoff := readLE 8 buf 32
  ePhentsize := readLE 2 buf 54
  ePhnum := readLE 2 buf 56

def Phdr.ofBytes (buf : Bytes) (a : Nat) : Phdr where
  pType := readLE 4 buf a
  pFlags := readLE 4 buf (a + 4)
  pOffset := readLE 8 buf (a + 8)
  pVaddr := readLE 8 buf (a + 16)
  pFilesz := readLE 8 buf (a + 32)
  pMemsz := readLE 8 buf (a + 40)

/-- `phdrs[0]`, …, `phdrs[n - 1]` -/
def phdrTable (buf : Bytes) (n : Nat) : List Phdr :=
  (List.range n).map fun i => Phdr.ofBytes buf (i * phdrSize)

/-- `PT_LOAD` -/
def ptLoad : Nat := 1

/-- `ph.p_flags & PF_W` -/
def Phdr.writable (ph : Phdr) : Bool := ph.pFlags.testBit 1

/-- Why the loader gives up. -/
inductive Failure
  | cannotOpen
  | header
  | magic
  | classOrEndianness
  | architecture
  | notStatic
  | noProgramHeaders
  | noMemory
  | programHeaders
  | segmentData
  deriving DecidableEq, Repr

/-- The bytes of a string literal. -/
def text (s : String) : CString := s.toUTF8.data.toList

/-- What is written to the terminal. -/
def Failure.message (path : CString) : Failure → CString
  | .cannotOpen => text "elf: cannot open " ++ path ++ text "\n"
  | .header => text "elf: failed to read header\n"
  | .magic => text "elf: bad magic\n"
  | .classOrEndianness => text "elf: unsupported class/endianness\n"
  | .architecture => text "elf: wrong architecture\n"
  | .notStatic => text "elf: not a static executable\n"
  | .noProgramHeaders => text "elf: no/invalid program headers\n"
  | .noMemory => []
  | .programHeaders => text "elf: failed to read program headers\n"
  | .segmentData => text "elf: failed to load segment data\n"

/-- The checks of the header, in their order. -/
def Ehdr.check (h : Ehdr) : Option Failure :=
  if h.eIdent 0 ≠ 0x7F ∨ h.eIdent 1 ≠ 0x45 ∨ h.eIdent 2 ≠ 0x4C ∨ h.eIdent 3 ≠ 0x46 then
    some .magic
  else if h.eIdent 4 ≠ 2 ∨ h.eIdent 5 ≠ 1 then some .classOrEndianness
  else if h.eMachine ≠ 62 then some .architecture
  else if h.eType ≠ 2 then some .notStatic
  else if h.ePhnum = 0 ∨ h.ePhentsize ≠ phdrSize then some .noProgramHeaders
  else none

/-- An open file with its headers. -/
structure Executable where
  fd : Int
  header : Ehdr
  phdrs : List Phdr

/-- `load` up to the loop over the segments. -/
def readHeaders (v : Vfs D I P W) (path : CString) (kmalloc : Bool) :
    Option (Except Failure Executable × Vfs D I P W) :=
  let (fd, v) := v.openFile drivers path
  if fd = invalidFd then some (.error .cannotOpen, v)
  else (readFully drivers v fd ehdrSize).bind fun (ok, buf, v) =>
    if !ok then some (.error .header, v.close drivers fd)
    else
      let header := Ehdr.ofBytes (bytesOf buf)
      match header.check with
      | some failure => some (.error failure, v.close drivers fd)
      | none =>
        let v := (v.seek fd (toInt64 header.ePhoff) .set).2
        if !kmalloc then some (.error .noMemory, v.close drivers fd)
        else (readFully drivers v fd (header.ePhnum * phdrSize)).map fun (ok, buf, v) =>
          if ok then (.ok ⟨fd, header, phdrTable (bytesOf buf) header.ePhnum⟩, v)
          else (.error .programHeaders, v.close drivers fd)

/-! ### What is done to the memory -/

/-- What a store is for; segments are numbered as in the program headers. -/
inductive Purpose
  /-- `memset` -/
  | zero (segment : Nat)
  /-- data of the file -/
  | file (segment : Nat)
  /-- `setupArgs` -/
  | arguments
  deriving DecidableEq, Repr

inductive Event
  /-- `allocAndMapPage` succeeded, for a segment or for the stack -/
  | mapped (segment : Option Nat) (page : Nat)
  | stored (purpose : Purpose) (addr count : Nat)
  deriving DecidableEq, Repr

/-- The machine, and what the loader has done to it. -/
structure Traced where
  machine : Machine
  log : List Event

namespace Traced

/-- The result of `allocAndMapPage` is not looked at. -/
def allocAndMapPage (t : Traced) (segment : Option Nat) (addr flags : Nat) : Option Traced :=
  (t.machine.allocAndMapPage addr flags).map fun (ok, machine) =>
    ⟨machine, if ok then t.log ++ [.mapped segment (addr / pageSize)] else t.log⟩

/-- `for (addr = …; addr < …; addr += PAGE_SIZE)` -/
def mapPages (t : Traced) (segment : Option Nat) (flags addr : Nat) : Nat → Option Traced
  | 0 => some t
  | n + 1 => (t.allocAndMapPage segment addr flags).bind fun t =>
      t.mapPages segment flags (addr + pageSize) n

def store (t : Traced) (purpose : Purpose) (addr : Nat) (data : List UInt8) : Option Traced :=
  (t.machine.storeBytes addr data).map fun machine =>
    ⟨machine, t.log ++ [.stored purpose addr data.length]⟩

end Traced

/-! ### Segments -/

namespace Phdr

def segStart (ph : Phdr) : Nat := ph.pVaddr / pageSize * pageSize

def segEnd (ph : Phdr) : Nat :=
  wrap (ph.pVaddr + ph.pMemsz + pageSize - 1) / pageSize * pageSize

def pageFlags (ph : Phdr) : Nat := if ph.writable then pageUser ||| pageWritable else pageUser

/-- The number of pages that are mapped for the segment. -/
def pageCount (ph : Phdr) : Nat := (ph.segEnd - ph.segStart) / pageSize

/-- The pages that are mapped for the segment. -/
def pages (ph : Phdr) : Set Nat := pageRange (ph.pVaddr / pageSize) ph.pageCount

/-- The same pages, in the order in which they are mapped. -/
def pageList (ph : Phdr) : List Nat := List.range' (ph.pVaddr / pageSize) ph.pageCount

theorem mem_pageList {ph : Phdr} {n : Nat} : n ∈ ph.pageList ↔ n ∈ ph.pages := List.mem_range'_1

end Phdr

/-- One pass of the loop over the program headers; `false` if the data cannot be read. -/
def loadSegment (fd : Int) (i : Nat) (ph : Phdr) (v : Vfs D I P W) (t : Traced) :
    Option (Bool × Vfs D I P W × Traced) :=
  if ph.pType ≠ ptLoad then some (true, v, t)
  else (t.mapPages (some i) ph.pageFlags ph.segStart ph.pageCount).bind fun t =>
    (t.store (.zero i) ph.segStart (List.replicate (wrapSub ph.segEnd ph.segStart) 0)).bind fun t =>
      if ph.pFilesz = 0 then some (true, v, t)
      else
        let v := (v.seek fd (toInt64 ph.pOffset) .set).2
        (readFully drivers v fd ph.pFilesz).bind fun (ok, data, v) =>
          (t.store (.file i) ph.pVaddr data).map fun t => (ok, v, t)

/-- The data that is read for a segment. -/
def segmentData (fd : Int) (ph : Phdr) (v : Vfs D I P W) : Option (Bool × List UInt8 × Vfs D I P W) :=
  if ph.pFilesz = 0 then some (true, [], v)
  else readFully drivers (v.seek fd (toInt64 ph.pOffset) .set).2 fd ph.pFilesz

def loadSegments (fd : Int) : (i : Nat) → List Phdr → Vfs D I P W → Traced →
    Option (Bool × Vfs D I P W × Traced)
  | _, [], v, t => some (true, v, t)
  | i, ph :: rest, v, t => (loadSegment drivers fd i ph v t).bind fun (ok, v, t) =>
      if ok then loadSegments fd (i + 1) rest v t else some (false, v, t)

/-- What a pass does that returns. -/
theorem loadSegment_cases {drivers : D → FilesystemDriver W I P} {v v' : Vfs D I P W} {fd : Int}
    {ph : Phdr} {i : Nat} {ok : Bool} {t t' : Traced} (hload : ph.pType = ptLoad)
    (h : loadSegment drivers fd i ph v t = some (ok, v', t')) :
    ∃ data t₁ t₂, segmentData drivers fd ph v = some (ok, data, v') ∧
      t.mapPages (some i) ph.pageFlags ph.segStart ph.pageCount = some t₁ ∧
      t₁.store (.zero i) ph.segStart (List.replicate (wrapSub ph.segEnd ph.segStart) 0) = some t₂ ∧
      (ph.pFilesz = 0 ∧ t' = t₂ ∨
        ph.pFilesz ≠ 0 ∧ t₂.store (.file i) ph.pVaddr data = some t') := by
  rw [loadSegment, if_neg (not_not.mpr hload)] at h
  obtain ⟨t₁, hmap, h⟩ := Option.bind_eq_some_iff.mp h
  obtain ⟨t₂, hclear, h⟩ := Option.bind_eq_some_iff.mp h
  unfold segmentData
  split_ifs at h ⊢ with hzero
  · cases h
    exact ⟨[], t₁, _, rfl, hmap, hclear, .inl ⟨hzero, rfl⟩⟩
  · obtain ⟨⟨ok₁, data, v₁⟩, hread, h⟩ := Option.bind_eq_some_iff.mp h
    obtain ⟨t₃, hfill, h⟩ := Option.map_eq_some_iff.mp h
    cases h
    exact ⟨data, t₁, t₂, hread, hmap, hclear, .inr ⟨hzero, hfill⟩⟩

/-! ### The stack -/

/-- `USER_STACK_TOP` -/
def userStackTop : Nat := 0x7FFFFFFFF000

/-- `USER_STACK_SIZE / PAGE_SIZE` -/
def userStackPages : Nat := 4

def stackBottom : Nat := userStackTop - userStackPages * pageSize

/-- `PAGE_WRITABLE | PAGE_USER` -/
def stackFlags : Nat := pageWritable ||| pageUser

def maxArgs : Nat := 16

/-- The loop over the strings, which starts with the last one: the stack pointer and the
addresses of the strings. -/
def pushStrings (t : Traced) (sp : Nat) : List CString → Option (Nat × List Nat × Traced)
  | [] => some (sp, [], t)
  | arg :: rest => (pushStrings t sp rest).bind fun (sp, addrs, t) =>
      let sp := wrapSub sp (arg.length + 1)
      (t.store .arguments sp (arg ++ [0])).map fun t => (sp, sp :: addrs, t)

/-- The bytes of a `uint64_t`. -/
def wordBytes (value : Nat) : List UInt8 := (List.range 8).map (byteOf value)

structure UserStack where
  stackTop : Nat
  argvUserPtr : Nat
  deriving DecidableEq, Repr

def setupArgs (t : Traced) (stackTop : Nat) (argv : List CString) : Option (UserStack × Traced) :=
  let argv := argv.take maxArgs
  (pushStrings t stackTop argv).bind fun (sp, strAddrs, t) =>
    let argvArray := wrapSub (sp / 8 * 8) ((argv.length + 1) * 8)
    (t.store .arguments argvArray ((strAddrs ++ [0]).flatMap wordBytes)).map fun t =>
      (⟨argvArray / 16 * 16, argvArray⟩, t)

/-! ### The loader -/

/-- What `load` returns, stores through its two pointers, and writes to the terminal. -/
structure Outcome where
  value : Nat
  stack : Option UserStack
  terminal : CString

def Outcome.failed (path : CString) (failure : Failure) : Outcome :=
  ⟨0, none, failure.message path⟩

def load (v : Vfs D I P W) (t : Traced) (path : CString) (argv : List CString) (kmalloc : Bool) :
    Option (Outcome × Vfs D I P W × Traced) :=
  (readHeaders drivers v path kmalloc).bind fun
    | (.error failure, v) => some (.failed path failure, v, t)
    | (.ok exe, v) => (loadSegments drivers exe.fd 0 exe.phdrs v t).bind fun (ok, v, t) =>
      let v := v.close drivers exe.fd
      if !ok then some (.failed path .segmentData, v, t)
      else (t.mapPages none stackFlags stackBottom userStackPages).bind fun t =>
        (setupArgs t userStackTop argv).map fun (stack, t) =>
          (⟨exe.header.eEntry, some stack, []⟩, v, t)

end WengShiOS.FileFormats.Elf
