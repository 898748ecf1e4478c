import WengShiOS.FileFormats.ElfLoad

/-! # Archives

`src/file_formats/tar/tar.cpp`: `listFiles`, `catFile` and `extractFile` on a file of the VFS.
The loops have no bound of their own, so a run is given a number of passes and says whether it
has come to its end. The results of the allocations are parameters, 0 stands for failure; the
header is read into its block even then. Memory is that of the kernel, and a read stores its
data wherever the buffer points, which is 0 where the code skips something. -/

namespace WengShiOS.FileFormats.Tar

open Math Fs Elf

/-! ### Headers -/

def headerSize : Nat := 512

/-- The string at the start of `hdr`, `t_file_name`. The name field need not hold a zero, nor
need the rest of `hdr`; `behind` is what follows on the stack. -/
def fileName (behind : CString) (hdr : List UInt8) : CString := (hdr ++ behind).takeWhile (· ≠ 0)

/-- `t_file_size` -/
def fileSize (hdr : List UInt8) : List UInt8 := (hdr.drop 124).take 12

/-- `t_magic[0]` -/
def magic (hdr : List UInt8) : UInt8 := hdr.getD 257 0

/-- One pass of the loop of `octToDec` that does not end it: what is no digit is passed over. -/
def octDigit (n : Nat) (c : UInt8) : Nat :=
  if 0x30 ≤ c ∧ c ≤ 0x37 then (n * 8 + (c.toNat - 0x30)) % 2 ^ 64 else n

def octToDecFrom (n : Nat) : List UInt8 → Nat
  | [] => n
  | c :: rest => if c = 0 ∨ c = 0x20 then n else octToDecFrom (octDigit n c) rest

def octToDec (str : List UInt8) : Nat := octToDecFrom 0 str

def dataSizeWithPadding (size : Nat) : Nat := (size + (512 - size % 512) % 512) % 2 ^ 64

/-- The size of a member, by its header. -/
def memberSize (hdr : List UInt8) : Nat := octToDec (fileSize hdr)

/-- What is skipped to get from the end of a header to the next one. -/
def skipSize (hdr : List UInt8) : Nat := dataSizeWithPadding (memberSize hdr)

theorem octDigit_lt (n : Nat) (c : UInt8) : octDigit n c < (n + 1) * 8 := by
  unfold octDigit
  split_ifs with hc
  · have hdigit : c.toNat ≤ 0x37 := hc.2
    have := Nat.mod_le (n * 8 + (c.toNat - 0x30)) (2 ^ 64)
    omega
  · omega

theorem octToDecFrom_lt (n : Nat) (str : List UInt8) :
    octToDecFrom n str < (n + 1) * 8 ^ str.length := by
  induction str generalizing n with
  | nil => simp [octToDecFrom]
  | cons c rest ih =>
    have hpos : 0 < 8 ^ rest.length := by positivity
    have hpow : (n + 1) * 8 ^ (c :: rest).length = (n + 1) * 8 * 8 ^ rest.length := by
      rw [List.length_cons, pow_succ]
      ring
    rw [octToDecFrom, hpow]
    split_ifs
    · calc n < (n + 1) * 8 * 1 := by omega
        _ ≤ _ := Nat.mul_le_mul_left _ hpos
    · calc octToDecFrom (octDigit n c) rest
          < (octDigit n c + 1) * 8 ^ rest.length := ih _
        _ ≤ _ := Nat.mul_le_mul_right _ (octDigit_lt n c)

theorem memberSize_lt (hdr : List UInt8) : memberSize hdr < 2 ^ 36 := by
  have hlen : (fileSize hdr).length ≤ 12 := List.length_take_le ..
  calc memberSize hdr < (0 + 1) * 8 ^ (fileSize hdr).length := octToDecFrom_lt 0 _
    _ ≤ (0 + 1) * 8 ^ 12 := Nat.mul_le_mul_left _ (Nat.pow_le_pow_right (by norm_num) hlen)
    _ = 2 ^ 36 := by norm_num

theorem skipSize_eq (hdr : List UInt8) :
    skipSize hdr = memberSize hdr + (512 - memberSize hdr % 512) % 512 := by
  have hlt := memberSize_lt hdr
  unfold skipSize dataSizeWithPadding
  omega

theorem skipSize_lt (hdr : List UInt8) : skipSize hdr < 2 ^ 37 := by
  have hlt := memberSize_lt hdr
  rw [skipSize_eq]
  omega

theorem skipSize_eq_zero {hdr : List UInt8} (h : memberSize hdr = 0) : skipSize hdr = 0 := by
  rw [skipSize_eq, h]

/-! ### The code -/

/-- What is written to the terminal. -/
inductive Line
  | cannotOpen (path : CString)
  | file (name : CString) (size : Nat)
  | notInArchive
  | noBuffer
  | contents (content : CString)
  | cannotCreate
  deriving DecidableEq, Repr

def Line.text : Line → CString
  | .cannotOpen path => Elf.text "Could not open archive file: " ++ path ++ Elf.text "\n"
  | .file name size => Elf.text "   FILE: " ++ name ++ Elf.text " -- size: " ++
      Elf.text (toString size) ++ Elf.text "\n"
  | .notInArchive => Elf.text "File not in archive\n"
  | .noBuffer => Elf.text "Could not allocate buffer for file\n"
  | .contents content => content ++ Elf.text "\n"
  | .cannotCreate => Elf.text "ERROR: could not create output file\n"

/-- The calls of the VFS other than `read`. -/
inductive Call
  | opened (path : CString) (fd : Int)
  | created (path : CString) (ok : Bool)
  | written (fd : Int) (data : List UInt8)
  | closed (fd : Int)
  deriving DecidableEq, Repr

/-- A header that was looked at, and what the read before it delivered. -/
structure Examined where
  delivered : List UInt8
  hdr : List UInt8
  deriving DecidableEq, Repr

/-- The kernel while it works on an archive: the files, the memory and the lines on the
terminal, then what it has called, the data that reads have stored, with the address, and the
headers it has looked at. -/
structure Archiver (D I P W : Type*) where
  vfs : Vfs D I P W
  mem : Bytes
  terminal : List Line
  calls : List Call
  stores : List (Nat × List UInt8)
  examined : List Examined

/-- The block for the header, the block for the content by its size, and the bytes behind
`hdr` on the stack up to the first zero. -/
structure Blocks where
  header : Nat
  content : Nat → Nat
  behind : CString

def loadBytes (mem : Bytes) (addr n : Nat) : List UInt8 := (List.range n).map fun i => mem (addr + i)

/-- How the search for a member ended, if it did. -/
inductive Search
  | running
  | missing
  | found (hdr : List UInt8)
  deriving DecidableEq, Repr

namespace Archiver

variable {D I P W : Type*} (drivers : D → FilesystemDriver W I P) (M : Blocks)

def print (s : Archiver D I P W) (line : Line) : Archiver D I P W :=
  { s with terminal := s.terminal ++ [line] }

def openFile (s : Archiver D I P W) (path : CString) : Int × Archiver D I P W :=
  let (fd, vfs) := s.vfs.openFile drivers path
  (fd, { s with vfs, calls := s.calls ++ [.opened path fd] })

def close (s : Archiver D I P W) (fd : Int) : Archiver D I P W :=
  { s with vfs := s.vfs.close drivers fd, calls := s.calls ++ [.closed fd] }

def create (s : Archiver D I P W) (path : CString) : Bool × Archiver D I P W :=
  let (ok, vfs) := s.vfs.create drivers path false
  (ok, { s with vfs, calls := s.calls ++ [.created path ok] })

def write (s : Archiver D I P W) (fd : Int) (data : List UInt8) : Archiver D I P W :=
  { s with vfs := (s.vfs.write drivers fd data).2, calls := s.calls ++ [.written fd data] }

def read (s : Archiver D I P W) (fd : Int) (buffer count : Nat) : Archiver D I P W :=
  let (_, data, vfs) := s.vfs.read drivers fd count
  { s with
    vfs
    mem := overlay s.mem buffer data.length (bytesOf data)
    stores := s.stores ++ [(buffer, data)] }

theorem read_mem (s : Archiver D I P W) (fd : Int) (buffer count : Nat) :
    (s.read drivers fd buffer count).mem = overlay s.mem buffer
      (s.vfs.read drivers fd count).2.1.length (bytesOf (s.vfs.read drivers fd count).2.1) := rfl

/-- `VFS::read(fd, header, 512); memcpy(&hdr, header, 512);` -/
def readHeader (s : Archiver D I P W) (fd : Int) : List UInt8 × Archiver D I P W :=
  let s' := s.read drivers fd M.header headerSize
  let hdr := loadBytes s'.mem M.header headerSize
  (hdr, { s' with
    examined := s.examined ++ [⟨(s.vfs.read drivers fd headerSize).2.1, hdr⟩] })

theorem readHeader_fst (s : Archiver D I P W) (fd : Int) : (s.readHeader drivers M fd).1 =
    loadBytes (s.read drivers fd M.header headerSize).mem M.header headerSize := by
  rw [readHeader]

theorem readHeader_examined (s : Archiver D I P W) (fd : Int) :
    (s.readHeader drivers M fd).2.examined = s.examined ++
      [⟨(s.vfs.read drivers fd headerSize).2.1, (s.readHeader drivers M fd).1⟩] := by
  rw [readHeader]

/-- The loop of `listFiles`. -/
def listLoop (fd : Int) : Nat → Archiver D I P W → Bool × Archiver D I P W
  | 0, s => (false, s)
  | n + 1, s =>
    let (hdr, s) := s.readHeader drivers M fd
    if magic hdr = 0 then (true, s)
    else listLoop fd n
      ((s.print (.file (fileName M.behind hdr) (memberSize hdr))).read drivers fd 0 (skipSize hdr))

/-- The loop of `catFile` and `extractFile`. -/
def findLoop (fd : Int) (filename : CString) : Nat → (hdr : List UInt8) → (offset : Nat) →
    Archiver D I P W → Search × Archiver D I P W
  | 0, hdr, _, s => (if filename = fileName M.behind hdr then .found hdr else .running, s)
  | n + 1, hdr, offset, s =>
    if filename = fileName M.behind hdr then (.found hdr, s)
    else
      let (hdr, s) := (s.read drivers fd 0 offset).readHeader drivers M fd
      if magic hdr = 0 then (.missing, s)
      else findLoop fd filename n hdr (skipSize hdr) s

def listFiles (s : Archiver D I P W) (path : CString) (passes : Nat) : Bool × Archiver D I P W :=
  let (fd, s) := s.openFile drivers path
  if fd < 0 then (true, s.print (.cannotOpen path))
  else
    let (done, s) := s.listLoop drivers M fd passes
    (done, if done then s.close drivers fd else s)

/-- The content of a member and the zero behind it. -/
def readContent (s : Archiver D I P W) (fd : Int) (content size : Nat) : Archiver D I P W :=
  let s := s.read drivers fd content size
  { s with mem := Function.update s.mem (content + size) 0 }

/-- `catFile` and `extractFile` up to the point where the content has been read; `use` is what
they do with it. -/
def withMember (s : Archiver D I P W) (archive filename : CString) (passes : Nat)
    (use : Int → (content size : Nat) → Archiver D I P W → Archiver D I P W) :
    Bool × Archiver D I P W :=
  let (fd, s) := s.openFile drivers archive
  if fd < 0 then (true, s.print (.cannotOpen archive))
  else match s.findLoop drivers M fd filename passes (List.replicate headerSize 0) 0 with
    | (.running, s) => (false, s)
    | (.missing, s) => (true, (s.print .notInArchive).close drivers fd)
    | (.found hdr, s) =>
      let size := memberSize hdr
      let content := M.content (size + 1)
      if content = 0 then (true, (s.print .noBuffer).close drivers fd)
      else (true, use fd content size (s.readContent drivers fd content size))

/-- What `catFile` does with the content. -/
def printContent (fd : Int) (content size : Nat) (s : Archiver D I P W) : Archiver D I P W :=
  (s.print (.contents ((loadBytes s.mem content (size + 1)).takeWhile (· ≠ 0)))).close drivers fd

def catFile (s : Archiver D I P W) (archive filename : CString) (passes : Nat) :
    Bool × Archiver D I P W :=
  s.withMember drivers M archive filename passes (printContent drivers)

/-- What `extractFile` does with the content. -/
def writeOut (target : CString) (fd : Int) (content size : Nat) (s : Archiver D I P W) :
    Archiver D I P W :=
  let (ok, s) := s.create drivers target
  if !ok then (s.print .cannotCreate).close drivers fd
  else
    let (out, s) := s.openFile drivers target
    ((s.write drivers out (loadBytes s.mem content size)).close drivers fd).close drivers out

def extractFile (s : Archiver D I P W) (archive filename target : CString) (passes : Nat) :
    Bool × Archiver D I P W :=
  s.withMember drivers M archive filename passes (writeOut drivers target)

end Archiver

/-- The three functions. -/
inductive Command
  | list
  | cat (filename : CString)
  | extract (filename target : CString)
  deriving DecidableEq, Repr

/-- The name a function looks for. -/
def Command.wanted : Command → Option CString
  | .list => none
  | .cat filename => some filename
  | .extract filename _ => some filename

def Command.run {D I P W : Type*} (drivers : D → FilesystemDriver W I P) (M : Blocks)
    (s : Archiver D I P W) (archive : CString) (passes : Nat) : Command → Bool × Archiver D I P W
  | .list => s.listFiles drivers M archive passes
  | .cat filename => s.catFile drivers M archive filename passes
  | .extract filename target => s.extractFile drivers M archive filename target passes

end WengShiOS.FileFormats.Tar
