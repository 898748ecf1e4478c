import WengShiOS.Fs.Ext2.Blocks
import WengShiOS.Fs.Vfs

/-! # Directories

`src/fs/ext2/ext2.cpp`: a directory is a file whose blocks hold chains of entries, each
with the distance `rec_len` to the next. Every function on directories walks these chains
in the same way and stops at the first entry it can use, so the walk is written once
(`entries`) and the functions differ in what they look for. -/

namespace WengShiOS.Fs.Ext2

open Math Math.Prog

/-- The offsets at which the loop
`while (offset < block_size) { if (rec_len == 0) break; …; offset += rec_len; }`
looks at an entry. -/
def walk (blockSize : Nat) (buf : Bytes) : (fuel offset : Nat) → List Nat
  | 0, _ => []
  | fuel + 1, offset =>
    if offset < blockSize then
      if DirEntry.recLen buf offset = 0 then []
      else offset :: walk blockSize buf fuel (offset + DirEntry.recLen buf offset)
    else []

/-- Every entry that is passed is at least one byte long. -/
def entries (blockSize : Nat) (buf : Bytes) : List Nat := walk blockSize buf blockSize 0

/-- `(size + block_size - 1) / block_size` -/
def FsInstance.numBlocks (fs : FsInstance) (inode : Inode) : Nat :=
  u32 (inode.size + fs.blockSize - 1) / fs.blockSize

/-- The entry is in use and has this name. -/
def isNamed (buf : Bytes) (name : CString) (offset : Nat) : Bool :=
  DirEntry.inode buf offset ≠ 0 && DirEntry.nameLen buf offset = name.length &&
    DirEntry.name buf offset name.length = name

/-- The byte `'.'`. -/
def dot : UInt8 := 0x2E

/-- The entry is in use and is neither `.` nor `..`. -/
def isChild (buf : Bytes) (offset : Nat) : Bool :=
  let isDot := DirEntry.nameLen buf offset = 1 && DirEntry.name buf offset 1 = [dot]
  let isDotDot := DirEntry.nameLen buf offset = 2 && DirEntry.name buf offset 2 = [dot, dot]
  DirEntry.inode buf offset ≠ 0 && !isDot && !isDotDot

/-! ### Lookup -/

/-- The loop of `lookupInDir` over the blocks that are left. -/
def lookupLoop (dirInode : Inode) (name : CString) : (n b : Nat) → Ext2M Nat
  | 0, _ => pure 0
  | n + 1, b => do
    let fs ← getState
    let physBlock ← inodeBlockAt dirInode b
    if physBlock = 0 then lookupLoop dirInode name n (b + 1)
    else
      match ← readBlock physBlock with
      | none => lookupLoop dirInode name n (b + 1)
      | some buf =>
        match (entries fs.blockSize buf).find? (isNamed buf name) with
        | none => lookupLoop dirInode name n (b + 1)
        | some offset => pure (DirEntry.inode buf offset)

/-- The inode of a name, 0 if the directory has no such entry. -/
def lookupInDir (dirInode : Inode) (name : CString) : Ext2M Nat := do
  let fs ← getState
  if !dirInode.isDir then pure 0
  else withBuffer fs.blockSize 0 <| lookupLoop dirInode name (fs.numBlocks dirInode) 0

/-! ### Paths -/

/-- The inode of a path component in the directory `current`; an empty component is
skipped. -/
def enter (current : Nat) (component : CString) : Ext2M Nat :=
  if component = [] then pure current
  else do
    match ← readInode current with
    | none => pure 0
    | some dirInode => lookupInDir dirInode component

/-- The loop of `resolvePathToInode`, with a buffer of `size` bytes for the component;
what does not fit into it is dropped. -/
def resolveLoop (size : Nat) : (path : CString) → (current : Nat) → (component : CString) →
    Ext2M Nat
  | [], current, component => enter current component
  | c :: path, current, component =>
    if c = slash then do
      let current ← enter current component
      if current = 0 then pure 0 else resolveLoop size path current []
    else if component.length < size - 1 then resolveLoop size path current (component ++ [c])
    else resolveLoop size path current component

/-- `sizeof(component)`. -/
def componentSize : Nat := 64

def resolvePathToInode (path : CString) : Ext2M Nat :=
  resolveLoop componentSize path rootInode []

/-- `sizeof(parent_path)`. -/
def parentPathSize : Nat := 128

/-- The path before the last slash and the name after it; none if the former does not
fit into its buffer or the latter is empty. -/
def splitPath (path : CString) : Option (CString × CString) :=
  let name := (path.reverse.takeWhile (· ≠ slash)).reverse
  let plen := path.length - name.length - 1
  if slash ∈ path ∧ parentPathSize ≤ plen then none
  else if name = [] then none
  else some (if slash ∈ path then path.take plen else [], name)

/-! ### Insertion -/

/-- `actual_used`. -/
def actualUsed (buf : Bytes) (offset : Nat) : Nat :=
  if DirEntry.inode buf offset = 0 then 0 else dirEntryMinSize (DirEntry.nameLen buf offset)

/-- `slack >= needed` -/
def hasRoom (buf : Bytes) (needed offset : Nat) : Bool :=
  needed ≤ u32Sub (DirEntry.recLen buf offset) (actualUsed buf offset)

/-- The fields of an entry but its length. -/
def fillEntry (buf : Bytes) (offset childInode : Nat) (name : CString) (fileType : Nat) : Bytes :=
  let nameLen := name.length % 256
  let buf := DirEntry.setInode buf offset childInode
  let buf := DirEntry.setNameLen buf offset nameLen
  let buf := DirEntry.setFileType buf offset fileType
  DirEntry.setName buf offset name nameLen

/-- The new entry takes over an empty one, or the end of one that is in use. -/
def placeEntry (buf : Bytes) (offset childInode : Nat) (name : CString) (fileType : Nat) : Bytes :=
  if DirEntry.inode buf offset = 0 then fillEntry buf offset childInode name fileType
  else
    let used := actualUsed buf offset
    let oldRecLen := DirEntry.recLen buf offset
    let buf := DirEntry.setRecLen buf offset used
    let buf := DirEntry.setRecLen buf (offset + used) (u32Sub oldRecLen used)
    fillEntry buf (offset + used) childInode name fileType

/-- The loop of `insertDirEntry` over the blocks that are left: the result of writing
the block with the new entry, or none if no block has room. -/
def insertLoop (dirInode : Inode) (name : CString) (childInode fileType : Nat) :
    (n b : Nat) → Ext2M (Option Bool)
  | 0, _ => pure none
  | n + 1, b => do
    let fs ← getState
    let physBlock ← inodeBlockAt dirInode b
    if physBlock = 0 then insertLoop dirInode name childInode fileType n (b + 1)
    else
      match ← readBlock physBlock with
      | none => insertLoop dirInode name childInode fileType n (b + 1)
      | some buf =>
        let needed := dirEntryMinSize (name.length % 256)
        match (entries fs.blockSize buf).find? (hasRoom buf needed) with
        | none => insertLoop dirInode name childInode fileType n (b + 1)
        | some offset =>
          let ok ← writeBlock physBlock (placeEntry buf offset childInode name fileType)
          pure (some ok)

/-- A block with the new entry alone. -/
def freshBlock (blockSize childInode : Nat) (name : CString) (fileType : Nat) : Bytes :=
  fillEntry (DirEntry.setRecLen (fun _ => 0) 0 blockSize) 0 childInode name fileType

/-- The new entry gets a block of its own at the end. -/
def appendEntry (dirInode : Inode) (name : CString) (childInode fileType : Nat) :
    Ext2M (Bool × Inode) := do
  let fs ← getState
  let (physBlock, dirInode) ← inodeBlockAtOrAlloc dirInode (fs.numBlocks dirInode)
  if physBlock = 0 then pure (false, dirInode)
  else if ← writeBlock physBlock (freshBlock fs.blockSize childInode name fileType) then
    pure (true, dirInode.setSize (dirInode.size + fs.blockSize))
  else pure (false, dirInode)

def insertDirEntry (dirInode : Inode) (name : CString) (childInode fileType : Nat) :
    Ext2M (Bool × Inode) := do
  let fs ← getState
  withBuffer fs.blockSize (false, dirInode) do
    match ← insertLoop dirInode name childInode fileType (fs.numBlocks dirInode) 0 with
    | some ok => pure (ok, dirInode)
    | none => appendEntry dirInode name childInode fileType

/-! ### Removal -/

/-- The first offset that is looked for, with the one before it. -/
def findWithPrev (found : Nat → Bool) : (prev : Option Nat) → List Nat → Option (Option Nat × Nat)
  | _, [] => none
  | prev, offset :: rest =>
    if found offset then some (prev, offset) else findWithPrev found (some offset) rest

/-- An entry is swallowed by the one before it; the first of a block is marked empty. -/
def cutEntry (buf : Bytes) (prev : Option Nat) (offset : Nat) : Bytes :=
  match prev with
  | some prev =>
    DirEntry.setRecLen buf prev (DirEntry.recLen buf prev + DirEntry.recLen buf offset)
  | none => DirEntry.setInode buf offset 0

/-- The loop of `removeDirEntry` over the blocks that are left. -/
def removeLoop (dirInode : Inode) (name : CString) : (n b : Nat) → Ext2M Bool
  | 0, _ => pure false
  | n + 1, b => do
    let fs ← getState
    let physBlock ← inodeBlockAt dirInode b
    if physBlock = 0 then removeLoop dirInode name n (b + 1)
    else
      match ← readBlock physBlock with
      | none => removeLoop dirInode name n (b + 1)
      | some buf =>
        match findWithPrev (isNamed buf name) none (entries fs.blockSize buf) with
        | none => removeLoop dirInode name n (b + 1)
        | some (prev, offset) => writeBlock physBlock (cutEntry buf prev offset)

def removeDirEntry (dirInode : Inode) (name : CString) : Ext2M Bool := do
  let fs ← getState
  withBuffer fs.blockSize false <| removeLoop dirInode name (fs.numBlocks dirInode) 0

/-! ### Listing -/

/-- The loop of `readdir` over the blocks that are left; `seen` children came before. -/
def readdirLoop (dirInode : Inode) (index : Int) : (n b seen : Nat) → Ext2M (Option DirEntry)
  | 0, _, _ => pure none
  | n + 1, b, seen => do
    let fs ← getState
    let physBlock ← inodeBlockAt dirInode b
    if physBlock = 0 then readdirLoop dirInode index n (b + 1) seen
    else
      match ← readBlock physBlock with
      | none => readdirLoop dirInode index n (b + 1) seen
      | some buf =>
        let children := (entries fs.blockSize buf).filter (isChild buf)
        match if seen ≤ index then children[(index - seen).toNat]? else none with
        | none => readdirLoop dirInode index n (b + 1) (seen + children.length)
        | some offset =>
          pure (some ⟨DirEntry.name buf offset (min (DirEntry.nameLen buf offset) 63),
            DirEntry.fileType buf offset = ftDir⟩)

/-- The loop of `rmdirPath` that looks for a child. -/
def hasChildrenLoop (dirInode : Inode) : (n b : Nat) → Ext2M Bool
  | 0, _ => pure false
  | n + 1, b => do
    let fs ← getState
    let physBlock ← inodeBlockAt dirInode b
    if physBlock = 0 then hasChildrenLoop dirInode n (b + 1)
    else
      match ← readBlock physBlock with
      | none => hasChildrenLoop dirInode n (b + 1)
      | some buf =>
        if (entries fs.blockSize buf).any (isChild buf) then pure true
        else hasChildrenLoop dirInode n (b + 1)

end WengShiOS.Fs.Ext2
