import WengShiOS.Fs.Ext2.Directory

/-! # The ext2 driver

`src/fs/ext2/ext2.cpp`: the functions of the driver's table. What an open file keeps in
its handle, the number of its inode and a copy of it, is passed in and out by value. -/

namespace WengShiOS.Fs.Ext2

open Math Math.Prog

/-! ### Mounting -/

/-- The loop of `mount` that reads the group descriptors; `buf` holds the blocks read so
far. -/
def readDescriptorBlocks (bgdtBlock blockSize : Nat) : (n i : Nat) → (buf : Bytes) →
    Ext2M (Option Bytes)
  | 0, _, buf => pure (some buf)
  | n + 1, i, buf => do
    match ← readBlock (u32 (bgdtBlock + i)) with
    | none => pure none
    | some block =>
      readDescriptorBlocks bgdtBlock blockSize n (i + 1)
        (overlay buf (i * blockSize) blockSize block)

/-- The instance that the superblock describes, without its group descriptors. -/
def fromSuperblock (sb : Bytes) : FsInstance :=
  let fs : FsInstance := ⟨sb, fun _ => 0, 0, 0⟩
  let fs := { fs with blockSize := u32 (1024 * 2 ^ fs.logBlockSize) }
  let fs := if fs.revLevel = 0 then (fs.setInodeSize 128).setFirstIno 11 else fs
  { fs with groupCount := u32 (fs.blocksCount + fs.blockPerGroup - 1) / fs.blockPerGroup }

/-- `sizeof(FsInstance)`. -/
def fsInstanceSize : Nat := 1048

def mount : Ext2M Bool := do
  match ← readSectors 2 (superblockSize / sectorSize) with
  | none => pure false
  | some sb =>
    if readLE 2 sb 56 ≠ ext2Magic then pure false
    else
      match ← alloc fsInstanceSize with
      | none => pure false
      | some fsPtr =>
        let fs := fromSuperblock sb
        putState fs
        match ← alloc (groupDescSize * fs.groupCount) with
        | none =>
          free fsPtr
          pure false
        | some groupsPtr =>
          let descriptors ← withBuffer (u32 (fs.bgdtBlocksNeeded * fs.blockSize)) none <|
            readDescriptorBlocks fs.bgdtBlock fs.blockSize fs.bgdtBlocksNeeded 0 fun _ => 0
          match descriptors with
          | none =>
            free groupsPtr
            free fsPtr
            pure false
          | some buf =>
            putState { fs with groups := window buf 0 fs.bgdtBytes }
            pure true

/-! ### Files -/

/-- What the driver keeps in a file handle. -/
structure PrivateData where
  inodeNum : Nat
  inode : Inode

/-- `sizeof(PrivateData)`. -/
def privateDataSize : Nat := 132

abbrev Handle := FileHandle PrivateData

def openFile (path : CString) : Ext2M (Option Handle) := do
  let inodeNum ← resolvePathToInode path
  if inodeNum = 0 then pure none
  else
    withBuffer inodeStructSize none do
      match ← readInode inodeNum with
      | none => pure none
      | some inode =>
        match ← alloc privateDataSize with
        | none => pure none
        | some _ => pure (some ⟨⟨inodeNum, inode⟩, inode.size, inode.isDir⟩)

/-- The handle's private data is freed. -/
def close (_handle : Handle) : Ext2M Unit := free 0

/-- How `read` ends: whether all blocks could be read, what is in the caller's buffer,
and the inode of the handle. -/
structure ReadState where
  complete : Bool
  data : List UInt8
  inode : Inode

/-- The bytes of a buffer from `offset` on. -/
def slice (buf : Bytes) (offset n : Nat) : List UInt8 :=
  (List.range n).map fun i => buf (offset + i)

/-- The loop of `read`. Every pass stores at least one byte, so `count` bounds the number
of passes. -/
def readLoop (offset count : Nat) : (fuel : Nat) → (inode : Inode) → (data : List UInt8) →
    Ext2M ReadState
  | 0, inode, data => pure ⟨true, data, inode⟩
  | fuel + 1, inode, data =>
    if data.length < count then do
      let fs ← getState
      let filePos := u64 (offset + data.length)
      let logicalBlock := u32 (filePos / fs.blockSize)
      let offsetInBlock := filePos % fs.blockSize
      let (physBlock, inode) ← inodeBlockAtOrAlloc inode logicalBlock
      let chunk := min (fs.blockSize - offsetInBlock) (count - data.length)
      if physBlock = 0 then readLoop offset count fuel inode (data ++ List.replicate chunk 0)
      else
        match ← readBlock physBlock with
        | none => pure ⟨false, data, inode⟩
        | some buf => readLoop offset count fuel inode (data ++ slice buf offsetInBlock chunk)
    else pure ⟨true, data, inode⟩

/-- `count` after the comparison with the size of the file. -/
def clampCount (size offset count : Nat) : Nat :=
  if size < u64 (offset + count) then size - offset else count

/-- The value that `read` returns. -/
def ReadState.result (r : ReadState) : Int :=
  if r.complete ∨ 0 < r.data.length then toInt64 r.data.length else -1

def read (handle : Handle) (offset count : Nat) : Ext2M (Int × List UInt8 × Handle) := do
  let fs ← getState
  let inode := handle.fsPrivate.inode
  if inode.size ≤ offset then pure (0, [], handle)
  else
    let count := clampCount inode.size offset count
    withBuffer fs.blockSize (-1, [], handle) do
      let r ← readLoop offset count count inode []
      pure (r.result, r.data, { handle with fsPrivate := { handle.fsPrivate with inode := r.inode } })

/-- Store a chunk into a block: a part of a block is read, changed and written back. -/
def writeChunk (physBlock offsetInBlock : Nat) (chunk : List UInt8) : Ext2M Bool := do
  let fs ← getState
  if offsetInBlock ≠ 0 ∨ chunk.length ≠ fs.blockSize then
    match ← readBlock physBlock with
    | none => pure false
    | some buf =>
      writeBlock physBlock (overlay buf offsetInBlock chunk.length fun i => chunk.getD i 0)
  else
    writeBlock physBlock (overlay (fun _ => 0) 0 chunk.length fun i => chunk.getD i 0)

/-- The loop of `write`: the number of bytes written and the inode of the handle. -/
def writeLoop (offset : Nat) (data : List UInt8) : (fuel : Nat) → (inode : Inode) →
    (written : Nat) → Ext2M (Nat × Inode)
  | 0, inode, written => pure (written, inode)
  | fuel + 1, inode, written =>
    if written < data.length then do
      let fs ← getState
      let filePos := u64 (offset + written)
      let logicalBlock := u32 (filePos / fs.blockSize)
      let offsetInBlock := filePos % fs.blockSize
      let (physBlock, inode) ← inodeBlockAtOrAlloc inode logicalBlock
      if physBlock = 0 then pure (written, inode)
      else
        let chunk := min (fs.blockSize - offsetInBlock) (data.length - written)
        if ← writeChunk physBlock offsetInBlock ((data.drop written).take chunk) then
          writeLoop offset data fuel inode (written + chunk)
        else pure (written, inode)
    else pure (written, inode)

/-- The size after a write of which `written` bytes were stored. -/
def grow (handle : Handle) (inode : Inode) (newSize : Nat) : Handle :=
  if inode.size < newSize then
    let inode := inode.setSize newSize
    { handle with fsPrivate := { handle.fsPrivate with inode }, size := inode.size }
  else { handle with fsPrivate := { handle.fsPrivate with inode } }

/-- Whether the inode could be written back is not looked at. -/
def write (handle : Handle) (offset : Nat) (data : List UInt8) : Ext2M (Int × Handle) := do
  let fs ← getState
  let stored ← withBuffer fs.blockSize none do
    let r ← writeLoop offset data data.length handle.fsPrivate.inode 0
    pure (some r)
  match stored with
  | none => pure (-1, handle)
  | some (written, inode) =>
    let handle := grow handle inode (u64 (offset + written))
    let _ ← writeInode handle.fsPrivate.inodeNum handle.fsPrivate.inode
    pure (toInt64 written, handle)

def isDirectory (path : CString) : Ext2M Bool := do
  let inodeNum ← resolvePathToInode path
  if inodeNum = 0 then pure false
  else
    match ← readInode inodeNum with
    | none => pure false
    | some inode => pure inode.isDir

def readdir (path : CString) (index : Int) : Ext2M (Option DirEntry) := do
  let dirInodeNum ← resolvePathToInode path
  if dirInodeNum = 0 then pure none
  else
    match ← readInode dirInodeNum with
    | none => pure none
    | some dirInode =>
      if !dirInode.isDir then pure none
      else do
        let fs ← getState
        withBuffer fs.blockSize none <| readdirLoop dirInode index (fs.numBlocks dirInode) 0 0

/-! ### Names -/

/-- The directory a path ends in, and the last component. -/
structure Parent where
  inodeNum : Nat
  inode : Inode
  name : CString

/-- How `create`, `unlinkFile` and `rmdirPath` begin. -/
def openParent (path : CString) : Ext2M (Option Parent) := do
  match splitPath path with
  | none => pure none
  | some (parentPath, name) =>
    let parentInodeNum ← resolvePathToInode parentPath
    if parentInodeNum = 0 then pure none
    else
      match ← readInode parentInodeNum with
      | none => pure none
      | some parentInode => pure (some ⟨parentInodeNum, parentInode, name⟩)

/-- How `unlinkFile` and `rmdirPath` go on: the inode that has the name. -/
def openTarget (path : CString) : Ext2M (Option (Parent × Nat × Inode)) := do
  match ← openParent path with
  | none => pure none
  | some parent =>
    let targetInodeNum ← lookupInDir parent.inode parent.name
    if targetInodeNum = 0 then pure none
    else
      match ← readInode targetInodeNum with
      | none => pure none
      | some targetInode => pure (some (parent, targetInodeNum, targetInode))

/-- How they end: the blocks of the inode and the inode itself are freed. -/
def destroyInode (inodeNum : Nat) (inode : Inode) (finish : Inode → Inode) : Ext2M Bool := do
  let inode ← freeAllInodeBlocks inode
  let _ ← writeInode inodeNum (finish inode)
  freeInode inodeNum

def unlinkFile (path : CString) : Ext2M Bool := do
  match ← openTarget path with
  | none => pure false
  | some (parent, targetInodeNum, targetInode) =>
    if targetInode.isDir then pure false
    else if ← removeDirEntry parent.inode parent.name then
      let _ ← writeInode parent.inodeNum parent.inode
      destroyInode targetInodeNum targetInode fun inode => (inode.setLinksCount 0).setDtime 0
    else pure false

def rmdirPath (path : CString) : Ext2M Bool := do
  match ← openTarget path with
  | none => pure false
  | some (parent, targetInodeNum, targetInode) =>
    if !targetInode.isDir then pure false
    else
      let fs ← getState
      -- a failed `kmalloc` returns false, as a child does
      let hasChildren ← withBuffer fs.blockSize true <|
        hasChildrenLoop targetInode (fs.numBlocks targetInode) 0
      if hasChildren then pure false
      else if ← removeDirEntry parent.inode parent.name then
        let parentInode := parent.inode.setLinksCount (parent.inode.linksCount + 2 ^ 16 - 1)
        let _ ← writeInode parent.inodeNum parentInode
        destroyInode targetInodeNum targetInode fun inode => inode.setLinksCount 0
      else pure false

/-- The first part of `create`: the directory, and the number of a new inode. -/
def createTarget (path : CString) : Ext2M (Option (Parent × Nat)) := do
  match ← openParent path with
  | none => pure none
  | some parent =>
    if !parent.inode.isDir then pure none
    else if (← lookupInDir parent.inode parent.name) ≠ 0 then pure none
    else
      let newInodeNum ← allocInode
      if newInodeNum = 0 then pure none else pure (some (parent, newInodeNum))

/-- A directory block with `.` and `..`. -/
def dotBlock (blockSize newInodeNum parentInodeNum : Nat) : Bytes :=
  let dotLen := dirEntryMinSize 1
  let buf := DirEntry.setRecLen (fun _ => 0) 0 dotLen
  let buf := fillEntry buf 0 newInodeNum [dot] ftDir
  let buf := DirEntry.setRecLen buf dotLen (u32Sub blockSize dotLen)
  fillEntry buf dotLen parentInodeNum [dot, dot] ftDir

/-- The new inode before it has blocks. -/
def newInode (isDirectory : Bool) : Inode :=
  let inode := Inode.zero.setMode
    (if isDirectory then sIfdir ||| 0o755 else sIfreg ||| 0o644)
  Inode.setSize (inode.setLinksCount (if isDirectory then 2 else 1)) 0

/-- The first block of a new directory. -/
def createDotBlock (newInodeNum parentInodeNum : Nat) (inode : Inode) : Ext2M (Option Inode) := do
  let fs ← getState
  let dataBlock ← allocBlock
  if dataBlock = 0 then pure none
  else
    withBuffer fs.blockSize none do
      if ← writeBlock dataBlock (dotBlock fs.blockSize newInodeNum parentInodeNum) then
        let inode := Inode.setSize (inode.setBlock 0 dataBlock) fs.blockSize
        pure (some (inode.setSectors (fs.blockSize / 512)))
      else pure none

/-- The end of `create`: the new inode is written, entered into its directory, and the
directory's inode is written back. -/
def createLink (parent : Parent) (parentInode : Inode) (newInodeNum : Nat) (inode : Inode)
    (isDirectory : Bool) : Ext2M Bool := do
  if ← writeInode newInodeNum inode then
    let fileType := if isDirectory then ftDir else ftRegFile
    match ← insertDirEntry parentInode parent.name newInodeNum fileType with
    | (false, _) => pure false
    | (true, parentInode) => writeInode parent.inodeNum parentInode
  else pure false

/-- The rest of `create`, once there is an inode number. -/
def createInode (parent : Parent) (newInodeNum : Nat) (isDirectory : Bool) : Ext2M Bool := do
  if isDirectory then
    match ← createDotBlock newInodeNum parent.inodeNum (newInode true) with
    | none => pure false
    | some inode =>
      let parentInode := parent.inode.setLinksCount (parent.inode.linksCount + 1)
      createLink parent parentInode newInodeNum inode true
  else createLink parent parent.inode newInodeNum (newInode false) false

def create (path : CString) (isDirectory : Bool) : Ext2M Bool := do
  match ← createTarget path with
  | none => pure false
  | some (parent, newInodeNum) => createInode parent newInodeNum isDirectory

end WengShiOS.Fs.Ext2
