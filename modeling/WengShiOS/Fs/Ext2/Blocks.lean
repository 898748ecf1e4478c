import WengShiOS.Fs.Ext2.Layout

/-! # Blocks, inodes and their allocation

`src/fs/ext2/ext2.cpp`: access to blocks and to the inode table, the allocation and
release of blocks and inodes, and the map from the blocks of a file to the blocks of the
device. The device has sectors of 512 bytes.

A buffer lives from its `kmalloc` to its `kfree`, and a failed `kmalloc` ends the
function, so both are written once, in `withBuffer`. Reading past the end of a buffer
gives zeros, and what is written past it is lost. -/

namespace WengShiOS.Fs.Ext2

open Math Math.Prog

/-- The driver's functions. -/
abbrev Ext2M := Prog FsInstance

/-- Run `body` between `kmalloc` and `kfree`, or return `failed`. -/
def withBuffer {α : Type} (size : Nat) (failed : α) (body : Ext2M α) : Ext2M α := do
  match ← alloc size with
  | none => pure failed
  | some ptr =>
    let result ← body
    free ptr
    pure result

def readBlock (blockNum : Nat) : Ext2M (Option Bytes) := do
  let fs ← getState
  let sectorsPerBlock := fs.blockSize / sectorSize
  readSectors (blockNum * sectorsPerBlock) sectorsPerBlock

def writeBlock (blockNum : Nat) (buf : Bytes) : Ext2M Bool := do
  let fs ← getState
  let sectorsPerBlock := fs.blockSize / sectorSize
  writeSectors (blockNum * sectorsPerBlock) sectorsPerBlock buf

def writeSuperblock : Ext2M Bool := do
  let fs ← getState
  writeSectors 2 (superblockSize / sectorSize) fs.sb

namespace FsInstance

variable (fs : FsInstance)

def bgdtBlock : Nat := u32 (fs.firstDataBlock + 1)

def bgdtBytes : Nat := u32 (groupDescSize * fs.groupCount)

def bgdtBlocksNeeded : Nat := u32 (fs.bgdtBytes + fs.blockSize - 1) / fs.blockSize

end FsInstance

/-- The loop of `writeGroupDescriptors` over the blocks that are left. -/
def writeDescriptorBlocks (bgdtBlock : Nat) (buf : Bytes) (blockSize : Nat) :
    (n i : Nat) → Ext2M Bool
  | 0, _ => pure true
  | n + 1, i => do
    if ← writeBlock (u32 (bgdtBlock + i)) (fun j => buf (i * blockSize + j)) then
      writeDescriptorBlocks bgdtBlock buf blockSize n (i + 1)
    else pure false

def writeGroupDescriptors : Ext2M Bool := do
  let fs ← getState
  withBuffer (u32 (fs.bgdtBlocksNeeded * fs.blockSize)) false <|
    writeDescriptorBlocks fs.bgdtBlock (window fs.groups 0 fs.bgdtBytes) fs.blockSize
      fs.bgdtBlocksNeeded 0

/-! ### The inode table -/

/-- `fs->sb.inode_size ? fs->sb.inode_size : 128` -/
def FsInstance.inodeSizeOr128 (fs : FsInstance) : Nat :=
  if fs.inodeSize ≠ 0 then fs.inodeSize else 128

/-- The block of an inode and its offset there. -/
def FsInstance.locateInode (fs : FsInstance) (inodeNum : Nat) : Option (Nat × Nat) :=
  if inodeNum = 0 then none
  else
    let group := (inodeNum - 1) / fs.inodesPerGroup
    let indexInGroup := (inodeNum - 1) % fs.inodesPerGroup
    if fs.groupCount ≤ group then none
    else
      let byteOffsetInTable := u32 (indexInGroup * fs.inodeSizeOr128)
      some (u32 (fs.inodeTable group + byteOffsetInTable / fs.blockSize),
        byteOffsetInTable % fs.blockSize)

/-- Bytes of the structure beyond a smaller `inode_size` are not copied; they read as
zero here. -/
def readInode (inodeNum : Nat) : Ext2M (Option Inode) := do
  let fs ← getState
  match fs.locateInode inodeNum with
  | none => pure none
  | some (blockNum, offsetInBlock) =>
    withBuffer fs.blockSize none do
      match ← readBlock blockNum with
      | none => pure none
      | some buf => pure (some (window buf offsetInBlock (min inodeStructSize fs.inodeSizeOr128)))

def writeInode (inodeNum : Nat) (inode : Inode) : Ext2M Bool := do
  let fs ← getState
  match fs.locateInode inodeNum with
  | none => pure false
  | some (blockNum, offsetInBlock) =>
    withBuffer fs.blockSize false do
      match ← readBlock blockNum with
      | none => pure false
      | some buf => writeBlock blockNum (overlay buf offsetInBlock inodeStructSize inode)

/-! ### Bitmaps -/

/-- The first clear bit from `i` on, among the next `n`. -/
def findClear (bitmap : Bytes) : (n i : Nat) → Option Nat
  | 0, _ => none
  | n + 1, i => if testBit bitmap i then findClear bitmap n (i + 1) else some i

/-- Set the first clear bit of a bitmap block; its position. -/
def claimBit (bitmapBlock limit : Nat) : Ext2M (Option Nat) := do
  let fs ← getState
  withBuffer fs.blockSize none do
    match ← readBlock bitmapBlock with
    | none => pure none
    | some bitmap =>
      match findClear bitmap limit 0 with
      | none => pure none
      | some freeBit =>
        if ← writeBlock bitmapBlock (setBit bitmap freeBit) then pure (some freeBit) else pure none

/-- Clear a bit of a bitmap block. -/
def releaseBit (bitmapBlock index : Nat) : Ext2M Bool := do
  let fs ← getState
  withBuffer fs.blockSize false do
    match ← readBlock bitmapBlock with
    | none => pure false
    | some bitmap => writeBlock bitmapBlock (clearBit bitmap index)

/-- New counters in memory, then on the disk; the results of the two writes are not
looked at. -/
def updateCounters (f : FsInstance → FsInstance) : Ext2M Unit := do
  let fs ← getState
  putState (f fs)
  let _ ← writeGroupDescriptors
  let _ ← writeSuperblock
  pure ()

/-- `groups[group].free_blocks_count--; sb.free_blocks_count--;` -/
def FsInstance.takeBlock (fs : FsInstance) (group : Nat) : FsInstance :=
  (fs.setGroupFreeBlocks group (fs.groupFreeBlocks group + 2 ^ 16 - 1)).setFreeBlocksCount
    (fs.freeBlocksCount + 2 ^ 32 - 1)

def FsInstance.giveBlock (fs : FsInstance) (group : Nat) : FsInstance :=
  (fs.setGroupFreeBlocks group (fs.groupFreeBlocks group + 1)).setFreeBlocksCount
    (fs.freeBlocksCount + 1)

def FsInstance.takeInode (fs : FsInstance) (group : Nat) : FsInstance :=
  (fs.setGroupFreeInodes group (fs.groupFreeInodes group + 2 ^ 16 - 1)).setFreeInodesCount
    (fs.freeInodesCount + 2 ^ 32 - 1)

def FsInstance.giveInode (fs : FsInstance) (group : Nat) : FsInstance :=
  (fs.setGroupFreeInodes group (fs.groupFreeInodes group + 1)).setFreeInodesCount
    (fs.freeInodesCount + 1)

/-- `blocks_in_group`. -/
def FsInstance.blocksInGroup (fs : FsInstance) (group : Nat) : Nat :=
  let totalBlocks := u32Sub fs.blocksCount fs.firstDataBlock
  let remaining := u32Sub totalBlocks (u32 (group * fs.blockPerGroup))
  if remaining < fs.blockPerGroup then remaining else fs.blockPerGroup

/-- What the code for blocks and the code for inodes differ in: the counter of a group,
its bitmap and the number of bits that are searched, the updates of the counters, and how
a number is made of a group and a bit and taken apart again. -/
structure Allocator where
  freeCount : FsInstance → (group : Nat) → Nat
  bitmap : FsInstance → (group : Nat) → Nat
  limit : FsInstance → (group : Nat) → Nat
  take : FsInstance → (group : Nat) → FsInstance
  give : FsInstance → (group : Nat) → FsInstance
  number : FsInstance → (group bit : Nat) → Nat
  locate : FsInstance → (num : Nat) → Nat × Nat

namespace Allocator

variable (A : Allocator)

/-- `allocBlockInGroup` and `allocInodeInGroup`. -/
def allocInGroup (group : Nat) : Ext2M Nat := do
  let fs ← getState
  if fs.groupCount ≤ group then pure 0
  else if A.freeCount fs group = 0 then pure 0
  else
    match ← claimBit (A.bitmap fs group) (A.limit fs group) with
    | none => pure 0
    | some freeBit =>
      updateCounters (A.take · group)
      pure (A.number fs group freeBit)

/-- The loop of `allocBlock` and `allocInode` over the groups that are left; the hint is
always group 0. -/
def allocLoop : (n group : Nat) → Ext2M Nat
  | 0, _ => pure 0
  | n + 1, group => do
    let found ← A.allocInGroup group
    if found ≠ 0 then pure found else allocLoop n (group + 1)

def alloc : Ext2M Nat := do
  let fs ← getState
  A.allocLoop fs.groupCount 0

/-- `freeBlock` and `freeInode`. -/
def free (num : Nat) : Ext2M Bool := do
  if num = 0 then pure false
  else
    let fs ← getState
    let (group, indexInGroup) := A.locate fs num
    if fs.groupCount ≤ group then pure false
    else if ← releaseBit (A.bitmap fs group) indexInGroup then
      updateCounters (A.give · group)
      pure true
    else pure false

end Allocator

def blockAllocator : Allocator where
  freeCount := FsInstance.groupFreeBlocks
  bitmap := FsInstance.blockBitmap
  limit := FsInstance.blocksInGroup
  take := FsInstance.takeBlock
  give := FsInstance.giveBlock
  number fs group freeBit := u32 (fs.firstDataBlock + group * fs.blockPerGroup + freeBit)
  locate fs blockNum :=
    let relative := u32Sub blockNum fs.firstDataBlock
    (relative / fs.blockPerGroup, relative % fs.blockPerGroup)

def inodeAllocator : Allocator where
  freeCount := FsInstance.groupFreeInodes
  bitmap := FsInstance.inodeBitmap
  limit fs _ := fs.inodesPerGroup
  take := FsInstance.takeInode
  give := FsInstance.giveInode
  number fs group freeBit := u32 (group * fs.inodesPerGroup + freeBit + 1)
  locate fs inodeNum :=
    ((inodeNum - 1) / fs.inodesPerGroup, (inodeNum - 1) % fs.inodesPerGroup)

def allocBlock : Ext2M Nat := blockAllocator.alloc

def allocInode : Ext2M Nat := inodeAllocator.alloc

def freeBlock (blockNum : Nat) : Ext2M Bool := blockAllocator.free blockNum

def freeInode (inodeNum : Nat) : Ext2M Bool := inodeAllocator.free inodeNum

/-! ### The blocks of a file -/

/-- `inode->blocks += fs->block_size / 512;` -/
def Inode.addSectors (inode : Inode) (blockSize : Nat) : Inode :=
  inode.setSectors (inode.sectors + blockSize / 512)

/-- `block[12]` gets a block of zeros if it has none. Whether the zeros were written is
not looked at. -/
def ensureIndirect (inode : Inode) : Ext2M (Bool × Inode) := do
  let fs ← getState
  if inode.block 12 ≠ 0 then pure (true, inode)
  else
    let newIndirect ← allocBlock
    if newIndirect = 0 then pure (false, inode)
    else
      withBuffer fs.blockSize (false, inode) do
        let _ ← writeBlock newIndirect fun _ => 0
        pure (true, Inode.addSectors (inode.setBlock 12 newIndirect) fs.blockSize)

/-- The part of `inodeBlockAtOrAlloc` for entry `index` of the indirect block. -/
def indirectOrAlloc (inode : Inode) (index : Nat) : Ext2M (Nat × Inode) := do
  let fs ← getState
  withBuffer fs.blockSize (0, inode) do
    match ← readBlock (inode.block 12) with
    | none => pure (0, inode)
    | some indirect =>
      let result := readLE 4 indirect (4 * index)
      if result ≠ 0 then pure (result, inode)
      else
        let result ← allocBlock
        if result = 0 then pure (0, inode)
        else
          let _ ← writeBlock (inode.block 12) (writeLE 4 indirect (4 * index) result)
          pure (result, inode.addSectors fs.blockSize)

/-- The block of the device for block `index` of the file, allocated if there is none;
0 if there is none to be had. The inode is changed in memory only. -/
def inodeBlockAtOrAlloc (inode : Inode) (index : Nat) : Ext2M (Nat × Inode) := do
  let fs ← getState
  if index < 12 then
    if inode.block index ≠ 0 then pure (inode.block index, inode)
    else
      let newBlock ← allocBlock
      if newBlock = 0 then pure (0, inode)
      else pure (newBlock, Inode.addSectors (inode.setBlock index newBlock) fs.blockSize)
  else if fs.ptrsPerBlock ≤ index - 12 then pure (0, inode)
  else
    match ← ensureIndirect inode with
    | (false, inode) => pure (0, inode)
    | (true, inode) => indirectOrAlloc inode (index - 12)

def inodeBlockAt (inode : Inode) (index : Nat) : Ext2M Nat := do
  let fs ← getState
  if index < 12 then pure (inode.block index)
  else if fs.ptrsPerBlock ≤ index - 12 ∨ inode.block 12 = 0 then pure 0
  else
    withBuffer fs.blockSize 0 do
      match ← readBlock (inode.block 12) with
      | none => pure 0
      | some indirect => pure (readLE 4 indirect (4 * (index - 12)))

/-- The first loop of `freeAllInodeBlocks`, over the direct blocks that are left. -/
def freeDirectBlocks : (n i : Nat) → Inode → Ext2M Inode
  | 0, _, inode => pure inode
  | n + 1, i, inode =>
    if inode.block i ≠ 0 then do
      let _ ← freeBlock (inode.block i)
      freeDirectBlocks n (i + 1) (inode.setBlock i 0)
    else freeDirectBlocks n (i + 1) inode

/-- The loop over the entries of the indirect block. -/
def freeIndirectEntries (indirect : Bytes) : (n i : Nat) → Ext2M Unit
  | 0, _ => pure ()
  | n + 1, i => do
    if readLE 4 indirect (4 * i) ≠ 0 then
      let _ ← freeBlock (readLE 4 indirect (4 * i))
      freeIndirectEntries indirect n (i + 1)
    else freeIndirectEntries indirect n (i + 1)

def freeIndirectBlock (inode : Inode) : Ext2M Inode := do
  let fs ← getState
  if inode.block 12 ≠ 0 then
    withBuffer fs.blockSize () do
      match ← readBlock (inode.block 12) with
      | none => pure ()
      | some indirect => freeIndirectEntries indirect fs.ptrsPerBlock 0
    let _ ← freeBlock (inode.block 12)
    pure (inode.setBlock 12 0)
  else pure inode

def freeAllInodeBlocks (inode : Inode) : Ext2M Inode := do
  let inode ← freeDirectBlocks 12 0 inode
  let inode ← freeIndirectBlock inode
  pure (Inode.setSectors (inode.setSize 0) 0)

end WengShiOS.Fs.Ext2
