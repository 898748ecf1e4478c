import WengShiOS.Math.Bitmap
import WengShiOS.Math.DeviceProgram

/-! # The structures of ext2

`src/fs/ext2/ext2.cpp`, the packed structures. A structure is the buffer it lies in: a
field is read from its offset and written back there, so that what the driver copies to
and from the disk are the bytes themselves. Fields have 2 or 4 bytes, and a value that
is stored into one is cut to them. -/

namespace WengShiOS.Fs.Ext2

open Math

/-- `uint32_t` arithmetic. -/
def u32 (n : Nat) : Nat := n % 2 ^ 32

def u32Sub (m n : Nat) : Nat := u32 (m + 2 ^ 32 - n)

/-- `uint64_t` arithmetic. -/
def u64 (n : Nat) : Nat := n % 2 ^ 64

def ext2Magic : Nat := 0xEF53

def rootInode : Nat := 2

def sIfdir : Nat := 0x4000

def sIfreg : Nat := 0x8000

def sIfmt : Nat := 0xF000

/-- `sizeof(Superblock)`. -/
def superblockSize : Nat := 1024

/-- `sizeof(GroupDesc)`. -/
def groupDescSize : Nat := 32

/-- `sizeof(Inode)`. -/
def inodeStructSize : Nat := 128

/-- `sizeof(DirEntryOnDisk)`, the header in front of a name. -/
def dirEntryHeader : Nat := 8

/-- A mounted file system: the superblock and the group descriptors as they are kept
in memory. -/
structure FsInstance where
  sb : Bytes
  groups : Bytes
  groupCount : Nat
  blockSize : Nat

namespace FsInstance

variable (fs : FsInstance) (group : Nat)

def blocksCount : Nat := readLE 4 fs.sb 4

def freeBlocksCount : Nat := readLE 4 fs.sb 12

def freeInodesCount : Nat := readLE 4 fs.sb 16

def firstDataBlock : Nat := readLE 4 fs.sb 20

def logBlockSize : Nat := readLE 4 fs.sb 24

def blockPerGroup : Nat := readLE 4 fs.sb 32

def inodesPerGroup : Nat := readLE 4 fs.sb 40

def revLevel : Nat := readLE 4 fs.sb 76

def firstIno : Nat := readLE 4 fs.sb 84

def inodeSize : Nat := readLE 2 fs.sb 88

def setFreeBlocksCount (value : Nat) : FsInstance := { fs with sb := writeLE 4 fs.sb 12 value }

def setFreeInodesCount (value : Nat) : FsInstance := { fs with sb := writeLE 4 fs.sb 16 value }

def setFirstIno (value : Nat) : FsInstance := { fs with sb := writeLE 4 fs.sb 84 value }

def setInodeSize (value : Nat) : FsInstance := { fs with sb := writeLE 2 fs.sb 88 value }

/-- `groups[group].block_bitmap`, and so on. -/
def blockBitmap : Nat := readLE 4 fs.groups (groupDescSize * group)

def inodeBitmap : Nat := readLE 4 fs.groups (groupDescSize * group + 4)

def inodeTable : Nat := readLE 4 fs.groups (groupDescSize * group + 8)

def groupFreeBlocks : Nat := readLE 2 fs.groups (groupDescSize * group + 12)

def groupFreeInodes : Nat := readLE 2 fs.groups (groupDescSize * group + 14)

def setGroupFreeBlocks (value : Nat) : FsInstance :=
  { fs with groups := writeLE 2 fs.groups (groupDescSize * group + 12) value }

def setGroupFreeInodes (value : Nat) : FsInstance :=
  { fs with groups := writeLE 2 fs.groups (groupDescSize * group + 14) value }

/-- `fs->block_size / sizeof(uint32_t)` -/
def ptrsPerBlock : Nat := fs.blockSize / 4

end FsInstance

/-! ### Inodes -/

/-- An inode in memory: a buffer of 128 bytes. -/
abbrev Inode := Bytes

namespace Inode

variable (inode : Inode)

def mode : Nat := readLE 2 inode 0

def size : Nat := readLE 4 inode 4

def linksCount : Nat := readLE 2 inode 26

/-- `blocks`, in units of 512 bytes. -/
def sectors : Nat := readLE 4 inode 28

/-- `block[i]`. -/
def block (i : Nat) : Nat := readLE 4 inode (40 + 4 * i)

def setMode (value : Nat) : Inode := writeLE 2 inode 0 value

def setSize (value : Nat) : Inode := writeLE 4 inode 4 value

def setDtime (value : Nat) : Inode := writeLE 4 inode 20 value

def setLinksCount (value : Nat) : Inode := writeLE 2 inode 26 value

def setSectors (value : Nat) : Inode := writeLE 4 inode 28 value

def setBlock (i value : Nat) : Inode := writeLE 4 inode (40 + 4 * i) value

/-- `(mode & S_IFMT) == S_IFDIR` -/
def isDir : Bool := mode inode &&& sIfmt = sIfdir

/-- An inode of zeros. -/
def zero : Inode := fun _ => 0

end Inode

/-! ### Directory entries

The entry at an offset of a directory block. -/

namespace DirEntry

variable (buf : Bytes) (offset : Nat)

def inode : Nat := readLE 4 buf offset

def recLen : Nat := readLE 2 buf (offset + 4)

def nameLen : Nat := readLE 1 buf (offset + 6)

def fileType : Nat := readLE 1 buf (offset + 7)

/-- The first `n` bytes of the name. -/
def name (n : Nat) : List UInt8 := (List.range n).map fun i => buf (offset + dirEntryHeader + i)

def setInode (value : Nat) : Bytes := writeLE 4 buf offset value

def setRecLen (value : Nat) : Bytes := writeLE 2 buf (offset + 4) value

def setNameLen (value : Nat) : Bytes := writeLE 1 buf (offset + 6) value

def setFileType (value : Nat) : Bytes := writeLE 1 buf (offset + 7) value

/-- `memcpy(name_dst, name, n)` -/
def setName (name : List UInt8) (n : Nat) : Bytes :=
  overlay buf (offset + dirEntryHeader) n fun i => name.getD i 0

end DirEntry

def ftRegFile : Nat := 1

def ftDir : Nat := 2

/-- `(sizeof(DirEntryOnDisk) + name_len + 3) & ~3u` -/
def dirEntryMinSize (nameLen : Nat) : Nat := (dirEntryHeader + nameLen + 3) / 4 * 4

end WengShiOS.Fs.Ext2
