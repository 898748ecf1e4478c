import WengShiOS.Fs.Ext2.Access

/-! # A small image

A file system of 63 blocks of 1024 bytes in one group with 16 inodes. Its superblock is
in block 1, the group descriptor in block 2, the bitmaps in blocks 3 and 4, the inode
table in blocks 5 and 6, and block 7 is the root directory. The remaining blocks and the
inodes from 11 on are free. The images of the examples differ from it in a few fields. -/

namespace WengShiOS.Fs.Ext2

open Math Math.Prog

/-- A field that is stored: its width, its address and its value. -/
structure Field where
  width : Nat
  addr : Nat
  value : Nat

def stores (fields : List Field) (disk : Bytes) : Bytes :=
  fields.foldl (fun disk field => writeLE field.width disk field.addr field.value) disk

/-- An inode in the table of the small image: its mode, size, links and first blocks. -/
def inodeFields (inodeNum mode size links : Nat) (blocks : List Nat) : List Field :=
  let at' := 5120 + 128 * (inodeNum - 1)
  [⟨2, at', mode⟩, ⟨4, at' + 4, size⟩, ⟨2, at' + 26, links⟩, ⟨4, at' + 28, 2 * (blocks.filter (· ≠ 0)).length⟩] ++
    blocks.zipIdx.map fun (block, i) => ⟨4, at' + 40 + 4 * i, block⟩

/-- A directory entry at an address of the disk. -/
def entryFields (at' inodeNum recLen fileType : Nat) (name : CString) : List Field :=
  [⟨4, at', inodeNum⟩, ⟨2, at' + 4, recLen⟩, ⟨1, at' + 6, name.length⟩, ⟨1, at' + 7, fileType⟩] ++
    name.zipIdx.map fun (c, i) => ⟨1, at' + 8 + i, c.toNat⟩

def superblockFields : List Field :=
  [⟨4, 1024, 16⟩, ⟨4, 1028, 64⟩, ⟨4, 1036, 56⟩, ⟨4, 1040, 6⟩, ⟨4, 1044, 1⟩, ⟨4, 1048, 0⟩,
    ⟨4, 1056, 8192⟩, ⟨4, 1064, 16⟩, ⟨2, 1080, ext2Magic⟩, ⟨4, 1100, 1⟩, ⟨4, 1108, 11⟩,
    ⟨2, 1112, 128⟩]

def groupFields : List Field :=
  [⟨4, 2048, 3⟩, ⟨4, 2052, 4⟩, ⟨4, 2056, 5⟩, ⟨2, 2060, 56⟩, ⟨2, 2062, 6⟩, ⟨2, 2064, 1⟩]

/-- Blocks 1 to 7 and inodes 1 to 10 are in use. -/
def bitmapFields : List Field := [⟨1, 3072, 0x7F⟩, ⟨2, 4096, 0x3FF⟩]

def rootFields : List Field :=
  inodeFields rootInode (sIfdir ||| 0o755) 1024 2 [7] ++
    entryFields 7168 rootInode 12 ftDir [dot] ++ entryFields 7180 rootInode 1012 ftDir [dot, dot]

def smallDisk : Bytes :=
  stores (superblockFields ++ groupFields ++ bitmapFields ++ rootFields) fun _ => 0

/-- The volume after `mount` on a disk. -/
def mounted (disk : Bytes) : Volume :=
  (mount.exec ⟨⟨fun _ => 0, fun _ => 0, 0, 0⟩, disk⟩).2

def smallVolume : Volume := mounted smallDisk

/-- The small image with a regular file `a`, inode 11, whose blocks are given; blocks 8 to
`last` are in use. -/
def fileDisk (size : Nat) (blocks : List Nat) (last : Nat) : Bytes :=
  stores ([⟨4, 1036, 63 - last⟩, ⟨2, 2060, 63 - last⟩, ⟨4, 1040, 5⟩, ⟨2, 2062, 5⟩,
    ⟨8, 3072, 2 ^ last - 1⟩, ⟨2, 4096, 0x7FF⟩] ++ inodeFields 11 (sIfreg ||| 0o644) size 1 blocks ++
      [⟨2, 7184, 12⟩] ++ entryFields 7192 11 1000 ftRegFile [0x61]) smallDisk

/-- The handle of the file `a`. -/
def openA (v : Volume) : Option Handle := ((openFile [0x61]).exec v).1

example : (mount.exec ⟨⟨fun _ => 0, fun _ => 0, 0, 0⟩, smallDisk⟩).1 = true := by decide +kernel

end WengShiOS.Fs.Ext2
