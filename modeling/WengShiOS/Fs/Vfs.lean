import Mathlib.Tactic
import WengShiOS.Math.Transition

/-! # The virtual file system

`src/fs/vfs.cpp`: the table of block devices, the mount table and the table of
open files, over drivers that are given by their function tables. A driver works
on a world `W` (disks, heap) that the VFS only passes along; its instances are
pointers of type `I`, and `P` is what it keeps in a file handle.

A path is the list of bytes before the terminating NUL, so `strcmp` is equality
and `strncmp(path, mp, strlen(mp)) == 0` says that `mp` is a prefix. -/

namespace WengShiOS.Fs

abbrev CString := List UInt8

def slash : UInt8 := 0x2F

/-- `strncpy(dst, src, size - 1); dst[size - 1] = 0;` -/
def copyBounded (size : Nat) (src : CString) : CString := src.take (size - 1)

def maxBlockDevices : Nat := 16

def maxMounts : Nat := 8

def maxOpenFiles : Nat := 32

instance : NeZero maxMounts := ⟨by decide⟩

instance : NeZero maxOpenFiles := ⟨by decide⟩

def invalidFd : Int := -1

/-- `static_cast<int64_t>` of a 64-bit value. -/
def toInt64 (n : Int) : Int := Int.bmod n (2 ^ 64)

/-- `static_cast<uint64_t>`. -/
def toUInt64 (n : Int) : Nat := (n % 2 ^ 64).toNat

structure BlockDevice (W : Type*) where
  name : CString
  deviceHandle : Int
  sectorCount : Nat
  sectorSize : Nat
  read : Int → Nat → Nat → W → Option (List UInt8) × W
  write : Int → Nat → Nat → List UInt8 → W → Bool × W

structure FileHandle (P : Type*) where
  fsPrivate : P
  size : Nat
  isDirectory : Bool

structure DirEntry where
  name : CString
  isDirectory : Bool
  deriving DecidableEq, Repr

/-- The function table of a driver. `read` and `write` may change the handle;
what `read` stores into the caller's buffer is part of its result. -/
structure FilesystemDriver (W I P : Type*) where
  name : CString
  mount : BlockDevice W → W → Option I × W
  unmount : I → W → W
  openFile : I → CString → W → Option (FileHandle P) × W
  close : I → FileHandle P → W → W
  read : I → FileHandle P → Nat → Nat → W → Int × List UInt8 × FileHandle P × W
  write : I → FileHandle P → Nat → List UInt8 → W → Int × FileHandle P × W
  isDirectory : I → CString → W → Bool × W
  readdir : I → CString → Int → W → Option DirEntry × W
  create : I → CString → Bool → W → Bool × W
  unlinkFile : I → CString → W → Bool × W
  rmdir : I → CString → W → Bool × W

/-- A slot of `g_mounts`. The driver is a pointer of type `D`. -/
structure Mount (D I W : Type*) where
  inUse : Bool
  mountPoint : CString
  deviceName : CString
  device : BlockDevice W
  driver : D
  fsInstance : I

/-- A slot of `g_open_files`; `mount` points into `g_mounts`. -/
structure OpenFile (P : Type*) where
  inUse : Bool
  mount : Fin maxMounts
  handle : FileHandle P
  offset : Nat

structure Vfs (D I P W : Type*) where
  blockDevices : List (BlockDevice W)
  mounts : Fin maxMounts → Mount D I W
  openFiles : Fin maxOpenFiles → OpenFile P
  world : W

inductive SeekMode
  | set | cur | fromEnd
  deriving DecidableEq, Repr

namespace Vfs

variable {D I P W : Type*}

def init (v : Vfs D I P W) : Vfs D I P W :=
  { v with
    blockDevices := []
    mounts := fun i => { v.mounts i with inUse := false }
    openFiles := fun i => { v.openFiles i with inUse := false } }

def registerBlockDevice (v : Vfs D I P W) (dev : BlockDevice W) : Bool × Vfs D I P W :=
  if maxBlockDevices ≤ v.blockDevices.length then (false, v)
  else (true, { v with
    blockDevices := v.blockDevices ++ [{ dev with name := copyBounded 32 dev.name }] })

def findBlockDevice (v : Vfs D I P W) (name : CString) : Option (BlockDevice W) :=
  v.blockDevices.find? fun dev => dev.name = name

/-- The mount point of slot `i` matches `path`: it is a prefix that ends at the
end of the path or at a slash. -/
def mountMatches (v : Vfs D I P W) (path : CString) (i : Fin maxMounts) : Bool :=
  (v.mounts i).inUse && (v.mounts i).mountPoint.isPrefixOf path &&
    match path[(v.mounts i).mountPoint.length]? with
    | none => true
    | some next => next = slash

/-- The loop of `resolvePath`: the longest match, the first of equal ones, and
none of length 0. -/
def bestMount (v : Vfs D I P W) (path : CString) : Option (Fin maxMounts) × Nat :=
  (List.finRange maxMounts).foldl (fun best i =>
    if v.mountMatches path i && best.2 < (v.mounts i).mountPoint.length then
      (some i, (v.mounts i).mountPoint.length)
    else best) (none, 0)

/-- The rest of the path after the mount point, without its slash. -/
def remainder (path : CString) (len : Nat) : CString :=
  match path.drop len with
  | [] => []
  | c :: rest => if c = slash then rest else c :: rest

def resolvePath (v : Vfs D I P W) (path : CString) (size : Nat) :
    Option (Fin maxMounts × CString) :=
  match v.bestMount path with
  | (none, _) => none
  | (some i, len) => some (i, copyBounded size (remainder path len))

/-- The first slot of `g_mounts` that is in use at `mountPoint`. -/
def findMount (v : Vfs D I P W) (mountPoint : CString) : Option (Fin maxMounts) :=
  (List.finRange maxMounts).find? fun i =>
    (v.mounts i).inUse && (v.mounts i).mountPoint = mountPoint

def freeMount (v : Vfs D I P W) : Option (Fin maxMounts) :=
  (List.finRange maxMounts).find? fun i => !(v.mounts i).inUse

def freeFile (v : Vfs D I P W) : Option (Fin maxOpenFiles) :=
  (List.finRange maxOpenFiles).find? fun i => !(v.openFiles i).inUse

section Calls

variable (drivers : D → FilesystemDriver W I P)

def mount (v : Vfs D I P W) (mountPoint deviceName : CString) (driver : D) :
    Bool × Vfs D I P W :=
  match v.findBlockDevice deviceName with
  | none => (false, v)
  | some device =>
    if (v.findMount mountPoint).isSome then (false, v)
    else match v.freeMount with
      | none => (false, v)
      | some i =>
        match (drivers driver).mount device v.world with
        | (none, world) => (false, { v with world })
        | (some fsInstance, world) =>
          let slot :=
            { inUse := true, mountPoint := copyBounded 64 mountPoint
              deviceName := copyBounded 32 deviceName, device, driver, fsInstance }
          (true, { v with world, mounts := Function.update v.mounts i slot })

def unmount (v : Vfs D I P W) (mountPoint : CString) : Bool × Vfs D I P W :=
  match v.findMount mountPoint with
  | none => (false, v)
  | some i =>
    let m := v.mounts i
    (true, { v with
      world := (drivers m.driver).unmount m.fsInstance v.world
      mounts := Function.update v.mounts i { m with inUse := false } })

def openFile (v : Vfs D I P W) (path : CString) : Int × Vfs D I P W :=
  match v.resolvePath path 128 with
  | none => (invalidFd, v)
  | some (m, subpath) =>
    match v.freeFile with
    | none => (invalidFd, v)
    | some i =>
      match (drivers (v.mounts m).driver).openFile (v.mounts m).fsInstance subpath v.world with
      | (none, world) => (invalidFd, { v with world })
      | (some handle, world) =>
        (i, { v with
          world
          openFiles := Function.update v.openFiles i
            { inUse := true, mount := m, handle, offset := 0 } })

/-- The slot of a descriptor, if it is in range and in use. -/
def slotOf (v : Vfs D I P W) (fd : Int) : Option (Fin maxOpenFiles) :=
  if h : 0 ≤ fd ∧ fd < maxOpenFiles then
    let i : Fin maxOpenFiles := ⟨fd.toNat, by omega⟩
    if (v.openFiles i).inUse then some i else none
  else none

/-- The driver and the instance a call through slot `i` goes to. -/
def target (v : Vfs D I P W) (i : Fin maxOpenFiles) : D × I :=
  let m := v.mounts (v.openFiles i).mount
  (m.driver, m.fsInstance)

def setFile (v : Vfs D I P W) (i : Fin maxOpenFiles) (f : OpenFile P) : Vfs D I P W :=
  { v with openFiles := Function.update v.openFiles i f }

/-- `if (n > 0) f.offset += n;` -/
def advance (f : OpenFile P) (n : Int) : OpenFile P :=
  if 0 < n then { f with offset := toUInt64 (f.offset + n) } else f

def read (v : Vfs D I P W) (fd : Int) (count : Nat) : Int × List UInt8 × Vfs D I P W :=
  match v.slotOf fd with
  | none => (-1, [], v)
  | some i =>
    let f := v.openFiles i
    let (driver, fsInstance) := v.target i
    let (n, data, handle, world) := (drivers driver).read fsInstance f.handle f.offset count v.world
    (n, data, { v.setFile i (advance { f with handle } n) with world })

def write (v : Vfs D I P W) (fd : Int) (data : List UInt8) : Int × Vfs D I P W :=
  match v.slotOf fd with
  | none => (-1, v)
  | some i =>
    let f := v.openFiles i
    let (driver, fsInstance) := v.target i
    let (n, handle, world) := (drivers driver).write fsInstance f.handle f.offset data v.world
    (n, { v.setFile i (advance { f with handle } n) with world })

def close (v : Vfs D I P W) (fd : Int) : Vfs D I P W :=
  match v.slotOf fd with
  | none => v
  | some i =>
    let f := v.openFiles i
    let (driver, fsInstance) := v.target i
    { v.setFile i { f with inUse := false } with
      world := (drivers driver).close fsInstance f.handle v.world }

def create (v : Vfs D I P W) (path : CString) (isDirectory : Bool) : Bool × Vfs D I P W :=
  match v.resolvePath path 128 with
  | none => (false, v)
  | some (m, subpath) =>
    let (ok, world) :=
      (drivers (v.mounts m).driver).create (v.mounts m).fsInstance subpath isDirectory v.world
    (ok, { v with world })

def unlink (v : Vfs D I P W) (path : CString) : Bool × Vfs D I P W :=
  match v.resolvePath path 128 with
  | none => (false, v)
  | some (m, subpath) =>
    let (ok, world) :=
      (drivers (v.mounts m).driver).unlinkFile (v.mounts m).fsInstance subpath v.world
    (ok, { v with world })

def rmdir (v : Vfs D I P W) (path : CString) : Bool × Vfs D I P W :=
  match v.resolvePath path 128 with
  | none => (false, v)
  | some (m, subpath) =>
    let (ok, world) := (drivers (v.mounts m).driver).rmdir (v.mounts m).fsInstance subpath v.world
    (ok, { v with world })

end Calls

/-- The position a seek asks for. -/
def seekTo (f : OpenFile P) (offset : Int) : SeekMode → Int
  | .set => offset
  | .cur => toInt64 (toInt64 f.offset + offset)
  | .fromEnd => toInt64 (toInt64 f.handle.size + offset)

def seek (v : Vfs D I P W) (fd offset : Int) (mode : SeekMode) : Int × Vfs D I P W :=
  match v.slotOf fd with
  | none => (-1, v)
  | some i =>
    let f := v.openFiles i
    let newOffset := seekTo f offset mode
    if newOffset < 0 then (-1, v)
    else (newOffset, v.setFile i { f with offset := toUInt64 newOffset })

theorem seek_set_of_neg {v : Vfs D I P W} (fd : Int) {offset : Int} (h : offset < 0) :
    v.seek fd offset .set = (-1, v) := by
  unfold seek
  split
  · rfl
  · exact if_pos h

def tell (v : Vfs D I P W) (fd : Int) : Int :=
  match v.slotOf fd with
  | none => -1
  | some i => toInt64 (v.openFiles i).offset

end Vfs

end WengShiOS.Fs
