import WengShiOS.FileFormats.Elf

/-! # A file in memory

The smallest driver that meets what the loader relies on: every path is the one file, and
a read gives the bytes that are left. One more file can be created and written. -/

namespace WengShiOS.FileFormats.Elf

open Fs Vfs

variable {file : List UInt8} {p count : Nat}

/-- What was written to the file that was created, if one was. -/
abbrev RamWorld := Option (List UInt8)

def ramDriver (file : List UInt8) : FilesystemDriver RamWorld Unit Unit where
  name := []
  mount _ w := (some (), w)
  unmount _ w := w
  openFile _ _ w := (some ⟨(), file.length, false⟩, w)
  close _ _ w := w
  read _ handle offset count w :=
    (((file.drop offset).take count).length, (file.drop offset).take count, handle, w)
  write _ handle offset data w := (data.length, handle,
    w.map fun old => old.take offset ++ data ++ old.drop (offset + data.length))
  isDirectory _ _ w := (false, w)
  readdir _ _ _ w := (none, w)
  create _ _ _ w := (w.isNone, some (w.getD []))
  unlinkFile _ _ w := (false, w)
  rmdir _ _ w := (false, w)

def ramDrivers (file : List UInt8) : Unit → FilesystemDriver RamWorld Unit Unit :=
  fun _ => ramDriver file

def ramPath : CString := [slash, 0x6D]

def ramDevice : BlockDevice RamWorld :=
  ⟨[], 0, 0, 512, fun _ _ _ w => (none, w), fun _ _ _ _ w => (false, w)⟩

/-- The driver is mounted, and no file is open. -/
def ramVfs : Vfs Unit Unit Unit RamWorld where
  blockDevices := []
  mounts _ := ⟨true, ramPath, [], ramDevice, (), ()⟩
  openFiles _ := ⟨false, 0, ⟨(), 0, false⟩, 0⟩
  world := none

/-- The file is open at position `p`. -/
def ramAt (file : List UInt8) (p : Nat) : Vfs Unit Unit Unit RamWorld :=
  ramVfs.setFile 0 ⟨true, 0, ⟨(), file.length, false⟩, p⟩

theorem ramVfs_openFile (file : List UInt8) :
    ramVfs.openFile (ramDrivers file) ramPath = (0, ramAt file 0) := by
  have hresolve : ramVfs.resolvePath ramPath 128 = some (0, []) := by decide +kernel
  have hfree : ramVfs.freeFile = some 0 := by decide +kernel
  rw [openFile, hresolve]
  dsimp only
  rw [hfree]
  rfl

theorem slotOf_ramAt (file : List UInt8) (p : Nat) : (ramAt file p).slotOf 0 = some 0 := by
  rw [slotOf, dif_pos (by decide)]
  exact if_pos rfl

theorem setFile_ramAt (file : List UInt8) (p q : Nat) :
    (ramAt file p).setFile 0 ⟨true, 0, ⟨(), file.length, false⟩, q⟩ = ramAt file q := by
  unfold ramAt setFile
  simp

theorem honest_ramDrivers (file : List UInt8) : Honest (ramDrivers file) := by
  intro d fs handle offset count w _
  exact ⟨List.length_take_le .., fun _ => rfl⟩

theorem read_ramAt (hlength : file.length < 2 ^ 63) (p count : Nat) :
    (ramAt file p).read (ramDrivers file) 0 count =
      ((((file.drop p).take count).length : Int), (file.drop p).take count,
        ramAt file (p + ((file.drop p).take count).length)) := by
  have hopen : (ramAt file p).openFiles 0 = ⟨true, 0, ⟨(), file.length, false⟩, p⟩ := rfl
  have hle : ((file.drop p).take count).length ≤ file.length - p := by
    rw [List.length_take, List.length_drop]
    exact Nat.min_le_right ..
  rw [Vfs.read, slotOf_ramAt]
  dsimp only
  rw [hopen]
  refine Prod.ext rfl (Prod.ext rfl ?_)
  change (ramAt file p).setFile 0 (advance ⟨true, 0, ⟨(), file.length, false⟩, p⟩
    ((file.drop p).take count).length) = _
  unfold advance
  split_ifs with hpos
  · rw [setFile_ramAt]
    congr 1
    dsimp only
    unfold toUInt64
    omega
  · rw [show ((file.drop p).take count).length = 0 by omega, Nat.add_zero, setFile_ramAt]

theorem delivers_ramDrivers (hlength : file.length < 2 ^ 63) :
    Delivers (ramDrivers file) 0 file fun p v => v = ramAt file p where
  seek := by
    rintro p v offset rfl hoff
    have hset : toInt64 offset = offset := by
      unfold toInt64
      rw [Int.bmod_def]
      omega
    rw [seek, slotOf_ramAt, hset]
    dsimp only [seekTo]
    rw [if_neg (by omega)]
    have hback : toUInt64 offset = offset := by
      unfold toUInt64
      omega
    rw [hback]
    exact setFile_ramAt file p offset
  read := by
    rintro p v count n data v' rfl - hread -
    rw [read_ramAt hlength] at hread
    obtain ⟨-, hrest⟩ := Prod.mk.inj hread
    cases hrest
    refine ⟨?_, rfl⟩
    rw [List.take_eq_take_iff, List.length_take]
    omega
  nothing := by
    rintro p v count n data v' rfl - hread hn
    rw [read_ramAt hlength] at hread
    obtain ⟨rfl, hrest⟩ := Prod.mk.inj hread
    cases hrest
    exact List.length_eq_zero_iff.mp (by omega)
  more := by
    rintro p v count rfl hcount hle
    rw [read_ramAt hlength, List.length_take, List.length_drop]
    omega

end WengShiOS.FileFormats.Elf
