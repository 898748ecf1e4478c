import WengShiOS.Fs.Ext2.Access

/-! # The driver below the VFS

`src/fs/ext2/ext2.cpp`, `g_driver`: the function table through which the VFS calls the
driver. The world that the VFS passes along holds the contents of the disks, the mounted
instances, and which of the accesses that are still to come will succeed. -/

namespace WengShiOS.Fs.Ext2

open Math Math.Prog

/-- The disks, by the handle of their device, and the instances, by the pointer that
`mount` returned: the device each is on and its state. -/
structure World where
  disks : Int → Bytes
  instances : Nat → Int × FsInstance
  /-- the next pointer -/
  fresh : Nat
  /-- whether the `n`-th access from now on succeeds -/
  pattern : Nat → Bool

namespace World

variable {α : Type} (w : World)

/-- What an instance works on. -/
def volume (fs : Nat) : Volume := ⟨(w.instances fs).2, w.disks (w.instances fs).1⟩

/-- The run of a function on an instance, with its accesses. -/
def runOn (fs : Nat) (f : Ext2M α) : α × Volume × List Event := f.run w.pattern (w.volume fs)

/-- The world after the accesses of a function. -/
def after (device : Int) (disk : Bytes) (trace : List Event) : World :=
  { w with
    disks := Function.update w.disks device disk
    pattern := fun n => w.pattern (n + trace.length) }

/-- Call a function of the driver on an instance. -/
def call (fs : Nat) (f : Ext2M α) : α × World :=
  let (a, u, trace) := w.runOn fs f
  let device := (w.instances fs).1
  (a, { w.after device u.disk trace with
    instances := Function.update w.instances fs (device, u.state) })

/-- The instance that `mount` allocates, before it is filled. -/
def mountOn (device : Int) : Option Nat × World :=
  let (ok, u, trace) := mount.run w.pattern ⟨⟨fun _ => 0, fun _ => 0, 0, 0⟩, w.disks device⟩
  let w' := w.after device u.disk trace
  if ok then
    (some w.fresh, { w' with
      instances := Function.update w.instances w.fresh (device, u.state)
      fresh := w.fresh + 1 })
  else (none, w')

@[simp] theorem call_fst (fs : Nat) (f : Ext2M α) : (w.call fs f).1 = (w.runOn fs f).1 := rfl

@[simp] theorem volume_call (fs : Nat) (f : Ext2M α) :
    (w.call fs f).2.volume fs = (w.runOn fs f).2.1 := by
  simp [volume, call, after]

theorem runs_runOn (fs : Nat) (f : Ext2M α) :
    f.Runs (w.volume fs) (w.runOn fs f).2.2 (w.runOn fs f).1 (w.runOn fs f).2.1 :=
  runs_run f w.pattern

end World

/-- `g_driver`. The functions of a block device are those of the world's disks; `unmount`
only frees. -/
def driver : FilesystemDriver World Nat PrivateData where
  name := [0x65, 0x78, 0x74, 0x32]
  mount dev w := w.mountOn dev.deviceHandle
  unmount _ w := w
  openFile fs path w := w.call fs (openFile path)
  close fs handle w := (w.call fs (close handle)).2
  read fs handle offset count w :=
    let ((n, data, handle), w) := w.call fs (read handle offset count)
    (n, data, handle, w)
  write fs handle offset data w :=
    let ((n, handle), w) := w.call fs (write handle offset data)
    (n, handle, w)
  isDirectory fs path w := w.call fs (isDirectory path)
  readdir fs path index w := w.call fs (readdir path index)
  create fs path isDirectory w := w.call fs (create path isDirectory)
  unlinkFile fs path w := w.call fs (unlinkFile path)
  rmdir fs path w := w.call fs (rmdirPath path)

/-! ### Through a descriptor -/

section Descriptor

variable {D : Type*} (drivers : D → FilesystemDriver World Nat PrivateData)
  (s : Vfs D Nat PrivateData World) (fd : Int) (k : Fin maxOpenFiles)

/-- The descriptor is open and its file is on an ext2 file system. -/
structure OnExt2 : Prop where
  slot : s.slotOf fd = some k
  driver : drivers (s.target k).1 = driver

/-- The volume the file is on. -/
def volumeOf : Volume := s.world.volume (s.target k).2

def privateOf : PrivateData := (s.openFiles k).handle.fsPrivate

end Descriptor

@[simp] theorem advance_handle (f : OpenFile PrivateData) (m : Int) :
    (Vfs.advance f m).handle = f.handle := by
  unfold Vfs.advance
  split_ifs <;> rfl

@[simp] theorem advance_mount (f : OpenFile PrivateData) (m : Int) :
    (Vfs.advance f m).mount = f.mount := by
  unfold Vfs.advance
  split_ifs <;> rfl

end WengShiOS.Fs.Ext2
