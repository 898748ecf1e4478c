import WengShiOS.Fs.Vfs

/-! # Open files and the mounts they were opened on

A `Session` is the VFS together with its history: every successful mount has a
serial number, and every open file remembers the driver, the instance and the
mounting it was opened on. A file is attached while its mount slot still belongs
to that mounting. Only `unmount` can detach a file, so the files stay attached in
the runs that unmount no filesystem with open files. -/

namespace WengShiOS.Fs

open Math Function Vfs

/-- What a file was opened on. -/
structure Origin (D I : Type*) where
  driver : D
  fsInstance : I
  mounting : Nat
  deriving DecidableEq

/-- The VFS with the history of its mounts. -/
structure Session (D I P W : Type*) where
  vfs : Vfs D I P W
  /-- how many mounts have succeeded -/
  mountings : Nat
  /-- the mounting that last filled a mount slot -/
  slotMounting : Fin maxMounts → Nat
  /-- the mountings whose instance has been passed to the driver's `unmount` -/
  unmounted : List Nat
  origin : Fin maxOpenFiles → Option (Origin D I)

inductive VfsAction (D W : Type*)
  | registerBlockDevice (dev : BlockDevice W)
  | mount (mountPoint deviceName : CString) (driver : D)
  | unmount (mountPoint : CString)
  | openFile (path : CString)
  | close (fd : Int)
  | read (fd : Int) (count : Nat)
  | write (fd : Int) (data : List UInt8)
  | seek (fd offset : Int) (mode : SeekMode)
  | create (path : CString) (isDirectory : Bool)
  | unlink (path : CString)
  | rmdir (path : CString)

namespace Session

variable {D I P W : Type*} (drivers : D → FilesystemDriver W I P)

/-- The slot a successful call of `mount` fills. -/
def afterMount (s : Session D I P W) (mountPoint deviceName : CString) (driver : D) :
    Session D I P W :=
  match s.vfs.mount drivers mountPoint deviceName driver, s.vfs.freeMount with
  | (true, vfs), some i =>
    { s with vfs, mountings := s.mountings + 1
             slotMounting := Function.update s.slotMounting i s.mountings }
  | (_, vfs), _ => { s with vfs }

def afterUnmount (s : Session D I P W) (mountPoint : CString) : Session D I P W :=
  let vfs := (s.vfs.unmount drivers mountPoint).2
  match s.vfs.findMount mountPoint with
  | some i => { s with vfs, unmounted := s.slotMounting i :: s.unmounted }
  | none => { s with vfs }

def afterOpen (s : Session D I P W) (path : CString) : Session D I P W :=
  let (fd, vfs) := s.vfs.openFile drivers path
  match s.vfs.resolvePath path 128, s.vfs.freeFile with
  | some (m, _), some i =>
    if fd = invalidFd then { s with vfs }
    else
      let origin : Origin D I :=
        ⟨(s.vfs.mounts m).driver, (s.vfs.mounts m).fsInstance, s.slotMounting m⟩
      { s with vfs, origin := Function.update s.origin i origin }
  | _, _ => { s with vfs }

def next (s : Session D I P W) : VfsAction D W → Session D I P W
  | .registerBlockDevice dev => { s with vfs := (s.vfs.registerBlockDevice dev).2 }
  | .mount mountPoint deviceName driver => s.afterMount drivers mountPoint deviceName driver
  | .unmount mountPoint => s.afterUnmount drivers mountPoint
  | .openFile path => s.afterOpen drivers path
  | .close fd => { s with vfs := s.vfs.close drivers fd }
  | .read fd count => { s with vfs := (s.vfs.read drivers fd count).2.2 }
  | .write fd data => { s with vfs := (s.vfs.write drivers fd data).2 }
  | .seek fd offset mode => { s with vfs := (s.vfs.seek fd offset mode).2 }
  | .create path isDirectory => { s with vfs := (s.vfs.create drivers path isDirectory).2 }
  | .unlink path => { s with vfs := (s.vfs.unlink drivers path).2 }
  | .rmdir path => { s with vfs := (s.vfs.rmdir drivers path).2 }

end Session

section System

variable {D I P W : Type*} (drivers : D → FilesystemDriver W I P)

/-- All runs from `VFS::init`. -/
def vfsSystem : System (Session D I P W) (VfsAction D W) :=
  .ofNext (fun s a => some (s.next drivers a)) fun s =>
    (∃ v : Vfs D I P W, s.vfs = v.init) ∧ s.mountings = 0 ∧ s.unmounted = []

end System

namespace Session

variable {D I P W : Type*} {drivers : D → FilesystemDriver W I P} {s s' : Session D I P W}
  {i : Fin maxOpenFiles} {m : Fin maxMounts}

/-- The mount slot of open file `i` is in use, still belongs to the mounting the
file was opened on, and leads to the driver and the instance of that mounting,
which has not been unmounted. -/
structure AttachedAt (s : Session D I P W) (i : Fin maxOpenFiles) : Prop where
  inUse : (s.vfs.mounts (s.vfs.openFiles i).mount).inUse = true
  origin : s.origin i = some ⟨(s.vfs.target i).1, (s.vfs.target i).2,
    s.slotMounting (s.vfs.openFiles i).mount⟩
  live : s.slotMounting (s.vfs.openFiles i).mount ∉ s.unmounted

/-- Every open file is attached. -/
def Attached (s : Session D I P W) : Prop :=
  ∀ i, (s.vfs.openFiles i).inUse = true → s.AttachedAt i

/-- `unmount` is only called for a filesystem without open files. -/
def NoOpenFiles (s : Session D I P W) : VfsAction D W → Prop
  | .unmount mountPoint => ∀ m, s.vfs.findMount mountPoint = some m →
    ∀ i, (s.vfs.openFiles i).inUse = true → (s.vfs.openFiles i).mount ≠ m
  | _ => True

/-- The invariant: besides the files, the mounting of a slot in use is a past one
that has not been unmounted, and two slots in use have different mountings. -/
structure Inv (s : Session D I P W) : Prop where
  attached : s.Attached
  past : ∀ m, (s.vfs.mounts m).inUse = true → s.slotMounting m < s.mountings
  live : ∀ m, (s.vfs.mounts m).inUse = true → s.slotMounting m ∉ s.unmounted
  unmounted : ∀ k ∈ s.unmounted, k < s.mountings
  distinct : ∀ m m', (s.vfs.mounts m).inUse = true → (s.vfs.mounts m').inUse = true →
    s.slotMounting m = s.slotMounting m' → m = m'

/-! ### The calls that keep the mount table -/

/-- `v'` has the mount table of `v`, and its open files were open in `v`, at the
same mounts. -/
structure SameFiles (v v' : Vfs D I P W) : Prop where
  mounts : v'.mounts = v.mounts
  inUse : ∀ i, (v'.openFiles i).inUse = true → (v.openFiles i).inUse = true
  mount : ∀ i, (v'.openFiles i).mount = (v.openFiles i).mount

namespace SameFiles

variable {v : Vfs D I P W} {f : OpenFile P}

theorem world (v : Vfs D I P W) (world : W) : SameFiles v { v with world } :=
  ⟨rfl, fun _ h => h, fun _ => rfl⟩

/-- A write to the slot of an open file that keeps its mount. -/
theorem setFile (world : W) (hin : (v.openFiles i).inUse = true)
    (hmount : f.mount = (v.openFiles i).mount) :
    SameFiles v { v.setFile i f with world } := by
  refine ⟨rfl, fun j h => ?_, fun j => ?_⟩
  · by_cases hj : j = i
    · rwa [hj]
    · simpa [Vfs.setFile, hj] using h
  · by_cases hj : j = i
    · subst hj
      simp [setFile, hmount]
    · simp [Vfs.setFile, hj]

theorem inUse_of_slotOf {fd : Int} (h : v.slotOf fd = some i) : (v.openFiles i).inUse = true := by
  unfold slotOf at h
  split_ifs at h with hfd
  dsimp only at h
  split_ifs at h with hin
  cases h
  exact hin

theorem advance_mount (n : Int) : (advance f n).mount = f.mount := by
  unfold advance
  split_ifs <;> rfl

theorem read (fd : Int) (count : Nat) : SameFiles v (v.read drivers fd count).2.2 := by
  unfold Vfs.read
  split
  · exact .world v v.world
  · next i hi => exact .setFile _ (inUse_of_slotOf hi) (advance_mount _)

theorem write (fd : Int) (data : List UInt8) : SameFiles v (v.write drivers fd data).2 := by
  unfold Vfs.write
  split
  · exact .world v v.world
  · next i hi => exact .setFile _ (inUse_of_slotOf hi) (advance_mount _)

theorem close (fd : Int) : SameFiles v (v.close drivers fd) := by
  unfold Vfs.close
  split
  · exact .world v v.world
  · next i hi => exact .setFile _ (inUse_of_slotOf hi) rfl

theorem seek (fd offset : Int) (mode : SeekMode) : SameFiles v (v.seek fd offset mode).2 := by
  unfold Vfs.seek
  split
  · exact .world v v.world
  · next i hi =>
    dsimp only
    split_ifs
    · exact .world v v.world
    · exact .setFile v.world (inUse_of_slotOf hi) rfl

theorem create (path : CString) (isDirectory : Bool) :
    SameFiles v (v.create drivers path isDirectory).2 := by
  unfold Vfs.create
  split <;> exact .world v _

theorem unlink (path : CString) : SameFiles v (v.unlink drivers path).2 := by
  unfold Vfs.unlink
  split <;> exact .world v _

theorem rmdir (path : CString) : SameFiles v (v.rmdir drivers path).2 := by
  unfold Vfs.rmdir
  split <;> exact .world v _

theorem registerBlockDevice (dev : BlockDevice W) :
    SameFiles v (v.registerBlockDevice dev).2 := by
  unfold Vfs.registerBlockDevice
  split_ifs <;> exact ⟨rfl, fun _ h => h, fun _ => rfl⟩

end SameFiles

theorem Inv.of_sameFiles {vfs : Vfs D I P W} (inv : s.Inv) (h : SameFiles s.vfs vfs) :
    Inv { s with vfs } := by
  obtain ⟨hmounts, hinUse, hmount⟩ := h
  refine ⟨fun i hi => ?_, fun m hm => ?_, fun m hm => ?_, inv.unmounted, fun m m' hm hm' => ?_⟩
  · obtain ⟨hin, horigin, hlive⟩ := inv.attached i (hinUse i hi)
    refine ⟨?_, ?_, ?_⟩ <;> simpa only [hmounts, hmount, target]
  · exact inv.past m (hmounts ▸ hm)
  · exact inv.live m (hmounts ▸ hm)
  · exact inv.distinct m m' (hmounts ▸ hm) (hmounts ▸ hm')

/-! ### Opening, mounting and unmounting -/

variable {v : Vfs D I P W}

theorem inUse_of_bestMount {path : CString} {m : Fin maxMounts}
    (h : (v.bestMount path).1 = some m) : (v.mounts m).inUse = true := by
  -- along the loop, the best slot so far is in use
  suffices hloop : ∀ (slots : List (Fin maxMounts)) (best : Option (Fin maxMounts) × Nat),
      (∀ m, best.1 = some m → (v.mounts m).inUse = true) →
      ∀ m, (slots.foldl (fun best i =>
        if v.mountMatches path i && best.2 < (v.mounts i).mountPoint.length then
          (some i, (v.mounts i).mountPoint.length)
        else best) best).1 = some m → (v.mounts m).inUse = true from
    hloop _ (none, 0) (by simp) m h
  intro slots
  induction slots with
  | nil => exact fun best hbest => hbest
  | cons i slots ih =>
    intro best hbest
    refine ih _ fun m hm => ?_
    dsimp only at hm
    split_ifs at hm with hmatch
    · cases hm
      simp only [mountMatches, Bool.and_eq_true] at hmatch
      exact hmatch.1.1.1
    · exact hbest m hm

theorem inUse_of_resolvePath {path subpath : CString} {size : Nat}
    (h : v.resolvePath path size = some (m, subpath)) : (v.mounts m).inUse = true := by
  unfold resolvePath at h
  split at h
  · cases h
  · next i len hbest =>
    obtain ⟨rfl, -⟩ := Prod.mk.inj (Option.some.inj h)
    exact inUse_of_bestMount (congrArg Prod.fst hbest)

theorem not_inUse_of_freeMount (h : v.freeMount = some m) :
    (v.mounts m).inUse = false := by
  simpa using List.find?_some h

theorem inUse_of_findMount {mountPoint : CString} (h : v.findMount mountPoint = some m) :
    (v.mounts m).inUse = true := by
  have := List.find?_some h
  simp only [Bool.and_eq_true] at this
  exact this.1

theorem Inv.afterOpen (inv : s.Inv) (path : CString) : (s.afterOpen drivers path).Inv := by
  unfold Session.afterOpen openFile
  rcases hpath : s.vfs.resolvePath path 128 with _ | ⟨m, subpath⟩
  · exact inv
  rcases hfree : s.vfs.freeFile with _ | i
  · exact inv
  have hm := inUse_of_resolvePath hpath
  dsimp only
  split
  · exact inv.of_sameFiles (.world s.vfs _)
  · next handle world _ =>
    have hfd : ((i : ℕ) : Int) ≠ invalidFd := by
      unfold invalidFd
      omega
    rw [if_neg hfd]
    refine ⟨fun j hj => ?_, inv.past, inv.live, inv.unmounted, inv.distinct⟩
    by_cases hji : j = i
    · -- the new file is attached to the mount the path resolved to
      subst hji
      refine ⟨?_, ?_, ?_⟩ <;> simp [target, hm, inv.live m hm]
    · simp only [update_of_ne hji] at hj
      obtain ⟨hin, horigin, hlive⟩ := inv.attached j hj
      refine ⟨?_, ?_, ?_⟩ <;> simpa [target, hji]

theorem Inv.afterMount (inv : s.Inv) (mountPoint deviceName : CString) (driver : D) :
    (s.afterMount drivers mountPoint deviceName driver).Inv := by
  unfold Session.afterMount mount
  rcases s.vfs.findBlockDevice deviceName with _ | device
  · exact inv
  by_cases hused : (s.vfs.findMount mountPoint).isSome
  · simpa [hused] using inv
  rcases hfree : s.vfs.freeMount with _ | m
  · simpa [hused] using inv
  have hm := not_inUse_of_freeMount hfree
  rcases hmount : (drivers driver).mount device s.vfs.world with ⟨_ | fsInstance, world⟩
  · simpa [hused, hmount] using inv.of_sameFiles (.world s.vfs world)
  simp only [hused, hmount, Bool.false_eq_true, if_false]
  have hother : ∀ m' : Fin maxMounts, (s.vfs.mounts m').inUse = true → m' ≠ m := fun m' h heq => by
    rw [heq, hm] at h
    cases h
  refine ⟨fun i hi => ?_, fun m' h => ?_, fun m' h => ?_, fun k hk => ?_, fun m₁ m₂ h₁ h₂ => ?_⟩
  · -- no open file points to the free slot
    obtain ⟨hin, horigin, hlive⟩ := inv.attached i hi
    have hne := hother _ hin
    refine ⟨?_, ?_, ?_⟩ <;> simpa [target, hne]
  · by_cases hm' : m' = m
    · simp [hm']
    · simp only [update_of_ne hm'] at h ⊢
      exact (inv.past m' h).trans (Nat.lt_succ_self _)
  · by_cases hm' : m' = m
    · simp only [hm', update_self]
      exact fun h => absurd (inv.unmounted _ h) (lt_irrefl _)
    · simp only [update_of_ne hm'] at h ⊢
      exact inv.live m' h
  · exact (inv.unmounted k hk).trans (Nat.lt_succ_self _)
  · -- the new mounting is later than all others
    by_cases hm₁ : m₁ = m <;> by_cases hm₂ : m₂ = m
    · exact fun _ => hm₁.trans hm₂.symm
    · simp only [hm₁, update_self, update_of_ne hm₂] at h₂ ⊢
      exact fun h => absurd (inv.past m₂ h₂) (by omega)
    · simp only [hm₂, update_self, update_of_ne hm₁] at h₁ ⊢
      exact fun h => absurd (inv.past m₁ h₁) (by omega)
    · simp only [update_of_ne hm₁, update_of_ne hm₂] at h₁ h₂ ⊢
      exact inv.distinct m₁ m₂ h₁ h₂

theorem Inv.afterUnmount (inv : s.Inv) (mountPoint : CString)
    (guard : s.NoOpenFiles (.unmount mountPoint)) : (s.afterUnmount drivers mountPoint).Inv := by
  unfold Session.afterUnmount unmount
  rcases hm : s.vfs.findMount mountPoint with _ | m
  · exact inv
  have hin := inUse_of_findMount hm
  have hother : ∀ m', (update s.vfs.mounts m { s.vfs.mounts m with inUse := false } m').inUse
      = true → m' ≠ m ∧ (s.vfs.mounts m').inUse = true := fun m' h => by
    by_cases hm' : m' = m
    · simp [hm'] at h
    · exact ⟨hm', by simpa [hm'] using h⟩
  refine ⟨fun i hi => ?_, fun m' h => inv.past m' (hother m' h).2, fun m' h => ?_, fun k hk => ?_,
    fun m₁ m₂ h₁ h₂ => inv.distinct m₁ m₂ (hother m₁ h₁).2 (hother m₂ h₂).2⟩
  · obtain ⟨hslot, horigin, hlive⟩ := inv.attached i hi
    have hne : (s.vfs.openFiles i).mount ≠ m := guard m hm i hi
    refine ⟨by simpa [hne] using hslot, by simpa [target, hne] using horigin, ?_⟩
    simp only [List.mem_cons, not_or]
    exact ⟨fun h => hne (inv.distinct _ _ hslot hin h), hlive⟩
  · obtain ⟨hne, hin'⟩ := hother m' h
    simp only [List.mem_cons, not_or]
    exact ⟨fun h => hne (inv.distinct _ _ hin' hin h), inv.live m' hin'⟩
  · rcases List.mem_cons.mp hk with rfl | hk
    · exact inv.past m hin
    · exact inv.unmounted k hk

theorem Inv.next {a : VfsAction D W} (inv : s.Inv) (guard : s.NoOpenFiles a) :
    (s.next drivers a).Inv := by
  cases a with
  | registerBlockDevice dev => exact inv.of_sameFiles (.registerBlockDevice dev)
  | mount mountPoint deviceName driver => exact inv.afterMount mountPoint deviceName driver
  | unmount mountPoint => exact inv.afterUnmount mountPoint guard
  | openFile path => exact inv.afterOpen path
  | close fd => exact inv.of_sameFiles (.close fd)
  | read fd count => exact inv.of_sameFiles (.read fd count)
  | write fd data => exact inv.of_sameFiles (.write fd data)
  | seek fd offset mode => exact inv.of_sameFiles (.seek fd offset mode)
  | create path isDirectory => exact inv.of_sameFiles (.create path isDirectory)
  | unlink path => exact inv.of_sameFiles (.unlink path)
  | rmdir path => exact inv.of_sameFiles (.rmdir path)

end Session

/-- **Open files stay attached.** In every state reached without unmounting a
filesystem that has open files, every open file still leads to the driver and the
live instance it was opened on. -/
theorem attached_of_noOpenFiles {D I P W : Type*} {drivers : D → FilesystemDriver W I P}
    {s : Session D I P W}
    (h : ((vfsSystem drivers).restrict Session.NoOpenFiles).Reachable s) : s.Attached := by
  refine (h.invariant Session.Inv (fun s hs => ?_) fun s a s' inv step => ?_).attached
  · obtain ⟨⟨v, hv⟩, hmountings, hunmounted⟩ := hs
    have hfiles : ∀ i, (s.vfs.openFiles i).inUse = false := fun i => by rw [hv]; rfl
    have hslots : ∀ m, (s.vfs.mounts m).inUse = false := fun m => by rw [hv]; rfl
    refine ⟨fun i hi => ?_, fun m hm => ?_, fun m hm => ?_, by simp [hunmounted], fun m _ hm => ?_⟩
    · simp [hfiles i] at hi
    · simp [hslots m] at hm
    · simp [hslots m] at hm
    · simp [hslots m] at hm
  · obtain rfl := Option.some.inj step.2
    exact inv.next step.1

/-! ## Runs -/

/-- A driver whose world counts its instances: every mount gets a new one, and
every path names an empty file. -/
def countingDriver : FilesystemDriver Nat Nat Unit where
  name := []
  mount _ w := (some w, w + 1)
  unmount _ w := w
  openFile _ _ w := (some ⟨(), 0, false⟩, w)
  close _ _ w := w
  read _ handle _ _ w := (0, [], handle, w)
  write _ handle _ _ w := (0, handle, w)
  isDirectory _ _ w := (false, w)
  readdir _ _ _ w := (none, w)
  create _ _ _ w := (false, w)
  unlinkFile _ _ w := (false, w)
  rmdir _ _ w := (false, w)

def disk : BlockDevice Nat where
  name := [0x73, 0x64, 0x61]
  deviceHandle := 0
  sectorCount := 0
  sectorSize := 512
  read _ _ _ w := (none, w)
  write _ _ _ _ w := (false, w)

/-- The VFS before its first mount. -/
def vfsBoot : Session Unit Nat Unit Nat where
  vfs := Vfs.init
    { blockDevices := []
      mounts := fun _ => ⟨false, [], [], disk, (), 0⟩
      openFiles := fun _ => ⟨false, 0, ⟨(), 0, false⟩, 0⟩
      world := 0 }
  mountings := 0
  slotMounting := fun _ => 0
  unmounted := []
  origin := fun _ => none

/-- `/a` is mounted and `/a/f` is opened. -/
def openRun : List (VfsAction Unit Nat) :=
  [.registerBlockDevice disk, .mount [slash, 0x61] disk.name (), .openFile [slash, 0x61, slash, 0x66]]

/-- The filesystem is unmounted and another one is mounted at `/b`. -/
def remountRun : List (VfsAction Unit Nat) :=
  openRun ++ [.unmount [slash, 0x61], .mount [slash, 0x62] disk.name ()]

theorem vfsBoot_init : (vfsSystem fun _ : Unit => countingDriver).init vfsBoot :=
  ⟨⟨_, rfl⟩, rfl, rfl⟩

/-- The state after a run from `vfsBoot`. -/
def afterRun (run : List (VfsAction Unit Nat)) : Session Unit Nat Unit Nat :=
  run.foldl (Session.next fun _ => countingDriver) vfsBoot

theorem afterRun_reachable (guard : Session Unit Nat Unit Nat → VfsAction Unit Nat → Prop)
    (run : List (VfsAction Unit Nat)) (hguard : ∀ s, ∀ a ∈ run, guard s a) :
    ((vfsSystem fun _ : Unit => countingDriver).restrict guard).Reachable (afterRun run) := by
  induction run using List.reverseRecOn with
  | nil => exact .init vfsBoot_init
  | append_singleton run a ih =>
    unfold afterRun at *
    rw [List.foldl_append]
    exact .step (ih fun s b hb => hguard s b (by simp [hb])) ⟨hguard _ a (by simp), rfl⟩

theorem openRun_attached : ((afterRun openRun).vfs.openFiles 0).inUse = true ∧
    (afterRun openRun).AttachedAt 0 := by
  have hopen : ((afterRun openRun).vfs.openFiles 0).inUse = true := by decide +kernel
  refine ⟨hopen, attached_of_noOpenFiles (afterRun_reachable _ openRun ?_) 0 hopen⟩
  intro s a ha
  simp only [openRun, List.mem_cons, List.not_mem_nil, or_false] at ha
  rcases ha with rfl | rfl | rfl <;> trivial

/-- After the remount the descriptor is still in use and its mount slot leads to
the instance of the later mount. -/
theorem not_attached :
    (vfsSystem fun _ : Unit => countingDriver).Reachable (afterRun remountRun) ∧
      ((afterRun remountRun).vfs.openFiles 0).inUse = true ∧
      (afterRun remountRun).origin 0 = some ⟨(), 0, 0⟩ ∧
      (afterRun remountRun).vfs.target 0 = ((), 1) ∧ ¬ (afterRun remountRun).Attached := by
  have hopen : ((afterRun remountRun).vfs.openFiles 0).inUse = true := by decide +kernel
  have horigin : (afterRun remountRun).origin 0 = some ⟨(), 0, 0⟩ := by decide +kernel
  have htarget : (afterRun remountRun).vfs.target 0 = ((), 1) := by decide +kernel
  refine ⟨(afterRun_reachable (fun _ _ => True) remountRun fun _ _ _ => trivial).of_restrict,
    hopen, horigin, htarget, fun h => ?_⟩
  have := (h 0 hopen).origin
  cases this

end WengShiOS.Fs
