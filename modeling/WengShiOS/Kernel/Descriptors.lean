import WengShiOS.Fs.Vfs
import WengShiOS.Scheduler.Cleanup

/-! # File descriptors of user tasks

`sysOpen`, `sysRead`, `sysWrite` and `sysClose` in `src/kernel/syscall.cpp` with the VFS
functions they call. System calls run with interrupts enabled, so every task has a
point inside these functions: a driver call, a test of `g_open_files` and a store to it
are separate steps, and a tick may fall between any two of them.

The table is one for all tasks. The state records beside it which task's `sysOpen` last
filled a slot, and which slots every task has opened and not closed since. -/

namespace WengShiOS.Syscalls

open Math Scheduler Fs

def stdinFd : Int := 0

def stdoutFd : Int := 1

def stderrFd : Int := 2

def fdOffset : Int := 3

/-- The longest transfer of one call. -/
def maxTransfer : Nat := 4096

/-- The statement of a descriptor call a task executes next. -/
inductive FilePoint (P : Type*)
  /-- code outside these calls -/
  | outside
  /-- in `VFS::open`: `resolvePath`, and the search for a free slot -/
  | openFind (path : CString)
  /-- `mnt->driver->open(mnt->fs_instance, subpath, &handle)` -/
  | openDriver (m : Fin maxMounts) (subpath : CString) (i : Fin maxOpenFiles)
  /-- the stores to `g_open_files[i]` and `return i;` -/
  | openStore (m : Fin maxMounts) (i : Fin maxOpenFiles) (handle : FileHandle P)
  /-- in `VFS::read`: the test of the descriptor -/
  | readTest (fd : Int) (count : Nat)
  /-- `f.mount->driver->read(…)` -/
  | readDriver (i : Fin maxOpenFiles) (count : Nat)
  /-- in `VFS::write`: the test of the descriptor -/
  | writeTest (fd : Int) (data : List UInt8)
  /-- `f.mount->driver->write(…)` -/
  | writeDriver (i : Fin maxOpenFiles) (data : List UInt8)
  /-- in both: `if (n > 0) f.offset += n; return n;` -/
  | advance (i : Fin maxOpenFiles) (n : Int)
  /-- in `VFS::close`: the test of the descriptor -/
  | closeTest (fd : Int)
  /-- `f.mount->driver->close(f.mount->fs_instance, &f.handle);` -/
  | closeDriver (i : Fin maxOpenFiles)
  /-- `f.in_use = false;` -/
  | closeStore (i : Fin maxOpenFiles)

namespace FilePoint

variable {P : Type*}

@[simp] def isOutside : FilePoint P → Bool
  | .outside => true
  | _ => false

/-- The slot that a call of `VFS::open` found free and has not filled yet. -/
@[simp] def reserved : FilePoint P → Option (Fin maxOpenFiles)
  | .openDriver _ _ i => some i
  | .openStore _ i _ => some i
  | _ => none

/-- The slot that the next statement reads through, moves or closes. -/
@[simp] def uses : FilePoint P → Option (Fin maxOpenFiles)
  | .readDriver i _ => some i
  | .writeDriver i _ => some i
  | .advance i _ => some i
  | .closeDriver i => some i
  | .closeStore i => some i
  | _ => none

end FilePoint

/-- The kernel and the VFS with the point of every task in the descriptor calls, what a
task's last call returned and stored into its buffer, and the history of the table. -/
structure FileState (D I P W : Type*) where
  kernel : Kernel
  vfs : Vfs D I P W
  point : Nat → FilePoint P
  returned : Nat → Int
  buffer : Nat → List UInt8
  /-- the task whose `sysOpen` last filled a slot -/
  opener : Fin maxOpenFiles → Option Nat
  /-- the slots a task has opened and not closed since -/
  opened : Nat → Fin maxOpenFiles → Bool

inductive FileAction
  /-- a call of the scheduler, or a tick; `sysExit` is a `killTask` of the caller -/
  | sched (a : Action)
  /-- the current task makes a system call -/
  | sysOpen (path : CString)
  | sysRead (userFd : Int) (length : Nat)
  | sysWrite (userFd : Int) (data : List UInt8)
  | sysClose (userFd : Int)
  /-- the current task executes its next statement -/
  | exec

namespace FileState

variable {D I P W : Type*}

abbrev sched (s : FileState D I P W) : Sched := s.kernel.sched

def goto (s : FileState D I P W) (c : Nat) (point : FilePoint P) : FileState D I P W :=
  { s with point := Function.update s.point c point }

/-- The call of task `c` returns `n`. -/
def ret (s : FileState D I P W) (c : Nat) (n : Int) : FileState D I P W :=
  { s.goto c .outside with returned := Function.update s.returned c n }

def setOpened (s : FileState D I P W) (c : Nat) (i : Fin maxOpenFiles) (held : Bool) :
    FileState D I P W :=
  { s with opened := Function.update s.opened c (Function.update (s.opened c) i held) }

/-- The stores of `VFS::open`; the descriptor the caller gets is `i + FD_OFFSET`. -/
def openStore (s : FileState D I P W) (c : Nat) (m : Fin maxMounts) (i : Fin maxOpenFiles)
    (handle : FileHandle P) : FileState D I P W :=
  { (s.setOpened c i true).ret c (i + fdOffset) with
    vfs := s.vfs.setFile i { inUse := true, mount := m, handle, offset := 0 }
    opener := Function.update s.opener i (some c) }

/-- The store of `VFS::close`. -/
def closeStore (s : FileState D I P W) (c : Nat) (i : Fin maxOpenFiles) : FileState D I P W :=
  { (s.setOpened c i false).ret c 0 with
    vfs := s.vfs.setFile i { s.vfs.openFiles i with inUse := false } }

section Calls

variable (drivers : D → FilesystemDriver W I P)

/-- One statement of the current task `c`. -/
def exec (s : FileState D I P W) (c : Nat) : Option (FileState D I P W) :=
  match s.point c with
  | .outside => none
  | .openFind path =>
    match s.vfs.resolvePath path 128 with
    | none => some (s.ret c (-1))
    | some (m, subpath) =>
      match s.vfs.freeFile with
      | none => some (s.ret c (-1))
      | some i => some (s.goto c (.openDriver m subpath i))
  | .openDriver m subpath i =>
    let mnt := s.vfs.mounts m
    match (drivers mnt.driver).openFile mnt.fsInstance subpath s.vfs.world with
    | (none, world) => some { s.ret c (-1) with vfs := { s.vfs with world } }
    | (some handle, world) =>
      some { s.goto c (.openStore m i handle) with vfs := { s.vfs with world } }
  | .openStore m i handle => some (s.openStore c m i handle)
  | .readTest fd count =>
    match s.vfs.slotOf fd with
    | none => some (s.ret c (-1))
    | some i => some (s.goto c (.readDriver i count))
  | .readDriver i count =>
    let f := s.vfs.openFiles i
    let (driver, fsInstance) := s.vfs.target i
    let (n, data, handle, world) :=
      (drivers driver).read fsInstance f.handle f.offset count s.vfs.world
    some { s.goto c (.advance i n) with
      vfs := { s.vfs.setFile i { f with handle } with world }
      buffer := Function.update s.buffer c data }
  | .writeTest fd data =>
    match s.vfs.slotOf fd with
    | none => some (s.ret c (-1))
    | some i => some (s.goto c (.writeDriver i data))
  | .writeDriver i data =>
    let f := s.vfs.openFiles i
    let (driver, fsInstance) := s.vfs.target i
    let (n, handle, world) := (drivers driver).write fsInstance f.handle f.offset data s.vfs.world
    some { s.goto c (.advance i n) with
      vfs := { s.vfs.setFile i { f with handle } with world } }
  | .advance i n =>
    some { s.ret c n with vfs := s.vfs.setFile i (Vfs.advance (s.vfs.openFiles i) n) }
  | .closeTest fd =>
    match s.vfs.slotOf fd with
    | none => some (s.ret c 0)
    | some i => some (s.goto c (.closeDriver i))
  | .closeDriver i =>
    let f := s.vfs.openFiles i
    let (driver, fsInstance) := s.vfs.target i
    some { s.goto c (.closeStore i) with
      vfs := { s.vfs with world := (drivers driver).close fsInstance f.handle s.vfs.world } }
  | .closeStore i => some (s.closeStore c i)

/-- The current task enters a system call. -/
def call (s : FileState D I P W) (enter : Nat → FileState D I P W) :
    Option (FileState D I P W) :=
  s.kernel.caller.bind fun c => if (s.point c).isOutside then some (enter c) else none

/-- A task makes a call of the scheduler only outside the descriptor calls. -/
def mayStep (s : FileState D I P W) (a : Action) : Bool :=
  match a, s.sched.current with
  | .createTask _ _, some c => (s.point c).isOutside
  | .blockCurrent _, some c => (s.point c).isOutside
  | .killTask _ _, some c => (s.point c).isOutside
  | _, _ => true

/-- The state after an action. Reading standard input is not part of this machine. -/
def next (s : FileState D I P W) : FileAction → Option (FileState D I P W)
  | .sched a => if s.mayStep a then (s.kernel.next a).map fun kernel => { s with kernel } else none
  | .sysOpen path => s.call fun c => s.goto c (.openFind path)
  | .sysRead userFd length =>
    if userFd = stdinFd then none
    else s.call fun c =>
      if userFd = stdoutFd ∨ userFd = stderrFd then s.ret c (-1)
      else s.goto c (.readTest (userFd - fdOffset) (min length maxTransfer))
  | .sysWrite userFd data => s.call fun c =>
    if userFd = stdoutFd ∨ userFd = stderrFd then s.ret c (min data.length maxTransfer : Nat)
    else if userFd = stdinFd then s.ret c (-1)
    else s.goto c (.writeTest (userFd - fdOffset) (data.take maxTransfer))
  | .sysClose userFd => s.call fun c =>
    if userFd < fdOffset then s.ret c (-1) else s.goto c (.closeTest (userFd - fdOffset))
  | .exec => s.kernel.caller.bind (s.exec drivers)

end Calls

end FileState

section System

variable {D I P W : Type*} (drivers : D → FilesystemDriver W I P)

/-- All interleavings of the calls of user tasks. Slots may be in use from the start; none of
them was opened by a system call. -/
def fileSystem : System (FileState D I P W) FileAction :=
  .ofNext (FileState.next drivers) fun s =>
    system.init s.kernel ∧ s.point = (fun _ => .outside) ∧ s.opener = (fun _ => none) ∧
      s.opened = fun _ _ => false

end System

namespace FileState

variable {D I P W : Type*}

def Live (s : FileState D I P W) (p : Nat) : Prop :=
  p < s.sched.count ∧ (s.sched.task p).state ≠ .terminated

/-- Descriptors belong to live tasks. -/
structure OwnedByLive (s : FileState D I P W) : Prop where
  /-- The slots in use that were opened by a system call are those that live tasks hold. -/
  exact : ∀ i, ((s.vfs.openFiles i).inUse = true ∧ s.opener i ≠ none) ↔
    ∃ p, s.Live p ∧ s.opened p i = true
  /-- Nobody reads, moves or closes a descriptor of another task. -/
  own : ∀ c i q, s.kernel.caller = some c → (s.point c).uses = some i →
    s.opener i = some q → q = c
  /-- Tasks that ended or closed what they opened leave no slot behind. -/
  free : (∀ p, s.Live p → ∀ i, s.opened p i = false) →
    ∀ i, (s.vfs.openFiles i).inUse = true → s.opener i = none

/-- A task tests a descriptor: if it is in use, the task has to have opened it. -/
def Holds (s : FileState D I P W) (c : Nat) (fd : Int) : Prop :=
  ∀ i, s.vfs.slotOf fd = some i → s.opened c i = true

/-- What a statement of task `c` at a point needs: it tests descriptors that it holds, and
the free slot it finds is not the one that another call of `VFS::open` has found. -/
def MayExec (s : FileState D I P W) (c : Nat) : FilePoint P → Prop
  | .openFind _ => ∀ i, s.vfs.freeFile = some i → ∀ p < s.sched.count, p ≠ c →
    (s.sched.task p).state = .terminated ∨ (s.point p).reserved ≠ some i
  | .readTest fd _ => s.Holds c fd
  | .writeTest fd _ => s.Holds c fd
  | .closeTest fd => s.Holds c fd
  | _ => True

/-- The steps of a run that respects ownership: besides `MayExec`, a task ends only when it
holds no descriptor. -/
def Respects (s : FileState D I P W) : FileAction → Prop
  | .sched (.killTask id _) => ∀ target, s.kernel.victim id = some target →
    ∀ i, s.opened target i = false
  | .exec => ∀ c, s.kernel.caller = some c → s.MayExec c (s.point c)
  | _ => True

section Decidable

variable (s : FileState D I P W)

instance (c : Nat) (fd : Int) : Decidable (s.Holds c fd) :=
  inferInstanceAs (Decidable (∀ i, s.vfs.slotOf fd = some i → _))

instance (c : Nat) (pt : FilePoint P) : Decidable (s.MayExec c pt) :=
  match pt with
  | .openFind _ => inferInstanceAs (Decidable (∀ i, s.vfs.freeFile = some i → _))
  | .readTest fd _ => inferInstanceAs (Decidable (s.Holds c fd))
  | .writeTest fd _ => inferInstanceAs (Decidable (s.Holds c fd))
  | .closeTest fd => inferInstanceAs (Decidable (s.Holds c fd))
  | .outside | .openDriver _ _ _ | .openStore _ _ _ | .readDriver _ _ | .writeDriver _ _
  | .advance _ _ | .closeDriver _ | .closeStore _ => isTrue trivial

instance (a : FileAction) : Decidable (s.Respects a) :=
  match a with
  | .sched (.killTask id _) =>
    inferInstanceAs (Decidable (∀ target, s.kernel.victim id = some target → _))
  | .exec => inferInstanceAs (Decidable (∀ c, s.kernel.caller = some c → _))
  | .sched (.createTask _ _) | .sched .start | .sched (.tick _) | .sched (.blockCurrent _)
  | .sched (.wake _) | .sysOpen _ | .sysRead _ _ | .sysWrite _ _ | .sysClose _ => isTrue trivial

end Decidable

end FileState

end WengShiOS.Syscalls
