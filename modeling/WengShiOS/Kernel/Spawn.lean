import WengShiOS.Scheduler.Dispatch

/-! # Spawning and executing programs

`sysSpawn`, `spawnedTaskEntry` and `sysExec` of `src/kernel/syscall.cpp`. The
request of a spawn travels through the global `g_spawn_params`, which the parent
writes argument by argument and the child reads when it first runs; `sysExec`
keeps its arguments in static storage that `Elf::load` reads at its end. Both are
shared by all tasks, and the timer may switch tasks between any two steps.

Strings are the bytes before the terminating NUL. -/

namespace WengShiOS.Syscalls

open Math Scheduler

abbrev Text := List UInt8

def maxSpawnArgs : Nat := 16

/-- The size of `g_spawn_params.path`. -/
def spawnPathSize : Nat := 128

/-- `if (len >= 64) len = 63;` -/
def clipArg (arg : Text) : Text := arg.take 63

/-- The path and the arguments a program asks to run. -/
structure Request where
  path : Text
  args : List Text
  deriving DecidableEq, Repr

/-- The arguments that fit: the first 16, each up to 63 bytes. -/
def Request.clip (r : Request) : Request := ⟨r.path, (r.args.take maxSpawnArgs).map clipArg⟩

/-- `g_spawn_params`; the pointers `argv[i]` always lead to `argv_storage[i]`. -/
structure SpawnParams where
  path : Text
  argvStorage : Nat → Text
  argc : Nat

/-- The next step of a task in one of the three functions. -/
inductive SpawnPoint
  /-- code outside them -/
  | outside
  /-- `sysSpawn`: the test of the path's length and its copy -/
  | spawnPath (r : Request)
  /-- an iteration of the argument loop -/
  | spawnArg (r : Request) (argc : Nat)
  /-- `g_spawn_params.argc = argc;` -/
  | spawnArgc (r : Request) (argc : Nat)
  /-- `Scheduler::createTask(spawnedTaskEntry)` and the return -/
  | spawnCreate (r : Request)
  /-- `spawnedTaskEntry`: `int argc = g_spawn_params.argc;` -/
  | entryArgc
  /-- `memcpy(path, g_spawn_params.path, sizeof(path));` -/
  | entryPath (argc : Nat)
  /-- an iteration of the copy loop; `args` are the copies made so far -/
  | entryArg (argc : Nat) (path : Text) (args : List Text)
  /-- `Elf::load(path, argc, argv, …)` on the copies -/
  | entryLoad (path : Text) (args : List Text)
  /-- `sysExec`: an iteration of `copyUserArgv` -/
  | execArg (r : Request) (argc : Nat)
  /-- `return argc > 0;` and the opening of the file by `Elf::load` -/
  | execOpen (r : Request) (argc : Nat)
  /-- `setupArgs` reads the arguments from the last down; `args` are those read -/
  | execRead (r : Request) (i : Nat) (args : List Text)
  deriving DecidableEq, Repr

/-- The kernel with the two shared argument areas. The last four fields are
history: the request a task was spawned for, what its entry function passed to
`Elf::load`, the ids `sysSpawn` returned, and the loads of `sysExec`. -/
structure SpawnState where
  kernel : Kernel
  params : SpawnParams
  execStorage : Nat → Text
  point : Nat → SpawnPoint
  spawnedFor : Nat → Option Request
  entryLoads : Nat → List Request
  returned : List (Nat × Request)
  execLoads : List (Request × Request)

inductive SpawnAction
  /-- a scheduler call, by the current task when it is outside the three functions -/
  | sched (a : Action)
  | sysSpawn (r : Request)
  | sysExec (r : Request)
  /-- the current task takes its next step; `mem` are the allocations of
  `createTask`, `opened` says whether `Elf::load` gets as far as `setupArgs` -/
  | exec (mem : Sched.TaskMemory) (opened : Bool)

namespace SpawnState

abbrev sched (s : SpawnState) : Sched := s.kernel.sched

def goto (s : SpawnState) (c : Nat) (point : SpawnPoint) : SpawnState :=
  { s with point := Function.update s.point c point }

def stackSize : Nat := 16384

/-- `createTask(spawnedTaskEntry)` and `return task->id;` -/
def create (s : SpawnState) (c : Nat) (r : Request) (mem : Sched.TaskMemory) : SpawnState :=
  match s.sched.createTask mem stackSize with
  | (_, none) => s.goto c .outside
  | (sched, some task) =>
    { s.goto c .outside with
      kernel := { s.kernel with sched }
      point := Function.update (Function.update s.point c .outside) task .entryArgc
      spawnedFor := Function.update s.spawnedFor task (some r)
      entryLoads := Function.update s.entryLoads task []
      returned := s.returned ++ [((sched.task task).id, r)] }

/-- One step of the current task `c`. -/
def exec (s : SpawnState) (c : Nat) (mem : Sched.TaskMemory) (opened : Bool) :
    Option SpawnState :=
  match s.point c with
  | .outside => none
  | .spawnPath r =>
    some (if spawnPathSize ≤ r.path.length then s.goto c .outside
      else { s.goto c (.spawnArg r 0) with params := { s.params with path := r.path } })
  | .spawnArg r argc =>
    some (match decide (argc < maxSpawnArgs), r.args[argc]? with
      | true, some arg =>
        { s.goto c (.spawnArg r (argc + 1)) with
          params := { s.params with
            argvStorage := Function.update s.params.argvStorage argc (clipArg arg) } }
      | _, _ => s.goto c (.spawnArgc r argc))
  | .spawnArgc r argc =>
    some { s.goto c (.spawnCreate r) with params := { s.params with argc } }
  | .spawnCreate r => some (s.create c r mem)
  | .entryArgc => some (s.goto c (.entryPath s.params.argc))
  | .entryPath argc => some (s.goto c (.entryArg argc s.params.path []))
  | .entryArg argc path args =>
    some (if args.length < argc then
        s.goto c (.entryArg argc path (args ++ [s.params.argvStorage args.length]))
      else s.goto c (.entryLoad path args))
  | .entryLoad path args =>
    some { s.goto c .outside with
      entryLoads := Function.update s.entryLoads c (s.entryLoads c ++ [⟨path, args⟩]) }
  | .execArg r argc =>
    some (match decide (argc < maxSpawnArgs), r.args[argc]? with
      | true, some arg =>
        { s.goto c (.execArg r (argc + 1)) with
          execStorage := Function.update s.execStorage argc (clipArg arg) }
      | _, _ => s.goto c (.execOpen r argc))
  | .execOpen r argc =>
    some (s.goto c (if 0 < argc ∧ opened then .execRead r argc [] else .outside))
  | .execRead r i args =>
    some (match i with
      | 0 => { s.goto c .outside with execLoads := s.execLoads ++ [(r, ⟨r.path, args⟩)] }
      | i + 1 => s.goto c (.execRead r i (s.execStorage i :: args)))

/-- Whether the current task is outside the three functions, or nobody runs. -/
def mayCall (s : SpawnState) : Prop := ∀ c, s.sched.current = some c → s.point c = .outside

/-- A scheduler call that is made by the current task, not by an interrupt. -/
def byCurrent : Action → Bool
  | .tick _ => false
  | .wake _ => false
  | _ => true

/-- The current task enters a function. -/
def call (s : SpawnState) (point : SpawnPoint) : Option SpawnState :=
  s.kernel.caller.bind fun c => if s.point c = .outside then some (s.goto c point) else none

instance (s : SpawnState) : Decidable s.mayCall :=
  match h : s.sched.current with
  | none => isTrue (by simp [mayCall, h])
  | some c => decidable_of_iff (s.point c = .outside) (by simp [mayCall, h])

def next (s : SpawnState) : SpawnAction → Option SpawnState
  | .sched a =>
    if byCurrent a → s.mayCall then (s.kernel.next a).map fun kernel => { s with kernel } else none
  | .sysSpawn r => s.call (.spawnPath r)
  | .sysExec r => s.call (.execArg r 0)
  | .exec mem opened => s.sched.current.bind fun c => s.exec c mem opened

end SpawnState

/-- All interleavings, from `Scheduler::init`. -/
def spawnSystem : System SpawnState SpawnAction :=
  .ofNext SpawnState.next fun s =>
    system.init s.kernel ∧ s.point = (fun _ => .outside) ∧ s.spawnedFor = (fun _ => none) ∧
      s.returned = [] ∧ s.execLoads = []

namespace SpawnPoint

/-- The parent has begun to write `g_spawn_params`, or the child has not yet
finished copying it. -/
def ownsParams : SpawnPoint → Bool
  | .spawnArg _ _ | .spawnArgc _ _ | .spawnCreate _ => true
  | .entryArgc | .entryPath _ | .entryArg _ _ _ => true
  | _ => false

/-- The task has begun to write the storage of `sysExec`, and its load has not
read all of it. -/
def ownsExec : SpawnPoint → Bool
  | .execArg _ argc => 0 < argc
  | .execOpen _ _ | .execRead _ _ _ => true
  | _ => false

/-- The task is inside `spawnedTaskEntry`, before `Elf::load`. -/
def isEntry : SpawnPoint → Bool
  | .entryArgc | .entryPath _ | .entryArg _ _ _ | .entryLoad _ _ => true
  | _ => false

end SpawnPoint

namespace SpawnState

/-- Every id `sysSpawn` returned is that of a task spawned for that request; the
entry function of such a task has yet to load, or has loaded the request once; and
every load of `sysExec` is of the request of its caller. -/
structure Delivered (s : SpawnState) : Prop where
  returned : ∀ x ∈ s.returned, ∃ p < s.sched.count, (s.sched.task p).id = x.1 ∧
    s.spawnedFor p = some x.2
  entryLoads : ∀ p r, s.spawnedFor p = some r →
    s.entryLoads p = [] ∧ (s.point p).isEntry = true ∨ s.entryLoads p = [r.clip]
  execLoads : ∀ x ∈ s.execLoads, x.2 = x.1.clip

def OwnsParams (s : SpawnState) (p : Nat) : Prop :=
  (s.sched.task p).state ≠ .terminated ∧ (s.point p).ownsParams = true

def OwnsExec (s : SpawnState) (p : Nat) : Prop :=
  (s.sched.task p).state ≠ .terminated ∧ (s.point p).ownsExec = true

/-- What a step at `point` needs for the requests to stay apart: nobody else is
using the area it begins to write. -/
def MayExec (s : SpawnState) (c : Nat) : SpawnPoint → Prop
  | .spawnPath _ => ∀ p < s.sched.count, p ≠ c → ¬ s.OwnsParams p
  | .execArg _ 0 => ∀ p < s.sched.count, p ≠ c → ¬ s.OwnsExec p
  | _ => True

/-- The steps of a run in which requests do not overlap. -/
def OneAtATime (s : SpawnState) : SpawnAction → Prop
  | .exec _ _ => ∀ c, s.sched.current = some c → s.MayExec c (s.point c)
  | _ => True

end SpawnState

end WengShiOS.Syscalls
