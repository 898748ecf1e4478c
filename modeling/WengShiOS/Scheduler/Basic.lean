import Mathlib.Algebra.Group.Nat.Defs
import WengShiOS.Drivers.Keyboard

/-! # The scheduler

`src/shed/scheduler.cpp`: a circular list of tasks linked through `next`, entered
at `g_tail`, and the round-robin `tick` that the timer interrupt and `yield` run.

A `Task *` is the index of the task in the order of creation, since tasks are
never freed. The results of the allocations `createTask` makes are parameters.
The register frame it writes on the new stack is represented by its address, the
initial `rsp`. -/

namespace WengShiOS.Scheduler

open Drivers

inductive TaskState
  | ready | running | blocked | terminated
  deriving DecidableEq, Repr

structure Task where
  rsp : Nat
  id : Nat
  state : TaskState
  stackBase : Nat
  kernelStackTop : Nat
  brkStart : Nat
  brkCurrent : Nat
  exitCode : Int
  waitingParent : Option Nat
  plm4Phys : Nat
  next : Nat

/-- The globals of the scheduler, the tasks behind its pointers, and what it
tells the rest of the machine: the stack pointer the interrupt stub loads, the
kernel stack of the TSS, the active address space and the pointers passed to
`Heap::kfree`. -/
structure Sched where
  count : Nat
  task : Nat → Task
  current : Option Nat
  tail : Option Nat
  nextId : Nat
  started : Bool
  pendingCleanup : List Nat
  nextTaskRsp : Nat
  kernelStack : Nat
  addressSpace : Nat
  freed : List Nat

namespace Sched

def maxPendingCleanup : Nat := 8

/-- Write through a task pointer. -/
def modify (s : Sched) (p : Nat) (f : Task → Task) : Sched :=
  { s with task := Function.update s.task p (f (s.task p)) }

def setState (s : Sched) (p : Nat) (st : TaskState) : Sched :=
  s.modify p fun t => { t with state := st }

def reapOne (s : Sched) (p : Nat) : Sched :=
  { s with freed := s.freed ++ [(s.task p).stackBase] }.modify p
    fun t => { t with stackBase := 0 }

def reapTerminated (s : Sched) : Sched :=
  { s.pendingCleanup.foldl reapOne s with pendingCleanup := [] }

/-- The `do … while (candidate != start)` walk along `next` shared by the two
searches. The ring has `count` members, which bounds the walk. -/
def walk (s : Sched) (found : Task → Bool) (start : Nat) : Nat → Nat → Option Nat
  | 0, _ => none
  | fuel + 1, candidate =>
    if found (s.task candidate) then some candidate
    else if (s.task candidate).next = start then none
    else walk s found start fuel (s.task candidate).next

def findNextReady (s : Sched) (origin : Nat) : Option Nat :=
  s.walk (fun t => t.state = .ready) (s.task origin).next s.count (s.task origin).next

def findTaskById (s : Sched) (id : Nat) : Option Nat :=
  match s.tail with
  | none => none
  | some tail => s.walk (fun t => t.id = id) (s.task tail).next s.count (s.task tail).next

/-- `Scheduler::init`; it writes the globals and no task. -/
def init (s : Sched) : Sched :=
  { s with current := none, tail := none, nextId := 1, started := false, pendingCleanup := [] }

/-- What the allocations of one `createTask` returned; 0 stands for failure. -/
structure TaskMemory where
  task : Bool
  stack : Nat
  kstack : Nat
  plm4 : Nat
  deriving DecidableEq, Repr

def registersSize : Nat := 176

/-- The record `createTask` fills in before linking it. -/
def newTask (s : Sched) (mem : TaskMemory) (stackSize : Nat) : Task where
  rsp := (mem.stack + stackSize - registersSize) / 16 * 16
  id := s.nextId
  state := .ready
  stackBase := mem.stack
  kernelStackTop := (mem.kstack + stackSize) / 16 * 16
  brkStart := 0
  brkCurrent := 0
  exitCode := 0
  waitingParent := none
  plm4Phys := mem.plm4
  next := match s.tail with
    | none => s.count
    | some tail => (s.task tail).next

def createTask (s : Sched) (mem : TaskMemory) (stackSize : Nat) : Sched × Option Nat :=
  if mem.task = false ∨ mem.stack = 0 ∨ mem.kstack = 0 then (s, none)
  else if mem.plm4 = 0 then (s, none)
  else
    let task := Function.update s.task s.count (s.newTask mem stackSize)
    let s' := { s with count := s.count + 1, task, nextId := (s.nextId + 1) % 2 ^ 32,
                       tail := some s.count }
    match s.tail with
    | none => (s', some s.count)
    | some tail => (s'.modify tail fun t => { t with next := s.count }, some s.count)

/-- `start`, up to `scheduler_enter`. It reads `g_tail->next`. -/
def start (s : Sched) : Option Sched :=
  s.tail.map fun tail =>
    let first := (s.task tail).next
    let s := { s with current := some first }.setState first .running
    { s with started := true, kernelStack := (s.task first).kernelStackTop,
             addressSpace := (s.task first).plm4Phys }

/-- The part of `tick` after `findNextReady` found `next`. -/
def dispatch (s : Sched) (next : Nat) : Sched :=
  let s := { s with current := some next }.setState next .running
  { s with nextTaskRsp := (s.task next).rsp, kernelStack := (s.task next).kernelStackTop,
           addressSpace := (s.task next).plm4Phys }

/-- The part of `tick` taken when nothing is ready anywhere in the ring. -/
def resume (s : Sched) (current : Nat) : Sched :=
  { s with nextTaskRsp := (s.task current).rsp }.setState current .running

/-- The part of `tick` before the search: the current task's frame is saved and
a running task becomes ready again. -/
def preempt (s : Sched) (current : Nat) (regs : Nat) : Sched :=
  s.reapTerminated.modify current fun t =>
    { t with rsp := regs, state := if t.state = .running then .ready else t.state }

def tick (s : Sched) (regs : Nat) : Sched :=
  match s.started, s.current with
  | true, some current =>
    let s := s.preempt current regs
    match s.findNextReady current with
    | none => s.resume current
    | some next => s.dispatch next
  | _, _ => s

/-- The store of `blockCurrent`; the `yield` after it is a `tick`. -/
def markBlocked (s : Sched) (current : Nat) : Sched := s.setState current .blocked

def blockCurrent (s : Sched) (current : Nat) (regs : Nat) : Sched :=
  (s.markBlocked current).tick regs

def wake (s : Sched) (p : Nat) : Sched :=
  if (s.task p).state = .blocked then s.setState p .ready else s

/-- One bounded append to `g_pending_cleanup`. -/
def enqueueCleanup (s : Sched) (p : Nat) : Sched :=
  if s.pendingCleanup.length < maxPendingCleanup then
    { s with pendingCleanup := s.pendingCleanup ++ [p] }
  else s

/-- The two stores of `killTask` that end the target. -/
def terminate (s : Sched) (target : Nat) (exitCode : Int) : Sched :=
  s.modify target fun t => { t with exitCode, state := .terminated }

/-- The waiter of a terminated task is woken; without one the task is queued. -/
def releaseWaiter (s : Sched) (target : Nat) : Sched :=
  match (s.task target).waitingParent with
  | some parent => (s.wake parent).modify target fun t => { t with waitingParent := none }
  | none => s.enqueueCleanup target

end Sched

/-- The scheduler together with the keyboard, whose focus `killTask` resets. -/
structure Kernel where
  sched : Sched
  keyboard : Keyboard

namespace Kernel

/-- `killTask`. When the target is the caller the code never returns and halts
until the next tick; the state it leaves is the one below. -/
def killTask (k : Kernel) (id : Nat) (exitCode : Int) : Kernel × Bool :=
  match k.sched.findTaskById id with
  | none => (k, false)
  | some target =>
    if (k.sched.task target).state = .terminated then (k, false)
    else
      ({ sched := ((k.sched.terminate target exitCode).releaseWaiter target).enqueueCleanup target
         keyboard := if k.keyboard.getFocus = id then k.keyboard.setFocus 0 else k.keyboard },
       true)

end Kernel

end WengShiOS.Scheduler
