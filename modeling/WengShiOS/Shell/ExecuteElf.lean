import WengShiOS.Scheduler.Join

/-! # Running a program from the shell

`cmdExecuteElf`, `taskAlive` and `userTaskEntry` in `src/shell/shell.cpp`, statement by
statement, on top of the statement-level scheduler. The shell is the first task
`kernel_main` creates; it is either in its prompt loop or inside `cmdExecuteElf`. The
child it creates is schedulable at once, and a tick may fall between any two
statements, so the child may end before the shell gives it the focus. -/

namespace WengShiOS.Shell

open Math Drivers Scheduler

/-- The statement a task executes next outside the scheduler's functions. -/
inductive ProgramPoint
  /-- the prompt loop of the shell -/
  | prompt
  /-- `Task* task = Scheduler::createTask(userTaskEntry);` -/
  | create
  /-- `if (task)` -/
  | focusTest (task : Option Nat)
  /-- `Keyboard::setFocus(task->id);` -/
  | focusSet (task : Nat)
  /-- `uint32_t task_id = task->id;` -/
  | loadId (task : Option Nat)
  /-- the call of `Scheduler::waitForTask(task_id)` -/
  | wait (id : Nat)
  /-- inside `waitForTask`, then the `printf` -/
  | waiting (id : Nat)
  /-- in `taskAlive`: `Task* start = currentTask(); Task* t = start;` -/
  | aliveStart (id : Nat)
  /-- in `taskAlive`: `if (t->id == id) return t->state != TaskState::Terminated;` -/
  | aliveTest (id start t : Nat)
  /-- in `taskAlive`: `t = t->next; } while (t != start);` -/
  | aliveNext (id start t : Nat)
  /-- `Scheduler::yield();` -/
  | yield (id : Nat)
  /-- in `userTaskEntry`: `uint64_t entry = Elf::load(…); if (!entry)` -/
  | load
  /-- in `userTaskEntry`: `Keyboard::setFocus(0);` -/
  | unfocus
  /-- in `userTaskEntry`: `Scheduler::exitTask();` -/
  | exit
  /-- after `exitTask`, which does not return -/
  | gone
  /-- a program in user mode, or a task that runs other code -/
  | user
  deriving DecidableEq, Repr

/-- The scheduler's state machine with the point of every task in its own code. -/
structure ShellState where
  join : JoinState
  point : Nat → ProgramPoint

/-- What a statement of these functions gets from the rest of the system: the allocations
`createTask` makes, whether `Elf::load` succeeds, what is read through a null pointer, and
the frame `yield` pushes. -/
structure Input where
  mem : Sched.TaskMemory
  loaded : Bool
  garbage : Nat
  regs : Nat

inductive ShellAction
  /-- a step of the scheduler, or a call of one of its functions by other code -/
  | sched (a : JoinAction)
  /-- the user types `execelf` at the prompt -/
  | cmdExecuteElf
  /-- the current task executes its next statement -/
  | exec (input : Input)

def defaultStackSize : Nat := 16384

namespace ShellState

abbrev sched (s : ShellState) : Sched := s.join.kernel.sched

abbrev keyboard (s : ShellState) : Keyboard := s.join.kernel.keyboard

abbrev focus (s : ShellState) : Nat := s.keyboard.getFocus

def goto (s : ShellState) (c : Nat) (point : ProgramPoint) : ShellState :=
  { s with point := Function.update s.point c point }

def withSched (s : ShellState) (sched : Sched) : ShellState :=
  { s with join := s.join.withSched sched }

def setFocus (s : ShellState) (id : Nat) : ShellState :=
  { s with join := { s.join with kernel :=
    { s.join.kernel with keyboard := s.keyboard.setFocus id } } }

/-- The task calls a function of the scheduler, which it enters at `pc`. -/
def enter (s : ShellState) (c : Nat) (pc : ControlPoint) : ShellState :=
  { s with join := s.join.goto c pc }

/-- One statement of the current task `c`, which is outside the scheduler's functions. -/
def exec (s : ShellState) (c : Nat) (input : Input) : Option ShellState :=
  match s.point c with
  | .prompt => none
  | .create =>
    match s.sched.createTask input.mem defaultStackSize with
    | (sched, none) => some ((s.withSched sched).goto c (.focusTest none))
    | (sched, some task) =>
      some (((s.withSched sched).goto task .load).goto c (.focusTest (some task)))
  | .focusTest none => some (s.goto c (.loadId none))
  | .focusTest (some task) => some (s.goto c (.focusSet task))
  | .focusSet task => some ((s.setFocus (s.sched.task task).id).goto c (.loadId (some task)))
  | .loadId none => some (s.goto c (.wait input.garbage))
  | .loadId (some task) => some (s.goto c (.wait (s.sched.task task).id))
  | .wait id => some ((s.enter c (.waitFind id)).goto c (.waiting id))
  | .waiting id => some (s.goto c (.aliveStart id))
  | .aliveStart id => some (s.goto c (.aliveTest id c c))
  | .aliveTest id start t =>
    some (s.goto c (if (s.sched.task t).id = id then
      if (s.sched.task t).state ≠ .terminated then .yield id else .prompt
    else .aliveNext id start t))
  | .aliveNext id start t =>
    some (s.goto c (if (s.sched.task t).next ≠ start then
      .aliveTest id start (s.sched.task t).next else .prompt))
  | .yield id => some ((s.withSched (s.sched.tick input.regs)).goto c (.aliveStart id))
  | .load => some (s.goto c (if input.loaded then .user else .unfocus))
  | .unfocus => some ((s.setFocus 0).goto c .exit)
  | .exit => some ((s.enter c (.killFind (s.sched.task c).id 0)).goto c .gone)
  | .gone => none
  | .user => none

/-- Whether the current task may take a step of the scheduler's machine: other code calls
any of the functions, and the shell at its prompt has the `kill` command. -/
def mayStep (s : ShellState) (a : JoinAction) : Bool :=
  match a, s.sched.current with
  | .createTask _ _, some c => s.point c = .user ∧ s.join.control c = .outside
  | .waitForTask _, some c => s.point c = .user
  | .killTask _ _, some c => s.point c = .user ∨ s.point c = .prompt
  | .exitTask _, some c => s.point c = .user
  | .blockCurrent, some c => s.point c = .user
  | _, _ => true

/-- The shell is task 0. -/
def next (s : ShellState) : ShellAction → Option ShellState
  | .sched a => if s.mayStep a then (s.join.next a).map fun join => { s with join } else none
  | .cmdExecuteElf =>
    if s.sched.current = some 0 ∧ s.join.control 0 = .outside ∧ s.point 0 = .prompt then
      some (s.goto 0 .create)
    else none
  | .exec input => s.sched.current.bind fun c =>
    if s.join.control c = .outside then s.exec c input else none

end ShellState

/-- All interleavings, from `Scheduler::init` on. -/
def shellSystem : System ShellState ShellAction :=
  .ofNext ShellState.next fun s =>
    joinSystem.init s.join ∧ s.focus = 0 ∧ s.point = fun p => if p = 0 then .prompt else .user

namespace ShellState

/-- The shell has returned to its prompt loop. -/
def AtPrompt (s : ShellState) : Prop := s.point 0 = .prompt ∧ s.join.control 0 = .outside

/-- Some task with the id has not ended. -/
def Alive (s : ShellState) (id : Nat) : Prop :=
  ∃ p < s.sched.count, (s.sched.task p).id = id ∧ (s.sched.task p).state ≠ .terminated

/-- At the prompt the focus is not on a dead task. -/
def FocusLives (s : ShellState) : Prop := s.AtPrompt → s.focus = 0 ∨ s.Alive s.focus

end ShellState

/-- The id whose focus a `killTask` call that has stored `Terminated` is still going to test
and reset. -/
@[simp] def unfocuses : ControlPoint → Option Nat
  | .killParent f => some f.id
  | .wakeTest f _ => some f.id
  | .wakeSet f _ => some f.id
  | .killClear f => some f.id
  | .killQueue f => some f.id
  | .killQueueAgain f => some f.id
  | .killFocus f => some f.id
  | .killUnfocus f => some f.id
  | _ => none

namespace ShellState

/-- What the focus needs of a statement: the shell gives it to a task that has not ended. -/
def MayExec (s : ShellState) : ProgramPoint → Prop
  | .focusSet task => (s.sched.task task).state ≠ .terminated
  | _ => True

/-- The steps of a run that does not disturb the focus: besides `MayExec`, no tick falls into
a `killTask` of the focused task after the store of `Terminated` and before the focus is
reset. -/
def Undisturbed (s : ShellState) : ShellAction → Prop
  | .sched (.tick _) => ∀ c, s.sched.current = some c →
    s.focus = 0 ∨ unfocuses (s.join.control c) ≠ some s.focus
  | .exec _ => ∀ c, s.sched.current = some c → s.MayExec (s.point c)
  | _ => True

instance (s : ShellState) (pt : ProgramPoint) : Decidable (s.MayExec pt) := by
  cases pt <;> unfold MayExec <;> infer_instance

instance (s : ShellState) (a : ShellAction) : Decidable (s.Undisturbed a) :=
  match a with
  | .sched (.tick _) => inferInstanceAs (Decidable (∀ c, s.sched.current = some c → _))
  | .exec _ => inferInstanceAs (Decidable (∀ c, s.sched.current = some c → _))
  | .cmdExecuteElf => isTrue trivial
  | .sched (.createTask _ _) | .sched .start | .sched (.wake _) | .sched (.waitForTask _)
  | .sched (.killTask _ _) | .sched (.exitTask _) | .sched .blockCurrent | .sched (.exec _) =>
    isTrue trivial

end ShellState

end WengShiOS.Shell
