import WengShiOS.Scheduler.Join

/-! # Reading the keyboard from a system call

The `STDIN_FD` branch of `sysRead` in `src/kernel/syscall.cpp`, statement by
statement, on top of the statement-level scheduler: a reader that finds no
character stores itself in `g_pending_stdin_reader`, arms the one-shot callback of
the keyboard and calls `blockCurrent`. The keyboard interrupt, with the callback
it runs, is one step, since it is entered with interrupts disabled. -/

namespace WengShiOS.Syscalls

open Math Drivers Scheduler

/-- The statement of `sysRead(STDIN_FD, buf, length)` a task executes next. -/
inductive ReadPoint
  /-- code outside `sysRead` -/
  | outside
  /-- `while (!Keyboard::hasChar())` -/
  | test (length : Nat)
  /-- `g_pending_stdin_reader = Scheduler::currentTask();` -/
  | register (length : Nat)
  /-- `Keyboard::setOnCharCallback(wakeStdinReader);` -/
  | arm (length : Nat)
  /-- inside `Scheduler::blockCurrent();` -/
  | blocking (length : Nat)
  /-- `while (i < length && Keyboard::hasChar())` -/
  | more (i length : Nat)
  /-- `buf[i++] = Keyboard::getChar();` -/
  | take (i length : Nat)
  deriving DecidableEq, Repr

/-- The scheduler's state machine with the point of every task in `sysRead`, the
reader to wake, and the bytes each task's buffer has received. -/
structure StdinState where
  join : JoinState
  point : Nat → ReadPoint
  pendingStdinReader : Option Nat
  input : Nat → List UInt8

inductive StdinAction
  /-- a step of the scheduler, of `killTask` or of `blockCurrent` -/
  | sched (a : JoinAction)
  /-- a keyboard interrupt -/
  | irq (scancode : UInt8)
  | setFocus (id : Nat)
  /-- the current task calls `sysRead(STDIN_FD, buf, length)` -/
  | sysRead (length : Nat)
  /-- the current task executes its next statement of `sysRead` -/
  | exec

namespace StdinState

abbrev sched (s : StdinState) : Sched := s.join.kernel.sched

abbrev keyboard (s : StdinState) : Keyboard := s.join.kernel.keyboard

def withKeyboard (s : StdinState) (keyboard : Keyboard) : StdinState :=
  { s with join := { s.join with kernel := { s.join.kernel with keyboard } } }

def goto (s : StdinState) (c : Nat) (point : ReadPoint) : StdinState :=
  { s with point := Function.update s.point c point }

def wakeStdinReader (s : StdinState) : StdinState :=
  match s.pendingStdinReader with
  | some reader =>
    { s with join := s.join.withSched (s.sched.wake reader), pendingStdinReader := none }
  | none => s

/-- `Keyboard::onIRQ` with the callback it calls. -/
def onIRQ (s : StdinState) (scancode : UInt8) : StdinState :=
  match s.keyboard.onIRQ scancode with
  | (keyboard, some .wakeStdinReader) => (s.withKeyboard keyboard).wakeStdinReader
  | (keyboard, none) => s.withKeyboard keyboard

/-- `Keyboard::hasChar()` called by task `c`. -/
def hasChar (s : StdinState) (c : Nat) : Bool := s.keyboard.hasChar (some (s.sched.task c).id)

/-- One statement of the current task `c` in `sysRead`. -/
def exec (s : StdinState) (c : Nat) : Option StdinState :=
  match s.point c with
  | .outside => none
  | .test length => some (s.goto c (if s.hasChar c then .more 0 length else .register length))
  | .register length => some { s.goto c (.arm length) with pendingStdinReader := some c }
  | .arm length =>
    let s := s.withKeyboard (s.keyboard.setOnCharCallback .wakeStdinReader)
    some { s.goto c (.blocking length) with join := s.join.goto c (.block none) }
  | .blocking length =>
    if s.join.control c = .outside then some (s.goto c (.test length)) else none
  | .more i length => some (s.goto c (if i < length ∧ s.hasChar c then .take i length else .outside))
  | .take i length =>
    let (ch, keyboard) := s.keyboard.getChar (some (s.sched.task c).id)
    some { (s.withKeyboard keyboard).goto c (.more (i + 1) length) with
      input := Function.update s.input c (s.input c ++ [ch]) }

/-- Whether the current task may take a step of the scheduler's machine: not
between two statements of `sysRead`, except inside the `blockCurrent` it called. -/
def mayStep (s : StdinState) (a : JoinAction) : Bool :=
  match a, s.sched.current with
  | .exec _, some c =>
    match s.point c with
    | .outside => true
    | .blocking _ => true
    | _ => false
  | .waitForTask _, some c => s.point c = .outside
  | .killTask _ _, some c => s.point c = .outside
  | .exitTask _, some c => s.point c = .outside
  | .blockCurrent, some c => s.point c = .outside
  | _, _ => true

/-- The state after an action. A task that has ended makes no further call. -/
def next (s : StdinState) : StdinAction → Option StdinState
  | .sched a => if s.mayStep a then (s.join.next a).map fun join => { s with join } else none
  | .irq scancode => some (s.onIRQ scancode)
  | .setFocus id => some (s.withKeyboard (s.keyboard.setFocus id))
  | .sysRead length => s.join.kernel.caller.bind fun c =>
    if s.point c = .outside ∧ s.join.control c = .outside then
      some { s.goto c (.test (min length 4096)) with input := Function.update s.input c [] }
    else none
  | .exec => s.sched.current.bind s.exec

end StdinState

/-- All interleavings, from `Scheduler::init` and `Keyboard::init`. -/
def stdinSystem : System StdinState StdinAction :=
  .ofNext StdinState.next fun s =>
    joinSystem.init s.join ∧ (∃ k : Keyboard, s.keyboard = k.init) ∧
      s.point = (fun _ => .outside) ∧ s.pendingStdinReader = none

namespace StdinState

/-- Task `p` is blocked in `sysRead(STDIN_FD)`. -/
def Asleep (s : StdinState) (p : Nat) : Prop :=
  (∃ length, s.point p = .blocking length) ∧ (s.sched.task p).state = .blocked

/-- Task `p` may read: nobody has the focus, or `p` has it. -/
def MayRead (s : StdinState) (p : Nat) : Prop :=
  s.keyboard.callerIsFocused (some (s.sched.task p).id) = true

/-- No sleeping reader that may read is left next to a character. -/
def NoneLeftAsleep (s : StdinState) : Prop :=
  ∀ p, s.Asleep p → s.MayRead p → s.keyboard.head = s.keyboard.tail

/-! ### Undisturbed runs -/

/-- Task `p` lives and is past its test in `sysRead` and before its store of
`Blocked`. -/
def FallingAsleep (s : StdinState) (p : Nat) : Prop :=
  (s.sched.task p).state ≠ .terminated ∧
    ((∃ length, s.point p = .register length) ∨ (∃ length, s.point p = .arm length) ∨
      ((∃ length, s.point p = .blocking length) ∧ s.join.control p = .block none))

/-- Task `p` lives and has stored itself as the reader to wake, and is not awake again. -/
def Registered (s : StdinState) (p : Nat) : Prop :=
  (s.sched.task p).state ≠ .terminated ∧
    ((∃ length, s.point p = .arm length) ∨
      ((∃ length, s.point p = .blocking length) ∧
        (s.join.control p = .block none ∨ (s.sched.task p).state = .blocked)))

/-- The focus may change when no character is waiting, or when nobody is falling
asleep or asleep. -/
def MayRefocus (s : StdinState) : Prop :=
  s.keyboard.head = s.keyboard.tail ∨
    ∀ p < s.sched.count, ¬ s.FallingAsleep p ∧ ¬ s.Asleep p

/-- What a statement of `killTask` at `pc` needs for the run to stay undisturbed:
the reset of the focus may take place, and a waiter it makes ready has not ended
since it was tested. -/
def MayExec (s : StdinState) : ControlPoint → Prop
  | .killUnfocus _ => s.MayRefocus
  | .wakeSet _ q => (s.sched.task q).state ≠ .terminated
  | _ => True

/-- The steps of a run that does not disturb the readers: no character arrives
while a task falls asleep, no arrow key while one sleeps, the focus changes only
when that concerns nobody, and a task registers only when no other one is
registered. -/
def Undisturbed (s : StdinState) : StdinAction → Prop
  | .irq scancode =>
    (s.keyboard.TypesChar scancode → ∀ p < s.sched.count, ¬ s.FallingAsleep p) ∧
    (s.keyboard.TypesArrow scancode →
      ∀ p < s.sched.count, ¬ s.FallingAsleep p ∧ ¬ s.Asleep p)
  | .setFocus _ => s.MayRefocus
  | .sched (.exec _) => ∀ c, s.sched.current = some c → s.MayExec (s.join.control c)
  | .exec => ∀ c, s.sched.current = some c → (∃ length, s.point c = .register length) →
    ∀ p < s.sched.count, p ≠ c → ¬ s.Registered p
  | _ => True

section Decidable

instance (pt : ReadPoint) : Decidable (∃ length, pt = .register length) :=
  match pt with
  | .register length => isTrue ⟨length, rfl⟩
  | .outside | .test _ | .arm _ | .blocking _ | .more _ _ | .take _ _ => isFalse (by simp)

instance (pt : ReadPoint) : Decidable (∃ length, pt = .arm length) :=
  match pt with
  | .arm length => isTrue ⟨length, rfl⟩
  | .outside | .test _ | .register _ | .blocking _ | .more _ _ | .take _ _ => isFalse (by simp)

instance (pt : ReadPoint) : Decidable (∃ length, pt = .blocking length) :=
  match pt with
  | .blocking length => isTrue ⟨length, rfl⟩
  | .outside | .test _ | .register _ | .arm _ | .more _ _ | .take _ _ => isFalse (by simp)

instance (s : StdinState) (p : Nat) : Decidable (s.FallingAsleep p) := by
  unfold FallingAsleep
  infer_instance

instance (s : StdinState) (p : Nat) : Decidable (s.Asleep p) := by
  unfold Asleep
  infer_instance

instance (s : StdinState) (p : Nat) : Decidable (s.Registered p) := by
  unfold Registered
  infer_instance

instance (s : StdinState) : Decidable s.MayRefocus := by
  unfold MayRefocus
  infer_instance

instance (s : StdinState) : (pc : ControlPoint) → Decidable (s.MayExec pc)
  | .killUnfocus _ => inferInstanceAs (Decidable s.MayRefocus)
  | .wakeSet _ q => inferInstanceAs (Decidable ((s.sched.task q).state ≠ .terminated))
  | .outside | .halted | .waitFind _ | .waitNull _ _ | .waitTest _ _ | .waitRegister _ _
  | .waitRead _ _ | .block _ | .yield _ | .killFind _ _ | .killTest _ _ _ | .killSelf _ _ _
  | .killCode _ | .killState _ | .killParent _ | .wakeTest _ _ | .killClear _ | .killQueue _
  | .killQueueAgain _ | .killFocus _ | .killEnd _ => isTrue trivial

instance (s : StdinState) : (a : StdinAction) → Decidable (s.Undisturbed a)
  | .irq _ => inferInstanceAs (Decidable (_ ∧ _))
  | .setFocus _ => inferInstanceAs (Decidable s.MayRefocus)
  | .sched (.exec _) => inferInstanceAs (Decidable (∀ c, s.sched.current = some c → _))
  | .exec => inferInstanceAs (Decidable (∀ c, s.sched.current = some c → _))
  | .sysRead _ | .sched (.createTask _ _) | .sched .start | .sched (.tick _) | .sched (.wake _)
  | .sched (.waitForTask _) | .sched (.killTask _ _) | .sched (.exitTask _)
  | .sched .blockCurrent => isTrue trivial

end Decidable

end StdinState

end WengShiOS.Syscalls
