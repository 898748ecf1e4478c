import WengShiOS.Scheduler.Dispatch

/-! # Waiting for a task, statement by statement

System calls run with interrupts enabled, so a timer tick may fall between any
two statements of `waitForTask`, `blockCurrent`, `killTask` and `wake`. Every task
has a control point inside these functions; the current task executes one
statement at a time, and a tick is possible at every point.

The join is correct in the runs where no tick separates the test of the target
from the store of `Blocked`, or the test in `killTask` from the wake-up, where no
second live waiter takes the slot, where nobody but `killTask` wakes a waiter and
where every tick finds a runnable task. -/

namespace WengShiOS.Scheduler

open Math Drivers Sched

/-- The locals of one `killTask` call after its target was found. -/
structure KillFrame where
  id : Nat
  exitCode : Int
  target : Nat
  killingSelf : Bool
  deriving DecidableEq, Repr

/-- The statement a task executes next. -/
inductive ControlPoint
  /-- code outside the modelled functions -/
  | outside
  /-- the `hlt` loop of a task that killed itself -/
  | halted
  /-- `Task *target = findTaskById(id);` -/
  | waitFind (id : Nat)
  /-- `if (!target) return -1;` -/
  | waitNull (id : Nat) (target : Option Nat)
  /-- `if (target->state != TaskState::Terminated)` -/
  | waitTest (id target : Nat)
  /-- `target->waiting_parent = g_current;` -/
  | waitRegister (id target : Nat)
  /-- `int32_t exit_code = target->exit_code; return exit_code;` -/
  | waitRead (id target : Nat)
  /-- `g_current->state = TaskState::Blocked;`, called by `waitForTask` or by other code -/
  | block (wait : Option (Nat × Nat))
  /-- `yield();` -/
  | yield (wait : Option (Nat × Nat))
  /-- `Task* target = findTaskById(id);` -/
  | killFind (id : Nat) (exitCode : Int)
  /-- `if (!target || target->state == TaskState::Terminated) return false;` -/
  | killTest (id : Nat) (exitCode : Int) (target : Option Nat)
  /-- `bool killing_self = (target == g_current);` -/
  | killSelf (id : Nat) (exitCode : Int) (target : Nat)
  /-- `target->exit_code = exit_code;` -/
  | killCode (frame : KillFrame)
  /-- `target->state = TaskState::Terminated;` -/
  | killState (frame : KillFrame)
  /-- `if (target->waiting_parent)` -/
  | killParent (frame : KillFrame)
  /-- in `wake`: `if (task->state == TaskState::Blocked)` -/
  | wakeTest (frame : KillFrame) (parent : Nat)
  /-- in `wake`: `task->state = TaskState::Ready;` -/
  | wakeSet (frame : KillFrame) (parent : Nat)
  /-- `target->waiting_parent = nullptr;` -/
  | killClear (frame : KillFrame)
  /-- the bounded append of the `else` branch -/
  | killQueue (frame : KillFrame)
  /-- the bounded append both branches reach -/
  | killQueueAgain (frame : KillFrame)
  /-- `if (Keyboard::getFocus() == id)` -/
  | killFocus (frame : KillFrame)
  /-- `Keyboard::setFocus(0);` -/
  | killUnfocus (frame : KillFrame)
  /-- `if (killing_self)` … `return true;` -/
  | killEnd (frame : KillFrame)
  deriving DecidableEq, Repr

/-- Where a caller of `blockCurrent` goes on after its `yield`. -/
def ControlPoint.afterYield : Option (Nat × Nat) → ControlPoint
  | some (id, target) => .waitRead id target
  | none => .outside

/-- A completed call of `waitForTask`. -/
structure JoinReturn where
  id : Nat
  target : Option Nat
  exitCode : Int
  deriving DecidableEq, Repr

/-- The kernel with the control point of every task. The last two fields record
history: the calls of `waitForTask` that returned, and for each task the exit code
given to the `killTask` that terminated it. -/
structure JoinState where
  kernel : Kernel
  control : Nat → ControlPoint
  returned : List JoinReturn
  endedWith : Nat → Option Int

inductive JoinAction
  | createTask (mem : Sched.TaskMemory) (stackSize : Nat)
  | start
  /-- the timer interrupt -/
  | tick (regs : Nat)
  /-- an interrupt handler calls `wake` -/
  | wake (p : Nat)
  /-- the current task calls one of the functions -/
  | waitForTask (id : Nat)
  | killTask (id : Nat) (exitCode : Int)
  | exitTask (exitCode : Int)
  | blockCurrent
  /-- the current task executes its next statement; `regs` is the frame `yield` pushes -/
  | exec (regs : Nat)

namespace JoinState

abbrev sched (s : JoinState) : Sched := s.kernel.sched

def goto (s : JoinState) (c : Nat) (pc : ControlPoint) : JoinState :=
  { s with control := Function.update s.control c pc }

def withSched (s : JoinState) (sched : Sched) : JoinState :=
  { s with kernel := { s.kernel with sched } }

/-- One statement of the current task `c`. -/
def exec (s : JoinState) (c regs : Nat) : Option JoinState :=
  match s.control c with
  | .outside => none
  | .halted => none
  | .waitFind id => some (s.goto c (.waitNull id (s.sched.findTaskById id)))
  | .waitNull id none =>
    some { s.goto c .outside with returned := s.returned ++ [⟨id, none, -1⟩] }
  | .waitNull id (some target) => some (s.goto c (.waitTest id target))
  | .waitTest id target =>
    some (if (s.sched.task target).state ≠ .terminated then s.goto c (.waitRegister id target)
      else s.goto c (.waitRead id target))
  | .waitRegister id target =>
    some ((s.withSched (s.sched.modify target fun t => { t with waitingParent := some c })).goto c
      (.block (some (id, target))))
  | .waitRead id target =>
    some { s.goto c .outside with
      returned := s.returned ++ [⟨id, some target, (s.sched.task target).exitCode⟩] }
  | .block wait => some ((s.withSched (s.sched.markBlocked c)).goto c (.yield wait))
  | .yield wait =>
    some ((s.withSched (s.sched.tick regs)).goto c (.afterYield wait))
  | .killFind id exitCode => some (s.goto c (.killTest id exitCode (s.sched.findTaskById id)))
  | .killTest _ _ none => some (s.goto c .outside)
  | .killTest id exitCode (some target) =>
    some (if (s.sched.task target).state = .terminated then s.goto c .outside
      else s.goto c (.killSelf id exitCode target))
  | .killSelf id exitCode target =>
    some (s.goto c (.killCode ⟨id, exitCode, target, target = c⟩))
  | .killCode f =>
    some ((s.withSched (s.sched.modify f.target fun t => { t with exitCode := f.exitCode })).goto c
      (.killState f))
  | .killState f =>
    let ended := if (s.sched.task f.target).state = .terminated then s.endedWith
      else Function.update s.endedWith f.target (some f.exitCode)
    some { (s.withSched (s.sched.setState f.target .terminated)).goto c (.killParent f) with
      endedWith := ended }
  | .killParent f =>
    some (match (s.sched.task f.target).waitingParent with
      | some parent => s.goto c (.wakeTest f parent)
      | none => s.goto c (.killQueue f))
  | .wakeTest f parent =>
    some (if (s.sched.task parent).state = .blocked then s.goto c (.wakeSet f parent)
      else s.goto c (.killClear f))
  | .wakeSet f parent =>
    some ((s.withSched (s.sched.setState parent .ready)).goto c (.killClear f))
  | .killClear f =>
    some ((s.withSched (s.sched.modify f.target fun t => { t with waitingParent := none })).goto c
      (.killQueueAgain f))
  | .killQueue f =>
    some ((s.withSched (s.sched.enqueueCleanup f.target)).goto c (.killQueueAgain f))
  | .killQueueAgain f =>
    some ((s.withSched (s.sched.enqueueCleanup f.target)).goto c (.killFocus f))
  | .killFocus f =>
    some (if s.kernel.keyboard.getFocus = f.id then s.goto c (.killUnfocus f)
      else s.goto c (.killEnd f))
  | .killUnfocus f =>
    some ({ s with kernel := { s.kernel with keyboard := s.kernel.keyboard.setFocus 0 } }.goto c
      (.killEnd f))
  | .killEnd f => some (s.goto c (if f.killingSelf then .halted else .outside))

/-- The current task calls a function: it enters it at `pc`. -/
def call (s : JoinState) (pc : Nat → ControlPoint) : Option JoinState :=
  s.sched.current.bind fun c => if s.control c = .outside then some (s.goto c (pc c)) else none

def next (s : JoinState) : JoinAction → Option JoinState
  | .createTask mem stackSize =>
    (s.kernel.next (.createTask mem stackSize)).map fun k => { s with kernel := k }
  | .start => (s.kernel.next .start).map fun k => { s with kernel := k }
  | .tick regs => some (s.withSched (s.sched.tick regs))
  | .wake p => if p < s.sched.count then some (s.withSched (s.sched.wake p)) else none
  | .waitForTask id => s.call fun _ => .waitFind id
  | .killTask id exitCode => s.call fun _ => .killFind id exitCode
  | .exitTask exitCode => s.call fun c => .killFind (s.sched.task c).id exitCode
  | .blockCurrent => s.call fun _ => .block none
  | .exec regs => s.sched.current.bind fun c => s.exec c regs

end JoinState

/-- All interleavings, from `Scheduler::init`. -/
def joinSystem : System JoinState JoinAction :=
  .ofNext JoinState.next fun s =>
    (∃ sched : Sched, sched.count = 0 ∧ s.sched = sched.init) ∧
      s.control = (fun _ => .outside) ∧ s.returned = [] ∧ s.endedWith = fun _ => none

/-! ## Where a control point is in the protocol -/

namespace ControlPoint

/-- The target a task has registered with, while it is inside `blockCurrent` or
about to read the exit code. -/
@[simp] def registeredOn : ControlPoint → Option Nat
  | .waitRead _ target => some target
  | .block (some (_, target)) => some target
  | .yield (some (_, target)) => some target
  | _ => none

/-- The target of a task that has marked itself blocked, or has passed that point. -/
@[simp] def sleepsOn : ControlPoint → Option Nat
  | .waitRead _ target => some target
  | .yield (some (_, target)) => some target
  | _ => none

/-- The target of a `killTask` call that has terminated it and not yet made its
waiter ready. -/
@[simp] def waking : ControlPoint → Option Nat
  | .killParent f => some f.target
  | .wakeTest f _ => some f.target
  | .wakeSet f _ => some f.target
  | _ => none

/-- The target of a `killTask` call that has not yet cleared the waiter slot. -/
@[simp] def releasing : ControlPoint → Option Nat
  | .killParent f => some f.target
  | .wakeTest f _ => some f.target
  | .wakeSet f _ => some f.target
  | .killClear f => some f.target
  | _ => none

/-- The statements that have to run without a tick among them: from the test of
the target to the store of `Blocked`, and from the test in `killTask` to the
clearing of the waiter slot. -/
@[simp] def uninterrupted : ControlPoint → Bool
  | .waitRegister _ _ => true
  | .block (some _) => true
  | .killSelf _ _ _ => true
  | .killCode _ => true
  | .killState _ => true
  | .killParent _ => true
  | .wakeTest _ _ => true
  | .wakeSet _ _ => true
  | .killClear _ => true
  | _ => false

/-- A `killTask` call that has ended its own caller, or the `hlt` loop after it. -/
@[simp] def endsSelf : ControlPoint → Bool
  | .killParent f => f.killingSelf
  | .wakeTest f _ => f.killingSelf
  | .wakeSet f _ => f.killingSelf
  | .killClear f => f.killingSelf
  | .killQueue f => f.killingSelf
  | .killQueueAgain f => f.killingSelf
  | .killFocus f => f.killingSelf
  | .killUnfocus f => f.killingSelf
  | .killEnd f => f.killingSelf
  | .halted => true
  | _ => false

end ControlPoint

namespace JoinState

/-- What a statement of the current task at `pc` needs for the run to stay
undisturbed: a `yield` finds a runnable task, and a waiter takes a slot that no
live task holds. -/
def MayExec (s : JoinState) : ControlPoint → Prop
  | .yield _ => s.sched.HasRunnable
  | .waitRegister _ t =>
    ∀ q, (s.sched.task t).waitingParent = some q → (s.sched.task q).state = .terminated
  | _ => True

/-- The steps of a run that does not disturb the join: besides `MayExec`, a tick
finds a runnable task and does not fall among the uninterrupted statements, and a
handler wakes nobody who waits for a task. -/
def Undisturbed (s : JoinState) : JoinAction → Prop
  | .tick _ => s.sched.HasRunnable ∧
    ∀ c, s.sched.current = some c → (s.control c).uninterrupted = false
  | .wake p => (s.control p).registeredOn = none
  | .exec _ => ∀ c, s.sched.current = some c → s.MayExec (s.control c)
  | _ => True

section Decidable

/-- A property of the value of an option, if it has one. -/
instance decidableForallSome {α : Type*} {P : α → Prop} [DecidablePred P] (o : Option α) :
    Decidable (∀ a, o = some a → P a) :=
  match o with
  | none => isTrue (by simp)
  | some a => decidable_of_iff (P a) (by simp)

instance (s : Sched) : Decidable s.HasRunnable :=
  decidable_of_iff (∀ c, s.current = some c → s.started = true →
    (s.task c).state = .running ∨ ∃ p < s.count, (s.task p).state = .ready)
    ⟨fun h c hs hc => h c hc hs, fun h c hc hs => h c hs hc⟩

instance (s : JoinState) (pc : ControlPoint) : Decidable (s.MayExec pc) := by
  cases pc <;> unfold MayExec <;> infer_instance

instance (s : JoinState) (a : JoinAction) : Decidable (s.Undisturbed a) := by
  cases a <;> unfold Undisturbed <;> infer_instance

end Decidable

/-- Task `p` is inside `waitForTask`, past the point where it was marked blocked,
and the target it found is `t`. -/
def WaitsFor (s : JoinState) (p t : Nat) : Prop := (s.control p).sleepsOn = some t

/-- The current task is inside the `killTask` that has just terminated `t`, with
the statements that make the waiter `p` ready still before it. -/
def WakeUnderWay (s : JoinState) (p t : Nat) : Prop :=
  (s.sched.task t).waitingParent = some p ∧
    ∃ c, s.sched.current = some c ∧ (s.control c).waking = some t

/-- A call that found its target returned after the target had terminated, with
the exit code given to the `killTask` that terminated it. -/
def ReturnsExitCode (s : JoinState) : Prop :=
  ∀ r ∈ s.returned, ∀ t, r.target = some t → (s.sched.task t).id = r.id ∧
    (s.sched.task t).state = .terminated ∧ s.endedWith t = some r.exitCode

/-- A task blocked on a terminated one is being made ready. -/
def NoneLeftWaiting (s : JoinState) : Prop :=
  ∀ p t, s.WaitsFor p t → (s.sched.task p).state = .blocked →
    (s.sched.task t).state = .terminated → s.WakeUnderWay p t

/-! ### What a statement changes -/

/-- A statement that changes no task's state and not the keyboard. -/
structure Local (s s' : JoinState) (c : Nat) : Prop where
  count : s'.sched.count = s.sched.count
  current : s'.sched.current = s.sched.current
  started : s'.sched.started = s.sched.started
  tail : s'.sched.tail = s.sched.tail
  keyboard : s'.kernel.keyboard = s.kernel.keyboard
  next : ∀ p, (s'.sched.task p).next = (s.sched.task p).next
  state : ∀ p, (s'.sched.task p).state = (s.sched.task p).state
  id : ∀ p, (s'.sched.task p).id = (s.sched.task p).id
  control : ∀ p, p ≠ c → s'.control p = s.control p
  notBlock : s'.control c ≠ .block none

namespace Local

variable {s : JoinState} {c : Nat} {pc : ControlPoint}

theorem goto (h : pc ≠ .block none) : Local s (s.goto c pc) c :=
  ⟨rfl, rfl, rfl, rfl, rfl, fun _ => rfl, fun _ => rfl, fun _ => rfl,
    fun _ hp => by simp [JoinState.goto, hp], by simpa [JoinState.goto] using h⟩

theorem modify {t : Nat} {f : Task → Task} (hnext : ∀ t, (f t).next = t.next)
    (hstate : ∀ t, (f t).state = t.state) (hid : ∀ t, (f t).id = t.id) (h : pc ≠ .block none) :
    Local s ((s.withSched (s.sched.modify t f)).goto c pc) c :=
  ⟨rfl, rfl, rfl, rfl, rfl, fun _ => Sched.modify_field Task.next hnext,
    fun _ => Sched.modify_field Task.state hstate, fun _ => Sched.modify_field Task.id hid,
    fun _ hp => by simp [JoinState.goto, JoinState.withSched, hp], by simpa [JoinState.goto] using h⟩

theorem enqueueCleanup {t : Nat} (h : pc ≠ .block none) :
    Local s ((s.withSched (s.sched.enqueueCleanup t)).goto c pc) c := by
  have htask : ∀ p, (s.sched.enqueueCleanup t).task p = s.sched.task p := fun p => by simp
  have htail : (s.sched.enqueueCleanup t).tail = s.sched.tail := by
    unfold Sched.enqueueCleanup
    split_ifs <;> rfl
  exact ⟨enqueueCleanup_count, enqueueCleanup_current, enqueueCleanup_started,
    htail, rfl, fun p => congrArg Task.next (htask p), fun p => congrArg Task.state (htask p),
    fun p => congrArg Task.id (htask p),
    fun _ hp => by simp [JoinState.goto, JoinState.withSched, hp], by simpa [JoinState.goto] using h⟩

theorem inv {s' : JoinState} (h : Local s s' c) (inv : s.kernel.Inv) : s'.kernel.Inv := by
  refine ⟨⟨fun p hp => ?_, ?_, fun p hp => ?_⟩, fun hstarted => ?_⟩
  · rw [h.count] at hp ⊢
    exact (h.next p).trans (inv.ring.next_eq p hp)
  · rw [h.tail, h.count]
    exact inv.ring.tail_eq
  · rw [h.count]
    exact inv.ring.current_lt p (h.current ▸ hp)
  · obtain ⟨hnone, hready⟩ := inv.unstarted (h.started ▸ hstarted)
    refine ⟨h.current.trans hnone, fun p hp => ?_⟩
    rw [h.state]
    exact hready p (h.count ▸ hp)

end Local

/-- A store to a task's state once the scheduler runs. -/
theorem inv_setState {s : JoinState} {c p : Nat} {st : TaskState} (inv : s.kernel.Inv)
    (hc : s.sched.current = some c) : (s.withSched (s.sched.setState p st)).kernel.Inv := by
  refine ⟨inv.ring.setState p st, fun h => ?_⟩
  have hnone := (inv.unstarted h).1
  rw [hc] at hnone
  cases hnone

/-- The statements that are not local. -/
@[simp] def storesState : ControlPoint → Bool
  | .block _ => true
  | .yield _ => true
  | .killState _ => true
  | .wakeSet _ _ => true
  | .killUnfocus _ => true
  | _ => false

theorem exec_local {s s' : JoinState} {c regs : Nat} (hpc : storesState (s.control c) = false)
    (h : s.exec c regs = some s') : Local s s' c := by
  have outside (returned : List JoinReturn) : Local s { s.goto c .outside with returned } c :=
    have moved : Local s (s.goto c .outside) c := .goto (by simp)
    ⟨rfl, rfl, rfl, rfl, rfl, moved.next, moved.state, moved.id, moved.control, moved.notBlock⟩
  unfold exec at h
  cases hpc' : s.control c with rw [hpc'] at h hpc
  | outside | halted => cases h
  | block | yield | killState | wakeSet | killUnfocus => cases hpc
  | waitFind | killFind | killSelf =>
    cases h
    exact .goto (by simp)
  | waitNull id target =>
    cases target <;> cases h
    · exact outside _
    · exact .goto (by simp)
  | waitRead =>
    cases h
    exact outside _
  | waitTest | wakeTest | killFocus | killEnd =>
    cases h
    split_ifs <;> exact .goto (by simp)
  | waitRegister | killCode | killClear =>
    cases h
    exact .modify (fun _ => rfl) (fun _ => rfl) (fun _ => rfl) (by simp)
  | killTest id exitCode target =>
    cases target <;> cases h
    · exact .goto (by simp)
    · split_ifs <;> exact .goto (by simp)
  | killParent =>
    cases h
    split <;> exact .goto (by simp)
  | killQueue | killQueueAgain =>
    cases h
    exact .enqueueCleanup (by simp)

/-- All a statement can do: a local change, a store to a task's state, a tick, or
the reset of the focus. -/
theorem exec_cases {s s' : JoinState} {c regs : Nat} (h : s.exec c regs = some s') :
    (Local s s' c ∧ s.control c ≠ .outside ∧ (∀ wait, s.control c ≠ .block wait) ∧
      ∀ wait, s.control c ≠ .yield wait) ∨
    (∃ wait, s.control c = .block wait ∧
      s' = (s.withSched (s.sched.setState c .blocked)).goto c (.yield wait)) ∨
    (∃ wait, s.control c = .yield wait ∧
      s' = (s.withSched (s.sched.tick regs)).goto c (.afterYield wait)) ∨
    (∃ f ended, s.control c = .killState f ∧
      s' = { (s.withSched (s.sched.setState f.target .terminated)).goto c (.killParent f) with
        endedWith := ended }) ∨
    (∃ f q, s.control c = .wakeSet f q ∧
      s' = (s.withSched (s.sched.setState q .ready)).goto c (.killClear f)) ∨
    (∃ f, s.control c = .killUnfocus f ∧
      s' = { s with kernel := { s.kernel with keyboard := s.kernel.keyboard.setFocus 0 } }.goto c
        (.killEnd f)) := by
  by_cases hpc : storesState (s.control c) = false
  · have hout : s.control c ≠ .outside := fun hout => by simp [exec, hout] at h
    exact .inl ⟨exec_local hpc h, hout, fun _ hblock => by simp [hblock] at hpc,
      fun _ hyield => by simp [hyield] at hpc⟩
  unfold exec at h
  cases hpc' : s.control c with rw [hpc'] at h hpc
  | block wait =>
    cases h
    exact .inr (.inl ⟨wait, rfl, rfl⟩)
  | yield wait =>
    cases h
    exact .inr (.inr (.inl ⟨wait, rfl, rfl⟩))
  | killState f =>
    cases h
    exact .inr (.inr (.inr (.inl ⟨f, _, rfl, rfl⟩)))
  | wakeSet f q =>
    cases h
    exact .inr (.inr (.inr (.inr (.inl ⟨f, q, rfl, rfl⟩))))
  | killUnfocus f =>
    cases h
    exact .inr (.inr (.inr (.inr (.inr ⟨f, rfl, rfl⟩))))
  | _ => exact absurd rfl hpc

end JoinState

end WengShiOS.Scheduler
