import Mathlib.Tactic
import WengShiOS.Math.Transition
import WengShiOS.Scheduler.Ring

/-! # Which tasks are dispatched

The scheduler as a transition system whose actions are whole calls of
`createTask`, `start`, `tick`, `blockCurrent`, `wake` and `killTask`. A tick that
finds a runnable task dispatches only such a task, so a terminated task stays
terminated and a blocked one waits for `wake` or `killTask`. The tick in which
nothing is runnable resumes the current task whatever its state. -/

namespace WengShiOS.Scheduler

open Math Drivers Sched

/-- A call of one of the scheduler's functions, with its arguments. `regs` is the
address of the register frame the interrupt stub pushed. -/
inductive Action
  | createTask (mem : Sched.TaskMemory) (stackSize : Nat)
  | start
  | tick (regs : Nat)
  | blockCurrent (regs : Nat)
  | wake (p : Nat)
  | killTask (id : Nat) (exitCode : Int)

namespace Kernel

/-- The task that is executing, unless it has ended: a task that killed itself
halts inside `killTask` and makes no further call. -/
def caller (k : Kernel) : Option Nat :=
  k.sched.current.filter fun c => (k.sched.task c).state ≠ .terminated

/-- The kernel after a call. `start` is called once, and before it only
`kernel_main` runs and creates tasks; `wake` may come from an interrupt. -/
def next (k : Kernel) : Action → Option Kernel
  | .createTask mem stackSize =>
    if k.sched.started ∧ k.caller = none then none
    else some { k with sched := (k.sched.createTask mem stackSize).1 }
  | .start => if k.sched.started then none else k.sched.start.map fun s => { k with sched := s }
  | .tick regs => some { k with sched := k.sched.tick regs }
  | .blockCurrent regs => k.caller.map fun c => { k with sched := k.sched.blockCurrent c regs }
  | .wake p => if p < k.sched.count then some { k with sched := k.sched.wake p } else none
  | .killTask id exitCode => k.caller.map fun _ => (k.killTask id exitCode).1

end Kernel

/-- The system of all runs from `Scheduler::init`, before any task exists. -/
def system : System Kernel Action :=
  .ofNext Kernel.next fun k => ∃ s : Sched, s.count = 0 ∧ k.sched = s.init

theorem step_tick (k : Kernel) (regs : Nat) :
    system.step k (.tick regs) { k with sched := k.sched.tick regs } := rfl

theorem step_killTask {k : Kernel} {c : Nat} (h : k.caller = some c) (id : Nat) (exitCode : Int) :
    system.step k (.killTask id exitCode) (k.killTask id exitCode).1 := by
  change k.caller.map _ = _
  rw [h]
  rfl

namespace Sched

variable {s : Sched} {p q c target : Nat}

/-! ### The ring is kept by every operation -/

theorem Ring.init (h : s.count = 0) : Ring s.init where
  next_eq p hp := by
    have : p < s.count := hp
    omega
  tail_eq := by
    simp [Sched.init, h]
  current_lt p hp := by simp [Sched.init] at hp

section

variable (ring : Ring s)
include ring

theorem Ring.createTask (mem : TaskMemory) (stackSize : Nat) :
    Ring (s.createTask mem stackSize).1 := by
  unfold Sched.createTask
  split_ifs with hmem hplm4
  · exact ring
  · exact ring
  · rcases Nat.eq_zero_or_pos s.count with hzero | hpos
    · -- the first task is linked to itself
      have htail : s.tail = none := by rw [ring.tail_eq, if_pos hzero]
      simp only [htail]
      refine ⟨fun p hp => ?_, by simp [hzero], fun p hp => ?_⟩
      · obtain rfl : p = s.count := by
          have : p < s.count + 1 := hp
          omega
        simp [newTask, htail, hzero]
      · have := ring.current_lt p hp
        omega
    · have htail : s.tail = some (s.count - 1) := by rw [ring.tail_eq, if_neg (by omega)]
      simp only [htail]
      refine ⟨fun p hp => ?_, by simp, fun p hp => ?_⟩
      · have hp' : p < s.count + 1 := hp
        simp only [modify_count]
        rcases Nat.lt_trichotomy p (s.count - 1) with hlt | rfl | hgt
        · -- an older task keeps its successor
          rw [modify_task_of_ne (by omega)]
          simp only [Function.update_of_ne (show p ≠ s.count by omega), ring.next_eq p (by omega)]
          rw [Nat.mod_eq_of_lt (by omega), Nat.mod_eq_of_lt (by omega)]
        · simp only [modify_task_self]
          rw [Nat.sub_add_cancel hpos, Nat.mod_eq_of_lt (by omega)]
        · obtain rfl : p = s.count := by omega
          rw [modify_task_of_ne (by omega)]
          simp only [Function.update_self, newTask, htail, ring.next_eq (s.count - 1) (by omega)]
          rw [Nat.sub_add_cancel hpos, Nat.mod_self, Nat.mod_self]
      · have := ring.current_lt p hp
        simp only [modify_count]
        omega

theorem Ring.start {s' : Sched} (h : s.start = some s') : Ring s' := by
  obtain ⟨tail, htail, rfl⟩ := Option.map_eq_some_iff.mp h
  have hcount : 0 < s.count := by
    by_contra hzero
    rw [ring.tail_eq, if_pos (by omega)] at htail
    simp at htail
  rw [ring.tail_eq, if_neg (by omega)] at htail
  obtain rfl : s.count - 1 = tail := by simpa using htail
  have links := sameLinks_setState { s with current := some (s.task (s.count - 1)).next }
    (s.task (s.count - 1)).next .running
  refine ⟨fun p hp => ?_, ring.tail_eq, fun p hp => ?_⟩
  · exact (links.next p).trans (ring.next_eq p hp)
  · obtain rfl : (s.task (s.count - 1)).next = p := by simpa [setState] using hp
    rw [ring.next_eq _ (by omega)]
    exact Nat.mod_lt _ hcount

theorem Ring.setState (p : Nat) (st : TaskState) : Ring (s.setState p st) :=
  ring.of_sameLinks (sameLinks_setState s p st) ring.current_lt

theorem Ring.wake (p : Nat) : Ring (s.wake p) := by
  unfold Sched.wake
  split_ifs
  · exact ring.setState p .ready
  · exact ring

theorem Ring.blockCurrent (c regs : Nat) : Ring (s.blockCurrent c regs) :=
  (ring.setState c .blocked).tick regs

theorem Ring.modify {f : Task → Task} (h : ∀ t, (f t).next = t.next) :
    Ring (s.modify p f) where
  next_eq q hq := (modify_field Task.next h).trans (ring.next_eq q hq)
  tail_eq := ring.tail_eq
  current_lt := ring.current_lt

theorem Ring.enqueueCleanup (p : Nat) : Ring (s.enqueueCleanup p) := by
  unfold Sched.enqueueCleanup
  split_ifs
  · exact ⟨ring.next_eq, ring.tail_eq, ring.current_lt⟩
  · exact ring

theorem Ring.releaseWaiter (target : Nat) : Ring (s.releaseWaiter target) := by
  unfold Sched.releaseWaiter
  split
  · exact (ring.wake _).modify fun _ => rfl
  · exact ring.enqueueCleanup target

end

/-! ### What the operations do to the states -/

@[simp] theorem enqueueCleanup_task : (s.enqueueCleanup p).task = s.task := by
  unfold enqueueCleanup
  split_ifs <;> rfl

@[simp] theorem enqueueCleanup_count : (s.enqueueCleanup p).count = s.count := by
  unfold enqueueCleanup
  split_ifs <;> rfl

@[simp] theorem enqueueCleanup_started : (s.enqueueCleanup p).started = s.started := by
  unfold enqueueCleanup
  split_ifs <;> rfl

@[simp] theorem enqueueCleanup_current : (s.enqueueCleanup p).current = s.current := by
  unfold enqueueCleanup
  split_ifs <;> rfl

theorem wake_state :
    ((s.wake p).task q).state =
      if q = p ∧ (s.task q).state = .blocked then .ready else (s.task q).state := by
  unfold wake
  by_cases hqp : q = p
  · subst hqp
    split_ifs <;> simp_all [setState]
  · split_ifs <;> simp_all [setState_state]

theorem terminate_state (exitCode : Int) :
    ((s.terminate target exitCode).task q).state =
      if q = target then .terminated else (s.task q).state := by
  by_cases hq : q = target
  · simp [terminate, hq]
  · simp [terminate, hq, modify_task_of_ne hq]

theorem releaseWaiter_state :
    ((s.releaseWaiter target).task q).state =
      if (s.task target).waitingParent = some q ∧ (s.task q).state = .blocked then .ready
      else (s.task q).state := by
  unfold releaseWaiter
  split
  · next parent hparent =>
    rw [modify_field Task.state, wake_state, hparent]
    · simp only [Option.some.injEq, eq_comm]
    · exact fun _ => rfl
  · next hparent =>
    rw [hparent]
    simp

@[simp] theorem wake_current : (s.wake p).current = s.current := by
  unfold wake
  split_ifs <;> rfl

theorem sameLinks_wake (s : Sched) (p : Nat) : SameLinks s (s.wake p) := by
  unfold wake
  split_ifs
  · exact sameLinks_setState s p .ready
  · exact .refl s

@[simp] theorem releaseWaiter_started : (s.releaseWaiter target).started = s.started := by
  unfold releaseWaiter
  split
  · exact (sameLinks_wake s _).started
  · exact enqueueCleanup_started

@[simp] theorem releaseWaiter_count : (s.releaseWaiter target).count = s.count := by
  unfold releaseWaiter
  split
  · exact (sameLinks_wake s _).count
  · exact enqueueCleanup_count

@[simp] theorem releaseWaiter_current : (s.releaseWaiter target).current = s.current := by
  unfold releaseWaiter
  split
  · exact wake_current
  · exact enqueueCleanup_current

theorem releaseWaiter_id : ((s.releaseWaiter target).task q).id = (s.task q).id := by
  unfold releaseWaiter
  split
  · rw [modify_field Task.id]
    · exact (sameLinks_wake s _).id q
    · exact fun _ => rfl
  · simp

/-- `s'` is `s` with the task `new` linked in at the end of the ring. -/
structure Created (s s' : Sched) (new : Task) : Prop where
  count : s'.count = s.count + 1
  current : s'.current = s.current
  started : s'.started = s.started
  field : ∀ {β : Type} (field : Task → β), (∀ t n, field { t with next := n } = field t) →
    ∀ p, field (s'.task p) = if p = s.count then field new else field (s.task p)

theorem Created.field_of_lt {s' : Sched} {new : Task} {β : Type} (h : Created s s' new)
    (field : Task → β) (hfield : ∀ t n, field { t with next := n } = field t) (hp : p < s.count) :
    field (s'.task p) = field (s.task p) := by
  rw [h.field field hfield, if_neg (by omega)]

/-- A failed `createTask` changes nothing; a successful one adds a ready task and
returns it. -/
theorem createTask_result (s : Sched) (mem : TaskMemory) (stackSize : Nat) :
    s.createTask mem stackSize = (s, none) ∨
      (s.createTask mem stackSize).2 = some s.count ∧
        Created s (s.createTask mem stackSize).1 (s.newTask mem stackSize) := by
  unfold createTask
  split_ifs
  · exact .inl rfl
  · exact .inl rfl
  · refine .inr ?_
    cases s.tail with
    | none =>
      refine ⟨rfl, rfl, rfl, rfl, fun field _ p => ?_⟩
      by_cases hp : p = s.count <;> simp [hp]
    | some tail =>
      refine ⟨rfl, rfl, rfl, rfl, fun field hfield p => ?_⟩
      rw [modify_field field]
      · by_cases hp : p = s.count <;> simp [hp]
      · exact fun t => hfield t _

theorem createTask_cases (s : Sched) (mem : TaskMemory) (stackSize : Nat) :
    (s.createTask mem stackSize).1 = s ∨
      Created s (s.createTask mem stackSize).1 (s.newTask mem stackSize) := by
  rcases createTask_result s mem stackSize with h | ⟨-, h⟩
  · exact .inl (congrArg Prod.fst h)
  · exact .inr h

theorem createTask_state (mem : TaskMemory) (stackSize : Nat) (hp : p < s.count) :
    ((s.createTask mem stackSize).1.task p).state = (s.task p).state := by
  rcases createTask_cases s mem stackSize with h | created
  · rw [h]
  · exact created.field_of_lt Task.state (fun _ _ => rfl) hp

/-- `start` makes one task current and running and changes no other state. -/
structure Started (s s' : Sched) (first : Nat) : Prop where
  current : s'.current = some first
  count : s'.count = s.count
  state : ∀ p, (s'.task p).state = if p = first then .running else (s.task p).state
  field : ∀ {β : Type} (field : Task → β), (∀ t st, field { t with state := st } = field t) →
    ∀ p, field (s'.task p) = field (s.task p)

theorem start_cases {s' : Sched} (h : s.start = some s') : ∃ first, Started s s' first := by
  obtain ⟨tail, -, rfl⟩ := Option.map_eq_some_iff.mp h
  exact ⟨_, rfl, rfl, fun p => setState_state _,
    fun field hfield p => modify_field field fun t => hfield t _⟩

/-- A tick ends nobody. -/
theorem tick_alive (ring : Ring s) (regs : Nat) (h : (s.task p).state ≠ .terminated) :
    ((s.tick regs).task p).state ≠ .terminated := by
  rcases tick_cases ring regs with ⟨-, hsame⟩ | ⟨c, q, -, -, outcome⟩
  · rwa [hsame]
  rw [outcome.state]
  unfold preempted
  split_ifs <;> simp_all

/-- A tick revives a terminated task only by resuming it as the current one. -/
theorem tick_terminated (ring : Ring s) (regs : Nat) (hend : (s.task p).state = .terminated) :
    ((s.tick regs).task p).state = .terminated ∨ s.current = some p := by
  rcases tick_cases ring regs with ⟨-, hsame⟩ | ⟨c, q, -, hc, outcome⟩
  · exact .inl (by rwa [hsame])
  rw [outcome.state p]
  split_ifs with hpq
  · subst hpq
    rcases outcome.chosen with hready | ⟨rfl, -⟩
    · simp [preempted, hend] at hready
    · exact .inr hc
  · exact .inl (by simp [preempted, hend])

/-- The task a tick makes current is running. -/
theorem tick_current_terminated (ring : Ring s) (regs : Nat)
    (hcurrent : (s.tick regs).current = some p)
    (hend : ((s.tick regs).task p).state = .terminated) :
    s.current = some p ∧ (s.task p).state = .terminated := by
  rcases tick_cases ring regs with ⟨-, hsame⟩ | ⟨c, q, -, -, outcome⟩
  · rw [hsame] at hcurrent hend
    exact ⟨hcurrent, hend⟩
  obtain rfl : q = p := Option.some.inj (outcome.current.symm.trans hcurrent)
  rw [outcome.state, if_pos rfl] at hend
  cases hend

/-- A tick would find a task to run: the current task is running or some task of
the ring is ready. -/
def HasRunnable (s : Sched) : Prop :=
  ∀ c, s.started = true → s.current = some c →
    (s.task c).state = .running ∨ ∃ p < s.count, (s.task p).state = .ready

/-- A tick that finds a runnable task only moves tasks between ready and running. -/
theorem tick_state_of_hasRunnable (ring : Ring s) (runnable : s.HasRunnable) (regs p : Nat) :
    ((s.tick regs).task p).state = (s.task p).state ∨
      ((s.task p).state = .ready ∨ (s.task p).state = .running) ∧
        (((s.tick regs).task p).state = .ready ∨ ((s.tick regs).task p).state = .running) := by
  rcases tick_cases ring regs with ⟨-, hsame⟩ | ⟨c, q, hstarted, hc, outcome⟩
  · exact Or.inl (by rw [hsame])
  have hready : s.preempted c q = .ready := by
    rcases outcome.chosen with hready | ⟨-, hstopped, hidle⟩
    · exact hready
    · rcases runnable c hstarted hc with hrun | ⟨r, hr, hr'⟩
      · exact absurd hrun hstopped
      · exact absurd hr' (hidle r hr)
  rw [outcome.state p]
  by_cases hpq : p = q
  · subst hpq
    refine Or.inr ⟨?_, by simp⟩
    unfold preempted at hready
    split_ifs at hready with hrun
    · exact Or.inr hrun.2
    · exact Or.inl hready
  · unfold preempted
    split_ifs with hrun
    · exact Or.inr ⟨Or.inr hrun.2, Or.inl rfl⟩
    · exact Or.inl rfl

end Sched

namespace Kernel

variable {k k' : Kernel} {a : Action} {p : Nat}

/-- What `killTask` does to the scheduler: nothing, if there is no live task with the id. -/
theorem killTask_sched (k : Kernel) (id : Nat) (exitCode : Int) :
    (k.killTask id exitCode).1.sched = k.sched ∨
      ∃ target, k.sched.findTaskById id = some target ∧
        (k.sched.task target).state ≠ .terminated ∧ (k.killTask id exitCode).1.sched =
          ((k.sched.terminate target exitCode).releaseWaiter target).enqueueCleanup target := by
  unfold killTask
  split
  · exact .inl rfl
  · next target hfound =>
    by_cases hterm : (k.sched.task target).state = .terminated
    · exact .inl (by rw [if_pos hterm])
    · exact .inr ⟨target, hfound, hterm, by rw [if_neg hterm]⟩

theorem killTask_ring (ring : k.sched.Ring) (id : Nat) (exitCode : Int) :
    (k.killTask id exitCode).1.sched.Ring := by
  rcases killTask_sched k id exitCode with h | ⟨target, -, -, h⟩ <;> rw [h]
  · exact ring
  · have ended : (k.sched.terminate target exitCode).Ring := ring.modify fun _ => rfl
    exact (ended.releaseWaiter target).enqueueCleanup target

section

variable (id : Nat) (exitCode : Int)
include id exitCode

/-- What `killTask` does to the states: the target ends, and a blocked task in
its waiter slot becomes ready. -/
theorem killTask_state :
    ((k.killTask id exitCode).1.sched.task p).state = (k.sched.task p).state ∨
    ∃ target, k.sched.findTaskById id = some target ∧
      (k.sched.task target).state ≠ .terminated ∧
      (p = target ∧ ((k.killTask id exitCode).1.sched.task p).state = .terminated ∨
       p ≠ target ∧ (k.sched.task target).waitingParent = some p ∧
        (k.sched.task p).state = .blocked ∧
        ((k.killTask id exitCode).1.sched.task p).state = .ready) := by
  rcases killTask_sched k id exitCode with h | ⟨target, hfound, hlive, h⟩ <;> rw [h]
  · exact Or.inl rfl
  · have hparent : ((k.sched.terminate target exitCode).task target).waitingParent =
        (k.sched.task target).waitingParent := by simp [terminate]
    rw [enqueueCleanup_task, releaseWaiter_state, terminate_state, hparent]
    by_cases hp : p = target
    · exact Or.inr ⟨target, hfound, hlive, Or.inl ⟨hp, by simp [hp]⟩⟩
    · split_ifs with hwait
      · exact Or.inr ⟨target, hfound, hlive, Or.inr ⟨hp, hwait.1, hwait.2, rfl⟩⟩
      · exact Or.inl rfl

theorem killTask_current :
    (k.killTask id exitCode).1.sched.current = k.sched.current := by
  rcases killTask_sched k id exitCode with h | ⟨target, -, -, h⟩ <;> simp [h, terminate]

theorem killTask_id :
    ((k.killTask id exitCode).1.sched.task p).id = (k.sched.task p).id := by
  rcases killTask_sched k id exitCode with h | ⟨target, -, -, h⟩ <;> rw [h]
  rw [enqueueCleanup_task, releaseWaiter_id]
  exact modify_field Task.id fun _ => rfl

theorem killTask_count :
    (k.killTask id exitCode).1.sched.count = k.sched.count := by
  rcases killTask_sched k id exitCode with h | ⟨target, -, -, h⟩ <;> simp [h, terminate]

theorem killTask_started :
    (k.killTask id exitCode).1.sched.started = k.sched.started := by
  rcases killTask_sched k id exitCode with h | ⟨target, -, -, h⟩ <;> simp [h, terminate]

end

theorem caller_eq_some {c : Nat} :
    k.caller = some c ↔ k.sched.current = some c ∧ (k.sched.task c).state ≠ .terminated := by
  simp [caller, Option.filter_eq_some_iff]

/-- Everything a step can be, with what enables it. -/
theorem next_cases (h : k.next a = some k') :
    (∃ mem stackSize, a = .createTask mem stackSize ∧
      k' = { k with sched := (k.sched.createTask mem stackSize).1 }) ∨
    (∃ s, a = .start ∧ k.sched.started = false ∧ k.sched.start = some s ∧
      k' = { k with sched := s }) ∨
    (∃ regs, a = .tick regs ∧ k' = { k with sched := k.sched.tick regs }) ∨
    (∃ regs c, a = .blockCurrent regs ∧ k.sched.current = some c ∧
      (k.sched.task c).state ≠ .terminated ∧
      k' = { k with sched := k.sched.blockCurrent c regs }) ∨
    (∃ p, a = .wake p ∧ p < k.sched.count ∧ k' = { k with sched := k.sched.wake p }) ∨
    (∃ id exitCode c, a = .killTask id exitCode ∧ k.sched.current = some c ∧
      k' = (k.killTask id exitCode).1) := by
  cases a with
  | createTask mem stackSize =>
    simp only [next] at h
    split_ifs at h
    exact .inl ⟨mem, stackSize, rfl, (Option.some.inj h).symm⟩
  | start =>
    simp only [next] at h
    split_ifs at h with hstarted
    obtain ⟨s, hs, rfl⟩ := Option.map_eq_some_iff.mp h
    exact .inr (.inl ⟨s, rfl, by simpa using hstarted, hs, rfl⟩)
  | tick regs => exact .inr (.inr (.inl ⟨regs, rfl, (Option.some.inj h).symm⟩))
  | blockCurrent regs =>
    obtain ⟨c, hc, rfl⟩ := Option.map_eq_some_iff.mp h
    obtain ⟨hcurrent, halive⟩ := caller_eq_some.mp hc
    exact .inr (.inr (.inr (.inl ⟨regs, c, rfl, hcurrent, halive, rfl⟩)))
  | wake p =>
    simp only [next] at h
    split_ifs at h with hp
    exact .inr (.inr (.inr (.inr (.inl ⟨p, rfl, hp, (Option.some.inj h).symm⟩))))
  | killTask id exitCode =>
    obtain ⟨c, hc, rfl⟩ := Option.map_eq_some_iff.mp h
    exact .inr (.inr (.inr (.inr (.inr ⟨id, exitCode, c, rfl, (caller_eq_some.mp hc).1, rfl⟩))))

/-- What every reachable state satisfies: the ring, and that before `start` no
task has run. -/
structure Inv (k : Kernel) : Prop where
  ring : k.sched.Ring
  unstarted : k.sched.started = false →
    k.sched.current = none ∧ ∀ p < k.sched.count, (k.sched.task p).state = .ready

theorem Inv.createTask (inv : k.Inv) (mem : TaskMemory) (stackSize : Nat) :
    Inv { k with sched := (k.sched.createTask mem stackSize).1 } := by
  refine ⟨inv.ring.createTask mem stackSize, fun hstarted => ?_⟩
  rcases createTask_cases k.sched mem stackSize with h | created
  · rw [h] at hstarted ⊢
    exact inv.unstarted hstarted
  · obtain ⟨hnone, hready⟩ := inv.unstarted (created.started ▸ hstarted)
    refine ⟨created.current.trans hnone, fun p hp => ?_⟩
    simp only [created.count] at hp
    rw [created.field Task.state fun _ _ => rfl]
    split_ifs with hnew
    · rfl
    · exact hready p (by omega)

theorem Inv.next (inv : k.Inv) (h : k.next a = some k') : k'.Inv := by
  rcases next_cases h with ⟨mem, stackSize, -, rfl⟩ | ⟨s, -, hstarted, hs, rfl⟩ | ⟨regs, -, rfl⟩ |
    ⟨regs, c, -, hc, -, rfl⟩ | ⟨p, -, hp, rfl⟩ | ⟨id, exitCode, c, -, hc, rfl⟩
  · exact inv.createTask mem stackSize
  · refine ⟨inv.ring.start hs, ?_⟩
    obtain ⟨tail, -, rfl⟩ := Option.map_eq_some_iff.mp hs
    intro h
    simp at h
  · by_cases hstarted : k.sched.started = false
    · rw [tick_of_not_started regs (.inl hstarted)]
      exact inv
    · refine ⟨inv.ring.tick regs, fun h => absurd h ?_⟩
      rwa [(tick_sameLinks inv.ring regs).started]
  · have hstarted : k.sched.started ≠ false := fun h => by simp [(inv.unstarted h).1] at hc
    refine ⟨inv.ring.blockCurrent c regs, fun h => absurd h ?_⟩
    simp only [blockCurrent, markBlocked]
    rwa [(tick_sameLinks (inv.ring.setState c .blocked) regs).started]
  · refine ⟨inv.ring.wake p, fun hstarted => ?_⟩
    rw [(sameLinks_wake k.sched p).started] at hstarted
    obtain ⟨hnone, hready⟩ := inv.unstarted hstarted
    have hsame : k.sched.wake p = k.sched := by
      rw [wake, if_neg (by rw [hready p hp]; simp)]
    rw [hsame]
    exact ⟨hnone, hready⟩
  · have hstarted : k.sched.started ≠ false := fun h => by simp [(inv.unstarted h).1] at hc
    refine ⟨killTask_ring inv.ring id exitCode, fun h => absurd h ?_⟩
    rwa [killTask_started]

theorem inv_of_reachable (h : system.Reachable k) : k.Inv := by
  refine h.invariant Inv (fun k hk => ?_) fun k a k' inv hstep => inv.next hstep
  obtain ⟨s, hs, hk⟩ := hk
  refine ⟨hk ▸ Ring.init hs, fun _ => ?_⟩
  rw [hk]
  exact ⟨rfl, fun p hp => absurd (show p < s.count from hp) (by omega)⟩

/-! ### Terminated tasks -/

/-- A call revives a terminated task only as the current one, in a tick. -/
theorem next_terminated (inv : k.Inv) (h : k.next a = some k') (hp : p < k.sched.count)
    (hend : (k.sched.task p).state = .terminated) :
    (k'.sched.task p).state = .terminated ∨ k.sched.current = some p ∧
      ∃ regs, a = .tick regs ∨ a = .blockCurrent regs := by
  rcases next_cases h with ⟨mem, stackSize, -, rfl⟩ | ⟨s, -, hstarted, hs, rfl⟩ | ⟨regs, rfl, rfl⟩ |
    ⟨regs, c, rfl, hc, -, rfl⟩ | ⟨q, -, -, rfl⟩ | ⟨id, exitCode, c, -, -, rfl⟩
  · exact .inl ((createTask_state mem stackSize hp).trans hend)
  · rw [(inv.unstarted hstarted).2 p hp] at hend
    cases hend
  · exact (tick_terminated inv.ring regs hend).imp_right fun hcur => ⟨hcur, regs, .inl rfl⟩
  · by_cases hpc : p = c
    · exact .inr ⟨hpc ▸ hc, regs, .inr rfl⟩
    · refine .inl ((tick_terminated (inv.ring.setState c .blocked) regs ?_).resolve_right ?_)
      · rwa [setState_state, if_neg hpc]
      · exact fun hcur => hpc (Option.some.inj (hcur.symm.trans hc))
  · exact .inl (by rw [wake_state, if_neg (by simp [hend]), hend])
  · rcases killTask_state (k := k) (p := p) id exitCode with
      hsame | ⟨target, -, hlive, ⟨rfl, -⟩ | ⟨-, -, hblocked, -⟩⟩
    · exact .inl (hsame.trans hend)
    · exact absurd hend hlive
    · rw [hend] at hblocked
      cases hblocked

/-- A current task that is terminated was so before, or ended in this call. -/
theorem next_current_terminated (inv : k.Inv) (h : k.next a = some k')
    (hcurrent : k'.sched.current = some p) (hend : (k'.sched.task p).state = .terminated) :
    k.sched.current = some p ∧
      ((k.sched.task p).state = .terminated ∨ ∃ id exitCode, a = .killTask id exitCode) := by
  rcases next_cases h with ⟨mem, stackSize, -, rfl⟩ | ⟨s, -, -, hs, rfl⟩ | ⟨regs, -, rfl⟩ |
    ⟨regs, c, -, hc, halive, rfl⟩ | ⟨q, -, -, rfl⟩ | ⟨id, exitCode, c, rfl, hc, rfl⟩
  · have hold : k.sched.current = some p := by
      rcases createTask_cases k.sched mem stackSize with hsame | created
      · simpa only [hsame] using hcurrent
      · exact created.current ▸ hcurrent
    refine ⟨hold, .inl ?_⟩
    rwa [createTask_state mem stackSize (inv.ring.current_lt p hold)] at hend
  · obtain ⟨first, started⟩ := start_cases hs
    obtain rfl : first = p := Option.some.inj (started.current.symm.trans hcurrent)
    rw [started.state, if_pos rfl] at hend
    cases hend
  · obtain ⟨hold, hend⟩ := tick_current_terminated inv.ring regs hcurrent hend
    exact ⟨hold, .inl hend⟩
  · obtain ⟨hold, hend⟩ :=
      tick_current_terminated (inv.ring.setState c .blocked) regs hcurrent hend
    obtain rfl : p = c := Option.some.inj (hold.symm.trans hc)
    simp [setState_state] at hend
  · refine ⟨wake_current ▸ hcurrent, .inl ?_⟩
    rw [wake_state] at hend
    split_ifs at hend
    exact hend
  · refine ⟨?_, .inr ⟨id, exitCode, rfl⟩⟩
    rwa [killTask_current] at hcurrent

/-- A call keeps the ids of the tasks. -/
theorem next_id (inv : k.Inv) (h : k.next a = some k') (hp : p < k.sched.count) :
    (k'.sched.task p).id = (k.sched.task p).id := by
  rcases next_cases h with ⟨mem, stackSize, -, rfl⟩ | ⟨s, -, -, hs, rfl⟩ | ⟨regs, -, rfl⟩ |
    ⟨regs, c, -, -, -, rfl⟩ | ⟨q, -, -, rfl⟩ | ⟨id, exitCode, c, -, -, rfl⟩
  · rcases createTask_cases k.sched mem stackSize with hsame | created
    · rw [hsame]
    · exact created.field_of_lt Task.id (fun _ _ => rfl) hp
  · obtain ⟨first, started⟩ := start_cases hs
    exact started.field Task.id (fun _ _ => rfl) p
  · exact (tick_sameLinks inv.ring regs).id p
  · exact ((tick_sameLinks (inv.ring.setState c .blocked) regs).id p).trans
      ((sameLinks_setState k.sched c .blocked).id p)
  · exact (sameLinks_wake k.sched q).id p
  · exact killTask_id id exitCode

/-- The calls that put no task to sleep and end none. -/
@[simp] def passive : Action → Bool
  | .blockCurrent _ => false
  | .killTask _ _ => false
  | _ => true

theorem next_passive (inv : k.Inv) (h : k.next a = some k') (hpassive : passive a = true) :
    k'.keyboard = k.keyboard ∧
    (∀ c, k.sched.current = some c → k'.sched.current = some c ∨ ∃ regs, a = .tick regs) ∧
    ∀ p < k.sched.count,
      ((k.sched.task p).state ≠ .terminated → (k'.sched.task p).state ≠ .terminated) ∧
      ((k'.sched.task p).state = .blocked → (k.sched.task p).state = .blocked) := by
  rcases next_cases h with ⟨mem, stackSize, -, rfl⟩ | ⟨s, -, hstarted, hs, rfl⟩ | ⟨regs, rfl, rfl⟩ |
    ⟨regs, c, rfl, -, -, rfl⟩ | ⟨q, -, -, rfl⟩ | ⟨id, exitCode, c, rfl, -, rfl⟩
  · refine ⟨rfl, fun c hc => .inl ?_, fun p hp => ?_⟩
    · rcases createTask_cases k.sched mem stackSize with hsame | created
      · rwa [hsame]
      · exact created.current.trans hc
    · rw [createTask_state mem stackSize hp]
      exact ⟨id, id⟩
  · obtain ⟨hnone, hready⟩ := inv.unstarted hstarted
    obtain ⟨first, started⟩ := start_cases hs
    refine ⟨rfl, fun c hc => by simp [hnone] at hc, fun p hp => ?_⟩
    rw [started.state, hready p hp]
    split_ifs <;> simp
  · refine ⟨rfl, fun _ _ => .inr ⟨regs, rfl⟩, fun p _ => ⟨tick_alive inv.ring regs, ?_⟩⟩
    rcases tick_cases inv.ring regs with ⟨-, hsame⟩ | ⟨c, q, -, -, outcome⟩
    · simp [hsame]
    · rw [outcome.state]
      unfold preempted
      split_ifs <;> simp
  · cases hpassive
  · refine ⟨rfl, fun _ hc => .inl (wake_current.trans hc), fun p _ => ?_⟩
    simp only [wake_state]
    split_ifs <;> simp_all
  · cases hpassive

end Kernel

/-! ## The dispatch rule -/

/-- The ticks of a run in which somebody can be dispatched. The tick inside
`blockCurrent` comes after the caller has been marked blocked. -/
def RunnableTick (k : Kernel) : Action → Prop
  | .tick _ => k.sched.HasRunnable
  | .blockCurrent _ => ∀ c, k.sched.current = some c → (k.sched.markBlocked c).HasRunnable
  | _ => True

/-- Task `p` is made ready by `wake`, called as such or by the `killTask` of the
task whose waiter slot holds `p`. -/
def ThroughWake (k : Kernel) (a : Action) (p : Nat) (k' : Kernel) : Prop :=
  (k'.sched.task p).state = .ready ∧
    (a = .wake p ∨ ∃ id exitCode target, a = .killTask id exitCode ∧
      k.sched.findTaskById id = some target ∧ (k.sched.task target).waitingParent = some p)

/-- Task `p` is ended by a `killTask` of its id. -/
def ThroughKill (k : Kernel) (a : Action) (p : Nat) (k' : Kernel) : Prop :=
  (k'.sched.task p).state = .terminated ∧
    ∃ id exitCode, a = .killTask id exitCode ∧ k.sched.findTaskById id = some p

/-- The dispatch rule at a state `k`, for the steps of `sys`: a task made running
was ready or running, a terminated task is terminated in all later states, and a
blocked task leaves that state only as `leaves` allows. -/
structure DispatchRule (sys : System Kernel Action)
    (leaves : Kernel → Action → Nat → Kernel → Prop) (k : Kernel) : Prop where
  dispatched : ∀ a k', sys.step k a k' → ∀ p < k.sched.count,
    (k'.sched.task p).state = .running →
      (k.sched.task p).state = .ready ∨ (k.sched.task p).state = .running
  terminated : ∀ k', sys.Path k k' → ∀ p < k.sched.count,
    (k.sched.task p).state = .terminated → (k'.sched.task p).state = .terminated
  blocked : ∀ a k', sys.step k a k' → ∀ p < k.sched.count,
    (k.sched.task p).state = .blocked → (k'.sched.task p).state = .blocked ∨ leaves k a p k'

namespace Kernel

variable {k k' : Kernel} {a : Action} {p : Nat}

/-- One step of a run whose ticks find a runnable task, seen from one task. -/
theorem next_state (inv : k.Inv) (guard : RunnableTick k a) (h : k.next a = some k')
    (hp : p < k.sched.count) :
    (k'.sched.task p).state = (k.sched.task p).state ∨
    ((k.sched.task p).state = .ready ∨ (k.sched.task p).state = .running) ∧
      (k'.sched.task p).state ≠ .terminated ∨
    (k.sched.task p).state = .blocked ∧ ThroughWake k a p k' ∨
    (k.sched.task p).state ≠ .terminated ∧ ThroughKill k a p k' := by
  rcases next_cases h with ⟨mem, stackSize, rfl, rfl⟩ | ⟨s, rfl, hstarted, hs, rfl⟩ |
    ⟨regs, rfl, rfl⟩ | ⟨regs, c, rfl, hc, halive, rfl⟩ | ⟨q, rfl, hq, rfl⟩ |
    ⟨id, exitCode, c, rfl, hc, rfl⟩
  · exact .inl (createTask_state mem stackSize hp)
  · -- only `start` dispatches without a tick, and then every task is ready
    obtain ⟨tail, -, rfl⟩ := Option.map_eq_some_iff.mp hs
    refine .inr (.inl ⟨.inl ((inv.unstarted hstarted).2 p hp), ?_⟩)
    simp only [setState_state]
    split_ifs
    · simp
    · simp [(inv.unstarted hstarted).2 p hp]
  · rcases tick_state_of_hasRunnable inv.ring guard regs p with hsame | ⟨hbefore, hafter⟩
    · exact .inl hsame
    · refine .inr (.inl ⟨hbefore, ?_⟩)
      rcases hafter with hafter | hafter <;> simp [hafter]
  · have htick := tick_state_of_hasRunnable (inv.ring.setState c .blocked) (guard c hc) regs p
    simp only [setState_state] at htick
    simp only [blockCurrent, markBlocked]
    by_cases hpc : p = c
    · -- the caller goes to sleep and the tick does not wake it
      have hblocked : (((k.sched.setState c .blocked).tick regs).task p).state = .blocked := by
        simpa [hpc] using htick
      rw [hblocked]
      cases hstate : (k.sched.task p).state with
      | ready => exact .inr (.inl ⟨.inl rfl, by simp⟩)
      | running => exact .inr (.inl ⟨.inr rfl, by simp⟩)
      | blocked => exact .inl rfl
      | terminated => exact absurd (hpc ▸ hstate) halive
    · rw [if_neg hpc] at htick
      rcases htick with hsame | ⟨hbefore, hafter⟩
      · exact .inl hsame
      · refine .inr (.inl ⟨hbefore, ?_⟩)
        rcases hafter with hafter | hafter <;> simp [hafter]
  · simp only [wake_state]
    split_ifs with hwake
    · obtain ⟨rfl, hblocked⟩ := hwake
      refine .inr (.inr (.inl ⟨hblocked, ?_, .inl rfl⟩))
      simp [wake_state, hblocked]
    · exact .inl rfl
  · rcases killTask_state (k := k) (p := p) id exitCode with
      hsame | ⟨target, hfound, hlive, ⟨rfl, hend⟩ | ⟨-, hparent, hblocked, hready⟩⟩
    · exact .inl hsame
    · exact .inr (.inr (.inr ⟨hlive, hend, id, exitCode, rfl, hfound⟩))
    · exact .inr (.inr (.inl ⟨hblocked, hready, .inr ⟨id, exitCode, target, rfl, hfound, hparent⟩⟩))

theorem next_count (inv : k.Inv) (h : k.next a = some k') : k.sched.count ≤ k'.sched.count := by
  rcases next_cases h with ⟨mem, stackSize, -, rfl⟩ | ⟨s, -, -, hs, rfl⟩ | ⟨regs, -, rfl⟩ |
    ⟨regs, c, -, -, -, rfl⟩ | ⟨q, -, -, rfl⟩ | ⟨id, exitCode, c, -, -, rfl⟩
  · rcases createTask_cases k.sched mem stackSize with h | created
    · rw [h]
    · simp [created.count]
  · obtain ⟨tail, -, rfl⟩ := Option.map_eq_some_iff.mp hs
    exact le_rfl
  · exact (tick_sameLinks inv.ring regs).count.ge
  · exact (tick_sameLinks (inv.ring.setState c .blocked) regs).count.ge
  · exact (sameLinks_wake k.sched q).count.ge
  · exact (killTask_count id exitCode).ge

end Kernel

/-- **Only runnable tasks are dispatched.** From every reachable state, along the
steps whose ticks find a runnable task, a task made running was ready or running,
a terminated task stays terminated, and a blocked task leaves that state only
through `wake` or by being killed. -/
theorem dispatchRule_of_runnableTick {k : Kernel} (h : system.Reachable k) :
    DispatchRule (system.restrict RunnableTick)
      (fun k a p k' => ThroughWake k a p k' ∨ ThroughKill k a p k') k := by
  have inv := Kernel.inv_of_reachable h
  refine ⟨fun a k' hstep p hp hrun => ?_, fun k' hpath p hp hend => ?_,
    fun a k' hstep p hp hblocked => ?_⟩
  · rcases Kernel.next_state inv hstep.1 hstep.2 hp with hsame | ⟨hbefore, -⟩ |
      ⟨-, hready, -⟩ | ⟨-, hend, -⟩
    · exact .inr (hsame ▸ hrun)
    · exact hbefore
    · simp [hready] at hrun
    · simp [hend] at hrun
  · -- along the path: the invariant, and that task `p` exists and has ended
    have hkeep := hpath.stable
      (fun k => k.Inv ∧ p < k.sched.count ∧ (k.sched.task p).state = .terminated) ?_ ⟨inv, hp, hend⟩
    · exact hkeep.2.2
    · rintro k a k' ⟨inv, hp, hend⟩ hstep
      refine ⟨inv.next hstep.2, hp.trans_le (Kernel.next_count inv hstep.2), ?_⟩
      rcases Kernel.next_state inv hstep.1 hstep.2 hp with hsame | ⟨hbefore, -⟩ |
        ⟨hblocked, -⟩ | ⟨hlive, -⟩
      · exact hsame.trans hend
      · simp [hend] at hbefore
      · simp [hend] at hblocked
      · exact absurd hend hlive
  · rcases Kernel.next_state inv hstep.1 hstep.2 hp with hsame | ⟨hbefore, -⟩ |
      ⟨-, hwake⟩ | ⟨-, hkill⟩
    · exact .inl (hsame.trans hblocked)
    · simp [hblocked] at hbefore
    · exact .inr (.inl hwake)
    · exact .inr (.inr hkill)

/-- The kernel before any task exists. -/
def boot : Kernel where
  sched := Sched.init
    { count := 0, current := none, tail := none, nextId := 0, started := false
      pendingCleanup := [], nextTaskRsp := 0, kernelStack := 0, addressSpace := 0, freed := []
      task := fun _ =>
        { rsp := 0, id := 0, state := .ready, stackBase := 0, kernelStackTop := 0, brkStart := 0
          brkCurrent := 0, exitCode := 0, waitingParent := none, plm4Phys := 0, next := 0 } }
  keyboard :=
    { buffer := fun _ => 0, head := 0, tail := 0, shiftPressed := false, extended := false
      focusedTaskId := 0, onCharCallback := none }

theorem boot_reachable : system.Reachable boot := .init ⟨_, rfl, rfl⟩

/-- Allocations that succeed. -/
def plenty : Sched.TaskMemory := ⟨true, 0x100000, 0x200000, 0x3000⟩

/-- Two tasks are created and started and the first blocks itself. -/
def blockedRun : List Action :=
  [.createTask plenty 16384, .createTask plenty 16384, .start, .blockCurrent 0x100800]

/-- The second task kills the first, and then itself. -/
def killRun : List Action := blockedRun ++ [.killTask 1 0, .killTask 2 0]

/-- The first task is blocked and the second runs. -/
@[irreducible] def blockedState : Kernel :=
  (runActions Kernel.next boot blockedRun).get (by decide +kernel)

/-- Both tasks have ended and the second is still the current one. -/
@[irreducible] def killedState : Kernel :=
  (runActions Kernel.next boot killRun).get (by decide +kernel)

theorem blockedState_reachable : system.Reachable blockedState := by
  unfold blockedState
  exact reachable_get_runActions _ boot_reachable _

theorem killedState_reachable : system.Reachable killedState := by
  unfold killedState
  exact reachable_get_runActions _ boot_reachable _

theorem dispatchRule_blockedState :
    DispatchRule (system.restrict RunnableTick)
      (fun k a p k' => ThroughWake k a p k' ∨ ThroughKill k a p k') blockedState :=
  dispatchRule_of_runnableTick blockedState_reachable

theorem blockedState_caller : blockedState.caller = some 1 := by decide +kernel

theorem blockedState_state : (blockedState.sched.task 0).state = .blocked := by decide +kernel

theorem blockedState_killed :
    ((blockedState.killTask 1 0).1.sched.task 0).state = .terminated := by decide +kernel

theorem killedState_count : killedState.sched.count = 2 := by decide +kernel

theorem killedState_state : (killedState.sched.task 1).state = .terminated := by decide +kernel

theorem killedState_tick :
    ((killedState.sched.tick 0x200800).task 1).state = .running := by decide +kernel

/-- Without the two provisos the rule fails: a kill takes a blocked task to the
terminated state, and a tick that finds nothing to run makes a terminated task
running again. -/
theorem not_dispatchRule :
    (∃ k', system.step blockedState (.killTask 1 0) k' ∧
      (blockedState.sched.task 0).state = .blocked ∧ (k'.sched.task 0).state = .terminated) ∧
    (∃ k', system.step killedState (.tick 0x200800) k' ∧
      (killedState.sched.task 1).state = .terminated ∧ (k'.sched.task 1).state = .running) ∧
    ¬ ∀ k, system.Reachable k → DispatchRule system ThroughWake k := by
  refine ⟨⟨_, step_killTask blockedState_caller 1 0, blockedState_state, blockedState_killed⟩,
    ⟨_, step_tick killedState 0x200800, killedState_state, killedState_tick⟩, fun rule => ?_⟩
  have dispatched := (rule killedState killedState_reachable).dispatched _ _
    (step_tick killedState 0x200800) 1 (by rw [killedState_count]; decide) killedState_tick
  rw [killedState_state] at dispatched
  simp at dispatched

end WengShiOS.Scheduler
