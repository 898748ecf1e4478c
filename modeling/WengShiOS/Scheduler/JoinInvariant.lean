import WengShiOS.Scheduler.Join

/-! # The invariant of the join

The invariant attaches to every control point what is known of the task there.
Only the current task can be at an uninterrupted point, so a statement has to be
checked against its own point, against the sleepers, and against the waiter
slots. This module checks the statements that write a task. -/

namespace WengShiOS.Scheduler

open Math Drivers ControlPoint Scheduler.Task Sched

namespace ControlPoint

variable {pc : ControlPoint} {t : Nat}

theorem releasing_of_waking (h : pc.waking = some t) : pc.releasing = some t := by
  cases pc <;> simp_all

theorem uninterrupted_of_releasing (h : pc.releasing = some t) : pc.uninterrupted = true := by
  cases pc <;> simp_all

theorem registeredOn_of_sleepsOn (h : pc.sleepsOn = some t) : pc.registeredOn = some t := by
  cases pc with
  | yield wait => cases wait <;> simp_all
  | _ => simp_all

end ControlPoint

namespace JoinState

variable {s s' : JoinState} {p q c t id : Nat} {pc : ControlPoint}

abbrev state (s : JoinState) (p : Nat) : TaskState := (s.sched.task p).state

abbrev parent (s : JoinState) (t : Nat) : Option Nat := (s.sched.task t).waitingParent

/-- The current task is inside the `killTask` that ended `t` and has yet to wake
the waiter. -/
def Waking (s : JoinState) (t : Nat) : Prop :=
  ∃ c, s.sched.current = some c ∧ (s.control c).waking = some t

/-- As `Waking`, up to the clearing of the slot. -/
def Releasing (s : JoinState) (t : Nat) : Prop :=
  ∃ c, s.sched.current = some c ∧ (s.control c).releasing = some t

/-- `t` is the task that was found for `id`. -/
def Names (s : JoinState) (id t : Nat) : Prop :=
  t < s.sched.count ∧ (s.sched.task t).id = id

/-- What is known of a task `p` that sleeps on `t`: while blocked it holds the
waiter slot and `t` lives or is just waking it; once woken `t` has ended. -/
structure Sleeper (s : JoinState) (p t : Nat) : Prop where
  asleep : s.state p = .blocked → s.parent t = some p
  waking : s.state p = .blocked → s.state t = .terminated → s.Waking t
  awake : s.state p = .ready ∨ s.state p = .running → s.state t = .terminated

/-- A `killTask` call of `p` that is about to end `f.target`. -/
structure Ending (s : JoinState) (p : Nat) (f : KillFrame) : Prop where
  current : s.sched.current = some p
  target : f.target < s.sched.count
  alive : s.state f.target ≠ .terminated
  itself : f.killingSelf = decide (f.target = p)

/-- A `killTask` call of `p` that has ended `f.target`. -/
structure Ended (s : JoinState) (p : Nat) (f : KillFrame) : Prop where
  current : s.sched.current = some p
  target : f.target < s.sched.count
  terminated : s.state f.target = .terminated

/-- What is known at each control point of a task `p`. -/
def PointOk (s : JoinState) (p : Nat) : ControlPoint → Prop
  | .waitNull id target => ∀ t, target = some t → s.Names id t
  | .waitTest id t => s.Names id t
  | .waitRegister id t => s.Names id t ∧ s.sched.current = some p ∧ s.state t ≠ .terminated
  | .block (some (id, t)) =>
    s.Names id t ∧ s.sched.current = some p ∧ s.state t ≠ .terminated ∧ s.parent t = some p
  | .yield (some (id, t)) => s.Names id t ∧ s.Sleeper p t
  | .waitRead id t => s.Names id t ∧ s.Sleeper p t
  | .killTest _ _ target => ∀ t, target = some t → t < s.sched.count
  | .killSelf _ _ t => s.sched.current = some p ∧ t < s.sched.count ∧ s.state t ≠ .terminated
  | .killCode f => s.Ending p f
  | .killState f => s.Ending p f ∧ (s.sched.task f.target).exitCode = f.exitCode
  | .killParent f => s.Ended p f
  | .wakeTest f q => s.Ended p f ∧ s.parent f.target = some q
  | .wakeSet f q => s.Ended p f ∧ s.parent f.target = some q ∧ s.state q = .blocked
  | .killClear f => s.Ended p f
  | _ => True

/-- A task that is not the current one, or not at an uninterrupted point: what is
known of it only has to be kept for the lookups and the sleepers. -/
theorem PointOk.frame (h : s.PointOk p pc)
    (hp : pc.uninterrupted = true → s.sched.current ≠ some p)
    (names : ∀ id t, s.Names id t → s'.Names id t)
    (sleeper : ∀ t, pc.sleepsOn = some t → s.Sleeper p t → s'.Sleeper p t) : s'.PointOk p pc := by
  have hcount : ∀ t, t < s.sched.count → t < s'.sched.count := fun t ht => (names _ t ⟨ht, rfl⟩).1
  cases pc with
  | waitNull id target => exact fun t ht => names id t (h t ht)
  | waitTest id t => exact names id t h
  | waitRegister id t => exact absurd h.2.1 (hp rfl)
  | waitRead id t => exact ⟨names id t h.1, sleeper t rfl h.2⟩
  | block wait =>
    cases wait with
    | none => trivial
    | some w => exact absurd h.2.1 (hp rfl)
  | yield wait =>
    cases wait with
    | none => trivial
    | some w => exact ⟨names w.1 w.2 h.1, sleeper w.2 rfl h.2⟩
  | killTest id exitCode target => exact fun t ht => hcount t (h t ht)
  | killSelf id exitCode target => exact absurd h.1 (hp rfl)
  | killCode f => exact absurd h.current (hp rfl)
  | killState f => exact absurd h.1.current (hp rfl)
  | killParent f => exact absurd h.current (hp rfl)
  | wakeTest f q => exact absurd h.1.current (hp rfl)
  | wakeSet f q => exact absurd h.1.current (hp rfl)
  | killClear f => exact absurd h.current (hp rfl)
  | _ => trivial

/-- The invariant of the undisturbed runs, apart from the state of the current
task. -/
structure JoinCore (s : JoinState) : Prop where
  kernel : s.kernel.Inv
  fresh : ∀ p, s.sched.count ≤ p → s.control p = .outside
  idle : s.sched.current = none → ∀ p, s.control p = .outside
  point : ∀ p, s.PointOk p (s.control p)
  slot : ∀ t p, t < s.sched.count → s.parent t = some p → p < s.sched.count ∧
    (s.state p = .terminated ∨ (s.control p).registeredOn = some t)
  cleared : ∀ t p, t < s.sched.count → s.parent t = some p → s.state t = .terminated →
    s.Releasing t
  ended : ∀ t < s.sched.count, s.state t = .terminated →
    s.endedWith t = some (s.sched.task t).exitCode
  unended : ∀ t, s.sched.count ≤ t ∨ s.state t ≠ .terminated → s.endedWith t = none
  returned : ∀ r ∈ s.returned, ∀ t, r.target = some t →
    s.Names r.id t ∧ s.endedWith t = some r.exitCode

/-- The current task is running, or about to yield, or has ended itself. -/
def CurrentOk (s : JoinState) : Prop :=
  ∀ c, s.sched.current = some c → s.state c = .running ∨
    (s.state c ≠ .terminated ∧ ∃ wait, s.control c = .yield wait) ∨
    (s.control c).endsSelf = true

structure JoinInv (s : JoinState) : Prop extends JoinCore s where
  currentOk : s.CurrentOk

/-! ### Statements of the current task -/

/-- `s'` is `s` after a statement of the current task `c`, which moved to `pc`. -/
structure Stored (s s' : JoinState) (c : Nat) (pc : ControlPoint) : Prop where
  kernel : s'.kernel.Inv
  count : s'.sched.count = s.sched.count
  current : s'.sched.current = s.sched.current
  control : s'.control = Function.update s.control c pc
  id : ∀ t, (s'.sched.task t).id = (s.sched.task t).id

namespace Stored

variable (m : Stored s s' c pc)
include m

theorem control_self : s'.control c = pc := by simp [m.control]

theorem control_of_ne (h : p ≠ c) : s'.control p = s.control p := by simp [m.control, h]

theorem names (h : s.Names id t) : s'.Names id t := by
  unfold Names at *
  rwa [m.count, m.id]

end Stored

section Role

variable {role : ControlPoint → Option Nat} (hc : s.sched.current = some c)
include hc

/-- The current task is the one that plays a role. -/
theorem role_eq (h : ∃ c, s.sched.current = some c ∧ role (s.control c) = some t) :
    role (s.control c) = some t := by
  obtain ⟨c', hc', h⟩ := h
  obtain rfl : c = c' := Option.some.inj (hc.symm.trans hc')
  exact h

theorem not_role (h : role (s.control c) = none) (t : Nat) :
    ¬ ∃ c, s.sched.current = some c ∧ role (s.control c) = some t := fun hrole => by
  rw [role_eq hc hrole] at h
  cases h

end Role

/-- A statement of a task that is registered nowhere leaves the others registered. -/
theorem Stored.registeredOn (m : Stored s s' c pc) (hc : (s.control c).registeredOn = none)
    (h : (s.control p).registeredOn = some t) : (s'.control p).registeredOn = some t := by
  have hpc : p ≠ c := fun heq => by
    rw [heq, hc] at h
    cases h
  rwa [m.control_of_ne hpc]

/-- A step that changes no state, and not the slot in which `p` sleeps. -/
theorem Sleeper.keep (sleeper : s.Sleeper p t) (hstate : ∀ q, s'.state q = s.state q)
    (hparent : s.state p = .blocked → s'.parent t = s.parent t)
    (hwaking : s.state p = .blocked → s.Waking t → s'.Waking t) : s'.Sleeper p t := by
  refine ⟨fun hb => ?_, fun hb he => ?_, fun hr => ?_⟩
  · rw [hstate] at hb
    rw [hparent hb]
    exact sleeper.asleep hb
  · rw [hstate] at hb he
    exact hwaking hb (sleeper.waking hb he)
  · rw [hstate] at hr ⊢
    exact sleeper.awake hr

section

variable (inv : s.JoinCore) (hc : s.sched.current = some c) (m : Stored s s' c pc)
  (hnew : s'.PointOk c pc)
  (sleeper : ∀ p t, p ≠ c → (s.control p).sleepsOn = some t → s.Sleeper p t → s'.Sleeper p t)
include inv hc m hnew sleeper

/-- What remains to be checked of a statement: its own next point, the sleepers,
the slots and the records. -/
theorem JoinCore.store (slot : ∀ t p, t < s.sched.count → s'.parent t = some p → p < s.sched.count ∧
      (s'.state p = .terminated ∨ (s'.control p).registeredOn = some t))
    (cleared : ∀ t p, t < s.sched.count → s'.parent t = some p → s'.state t = .terminated →
      pc.releasing = some t) (ended : ∀ t < s.sched.count, s'.state t = .terminated →
      s'.endedWith t = some (s'.sched.task t).exitCode)
    (unended : ∀ t, s.sched.count ≤ t ∨ s'.state t ≠ .terminated → s'.endedWith t = none)
    (returned : ∀ r ∈ s'.returned, ∀ t, r.target = some t →
      s.Names r.id t ∧ s'.endedWith t = some r.exitCode) : s'.JoinCore where
  kernel := m.kernel
  fresh p hp := by
    have hlt : c < s.sched.count := inv.kernel.ring.current_lt c hc
    rw [m.count] at hp
    rw [m.control_of_ne (by omega)]
    exact inv.fresh p hp
  idle h := by
    rw [m.current, hc] at h
    cases h
  point p := by
    by_cases hpc : p = c
    · subst hpc
      rwa [m.control_self]
    · rw [m.control_of_ne hpc]
      refine (inv.point p).frame (fun _ h => hpc ?_) (fun id t => m.names) fun t => sleeper p t hpc
      rw [hc] at h
      exact (Option.some.inj h).symm
  slot t p ht := by
    rw [m.count] at ht ⊢
    exact slot t p ht
  cleared t p ht hparent hend :=
    ⟨c, m.current.trans hc, by rw [m.control_self]; exact cleared t p (m.count ▸ ht) hparent hend⟩
  ended t ht := ended t (m.count ▸ ht)
  unended t ht := unended t (m.count ▸ ht)
  returned r hr t ht := ⟨m.names (returned r hr t ht).1, (returned r hr t ht).2⟩

/-- A statement that leaves the slots as they are and ends nobody, and by which the current
task gives up no role that others depend on: holding a slot, or being about to clear one. -/
theorem JoinCore.keep (hparent : ∀ t, s'.parent t = s.parent t)
    (hterm : ∀ p, s'.state p = .terminated ↔ s.state p = .terminated)
    (hcode : ∀ t, s.state t = .terminated →
      (s'.sched.task t).exitCode = (s.sched.task t).exitCode) (hended : s'.endedWith = s.endedWith)
    (hreg : ∀ t, (s.control c).registeredOn = some t → s.parent t = some c →
      s.state c = .terminated ∨ pc.registeredOn = some t)
    (hrel : ∀ p t, (s.control c).releasing = some t → s.parent t = some p →
      pc.releasing = some t) (returned : ∀ r ∈ s'.returned, ∀ t, r.target = some t →
      s.Names r.id t ∧ s.endedWith t = some r.exitCode) : s'.JoinCore := by
  refine inv.store hc m hnew sleeper (fun u p hu h => ?_) (fun u p hu h hend => ?_)
    (fun u hu hend => ?_) (fun u hu => ?_) fun r hr u hru => ?_
  · rw [hparent] at h
    obtain ⟨hp, hrole⟩ := inv.slot u p hu h
    refine ⟨hp, ?_⟩
    rw [hterm]
    by_cases hpc : p = c
    · subst hpc
      rw [m.control_self]
      exact hrole.elim .inl fun hrole => hreg u hrole h
    · rwa [m.control_of_ne hpc]
  · rw [hparent] at h
    exact hrel p u (role_eq hc (inv.cleared u p hu h ((hterm u).mp hend))) h
  · rw [hterm] at hend
    rw [hended, hcode u hend]
    exact inv.ended u hu hend
  · rw [ne_eq, hterm] at hu
    rw [hended]
    exact inv.unended u hu
  · rw [hended]
    exact returned r hr u hru

end

/-! ### Statements that only move the control point -/

/-- A statement that changes no task. -/
structure Moved (s s' : JoinState) (c : Nat) (pc : ControlPoint) : Prop extends
    Stored s s' c pc where
  task : s'.sched.task = s.sched.task
  endedWith : s'.endedWith = s.endedWith

theorem Moved.goto (inv : s.JoinCore) (c : Nat) (pc : ControlPoint) :
    Moved s (s.goto c pc) c pc :=
  ⟨⟨inv.kernel, rfl, rfl, rfl, fun _ => rfl⟩, rfl, rfl⟩

section

variable (inv : s.JoinCore) (hc : s.sched.current = some c) (m : Moved s s' c pc)
  (hnew : s'.PointOk c pc)
include inv hc m hnew

/-- For a move there is one more role: being about to wake a waiter. -/
theorem JoinCore.move (hreg : ∀ t, (s.control c).registeredOn = some t → s.parent t = some c →
      s.state c = .terminated ∨ pc.registeredOn = some t)
    (hwake : ∀ p t, (s.control c).waking = some t → s.state p = .blocked → s.parent t = some p →
      pc.waking = some t) (hrel : ∀ p t, (s.control c).releasing = some t → s.parent t = some p →
      pc.releasing = some t) (returned : ∀ r ∈ s'.returned, ∀ t, r.target = some t →
      s.Names r.id t ∧ s.endedWith t = some r.exitCode) : s'.JoinCore := by
  have hstate : ∀ p, s'.state p = s.state p := fun p => by simp [state, m.task]
  have hparent : ∀ t, s'.parent t = s.parent t := fun t => by simp [parent, m.task]
  refine inv.keep hc m.toStored hnew (fun p t _ _ sleeper => ?_) hparent
    (fun p => by rw [hstate]) (fun t _ => by rw [m.task]) m.endedWith hreg hrel returned
  refine sleeper.keep hstate (fun _ => hparent t) fun hb hwaking => ⟨c, m.current.trans hc, ?_⟩
  rw [m.control_self]
  exact hwake p t (role_eq hc hwaking) hb (sleeper.asleep hb)

/-- A move away from a point that plays no role in the protocol. -/
theorem JoinCore.move_quiet (hreg : (s.control c).registeredOn = none)
    (hrel : (s.control c).releasing = none) (returned : ∀ r ∈ s'.returned, ∀ t, r.target = some t →
      s.Names r.id t ∧ s.endedWith t = some r.exitCode) : s'.JoinCore := by
  have hwaking : ∀ t, (s.control c).waking ≠ some t := fun t h => by
    have := releasing_of_waking h
    rw [hrel] at this
    cases this
  refine inv.move hc m hnew (fun t h => ?_) (fun p t h => absurd h (hwaking t)) (fun p t h => ?_)
    returned
  · rw [hreg] at h
    cases h
  · rw [hrel] at h
    cases h

end

/-! ### Statements that write a task -/

/-- The current task `c` writes task `t` and moves to `pc`. -/
structure Written (s s' : JoinState) (c : Nat) (pc : ControlPoint) (t : Nat) (f : Task → Task) :
    Prop extends Stored s s' c pc where
  task : s'.sched.task = (s.sched.modify t f).task
  returned : s'.returned = s.returned

namespace Written

variable {f : Task → Task}

theorem modify (inv : s.JoinCore) (hc : s.sched.current = some c)
    (hnext : ∀ t, (f t).next = t.next) (hid : ∀ t, (f t).id = t.id) :
    Written s ((s.withSched (s.sched.modify t f)).goto c pc) c pc t f where
  kernel := by
    refine ⟨inv.kernel.ring.modify hnext, fun h => ?_⟩
    have hnone := (inv.kernel.unstarted h).1
    rw [hc] at hnone
    cases hnone
  count := rfl
  current := rfl
  control := rfl
  id _ := Sched.modify_field Task.id hid
  task := rfl
  returned := rfl

variable (w : Written s s' c pc t f)
include w

theorem task_self : s'.sched.task t = f (s.sched.task t) := by
  rw [w.task, modify_task_self]

theorem task_of_ne (h : p ≠ t) : s'.sched.task p = s.sched.task p := by
  rw [w.task, modify_task_of_ne h]

theorem field {β : Type*} (field : Task → β) (h : ∀ t, field (f t) = field t) (p : Nat) :
    field (s'.sched.task p) = field (s.sched.task p) := by
  rw [w.task]
  exact modify_field field h

end Written

/-- A store to the waiter slot of `t`, by a task that wakes nobody. -/
theorem JoinCore.setParent {x : Option Nat} (inv : s.JoinCore) (hc : s.sched.current = some c)
    (w : Written s s' c pc t fun t => { t with waitingParent := x })
    (hended : s'.endedWith = s.endedWith) (hreg : (s.control c).registeredOn = none)
    (hwake : (s.control c).waking = none)
    (hrel : ∀ u, (s.control c).releasing = some u → u = t) (hnew : s'.PointOk c pc)
    (free : ∀ p, s.parent t = some p → s.state p = .blocked → ¬ s.Sleeper p t)
    (slot : ∀ p, x = some p → p = c ∧ pc.registeredOn = some t ∧ s.state t ≠ .terminated) :
    s'.JoinCore := by
  have hstate : ∀ p, s'.state p = s.state p := w.field Task.state fun _ => rfl
  have hcode := w.field exitCode fun _ => rfl
  have hself : s'.parent t = x := congrArg waitingParent w.task_self
  have hparent : ∀ u, u ≠ t → s'.parent u = s.parent u := fun u hu =>
    congrArg waitingParent (w.task_of_ne hu)
  refine inv.store hc w.toStored hnew (fun p u _ _ sleeper => ?_) (fun u p hu h => ?_)
    (fun u p hu h hend => ?_) (fun u hu hend => ?_) (fun u hu => ?_) fun r hr u => ?_
  · refine sleeper.keep hstate (fun hb => hparent u fun hut => ?_)
      fun _ hw => absurd hw (not_role hc hwake u)
    subst hut
    exact free p (sleeper.asleep hb) hb sleeper
  · by_cases hut : u = t
    · subst hut
      obtain ⟨rfl, hpc, -⟩ := slot p (hself.symm.trans h)
      exact ⟨inv.kernel.ring.current_lt p hc, .inr (by rwa [w.control_self])⟩
    · rw [hparent u hut] at h
      obtain ⟨hp, hrole⟩ := inv.slot u p hu h
      rw [hstate]
      exact ⟨hp, hrole.imp_right (w.registeredOn hreg)⟩
  · rw [hstate] at hend
    by_cases hut : u = t
    · subst hut
      exact absurd hend (slot p (hself.symm.trans h)).2.2
    · rw [hparent u hut] at h
      exact absurd (hrel u (role_eq hc (inv.cleared u p hu h hend))) hut
  · rw [hstate] at hend
    rw [hended, hcode]
    exact inv.ended u hu hend
  · rw [hstate] at hu
    rw [hended]
    exact inv.unended u hu
  · rw [hended]
    rw [w.returned] at hr
    exact inv.returned r hr u

theorem JoinCore.waitRegister (inv : s.JoinCore) (hc : s.sched.current = some c)
    (hpc : s.control c = .waitRegister id t)
    (free : ∀ q, s.parent t = some q → s.state q = .terminated) :
    ((s.withSched (s.sched.modify t fun t => { t with waitingParent := some c })).goto c
      (.block (some (id, t)))).JoinCore := by
  set s' := (s.withSched (s.sched.modify t fun t => { t with waitingParent := some c })).goto c
    (.block (some (id, t)))
  have w : Written s s' c (.block (some (id, t))) t _ := .modify inv hc (fun _ => rfl) fun _ => rfl
  have hstate : ∀ p, s'.state p = s.state p := w.field Task.state fun _ => rfl
  have hpoint := inv.point c
  rw [hpc] at hpoint
  obtain ⟨hnames, -, halive⟩ := hpoint
  refine inv.setParent hc w rfl (by simp [hpc]) (by simp [hpc]) (by simp [hpc])
    ⟨w.names hnames, hc, by rwa [hstate], congrArg waitingParent w.task_self⟩
    (fun p hp hb => ?_) fun p hp => ⟨(Option.some.inj hp).symm, rfl, halive⟩
  -- a blocked task in the slot would be a live one
  rw [free p hp] at hb
  cases hb

variable {f : KillFrame}

section

variable (inv : s.JoinCore) (hc : s.sched.current = some c)
include inv hc

/-- The stores of `killClear`: the slot of an ended task is emptied. -/
theorem JoinCore.killClear (hpc : s.control c = .killClear f) :
    ((s.withSched (s.sched.modify f.target fun t => { t with waitingParent := none })).goto c
      (.killQueueAgain f)).JoinCore := by
  set s' := (s.withSched (s.sched.modify f.target fun t => { t with waitingParent := none })).goto c
    (.killQueueAgain f)
  have w : Written s s' c (.killQueueAgain f) f.target _ := .modify inv hc (fun _ => rfl) fun _ => rfl
  have hpoint := inv.point c
  rw [hpc] at hpoint
  refine inv.setParent hc w rfl (by simp [hpc]) (by simp [hpc]) (by simp [hpc, eq_comm]) trivial
    (fun p _ hb sleeper => ?_) nofun
  -- a waiter of the target would not be blocked any more
  exact not_role hc (by simp [hpc]) _ (sleeper.waking hb hpoint.terminated)

/-- A store to the state of a live task that leaves it alive. -/
theorem JoinCore.setState {st : TaskState} (w : Written s s' c pc q fun t => { t with state := st })
    (hold : s.state q ≠ .terminated) (hst : st ≠ .terminated) (hended : s'.endedWith = s.endedWith)
    (hnew : s'.PointOk c pc)
    (sleeper : ∀ p t, p ≠ c → (s.control p).sleepsOn = some t → s.Sleeper p t → s'.Sleeper p t)
    (hreg : ∀ t, (s.control c).registeredOn = some t → pc.registeredOn = some t)
    (hrel : ∀ t, (s.control c).releasing = some t → pc.releasing = some t) : s'.JoinCore := by
  have hterm : ∀ p, s'.state p = .terminated ↔ s.state p = .terminated := fun p => by
    by_cases hp : p = q
    · subst hp
      simp [state, w.task_self, hst, hold]
    · simp [state, w.task_of_ne hp]
  exact inv.keep hc w.toStored hnew sleeper (w.field waitingParent fun _ => rfl) hterm
    (fun t _ => w.field exitCode (fun _ => rfl) t) hended (fun t h _ => .inr (hreg t h))
    (fun _ t h _ => hrel t h) (w.returned ▸ inv.returned)

theorem JoinCore.block {wait : Option (Nat × Nat)} (hpc : s.control c = .block wait)
    (hrun : s.state c = .running) :
    ((s.withSched (s.sched.markBlocked c)).goto c (.yield wait)).JoinCore := by
  unfold markBlocked
  set s' := (s.withSched (s.sched.setState c .blocked)).goto c (.yield wait)
  have w : Written s s' c (.yield wait) c fun t => { t with state := .blocked } :=
    .modify inv hc (fun _ => rfl) fun _ => rfl
  have hparent : ∀ t, s'.parent t = s.parent t := w.field waitingParent fun _ => rfl
  have hself : s'.state c = .blocked := congrArg Task.state w.task_self
  have hother : ∀ p, p ≠ c → s'.state p = s.state p := fun p hp =>
    congrArg Task.state (w.task_of_ne hp)
  have hend : ∀ p, s'.state p = .terminated → s.state p = .terminated := fun p h => by
    by_cases hp : p = c
    · rw [hp, hself] at h
      cases h
    · rwa [hother p hp] at h
  refine inv.setState hc w (by simp [hrun]) (by simp) rfl ?_ (fun p t hp hsleep sleeper => ?_) ?_ ?_
  · cases wait with
    | none => trivial
    | some wt =>
      have hpoint := inv.point c
      rw [hpc] at hpoint
      obtain ⟨hnames, -, halive, hslot⟩ := hpoint
      refine ⟨w.names hnames, fun _ => by rwa [hparent], fun _ h => ?_, fun h => ?_⟩
      · exact absurd (hend _ h) halive
      · rw [hself] at h
        simp at h
  · refine ⟨fun hb => ?_, fun hb he => ?_, fun hr => ?_⟩
    · rw [hother p hp] at hb
      rw [hparent]
      exact sleeper.asleep hb
    · rw [hother p hp] at hb
      have := role_eq hc (sleeper.waking hb (hend t he))
      simp [hpc] at this
    · rw [hother p hp] at hr
      have ht := sleeper.awake hr
      have htc : t ≠ c := fun h => by
        rw [h, hrun] at ht
        cases ht
      rwa [hother t htc]
  · rw [hpc]
    cases wait <;> simp
  · simp [hpc]

theorem JoinCore.wakeSet (hpc : s.control c = .wakeSet f q) :
    ((s.withSched (s.sched.setState q .ready)).goto c (.killClear f)).JoinCore := by
  set s' := (s.withSched (s.sched.setState q .ready)).goto c (.killClear f)
  have w : Written s s' c (.killClear f) q fun t => { t with state := .ready } :=
    .modify inv hc (fun _ => rfl) fun _ => rfl
  have hparent : ∀ t, s'.parent t = s.parent t := w.field waitingParent fun _ => rfl
  have hself : s'.state q = .ready := congrArg Task.state w.task_self
  have hother : ∀ p, p ≠ q → s'.state p = s.state p := fun p hp =>
    congrArg Task.state (w.task_of_ne hp)
  have hpoint := inv.point c
  rw [hpc] at hpoint
  obtain ⟨ended, hslot, hblocked⟩ := hpoint
  have hend : ∀ p, s.state p = .terminated → s'.state p = .terminated := fun p h => by
    have hp : p ≠ q := fun hp => by
      rw [hp, hblocked] at h
      cases h
    rwa [hother p hp]
  have hwaking : ∀ t, s.Waking t → t = f.target := fun t h => by
    have := role_eq hc h
    simpa [hpc, eq_comm] using this
  refine inv.setState hc w (by simp [hblocked]) (by simp) rfl ⟨hc, ended.target, hend _ ended.terminated⟩
    (fun p t hp hsleep sleeper => ?_) (by simp [hpc]) (by simp [hpc])
  by_cases hpq : p = q
  · -- the woken task waits for the task that ended, since it holds its slot
    subst hpq
    have hrole := (inv.slot _ _ ended.target hslot).2
    have hreg := hrole.resolve_left (by simp [hblocked])
    rw [registeredOn_of_sleepsOn hsleep] at hreg
    obtain rfl : t = f.target := Option.some.inj hreg
    exact ⟨fun hb => by simp [hself] at hb, fun hb => by simp [hself] at hb,
      fun _ => hend _ ended.terminated⟩
  · refine ⟨fun hb => ?_, fun hb he => ?_, fun hr => ?_⟩
    · rw [hother p hpq] at hb
      rw [hparent]
      exact sleeper.asleep hb
    · rw [hother p hpq] at hb
      have htq : t ≠ q := fun h => by simp [h, hself] at he
      rw [hother t htq] at he
      obtain rfl := hwaking t (sleeper.waking hb he)
      have := sleeper.asleep hb
      rw [hslot] at this
      exact absurd (Option.some.inj this).symm hpq
    · rw [hother p hpq] at hr
      exact hend t (sleeper.awake hr)

theorem JoinCore.killCode (hpc : s.control c = .killCode f) :
    ((s.withSched (s.sched.modify f.target fun t => { t with exitCode := f.exitCode })).goto c
      (.killState f)).JoinCore := by
  set s' := (s.withSched (s.sched.modify f.target fun t => { t with exitCode := f.exitCode })).goto c
    (.killState f)
  have w : Written s s' c (.killState f) f.target _ := .modify inv hc (fun _ => rfl) fun _ => rfl
  have hstate : ∀ p, s'.state p = s.state p := w.field Task.state fun _ => rfl
  have hparent : ∀ t, s'.parent t = s.parent t := w.field waitingParent fun _ => rfl
  have hself : (s'.sched.task f.target).exitCode = f.exitCode := congrArg exitCode w.task_self
  have ending := inv.point c
  rw [hpc] at ending
  refine inv.keep hc w.toStored ⟨⟨hc, ending.target, by rw [hstate]; exact ending.alive,
    ending.itself⟩, hself⟩ (fun p u _ _ sleeper => ?_) hparent (fun p => by rw [hstate])
    (fun u hend => ?_) rfl (by simp [hpc]) (by simp [hpc]) inv.returned
  · exact sleeper.keep hstate (fun _ => hparent u) fun _ hw => absurd hw (not_role hc (by simp [hpc]) u)
  · rw [w.task_of_ne fun h => ending.alive (h ▸ hend)]

theorem JoinCore.killState (hpc : s.control c = .killState f) :
    { (s.withSched (s.sched.setState f.target .terminated)).goto c (.killParent f) with
      endedWith := Function.update s.endedWith f.target (some f.exitCode) : JoinState }.JoinCore := by
  set s' : JoinState :=
    { (s.withSched (s.sched.setState f.target .terminated)).goto c (.killParent f) with
      endedWith := Function.update s.endedWith f.target (some f.exitCode) } with hs'
  have w : Written s s' c (.killParent f) f.target fun t => { t with state := .terminated } := by
    have w : Written s ((s.withSched (s.sched.setState f.target .terminated)).goto c
        (.killParent f)) c _ f.target _ := .modify inv hc (fun _ => rfl) fun _ => rfl
    exact ⟨⟨w.kernel, rfl, rfl, rfl, w.id⟩, rfl, rfl⟩
  have hparent : ∀ t, s'.parent t = s.parent t := w.field waitingParent fun _ => rfl
  have hcode := w.field exitCode fun _ => rfl
  have hself : s'.state f.target = .terminated := congrArg Task.state w.task_self
  have hother : ∀ p, p ≠ f.target → s'.state p = s.state p := fun p hp =>
    congrArg Task.state (w.task_of_ne hp)
  have halive : ∀ p, s'.state p ≠ .terminated → s'.state p = s.state p := fun p hp =>
    hother p fun heq => hp (heq ▸ hself)
  have hend : ∀ p, s.state p = .terminated → s'.state p = .terminated := fun p h => by
    by_contra hp
    exact hp ((halive p hp).trans h)
  have hpoint := inv.point c
  rw [hpc] at hpoint
  obtain ⟨ending, hexit⟩ := hpoint
  have hended : ∀ u, u ≠ f.target → s'.endedWith u = s.endedWith u := fun u hu => by
    simp [hs', hu]
  refine inv.store hc w.toStored ⟨hc, ending.target, hself⟩ (fun p u _ _ sleeper => ?_)
    (fun u p hu h => ?_) (fun u p hu h he => ?_) (fun u hu he => ?_) (fun u hu => ?_)
    fun r hr u hru => ?_
  · refine ⟨fun hb => ?_, fun hb he => ?_, fun hr => ?_⟩
    · rw [halive p (by simp [hb])] at hb
      rw [hparent]
      exact sleeper.asleep hb
    · rw [halive p (by simp [hb])] at hb
      by_cases hu : u = f.target
      · exact ⟨c, hc, by rw [w.control_self, hu]; rfl⟩
      · rw [hother u hu] at he
        exact absurd (sleeper.waking hb he) (not_role hc (by simp [hpc]) u)
    · rw [halive p (by rcases hr with h | h <;> simp [h])] at hr
      exact hend u (sleeper.awake hr)
  · rw [hparent] at h
    exact (inv.slot u p hu h).imp_right (.imp (hend p) (w.registeredOn (by simp [hpc])))
  · by_cases hut : u = f.target
    · rw [hut]
      rfl
    · rw [hparent] at h
      rw [hother u hut] at he
      exact absurd (inv.cleared u p hu h he) (not_role hc (by simp [hpc]) u)
  · rw [hcode]
    by_cases hut : u = f.target
    · simp [hs', hut, hexit]
    · rw [hother u hut] at he
      rw [hended u hut]
      exact inv.ended u hu he
  · have hut : u ≠ f.target := fun h => by
      rw [h, hself] at hu
      exact absurd ending.target (by simpa using hu)
    rw [hended u hut]
    rw [hother u hut] at hu
    exact inv.unended u hu
  · obtain ⟨hnames, hended'⟩ := inv.returned r hr u hru
    -- the call that returned saw its target ended
    have hut : u ≠ f.target := fun h => by
      have := inv.unended u (.inr (h ▸ ending.alive))
      rw [this] at hended'
      cases hended'
    exact ⟨hnames, by rwa [hended u hut]⟩

end

end JoinState

end WengShiOS.Scheduler
