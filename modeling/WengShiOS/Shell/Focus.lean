import WengShiOS.Scheduler.JoinSafety
import WengShiOS.Shell.ExecuteElf

/-! # The focus is not left on a dead task

Only the shell gives the focus to a task, and it returns to its prompt once `taskAlive`
no longer finds that task alive. If the task was alive when it got the focus, then it is
ended by a `killTask` that resets the focus, and if no tick falls in between, the shell
sees the end of the task only after the reset.

Ids wrap, so several tasks may have the focused id. `findTaskById` and the shell's own
walk both find the oldest of them, and a younger one is never killed. -/

namespace WengShiOS.Shell

open Math Drivers Scheduler JoinState Function Sched ShellState

/-! ## Steps of the scheduler's machine -/

/-- The target that a `killTask` call which has not ended it yet found for its id. -/
@[simp] def killing : ControlPoint → Option (Nat × Nat)
  | .killTest id _ (some t) => some (id, t)
  | .killSelf id _ t => some (id, t)
  | .killCode f => some (f.id, f.target)
  | .killState f => some (f.id, f.target)
  | _ => none

section SchedEffect

variable {j j' : JoinState} {c regs : Nat}

abbrev focusOf (j : JoinState) : Nat := j.kernel.keyboard.getFocus

/-- What the kernel always satisfies, and that a target is the task its id finds. -/
structure Core (j : JoinState) : Prop where
  kernel : j.kernel.Inv
  targets : ∀ p id t, killing (j.control p) = some (id, t) → j.sched.findTaskById id = some t

/-- A step of the scheduler's machine as far as the focus is concerned. -/
structure SchedEffect (j j' : JoinState) : Prop where
  kernel : j'.kernel.Inv
  count : j.sched.count ≤ j'.sched.count
  id : ∀ p < j.sched.count, (j'.sched.task p).id = (j.sched.task p).id
  focus : focusOf j' = focusOf j ∨ focusOf j' = 0
  control : ∀ p, j.sched.current ≠ some p → j'.control p = j.control p
  killing : ∀ c, j.sched.current = some c → ∀ id t, killing (j'.control c) = some (id, t) →
    killing (j.control c) = some (id, t) ∨ j.sched.findTaskById id = some t
  /-- A task ends only at the store of `Terminated` in `killTask`. -/
  alive : ∀ p < j.sched.count, (j.sched.task p).state ≠ .terminated →
    (j'.sched.task p).state ≠ .terminated ∨
      ∃ c f, j.sched.current = some c ∧ j.control c = .killState f ∧ f.target = p ∧
        j'.sched.current = some c ∧ j'.control c = .killParent f ∧ focusOf j' = focusOf j
  /-- Once it has ended the focused task, `killTask` resets the focus. -/
  unfocuses : ∀ c, j.sched.current = some c → unfocuses (j.control c) = some (focusOf j) →
    focusOf j' = 0 ∨ j'.sched.current = some c ∧
      unfocuses (j'.control c) = some (focusOf j) ∧ focusOf j' = focusOf j

/-- A statement goes on with the target it has or finds one, and stays on the way to the
reset of the focus. -/
theorem exec_points (h : j.exec c regs = some j') :
    (∀ id t, killing (j'.control c) = some (id, t) →
      killing (j.control c) = some (id, t) ∨ j.sched.findTaskById id = some t) ∧
    (unfocuses (j.control c) = some (focusOf j) →
      unfocuses (j'.control c) = some (focusOf j) ∨ focusOf j' = 0) := by
  unfold JoinState.exec at h
  cases hpc : j.control c with rw [hpc] at h
  | outside => cases h
  | halted => cases h
  | waitNull id target =>
    cases target <;> obtain rfl := Option.some.inj h <;> simp [JoinState.goto]
  | waitTest id t =>
    cases h
    split_ifs <;> simp [JoinState.goto]
  | yield wait =>
    cases h
    cases wait <;> simp [JoinState.goto, ControlPoint.afterYield]
  | killFind id exitCode =>
    cases h
    cases hfind : j.sched.findTaskById id with
    | none => simp [JoinState.goto]
    | some t =>
      refine ⟨fun id' t' heq => .inr ?_, by simp⟩
      simp only [JoinState.goto, Function.update_self, Shell.killing, Option.some.injEq,
        Prod.mk.injEq] at heq
      rw [← heq.1, ← heq.2, hfind]
  | killTest id exitCode target =>
    cases target <;> cases h
    · simp [JoinState.goto]
    · split_ifs <;> simp [JoinState.goto]
  | killParent f =>
    cases h
    split <;>
      exact ⟨by simp [JoinState.goto], fun hid => .inl (by simpa [JoinState.goto] using hid)⟩
  | wakeTest f parent =>
    cases h
    split_ifs <;>
      exact ⟨by simp [JoinState.goto], fun hid => .inl (by simpa [JoinState.goto] using hid)⟩
  | killFocus f =>
    cases h
    split_ifs with hfocus
    · exact ⟨by simp [JoinState.goto], fun hid => .inl (by simpa [JoinState.goto] using hid)⟩
    · refine ⟨by simp [JoinState.goto], fun hid => absurd ?_ hfocus⟩
      simpa using hid.symm
  | killUnfocus f =>
    cases h
    exact ⟨by simp [JoinState.goto], fun _ => .inr rfl⟩
  | killEnd f =>
    cases h
    split_ifs <;> simp [JoinState.goto]
  | wakeSet | killClear | killQueue | killQueueAgain =>
    cases h
    exact ⟨by simp [JoinState.goto], fun hid => .inl (by simpa [JoinState.goto] using hid)⟩
  | _ =>
    cases h
    exact ⟨by simp [JoinState.goto], fun hid => by simp at hid⟩

/-- A step that moves nobody inside the scheduler's functions and leaves the keyboard alone. -/
theorem SchedEffect.of_sched (kernel : j'.kernel.Inv)
    (hkeyboard : j'.kernel.keyboard = j.kernel.keyboard) (hcontrol : j'.control = j.control)
    (count : j.sched.count ≤ j'.sched.count)
    (id : ∀ p < j.sched.count, (j'.sched.task p).id = (j.sched.task p).id)
    (alive : ∀ p < j.sched.count, (j.sched.task p).state ≠ .terminated →
      (j'.sched.task p).state ≠ .terminated)
    (hcurrent : ∀ c, j.sched.current = some c → Shell.unfocuses (j.control c) = some (focusOf j) →
      focusOf j = 0 ∨ j'.sched.current = some c) : SchedEffect j j' := by
  have hfocus : focusOf j' = focusOf j := congrArg Keyboard.getFocus hkeyboard
  refine ⟨kernel, count, id, .inl hfocus, fun p _ => by rw [hcontrol], fun c _ id t h => ?_,
    fun p hp h => .inl (alive p hp h), fun c hc h => ?_⟩
  · exact .inl (hcontrol ▸ h)
  · rcases hcurrent c hc h with hzero | hsame
    · exact .inl (hfocus.trans hzero)
    · exact .inr ⟨hsame, hcontrol ▸ h, hfocus⟩

theorem SchedEffect.exec (core : Core j) (hc : j.sched.current = some c)
    (h : j.exec c regs = some j') : SchedEffect j j' := by
  obtain ⟨hkilling, hunfocuses⟩ := exec_points h
  -- what every statement but `yield` has in common
  have same : j'.kernel.Inv → j'.sched.count = j.sched.count → j'.sched.current = j.sched.current →
      (∀ p, (j'.sched.task p).id = (j.sched.task p).id) →
      (focusOf j' = focusOf j ∨ focusOf j' = 0) → (∀ p, p ≠ c → j'.control p = j.control p) →
      (∀ p, (j.sched.task p).state ≠ .terminated → (j'.sched.task p).state ≠ .terminated ∨
        ∃ f, j.control c = .killState f ∧ f.target = p ∧ j'.control c = .killParent f ∧
          focusOf j' = focusOf j) → SchedEffect j j' := by
    intro kernel hcount hcurrent hid hfocus hcontrol halive
    refine ⟨kernel, hcount.ge, fun p _ => hid p, hfocus,
      fun p hp => hcontrol p fun heq => hp (heq ▸ hc), fun q hq => ?_, fun p _ hp => ?_, fun q hq hun => ?_⟩
    · obtain rfl := Option.some.inj (hc.symm.trans hq)
      exact hkilling
    · refine (halive p hp).imp_right fun ⟨f, hstate, htarget, hparent, hf⟩ => ?_
      exact ⟨c, f, hc, hstate, htarget, hcurrent.trans hc, hparent, hf⟩
    · obtain rfl := Option.some.inj (hc.symm.trans hq)
      rcases hunfocuses hun with hstay | hzero
      · rcases hfocus with hf | hzero
        · exact .inr ⟨hcurrent.trans hc, hstay, hf⟩
        · exact .inl hzero
      · exact .inl hzero
  rcases exec_cases h with ⟨loc, -, -, -⟩ | ⟨wait, hpc, rfl⟩ | ⟨wait, hpc, rfl⟩ |
    ⟨f, ended, hpc, rfl⟩ | ⟨f, q, hpc, rfl⟩ | ⟨f, hpc, rfl⟩
  · refine same (loc.inv core.kernel) loc.count loc.current loc.id ?_ loc.control fun p hp => .inl ?_
    · exact .inl (congrArg Keyboard.getFocus loc.keyboard)
    · rwa [loc.state]
  · -- `blockCurrent` marks the caller
    refine same (inv_setState core.kernel hc) rfl rfl
      (sameLinks_setState j.sched c .blocked).id (.inl rfl)
      (fun p hp => by simp [JoinState.goto, JoinState.withSched, hp]) fun p hp => .inl ?_
    change ((j.sched.setState c .blocked).task p).state ≠ _
    rw [setState_state]
    split_ifs <;> simp [hp]
  · -- its `yield` is a tick, and not in `killTask`
    have links := tick_sameLinks core.kernel.ring regs
    have kernel : (j.withSched (j.sched.tick regs)).kernel.Inv :=
      core.kernel.next (a := .tick regs) rfl
    refine ⟨kernel, links.count.ge, fun p _ => links.id p, .inl rfl, fun p hp => ?_, fun q hq => ?_,
      fun p _ hp => .inl (tick_alive core.kernel.ring regs hp), fun q hq hun => ?_⟩
    · have hne : p ≠ c := fun heq => hp (heq ▸ hc)
      simp [JoinState.goto, JoinState.withSched, hne]
    · obtain rfl := Option.some.inj (hc.symm.trans hq)
      exact hkilling
    · obtain rfl := Option.some.inj (hc.symm.trans hq)
      simp [hpc] at hun
  · -- `killTask` ends its target
    refine same (inv_setState core.kernel hc) rfl rfl
      (sameLinks_setState j.sched f.target .terminated).id (.inl rfl)
      (fun p hp => by simp [JoinState.goto, JoinState.withSched, hp]) fun p hp => ?_
    by_cases htarget : f.target = p
    · exact .inr ⟨f, hpc, htarget, by simp [JoinState.goto], rfl⟩
    · refine .inl ?_
      change ((j.sched.setState f.target .terminated).task p).state ≠ _
      rwa [setState_state, if_neg (Ne.symm htarget)]
  · -- `killTask` wakes the waiter
    refine same (inv_setState core.kernel hc) rfl rfl
      (sameLinks_setState j.sched q .ready).id (.inl rfl)
      (fun p hp => by simp [JoinState.goto, JoinState.withSched, hp]) fun p hp => .inl ?_
    change ((j.sched.setState q .ready).task p).state ≠ _
    rw [setState_state]
    split_ifs <;> simp [hp]
  · -- `killTask` resets the focus
    exact same ⟨core.kernel.ring, core.kernel.unstarted⟩ rfl rfl (fun _ => rfl) (.inr rfl)
      (fun p hp => by simp [JoinState.goto, hp]) fun p hp => .inl hp

/-- A task outside the functions calls one of them. -/
theorem SchedEffect.goto {pc : ControlPoint} (core : Core j) (hc : j.sched.current = some c)
    (hout : j.control c = .outside) (hkilling : Shell.killing pc = none) :
    SchedEffect j (j.goto c pc) := by
  refine ⟨core.kernel, le_rfl, fun _ _ => rfl, .inl rfl, fun p hp => ?_, fun q hq id t h => ?_,
    fun p _ hp => .inl hp, fun q hq hun => ?_⟩
  · have hne : p ≠ c := fun heq => hp (heq ▸ hc)
    simp [JoinState.goto, hne]
  · obtain rfl := Option.some.inj (hc.symm.trans hq)
    simp only [JoinState.goto, Function.update_self] at h
    rw [hkilling] at h
    cases h
  · obtain rfl := Option.some.inj (hc.symm.trans hq)
    simp [hout] at hun

theorem SchedEffect.createTask (core : Core j) (mem : TaskMemory) (stackSize : Nat) :
    SchedEffect j (j.withSched (j.sched.createTask mem stackSize).1) := by
  have hinv := core.kernel.createTask mem stackSize
  rcases createTask_cases j.sched mem stackSize with hsame | created
  · refine .of_sched hinv rfl rfl ?_ ?_ ?_ fun c hc _ => .inr ?_
    all_goals simp only [JoinState.sched, hsame]
    · exact le_rfl
    · exact fun _ _ => rfl
    · exact fun _ _ h => h
    · exact hc
  · refine .of_sched hinv rfl rfl (created.count ▸ Nat.le_succ _)
      (fun p => created.field_of_lt Task.id fun _ _ => rfl) (fun p hp h => ?_) fun c hc _ => .inr ?_
    · exact (created.field_of_lt Task.state (fun _ _ => rfl) hp).trans_ne h
    · exact created.current.trans hc

theorem SchedEffect.next {a : JoinAction} (core : Core j)
    (guard : ∀ regs, a = .tick regs → ∀ c, j.sched.current = some c →
      focusOf j = 0 ∨ Shell.unfocuses (j.control c) ≠ some (focusOf j))
    (h : j.next a = some j') : SchedEffect j j' := by
  have hcall : ∀ {pc : Nat → ControlPoint}, (∀ c, Shell.killing (pc c) = none) →
      j.call pc = some j' → SchedEffect j j' := by
    intro pc hpc h
    obtain ⟨c, hc, h⟩ := Option.bind_eq_some_iff.mp h
    split_ifs at h with hout
    cases h
    exact .goto core hc hout (hpc c)
  have hpassive : ∀ {b : Action}, Kernel.passive b = true →
      (∀ regs, b = .tick regs → ∀ c, j.sched.current = some c →
        Shell.unfocuses (j.control c) = some (focusOf j) → focusOf j = 0) →
      j.kernel.next b = some j'.kernel → j'.control = j.control → SchedEffect j j' := by
    intro b hpassive hguard hk hcontrol
    obtain ⟨hkeyboard, hcurrent, hstate⟩ := Kernel.next_passive core.kernel hk hpassive
    refine .of_sched (core.kernel.next hk) hkeyboard hcontrol (Kernel.next_count core.kernel hk)
      (fun p => Kernel.next_id core.kernel hk) (fun p hp => (hstate p hp).1) fun c hc hun => ?_
    rcases hcurrent c hc with hsame | ⟨regs, rfl⟩
    · exact .inr hsame
    · exact .inl (hguard regs rfl c hc hun)
  cases a with
  | createTask mem stackSize =>
    obtain ⟨k, hk, rfl⟩ := Option.map_eq_some_iff.mp h
    exact hpassive rfl (by simp) hk rfl
  | start =>
    obtain ⟨k, hk, rfl⟩ := Option.map_eq_some_iff.mp h
    exact hpassive rfl (by simp) hk rfl
  | tick regs =>
    cases h
    refine hpassive (b := .tick regs) rfl (fun _ _ c hc hun => ?_) rfl rfl
    exact (guard regs rfl c hc).resolve_right fun hne => hne hun
  | wake p =>
    simp only [JoinState.next] at h
    split_ifs at h with hp
    cases h
    exact hpassive (b := .wake p) rfl (by simp) (by simp [Kernel.next, hp]; rfl) rfl
  | waitForTask id => exact hcall (fun _ => rfl) h
  | killTask id exitCode => exact hcall (fun _ => rfl) h
  | exitTask exitCode => exact hcall (fun _ => rfl) h
  | blockCurrent => exact hcall (fun _ => rfl) h
  | exec regs =>
    obtain ⟨c, hc, h⟩ := Option.bind_eq_some_iff.mp h
    exact .exec core hc h

namespace SchedEffect

variable (step : SchedEffect j j')
include step

/-- New tasks are younger, so an id keeps finding the same task. -/
theorem findTaskById {id t : Nat} (core : Core j) (h : j.sched.findTaskById id = some t) :
    j'.sched.findTaskById id = some t := by
  obtain ⟨ht, hid, hmin⟩ := (findTaskById_eq_some_iff core.kernel.ring).mp h
  refine (findTaskById_eq_some_iff step.kernel.ring).mpr
    ⟨ht.trans_le step.count, ?_, fun q hq => ?_⟩
  · rw [step.id t ht, hid]
  · rw [step.id q (hq.trans ht)]
    exact hmin q hq

theorem core (core : Core j) : Core j' := by
  refine ⟨step.kernel, fun p id t h => step.findTaskById core ?_⟩
  by_cases hp : j.sched.current = some p
  · exact (step.killing p hp id t h).elim (core.targets p id t) fun h => h
  · exact core.targets p id t (step.control p hp ▸ h)

/-- A task that is alive stays so, or is ended by a `killTask` for its id. -/
theorem alive_or {p : Nat} (core : Core j) (hp : p < j.sched.count)
    (h : (j.sched.task p).state ≠ .terminated) :
    (j'.sched.task p).state ≠ .terminated ∨
      j.sched.findTaskById (j.sched.task p).id = some p ∧ ∃ c, j'.sched.current = some c ∧
        Shell.unfocuses (j'.control c) = some (j.sched.task p).id := by
  refine (step.alive p hp h).imp_right fun ⟨c, f, hc, hpc, htarget, hc', hpc', _⟩ => ?_
  have hfound := core.targets c f.id f.target (by simp [hpc])
  have hid := (findTaskById_some core.kernel.ring hfound).2
  rw [htarget] at hfound hid
  rw [hid]
  exact ⟨hfound, c, hc', by simp [hpc']⟩

end SchedEffect

end SchedEffect

/-! ## The invariant -/

/-- The points of the child and of other tasks. -/
@[simp] def ofChild : ProgramPoint → Bool
  | .load => true
  | .unfocus => true
  | .exit => true
  | .gone => true
  | .user => true
  | _ => false

namespace ShellState

variable {s s' : ShellState} {c id : Nat} {pt : ProgramPoint}

/-- A task with the id that is alive and that no search for the id finds. -/
def Spare (s : ShellState) (id : Nat) : Prop :=
  ∃ p < s.sched.count, (s.sched.task p).id = id ∧ s.sched.findTaskById id ≠ some p ∧
    (s.sched.task p).state ≠ .terminated

/-- The id for which the shell waits once it has set the focus. -/
@[simp] def childId (s : ShellState) : ProgramPoint → Option Nat
  | .loadId (some task) => some (s.sched.task task).id
  | .wait id => some id
  | .waiting id => some id
  | .aliveStart id => some id
  | .aliveTest id _ _ => some id
  | .aliveNext id _ _ => some id
  | .yield id => some id
  | _ => none

/-- What is known at a point of the shell: its pointers are tasks, and `taskAlive` has passed
over tasks with other ids. -/
def PointOk (s : ShellState) : ProgramPoint → Prop
  | .focusTest (some task) => task < s.sched.count
  | .focusSet task => task < s.sched.count
  | .loadId (some task) => task < s.sched.count
  | .aliveTest id start t =>
    start = 0 ∧ t < s.sched.count ∧ ∀ q < t, (s.sched.task q).id ≠ id
  | .aliveNext id start t =>
    start = 0 ∧ t < s.sched.count ∧ ∀ q ≤ t, (s.sched.task q).id ≠ id
  | _ => True

structure Inv (s : ShellState) : Prop where
  core : Core s.join
  point : s.PointOk (s.point 0)
  others : ∀ p, p ≠ 0 → ofChild (s.point p) = true
  /-- The focused task is alive, or its focus is about to be reset. -/
  focused : s.focus ≠ 0 → s.Alive s.focus ∨
    ∃ c, s.sched.current = some c ∧ unfocuses (s.join.control c) = some s.focus
  /-- Only the task the shell waits for has the focus. -/
  waited : s.focus = 0 ∨ s.Spare s.focus ∨ s.childId (s.point 0) = some s.focus

theorem PointOk.mono (h : s.PointOk pt) (hcount : s.sched.count ≤ s'.sched.count)
    (hid : ∀ p < s.sched.count, (s'.sched.task p).id = (s.sched.task p).id) : s'.PointOk pt := by
  cases pt with
  | focusTest task =>
    cases task with
    | none => trivial
    | some task => exact h.trans_le hcount
  | focusSet task => exact h.trans_le hcount
  | loadId task =>
    cases task with
    | none => trivial
    | some task => exact h.trans_le hcount
  | aliveTest id start t =>
    refine ⟨h.1, h.2.1.trans_le hcount, fun q hq => ?_⟩
    rw [hid q (hq.trans h.2.1)]
    exact h.2.2 q hq
  | aliveNext id start t =>
    refine ⟨h.1, h.2.1.trans_le hcount, fun q hq => ?_⟩
    rw [hid q (hq.trans_lt h.2.1)]
    exact h.2.2 q hq
  | _ => trivial

theorem childId_congr (h : s.PointOk pt)
    (hid : ∀ p < s.sched.count, (s'.sched.task p).id = (s.sched.task p).id) :
    s'.childId pt = s.childId pt := by
  cases pt with
  | loadId task =>
    cases task with
    | none => rfl
    | some task => exact congrArg some (hid task h)
  | _ => rfl

theorem Spare.step (h : s.Spare id) (core : Core s.join) (step : SchedEffect s.join s'.join) :
    s'.Spare id := by
  obtain ⟨p, hp, hid, hother, halive⟩ := h
  refine ⟨p, hp.trans_le step.count, (step.id p hp).trans hid, fun hfound => ?_, ?_⟩
  · -- some older task has the id, and is still the one that is found
    cases hold : s.sched.findTaskById id with
    | none => exact findTaskById_none core.kernel.ring hold p hp hid
    | some t =>
      have ht := step.findTaskById core hold
      rw [show s'.join.sched.findTaskById id = some p from hfound] at ht
      exact hother (hold.trans (congrArg some (Option.some.inj ht).symm))
  · refine (step.alive_or core hp halive).resolve_right fun hended => ?_
    have hfound := hended.1
    rw [show (s.join.sched.task p).id = id from hid] at hfound
    exact hother hfound

section

variable (inv : s.Inv)
include inv

/-- Steps of the scheduler's machine keep the invariant. -/
theorem Inv.step (step : SchedEffect s.join s'.join) (hpoint : s'.point = s.point) :
    s'.Inv := by
  refine ⟨step.core inv.core, ?_, fun p hp => ?_, fun hne => ?_, ?_⟩
  · rw [hpoint]
    exact inv.point.mono step.count step.id
  · rw [hpoint]
    exact inv.others p hp
  · have hfocus : s'.focus = s.focus := step.focus.resolve_right hne
    rcases inv.focused (hfocus ▸ hne) with ⟨p, hp, hid, halive⟩ | ⟨c, hc, hun⟩
    · rw [hfocus]
      rcases step.alive_or inv.core hp halive with halive' | ⟨-, c, hc, hun⟩
      · exact .inl ⟨p, hp.trans_le step.count, (step.id p hp).trans hid, halive'⟩
      · exact .inr ⟨c, hc, hun.trans (congrArg some hid)⟩
    · obtain ⟨hc', hun', -⟩ := (step.unfocuses c hc hun).resolve_left hne
      exact .inr ⟨c, hc', by rw [hfocus]; exact hun'⟩
  · rcases step.focus with hfocus | hzero
    · rw [show s'.focus = s.focus from hfocus, hpoint, childId_congr inv.point step.id]
      exact inv.waited.imp_right fun h => h.imp_left fun h => h.step inv.core step
    · exact .inl hzero

/-- Steps that only move the current task in its own code. -/
theorem Inv.goto (hpoint : c = 0 → s.PointOk pt) (hother : c ≠ 0 → ofChild pt = true)
    (hwaited : c = 0 → s.focus = 0 ∨ s.Spare s.focus ∨ s.childId pt = some s.focus) :
    (s.goto c pt).Inv := by
  refine ⟨inv.core, ?_, fun p hp => ?_, inv.focused, ?_⟩
  · change s.PointOk (update s.point c pt 0)
    by_cases hc : c = 0
    · rw [hc, update_self]
      exact hpoint hc
    · rw [update_of_ne (Ne.symm hc)]
      exact inv.point
  · change ofChild (update s.point c pt p) = true
    by_cases hpc : p = c
    · rw [hpc, update_self]
      exact hother (hpc ▸ hp)
    · rw [update_of_ne hpc]
      exact inv.others p hp
  · change s.focus = 0 ∨ s.Spare s.focus ∨ s.childId (update s.point c pt 0) = some s.focus
    by_cases hc : c = 0
    · rw [hc, update_self]
      exact hwaited hc
    · rw [update_of_ne (Ne.symm hc)]
      exact inv.waited

/-- The shell goes on waiting for the same task. -/
theorem Inv.goto_keep {old : ProgramPoint} (hpoint : s.PointOk pt)
    (hother : c ≠ 0 → ofChild pt = true) (hold : s.point c = old)
    (hkeep : s.childId old = s.childId pt) : (s.goto c pt).Inv := by
  refine inv.goto (fun _ => hpoint) hother fun hc => ?_
  rw [← hkeep, ← hold, hc]
  exact inv.waited

/-- The shell gives the focus to a task that is alive, and waits for it. -/
theorem Inv.setFocus {task : Nat} (htask : task < s.sched.count)
    (halive : (s.sched.task task).state ≠ .terminated) :
    ((s.setFocus (s.sched.task task).id).goto 0 (.loadId (some task))).Inv where
  core := ⟨⟨inv.core.kernel.ring, inv.core.kernel.unstarted⟩, inv.core.targets⟩
  point := by
    exact htask
  others p hp := by
    change ofChild (update s.point 0 _ p) = true
    rw [update_of_ne hp]
    exact inv.others p hp
  focused _ := .inl ⟨task, htask, rfl, halive⟩
  waited := by
    refine .inr (.inr ?_)
    rfl

theorem Inv.setFocus_zero : (s.setFocus 0).Inv where
  core := ⟨⟨inv.core.kernel.ring, inv.core.kernel.unstarted⟩, inv.core.targets⟩
  point := by
    have h : s.PointOk (s.point 0) := inv.point
    exact h.mono le_rfl fun _ _ => rfl
  others := inv.others
  focused h := absurd rfl h
  waited := .inl rfl

/-- When the oldest task with an id has ended or there is none, an alive one is a spare. -/
theorem Inv.waited_prompt (hc : s.sched.current = some 0) (hout : s.join.control 0 = .outside)
    (hid : s.childId (s.point 0) = some id)
    (hended : ∀ p, s.sched.findTaskById id = some p → (s.sched.task p).state = .terminated) :
    s.focus = 0 ∨ s.Spare s.focus ∨ s.childId .prompt = some s.focus := by
  rcases inv.waited with hzero | hspare | hwaits
  · exact .inl hzero
  · exact .inr (.inl hspare)
  · obtain rfl : id = s.focus := Option.some.inj (hid.symm.trans hwaits)
    by_cases hzero : s.focus = 0
    · exact .inl hzero
    refine .inr (.inl ?_)
    -- the shell itself is running, so nobody is about to reset the focus
    rcases inv.focused hzero with ⟨p, hp, hpid, halive⟩ | ⟨c, hc', hun⟩
    · exact ⟨p, hp, hpid, fun hfound => halive (hended p hfound), halive⟩
    · obtain rfl := Option.some.inj (hc.symm.trans hc')
      simp [hout] at hun

theorem Inv.exec {input : Input} (hc : s.sched.current = some c)
    (hout : s.join.control c = .outside) (guard : s.MayExec (s.point c))
    (h : s.exec c input = some s') :
    s'.Inv := by
  have hlt := inv.core.kernel.ring.current_lt c hc
  -- only the shell is inside `cmdExecuteElf`
  have hshell : ofChild (s.point c) = false → c = 0 := fun hpoint => by
    by_contra hne
    rw [inv.others c hne] at hpoint
    cases hpoint
  have point := inv.point
  unfold ShellState.exec at h
  cases hpc : s.point c with rw [hpc] at h hshell guard
  | prompt => cases h
  | gone => cases h
  | user => cases h
  | create =>
    obtain rfl := hshell rfl
    have step := SchedEffect.createTask inv.core input.mem defaultStackSize
    rcases createTask_result s.sched input.mem defaultStackSize with hfail | ⟨hsome, created⟩
    · rw [hfail] at h
      cases h
      exact inv.goto_keep trivial (by simp) hpc rfl
    · have hpair : s.sched.createTask input.mem defaultStackSize =
          ((s.sched.createTask input.mem defaultStackSize).1, some s.sched.count) :=
        Prod.ext rfl hsome
      rw [hpair] at h
      cases h
      have hchild : s.sched.count ≠ 0 := Nat.ne_of_gt hlt
      have inv' : (s.withSched (s.sched.createTask input.mem defaultStackSize).1).Inv :=
        inv.step step rfl
      have inv'' : ((s.withSched (s.sched.createTask input.mem defaultStackSize).1).goto
          s.sched.count .load).Inv :=
        inv'.goto (fun _ => trivial) (by simp) fun h0 => absurd h0 hchild
      have hpoint : update s.point s.sched.count .load 0 = .create :=
        (update_of_ne (Ne.symm hchild) _ _).trans hpc
      refine inv''.goto_keep ?_ (by simp) hpoint rfl
      change s.sched.count < (s.sched.createTask input.mem defaultStackSize).1.count
      rw [created.count]
      omega
  | focusTest task =>
    obtain rfl := hshell rfl
    rw [hpc] at point
    cases task with
    | none =>
      cases h
      exact inv.goto_keep trivial (by simp) hpc rfl
    | some task =>
      cases h
      exact inv.goto_keep point (by simp) hpc rfl
  | focusSet task =>
    obtain rfl := hshell rfl
    rw [hpc] at point
    cases h
    exact inv.setFocus point guard
  | loadId task =>
    obtain rfl := hshell rfl
    cases task with
    | none =>
      cases h
      refine inv.goto (fun _ => trivial) (by simp) fun _ => ?_
      have waited := inv.waited
      simp only [hpc, childId, reduceCtorEq, or_false] at waited
      exact waited.imp_right .inl
    | some task =>
      cases h
      exact inv.goto_keep trivial (by simp) hpc rfl
  | wait id =>
    obtain rfl := hshell rfl
    cases h
    have inv' : (s.enter 0 (.waitFind id)).Inv := inv.step (.goto inv.core hc hout rfl) rfl
    exact inv'.goto_keep trivial (by simp) hpc rfl
  | waiting id =>
    obtain rfl := hshell rfl
    cases h
    exact inv.goto_keep trivial (by simp) hpc rfl
  | aliveStart id =>
    obtain rfl := hshell rfl
    cases h
    exact inv.goto_keep ⟨rfl, hlt, by simp⟩ (by simp) hpc rfl
  | aliveTest id start t =>
    obtain rfl := hshell rfl
    cases h
    rw [hpc] at point
    obtain ⟨rfl, ht, hmin⟩ := point
    split_ifs with hid halive
    · exact inv.goto_keep trivial (by simp) hpc rfl
    · -- the oldest task with the id has ended
      have hfound := (findTaskById_eq_some_iff inv.core.kernel.ring).mpr ⟨ht, hid, hmin⟩
      refine inv.goto (fun _ => trivial) (by simp) fun _ =>
        inv.waited_prompt hc hout (congrArg (childId _) hpc) fun p hp => ?_
      obtain rfl := Option.some.inj (hfound.symm.trans hp)
      simpa using halive
    · refine inv.goto_keep ⟨rfl, ht, fun q hq => ?_⟩ (by simp) hpc rfl
      rcases Nat.lt_or_eq_of_le hq with hlt | rfl
      · exact hmin q hlt
      · exact hid
  | aliveNext id start t =>
    obtain rfl := hshell rfl
    cases h
    rw [hpc] at point
    obtain ⟨rfl, ht, hmin⟩ := point
    rw [inv.core.kernel.ring.next_eq t ht]
    by_cases hlast : t + 1 = s.sched.count
    · -- no task has the id
      rw [hlast, Nat.mod_self, if_neg (by simp)]
      refine inv.goto (fun _ => trivial) (by simp) fun _ =>
        inv.waited_prompt hc hout (congrArg (childId _) hpc) fun p hp => ?_
      obtain ⟨hp', hid⟩ := findTaskById_some inv.core.kernel.ring hp
      have hcount : p < t + 1 := hlast ▸ hp'
      exact absurd hid (hmin p (by omega))
    · have hmore : t + 1 < s.sched.count := by omega
      rw [Nat.mod_eq_of_lt hmore, if_pos (by omega)]
      exact inv.goto_keep ⟨rfl, hmore, fun q hq => hmin q (by omega)⟩ (by simp) hpc rfl
  | yield id =>
    obtain rfl := hshell rfl
    cases h
    have step : SchedEffect s.join (s.join.withSched (s.sched.tick input.regs)) := by
      refine .next (a := .tick input.regs) inv.core (fun _ _ q hq => .inr ?_) rfl
      obtain rfl := Option.some.inj (hc.symm.trans hq)
      simp [hout]
    have inv' : (s.withSched (s.sched.tick input.regs)).Inv := inv.step step rfl
    exact inv'.goto_keep trivial (by simp) hpc rfl
  | load =>
    cases h
    split_ifs <;> exact inv.goto_keep trivial (by simp) hpc rfl
  | unfocus =>
    cases h
    exact inv.setFocus_zero.goto (fun _ => trivial) (by simp) fun _ => .inl rfl
  | exit =>
    cases h
    have inv' : (s.enter c (.killFind (s.sched.task c).id 0)).Inv :=
      inv.step (.goto inv.core hc hout rfl) rfl
    exact inv'.goto_keep trivial (by simp) hpc rfl

theorem Inv.next {a : ShellAction} (guard : s.Undisturbed a) (h : s.next a = some s') : s'.Inv := by
  cases a with
  | sched a =>
    simp only [ShellState.next] at h
    split_ifs at h
    obtain ⟨join, hjoin, rfl⟩ := Option.map_eq_some_iff.mp h
    refine inv.step (.next inv.core (fun regs ha => ?_) hjoin) rfl
    subst ha
    exact guard
  | cmdExecuteElf =>
    simp only [ShellState.next] at h
    split_ifs at h with hprompt
    cases h
    exact inv.goto_keep trivial (by simp) hprompt.2.2 rfl
  | exec input =>
    obtain ⟨c, hc, h⟩ := Option.bind_eq_some_iff.mp h
    split_ifs at h with hout
    exact inv.exec hc hout (guard c hc) h

end

theorem inv_of_reachable (h : (shellSystem.restrict Undisturbed).Reachable s) : s.Inv := by
  refine h.invariant Inv (fun s hinit => ?_) fun s a s' inv hstep => ?_
  swap
  · exact inv.next hstep.1 hstep.2
  obtain ⟨⟨⟨sched, hzero, hsched⟩, hcontrol, -, -⟩, hfocus, hpoint⟩ := hinit
  have hsched' : s.join.kernel.sched = sched.init := hsched
  refine ⟨⟨⟨hsched' ▸ .init hzero, fun _ => ?_⟩, fun p id t h => ?_⟩, ?_, fun p hp => ?_,
    fun h => absurd hfocus h, .inl hfocus⟩
  · rw [hsched']
    exact ⟨rfl, fun p hp => absurd (show p < sched.count from hp) (by omega)⟩
  · rw [hcontrol] at h
    cases h
  · rw [hpoint]
    trivial
  · rw [hpoint]
    simp [hp]

end ShellState

/-- If the shell gives the focus only to a task that has not ended yet, and no tick separates
the end of the focused task from the reset of the focus, then whenever the shell is back at
its prompt the focus is on nobody or on a living task. -/
theorem focusLives_of_undisturbed {s : ShellState}
    (h : (shellSystem.restrict ShellState.Undisturbed).Reachable s) : s.FocusLives := by
  intro hprompt
  rcases (inv_of_reachable h).waited with hzero | ⟨p, hp, hid, -, halive⟩ | hwaits
  · exact .inl hzero
  · exact .inr ⟨p, hp, hid, halive⟩
  · rw [hprompt.1] at hwaits
    cases hwaits

/-! ## Runs -/

/-- `kernel_main` creates the shell and the two tasks of the status bar. -/
def kernelMain : List ShellAction :=
  List.replicate 3 (.sched (.createTask plenty 16384)) ++ [.sched .start]

def statement : ShellAction := .exec ⟨plenty, true, 0, 0⟩

/-- A statement inside the scheduler's functions. -/
def inside : ShellAction := .sched (.exec 0)

def timer : ShellAction := .sched (.tick 0)

/-- The command up to the creation of the child, which gets the id 4. -/
def createChild : List ShellAction := [.cmdExecuteElf, statement]

/-- The shell gives the focus to the child and goes to sleep in `waitForTask`. -/
def waitForChild : List ShellAction :=
  List.replicate 4 statement ++ List.replicate 6 inside

/-- From the return of `waitForTask` to the end of `taskAlive`, which passes over the shell
and the two other tasks. -/
def leaveCommand : List ShellAction := List.replicate 9 statement

/-- The child runs a program, which exits. -/
def undisturbedRun : List ShellAction :=
  kernelMain ++ createChild ++ waitForChild ++ [timer, timer, statement, .sched (.exitTask 0)] ++
    List.replicate 13 inside ++ [timer, inside] ++ leaveCommand

/-- The child fails to load and ends before the shell gives it the focus. -/
def lateFocusRun : List ShellAction :=
  kernelMain ++ createChild ++ [timer, timer, timer, .exec ⟨plenty, false, 0, 0⟩, statement,
    statement] ++ List.replicate 10 inside ++ [timer] ++ List.replicate 4 statement ++
    List.replicate 4 inside ++ leaveCommand

/-- A tick takes the processor from the exiting child once it has woken the shell. -/
def lostResetRun : List ShellAction :=
  kernelMain ++ createChild ++ waitForChild ++ [timer, timer, statement, .sched (.exitTask 0)] ++
    List.replicate 8 inside ++ [timer, inside] ++ leaveCommand

def shellBoot : ShellState := ⟨joinBoot, fun p => if p = 0 then .prompt else .user⟩

theorem shellBoot_init : shellSystem.init shellBoot := ⟨joinBoot_init, rfl, rfl⟩

@[irreducible] def undisturbedState : ShellState :=
  (runActions (guarded ShellState.next ShellState.Undisturbed) shellBoot
      undisturbedRun).get (by decide +kernel)

theorem undisturbedState_reachable :
    (shellSystem.restrict Undisturbed).Reachable undisturbedState := by
  unfold undisturbedState
  exact reachable_get_guarded _ shellBoot_init _

/-- The child has run and ended, and the shell is back at its prompt. -/
theorem undisturbedState_focusLives :
    undisturbedState.point 0 = .prompt ∧ undisturbedState.join.control 0 = .outside ∧
      (undisturbedState.sched.task 3).state = .terminated ∧ undisturbedState.FocusLives :=
  ⟨by decide +kernel, by decide +kernel, by decide +kernel,
    focusLives_of_undisturbed undisturbedState_reachable⟩

/-- Decides whether the shell is at its prompt and the focus is on a dead task. -/
def deadFocus (s : ShellState) : Bool :=
  s.point 0 = .prompt ∧ s.join.control 0 = .outside ∧ s.focus ≠ 0 ∧
    ∀ p < s.sched.count, (s.sched.task p).id = s.focus → (s.sched.task p).state = .terminated

theorem not_focusLives_of_deadFocus {s : ShellState} (h : deadFocus s = true) : ¬ s.FocusLives := by
  obtain ⟨hpoint, hcontrol, hfocus, hdead⟩ := of_decide_eq_true h
  intro hlives
  rcases hlives ⟨hpoint, hcontrol⟩ with hzero | ⟨p, hp, hid, halive⟩
  · exact hfocus hzero
  · exact halive (hdead p hp hid)

/-- The child ends before the shell gives it the focus, or loses the processor before it has
reset the focus. -/
theorem not_focusLives :
    (∃ s, shellSystem.Reachable s ∧ s.sched.current = some 0 ∧ s.focus = 4 ∧ ¬ s.FocusLives) ∧
    (∃ s, shellSystem.Reachable s ∧ s.sched.current = some 0 ∧
      s.join.control 3 = .killClear ⟨4, 0, 3, true⟩ ∧ ¬ s.FocusLives) := by
  constructor
  · obtain ⟨s, hs, hcurrent, hfocus, hdead⟩ := exists_reachable_of_any ShellState.next
      shellBoot_init lateFocusRun
      (fun s => s.sched.current = some 0 ∧ s.focus = 4 ∧ deadFocus s = true) (by decide +kernel)
    exact ⟨s, hs, hcurrent, hfocus, not_focusLives_of_deadFocus hdead⟩
  · obtain ⟨s, hs, hcurrent, hcontrol, hdead⟩ := exists_reachable_of_any ShellState.next
      shellBoot_init lostResetRun (fun s => s.sched.current = some 0 ∧
        s.join.control 3 = .killClear ⟨4, 0, 3, true⟩ ∧ deadFocus s = true) (by decide +kernel)
    exact ⟨s, hs, hcurrent, hcontrol, not_focusLives_of_deadFocus hdead⟩

end WengShiOS.Shell
