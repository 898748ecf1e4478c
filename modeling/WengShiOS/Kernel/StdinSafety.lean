import WengShiOS.Kernel.Stdin
import WengShiOS.Scheduler.JoinSafety

/-! # Readers of the keyboard in undisturbed runs

While a task falls asleep or sleeps in `sysRead`, it has no character it may read,
it is the reader to wake once it has registered, and the callback is armed once it
has armed it. A step of the scheduler cannot add to these obligations, so it is
enough to look at the statements of `sysRead`, the interrupt and the focus. -/

namespace WengShiOS.Syscalls

open Math Drivers Scheduler Keyboard JoinState StdinState Sched

namespace StdinState

variable {s s' : StdinState} {p c : Nat}

/-- There is no character that `p` may read. -/
def Dry (s : StdinState) (p : Nat) : Prop :=
  s.keyboard.head = s.keyboard.tail ∨ ¬ s.MayRead p

structure Inv (s : StdinState) : Prop where
  kernel : s.join.kernel.Inv
  fresh : ∀ p, s.sched.count ≤ p → s.point p = .outside
  reader : ∀ r, s.pendingStdinReader = some r → r < s.sched.count
  /-- inside `sysRead` the scheduler's machine is only entered by `blockCurrent` -/
  inside : ∀ p, s.point p ≠ .outside → s.join.control p = .outside ∨
    (∃ length, s.point p = .blocking length) ∧
      (s.join.control p = .block none ∨ s.join.control p = .yield none)
  /-- a task that ended while it was the current one ended itself -/
  ended : ∀ p, (s.sched.task p).state = .terminated → s.sched.current = some p →
    s.point p = .outside
  dry : ∀ p, s.FallingAsleep p ∨ s.Asleep p → s.Dry p
  pending : ∀ p, s.Registered p → s.pendingStdinReader = some p
  armed : ∀ p length, s.Registered p → s.point p = .blocking length →
    s.keyboard.onCharCallback.isSome

theorem Inv.live (inv : s.Inv) (hc : s.sched.current = some c) (h : s.point c ≠ .outside) :
    (s.sched.task c).state ≠ .terminated :=
  fun hend => h (inv.ended c hend hc)

theorem Inv.lt_count (inv : s.Inv) (h : s.FallingAsleep p ∨ s.Asleep p) : p < s.sched.count := by
  by_contra hge
  have hout := inv.fresh p (by omega)
  rcases h with ⟨-, h⟩ | ⟨h, -⟩ <;> simp [hout] at h

/-- Only tasks that exist can be asleep or falling asleep. -/
theorem Inv.nobody (inv : s.Inv)
    (h : ∀ p < s.sched.count, ¬ s.FallingAsleep p ∧ ¬ s.Asleep p) (p : Nat) :
    ¬ s.FallingAsleep p ∧ ¬ s.Asleep p :=
  ⟨fun hp => (h p (inv.lt_count (.inl hp))).1 hp, fun hp => (h p (inv.lt_count (.inr hp))).2 hp⟩

theorem Registered.fallingAsleep_or_asleep (h : s.Registered p) :
    s.FallingAsleep p ∨ s.Asleep p := by
  obtain ⟨hlive, harm | ⟨hblocking, hblock | hblocked⟩⟩ := h
  · exact .inl ⟨hlive, .inr (.inl harm)⟩
  · exact .inl ⟨hlive, .inr (.inr ⟨hblocking, hblock⟩)⟩
  · exact .inr ⟨hblocking, hblocked⟩

theorem Asleep.registered (h : s.Asleep p) : s.Registered p :=
  ⟨by simp [h.2], .inr ⟨h.1, .inr h.2⟩⟩

/-! ### Steps of the scheduler -/

/-- A step that moves no task inside `sysRead`, except through `blockCurrent`, and
brings none back from the dead. -/
structure SchedStep (s s' : StdinState) : Prop where
  kernel : s'.join.kernel.Inv
  count : s.sched.count ≤ s'.sched.count
  point : s'.point = s.point
  pending : s'.pendingStdinReader = s.pendingStdinReader
  head : s'.keyboard.head = s.keyboard.head
  tail : s'.keyboard.tail = s.keyboard.tail
  callback : s'.keyboard.onCharCallback = s.keyboard.onCharCallback
  focus : s'.keyboard.focusedTaskId = s.keyboard.focusedTaskId ∨ s.MayRefocus
  id : ∀ p < s.sched.count, (s'.sched.task p).id = (s.sched.task p).id
  live : ∀ p, s.point p ≠ .outside → (s'.sched.task p).state ≠ .terminated →
    (s.sched.task p).state ≠ .terminated
  blocked : ∀ p, s.point p ≠ .outside → (s'.sched.task p).state = .blocked →
    (s.sched.task p).state = .blocked ∨ s.join.control p = .block none
  control : ∀ p, s.point p ≠ .outside → s'.join.control p = .block none →
    s.join.control p = .block none
  inside : ∀ p, s.point p ≠ .outside → s'.join.control p = .outside ∨
    (∃ length, s.point p = .blocking length) ∧
      (s'.join.control p = .block none ∨ s'.join.control p = .yield none)
  ended : ∀ p, (s'.sched.task p).state = .terminated → s'.sched.current = some p →
    s.point p = .outside

namespace SchedStep

variable (step : SchedStep s s')
include step

theorem fallingAsleep (h : s'.FallingAsleep p) : s.FallingAsleep p := by
  obtain ⟨hlive, hpoint⟩ := h
  rw [step.point] at hpoint
  have hout : s.point p ≠ .outside := fun hout => by simp [hout] at hpoint
  refine ⟨step.live p hout hlive, hpoint.imp_right (.imp_right fun h => ⟨h.1, ?_⟩)⟩
  exact step.control p hout h.2

theorem asleep (h : s'.Asleep p) : s.FallingAsleep p ∨ s.Asleep p := by
  obtain ⟨hpoint, hblocked⟩ := h
  rw [step.point] at hpoint
  obtain ⟨length, hlength⟩ := hpoint
  have hout : s.point p ≠ .outside := by simp [hlength]
  rcases step.blocked p hout hblocked with h | h
  · exact .inr ⟨⟨length, hlength⟩, h⟩
  · exact .inl ⟨step.live p hout (by simp [hblocked]), .inr (.inr ⟨⟨length, hlength⟩, h⟩)⟩

theorem registered (h : s'.Registered p) : s.Registered p := by
  obtain ⟨hlive, hpoint⟩ := h
  rw [step.point] at hpoint
  have hout : s.point p ≠ .outside := fun hout => by simp [hout] at hpoint
  refine ⟨step.live p hout hlive, hpoint.imp_right fun h => ⟨h.1, ?_⟩⟩
  rcases h.2 with h' | h'
  · exact .inl (step.control p hout h')
  · exact (step.blocked p hout h').symm

theorem dry (inv : s.Inv) (h : s.FallingAsleep p ∨ s.Asleep p) : s'.Dry p := by
  have hp := inv.lt_count h
  unfold Dry MayRead callerIsFocused
  rw [step.head, step.tail, step.id p hp]
  rcases step.focus with hfocus | hempty | hnobody
  · rw [hfocus]
    exact inv.dry p h
  · exact .inl hempty
  · exact absurd h (by simp [hnobody p hp])

theorem inv (inv : s.Inv) : s'.Inv where
  kernel := step.kernel
  fresh p hp := by
    rw [step.point]
    exact inv.fresh p (step.count.trans hp)
  reader r hr := (inv.reader r (step.pending ▸ hr)).trans_le step.count
  inside p h := by
    rw [step.point] at h ⊢
    exact step.inside p h
  ended p hend hp := by
    rw [step.point]
    exact step.ended p hend hp
  dry p h := step.dry inv (h.elim (fun h => .inl (step.fallingAsleep h)) step.asleep)
  pending p h := step.pending.trans (inv.pending p (step.registered h))
  armed p length h hp := by
    rw [step.callback]
    exact inv.armed p length (step.registered h) (step.point ▸ hp)

end SchedStep

theorem Inv.lt_of_inside (inv : s.Inv) (hp : s.point p ≠ .outside) : p < s.sched.count := by
  by_contra hge
  exact hp (inv.fresh p (by omega))

variable {j : JoinState} {length : Nat}

section

variable (inv : s.Inv)
include inv

/-- A step that leaves the ids of the tasks and the keyboard alone. -/
theorem SchedStep.same (hkernel : j.kernel.Inv) (hcount : s.sched.count ≤ j.sched.count)
    (hkeyboard : j.kernel.keyboard = s.keyboard)
    (hid : ∀ p < s.sched.count, (j.sched.task p).id = (s.sched.task p).id)
    (live : ∀ p < s.sched.count, s.point p ≠ .outside → (j.sched.task p).state ≠ .terminated →
      (s.sched.task p).state ≠ .terminated)
    (blocked : ∀ p < s.sched.count, s.point p ≠ .outside → (j.sched.task p).state = .blocked →
      (s.sched.task p).state = .blocked ∨ s.join.control p = .block none)
    (control : ∀ p, s.point p ≠ .outside → j.control p = s.join.control p ∨
      j.control p = .outside ∨ (∃ length, s.point p = .blocking length) ∧ j.control p = .yield none)
    (ended : ∀ p, (j.sched.task p).state = .terminated → j.sched.current = some p →
      s.point p = .outside) : SchedStep s { s with join := j } where
  kernel := hkernel
  count := hcount
  point := rfl
  pending := rfl
  head := congrArg Keyboard.head hkeyboard
  tail := congrArg Keyboard.tail hkeyboard
  callback := congrArg onCharCallback hkeyboard
  focus := .inl (congrArg focusedTaskId hkeyboard)
  id := hid
  live p hp := live p (inv.lt_of_inside hp) hp
  blocked p hp := blocked p (inv.lt_of_inside hp) hp
  control p hp h := by
    rcases control p hp with h' | h' | ⟨-, h'⟩
    · exact h' ▸ h
    all_goals exact absurd (h'.symm.trans h) (by simp)
  inside p hp := by
    rcases control p hp with h | h | ⟨hblocking, h⟩
    · exact (inv.inside p hp).imp h.trans fun ⟨hblocking, h'⟩ => ⟨hblocking, h'.imp h.trans h.trans⟩
    · exact .inl h
    · exact .inr ⟨hblocking, .inr h⟩
  ended := ended

/-- A call that neither blocks nor ends anybody, after which the control points of the readers
are as before, or the `yield` of a reader is over. -/
theorem SchedStep.passive {a : Action} (hpassive : Kernel.passive a = true)
    (h : s.join.kernel.next a = some j.kernel)
    (hcontrol : ∀ p, s.point p ≠ .outside → j.control p = s.join.control p ∨
      j.control p = .outside) : SchedStep s { s with join := j } := by
  obtain ⟨hkeyboard, -, hstate⟩ := Kernel.next_passive inv.kernel h hpassive
  refine .same inv (inv.kernel.next h) (Kernel.next_count inv.kernel h) hkeyboard
    (fun p => Kernel.next_id inv.kernel h) (fun p hp hout hlive hend => ?_)
    (fun p hp _ hblocked => .inl ((hstate p hp).2 hblocked))
    (fun p hp => (hcontrol p hp).imp_right .inl) fun p hend hcur => ?_
  · -- a terminated reader is not the current task, so it is not dispatched
    rcases Kernel.next_terminated inv.kernel h hp hend with hend' | ⟨hcur, -⟩
    · exact hlive hend'
    · exact hout (inv.ended p hend hcur)
  · obtain ⟨hcur, hend | ⟨id, exitCode, rfl⟩⟩ :=
      Kernel.next_current_terminated inv.kernel h hcur hend
    · exact inv.ended p hend hcur
    · cases hpassive

/-- A store to the state of task `q`. -/
theorem SchedStep.setState {q : Nat} {st : TaskState} (hc : s.sched.current = some c)
    (hkernel : j.kernel = { s.join.kernel with sched := s.sched.setState q st })
    (live : st ≠ .terminated → s.point q ≠ .outside → (s.sched.task q).state ≠ .terminated)
    (blocked : st = .blocked → s.point q ≠ .outside → s.join.control q = .block none)
    (ended : st = .terminated → s.sched.current = some q → s.point q = .outside)
    (control : ∀ p, s.point p ≠ .outside → j.control p = s.join.control p ∨
      (∃ length, s.point p = .blocking length) ∧ j.control p = .yield none) :
    SchedStep s { s with join := j } := by
  have hstate : ∀ p, (j.kernel.sched.task p).state =
      if p = q then st else (s.sched.task p).state := fun p => by
    rw [hkernel]
    exact setState_state st
  refine .same inv ?_ (by rw [JoinState.sched, hkernel]; exact le_rfl) (by rw [hkernel])
    (fun p _ => ?_) (fun p _ hp h => ?_) (fun p _ hp h => ?_)
    (fun p hp => (control p hp).imp_right .inr) fun p hend hcur => ?_
  · rw [hkernel]
    exact inv_setState inv.kernel hc
  · rw [JoinState.sched, hkernel]
    exact (sameLinks_setState s.sched q st).id p
  · rw [hstate] at h
    split_ifs at h with hpq
    · subst hpq
      exact live h hp
    · exact h
  · rw [hstate] at h
    split_ifs at h with hpq
    · subst hpq
      exact .inr (blocked h hp)
    · exact .inl h
  · rw [hstate] at hend
    rw [JoinState.sched, hkernel] at hcur
    split_ifs at hend with hpq
    · subst hpq
      exact ended hend hcur
    · exact inv.ended p hend hcur

/-- A change of the keyboard that leaves the buffer and the callback alone. -/
theorem SchedStep.keyboard {k : Keyboard} {control : Nat → ControlPoint}
    (hcontrol : ∀ p, s.point p ≠ .outside → control p = s.join.control p)
    (head : k.head = s.keyboard.head) (tail : k.tail = s.keyboard.tail)
    (callback : k.onCharCallback = s.keyboard.onCharCallback)
    (focus : k.focusedTaskId = s.keyboard.focusedTaskId ∨ s.MayRefocus) :
    SchedStep s { s with join :=
      { s.join with kernel := { s.join.kernel with keyboard := k }, control } } where
  kernel := ⟨inv.kernel.ring, inv.kernel.unstarted⟩
  count := le_rfl
  point := rfl
  pending := rfl
  head := head
  tail := tail
  callback := callback
  focus := focus
  id _ _ := rfl
  live _ _ h := h
  blocked _ _ h := .inl h
  control p hp h := (hcontrol p hp).symm.trans h
  inside p hp := by
    simp only [hcontrol p hp]
    exact inv.inside p hp
  ended := inv.ended

/-- One statement of the scheduler's machine. -/
theorem SchedStep.exec {regs : Nat} (hc : s.sched.current = some c)
    (guard : s.MayExec (s.join.control c)) (h : s.join.exec c regs = some j) :
    SchedStep s { s with join := j } := by
  -- a reader only executes `block none` and `yield none`
  have hreader : s.point c ≠ .outside → (∃ length, s.point c = .blocking length) ∧
      (s.join.control c = .block none ∨ s.join.control c = .yield none) := fun hp => by
    refine (inv.inside c hp).resolve_left fun hout => ?_
    simp [JoinState.exec, hout] at h
  have hout : s.join.control c ≠ .block none → s.join.control c ≠ .yield none →
      s.point c = .outside := fun hblock hyield => by
    by_contra hp
    exact (hreader hp).2.elim hblock hyield
  rcases exec_cases h with ⟨loc, -, hblock, hyield⟩ | ⟨wait, hpc, rfl⟩ |
    ⟨wait, hpc, rfl⟩ | ⟨f, ended, hpc, rfl⟩ | ⟨f, q, hpc, rfl⟩ | ⟨f, hpc, rfl⟩
  · have hout := hout (hblock none) (hyield none)
    exact .same inv (loc.inv inv.kernel) loc.count.ge loc.keyboard (fun p _ => loc.id p)
      (fun p _ _ h => loc.state p ▸ h) (fun p _ _ h => .inl (loc.state p ▸ h))
      (fun p hp => .inl (loc.control p fun h => hp (h ▸ hout)))
      fun p hend hcur => inv.ended p (loc.state p ▸ hend) (loc.current ▸ hcur)
  · -- `blockCurrent` marks the caller
    refine .setState inv hc rfl (fun _ hp => inv.live hc hp) (fun _ hp => ?_) (by simp)
      fun p hp => ?_
    · exact (hreader hp).2.resolve_right (by simp [hpc])
    · by_cases hpc' : p = c
      · subst hpc'
        obtain ⟨hblocking, hpc' | hpc'⟩ := hreader hp
        · obtain rfl : none = wait := by simpa [hpc'] using hpc
          exact .inr ⟨hblocking, by simp [JoinState.goto]⟩
        · simp [hpc'] at hpc
      · exact .inl (by simp [JoinState.goto, JoinState.withSched, hpc'])
  · -- its `yield` is a tick
    refine .passive (a := .tick regs) inv rfl rfl fun p hp => ?_
    by_cases hpc' : p = c
    · subst hpc'
      obtain ⟨-, hpc' | hpc'⟩ := hreader hp
      · simp [hpc'] at hpc
      · obtain rfl : none = wait := by simpa [hpc'] using hpc
        exact .inr (by simp [JoinState.goto, ControlPoint.afterYield])
    · exact .inl (by simp [JoinState.goto, JoinState.withSched, hpc'])
  · -- `killTask` ends its target; the caller is not inside `sysRead`
    have hout := hout (by simp [hpc]) (by simp [hpc])
    refine .setState (q := f.target) inv hc rfl (by simp) (by simp) (fun _ hcur => ?_) fun p hp => ?_
    · rw [hc] at hcur
      exact Option.some.inj hcur ▸ hout
    · have hpc' : p ≠ c := fun h => hp (h ▸ hout)
      exact .inl (by simp [JoinState.goto, JoinState.withSched, hpc'])
  · -- `killTask` wakes a waiter
    have hout := hout (by simp [hpc]) (by simp [hpc])
    refine .setState (q := q) inv hc rfl (fun _ _ => by rw [hpc] at guard; exact guard) (by simp) (by simp) fun p hp => ?_
    have hpc' : p ≠ c := fun h => hp (h ▸ hout)
    exact .inl (by simp [JoinState.goto, JoinState.withSched, hpc'])
  · -- `killTask` resets the focus
    have hout := hout (by simp [hpc]) (by simp [hpc])
    refine .keyboard inv (fun p hp => ?_) rfl rfl rfl (.inr (by rw [hpc] at guard; exact guard))
    have hpc' : p ≠ c := fun h => hp (h ▸ hout)
    simp [hpc']

/-- A call of a scheduler function by a task outside `sysRead`. -/
theorem SchedStep.call {pc : Nat → ControlPoint}
    (hout : ∀ c, s.sched.current = some c → s.point c = .outside) (h : s.join.call pc = some j) :
    SchedStep s { s with join := j } := by
  obtain ⟨c, hc, h⟩ := Option.bind_eq_some_iff.mp h
  split_ifs at h
  cases h
  refine .same inv inv.kernel le_rfl rfl (fun _ _ => rfl) (fun _ _ _ h => h)
    (fun _ _ _ h => .inl h) (fun p hp => .inl ?_) inv.ended
  have hpc : p ≠ c := fun h => hp (h ▸ hout c hc)
  simp [JoinState.goto, hpc]

/-- Every step of the scheduler that keeps the run undisturbed. -/
theorem SchedStep.next {a : JoinAction} (guard : s.Undisturbed (.sched a))
    (hmay : s.mayStep a = true) (h : s.join.next a = some j) :
    SchedStep s { s with join := j } := by
  have hout : (∀ c, s.sched.current = some c → s.mayStep a = true → s.point c = .outside) →
      ∀ c, s.sched.current = some c → s.point c = .outside := fun h c hc => h c hc hmay
  cases a with
  | createTask mem stackSize =>
    obtain ⟨k, hk, rfl⟩ := Option.map_eq_some_iff.mp h
    exact .passive inv rfl hk fun _ _ => .inl rfl
  | start =>
    obtain ⟨k, hk, rfl⟩ := Option.map_eq_some_iff.mp h
    exact .passive inv rfl hk fun _ _ => .inl rfl
  | tick regs =>
    cases h
    exact .passive (a := .tick regs) inv rfl rfl fun _ _ => .inl rfl
  | wake p =>
    simp only [JoinState.next] at h
    split_ifs at h with hp
    cases h
    exact .passive (a := .wake p) inv rfl (by simp [Kernel.next, hp]; rfl) fun _ _ => .inl rfl
  | waitForTask id => exact .call inv (hout fun c hc h => by simpa [mayStep, hc] using h) h
  | killTask id exitCode => exact .call inv (hout fun c hc h => by simpa [mayStep, hc] using h) h
  | exitTask exitCode => exact .call inv (hout fun c hc h => by simpa [mayStep, hc] using h) h
  | blockCurrent => exact .call inv (hout fun c hc h => by simpa [mayStep, hc] using h) h
  | exec regs =>
    obtain ⟨c, hc, h⟩ := Option.bind_eq_some_iff.mp h
    exact .exec inv hc (guard c hc) h

/-! ### The focus and the interrupt -/

/-- When nobody falls asleep or sleeps, nothing is required of the keyboard. -/
theorem Inv.of_nobody (kernel : s'.join.kernel.Inv) (count : s'.sched.count = s.sched.count)
    (point : s'.point = s.point) (control : s'.join.control = s.join.control)
    (reader : ∀ r, s'.pendingStdinReader = some r → s.pendingStdinReader = some r)
    (ended : ∀ p, (s'.sched.task p).state = .terminated → s'.sched.current = some p →
      s.point p = .outside) (nobody : ∀ p, ¬ s'.FallingAsleep p ∧ ¬ s'.Asleep p) : s'.Inv where
  kernel := kernel
  fresh p hp := by
    rw [point]
    exact inv.fresh p (count ▸ hp)
  reader r hr := count ▸ inv.reader r (reader r hr)
  inside p h := by
    rw [point] at h ⊢
    rw [control]
    exact inv.inside p h
  ended p hend hp := by
    rw [point]
    exact ended p hend hp
  dry p h := absurd h (by simp [nobody p])
  pending p h := absurd h.fallingAsleep_or_asleep (by simp [nobody p])
  armed p _ h := absurd h.fallingAsleep_or_asleep (by simp [nobody p])

theorem Inv.wakeStdinReader {k : Keyboard} (hfalling : ∀ p, ¬ s.FallingAsleep p) :
    ((s.withKeyboard k).wakeStdinReader).Inv := by
  have hpending : ∀ p, s.Asleep p → s.pendingStdinReader = some p := fun p h =>
    inv.pending p h.registered
  unfold StdinState.wakeStdinReader
  rcases hreader : s.pendingStdinReader with _ | r
  · simp only [withKeyboard, hreader]
    refine inv.of_nobody ⟨inv.kernel.ring, inv.kernel.unstarted⟩ rfl rfl rfl (by simp) inv.ended
      fun p => ?_
    exact ⟨hfalling p, fun h => absurd ((hpending p h).symm.trans hreader) (by simp)⟩
  · simp only [withKeyboard, hreader]
    have hstate : ∀ q, ((s.sched.wake r).task q).state =
        if q = r ∧ (s.sched.task q).state = .blocked then .ready else (s.sched.task q).state :=
      fun q => wake_state
    have hterm : ∀ q, ((s.sched.wake r).task q).state = .terminated ↔
        (s.sched.task q).state = .terminated := fun q => by
      rw [hstate]
      split_ifs with h
      · simp [h.2]
      · rfl
    have hr : r < s.sched.count := inv.reader r hreader
    have hkernel : (s.join.withSched (s.sched.wake r)).kernel.Inv :=
      inv.kernel.next (a := .wake r) (by simp [Kernel.next, hr]; rfl)
    refine inv.of_nobody ⟨hkernel.ring, hkernel.unstarted⟩ (sameLinks_wake s.sched r).count rfl
      rfl (by simp)
      (fun p hend hcur => inv.ended p ((hterm p).mp hend) (wake_current ▸ hcur)) fun p => ⟨?_, ?_⟩
    · rintro ⟨hlive, hpoint⟩
      exact hfalling p ⟨fun h => hlive ((hterm p).mpr h), hpoint⟩
    · rintro ⟨hpoint, hblocked⟩
      change ((s.sched.wake r).task p).state = _ at hblocked
      rw [hstate] at hblocked
      split_ifs at hblocked with h
      have hr := hpending p ⟨hpoint, hblocked⟩
      rw [hreader] at hr
      exact h ⟨(Option.some.inj hr).symm, hblocked⟩

theorem Inv.irq {scancode : UInt8} (guard : s.Undisturbed (.irq scancode)) :
    (s.onIRQ scancode).Inv := by
  unfold onIRQ
  rcases hirq : s.keyboard.onIRQ scancode with ⟨k, cb⟩
  have hcases := s.keyboard.onIRQ_cases scancode
  rw [hirq] at hcases
  rcases hcases with ⟨same, hcb⟩ | ⟨harrow, hcb, -⟩ | ⟨hchar, hcb, -⟩
  · obtain rfl : cb = none := hcb
    exact (SchedStep.keyboard inv (fun _ _ => rfl) same.head same.tail same.callback
      (.inl same.focus)).inv inv
  · obtain rfl : cb = none := hcb
    exact inv.of_nobody ⟨inv.kernel.ring, inv.kernel.unstarted⟩ rfl rfl rfl (fun _ h => h) inv.ended
      (inv.nobody (guard.2 harrow))
  · have hfalling : ∀ p, ¬ s.FallingAsleep p := fun p h =>
      guard.1 hchar p (inv.lt_count (.inl h)) h
    cases cb with
    | none =>
      -- without a callback nobody sleeps
      refine inv.of_nobody ⟨inv.kernel.ring, inv.kernel.unstarted⟩ rfl rfl rfl (fun _ h => h) inv.ended
        fun p => ⟨hfalling p, fun h => ?_⟩
      obtain ⟨length, hlength⟩ := h.1
      have harmed := inv.armed p length h.registered hlength
      rw [← show none = s.keyboard.onCharCallback from hcb] at harmed
      cases harmed
    | some callback =>
      cases callback
      exact inv.wakeStdinReader hfalling

end

/-! ### The statements of `sysRead` -/

/-- `s'` is `s` after the current task `c` moved to the point `pt`. -/
structure Moved (s s' : StdinState) (c : Nat) (pt : ReadPoint) : Prop where
  sched : s'.sched = s.sched
  control : ∀ p, p ≠ c → s'.join.control p = s.join.control p
  point : s'.point = Function.update s.point c pt
  head : s'.keyboard.head = s.keyboard.head
  focus : s'.keyboard.focusedTaskId = s.keyboard.focusedTaskId

namespace Moved

variable {pt : ReadPoint} (m : Moved s s' c pt)
include m

theorem point_self : s'.point c = pt := by simp [m.point]

theorem point_of_ne (h : p ≠ c) : s'.point p = s.point p := by simp [m.point, h]

theorem fallingAsleep_of_ne (h : p ≠ c) : s'.FallingAsleep p ↔ s.FallingAsleep p := by
  unfold FallingAsleep
  rw [m.sched, m.point_of_ne h, m.control p h]

theorem asleep_of_ne (h : p ≠ c) : s'.Asleep p ↔ s.Asleep p := by
  unfold Asleep
  rw [m.sched, m.point_of_ne h]

theorem registered_of_ne (h : p ≠ c) : s'.Registered p ↔ s.Registered p := by
  unfold Registered
  rw [m.sched, m.point_of_ne h, m.control p h]

theorem mayRead : s'.MayRead p ↔ s.MayRead p := by
  unfold MayRead callerIsFocused
  rw [m.sched, m.focus]

/-- What is left to check: the mover itself, and what the statement changed. -/
theorem inv (inv : s.Inv) (hc : s.sched.current = some c) (hlive : pt ≠ .outside →
      (s.sched.task c).state ≠ .terminated)
    (hreader : ∀ r, s'.pendingStdinReader = some r → s.pendingStdinReader = some r ∨ r = c)
    (hinside : pt ≠ .outside → s'.join.control c = .outside ∨
      (∃ length, pt = .blocking length) ∧
        (s'.join.control c = .block none ∨ s'.join.control c = .yield none))
    (htail : s'.keyboard.tail = s.keyboard.tail ∨ s.keyboard.head ≠ s.keyboard.tail)
    (hdry : s'.FallingAsleep c ∨ s'.Asleep c → s'.Dry c)
    (hpending : s'.Registered c → s'.pendingStdinReader = some c)
    (hothers : s'.pendingStdinReader = s.pendingStdinReader ∨ ∀ p, p ≠ c → ¬ s.Registered p)
    (hcallback : s'.keyboard.onCharCallback = s.keyboard.onCharCallback ∨
      s'.keyboard.onCharCallback.isSome)
    (harmed : ∀ length, s'.Registered c → pt = .blocking length →
      s'.keyboard.onCharCallback.isSome) : s'.Inv where
  kernel := by
    have hkernel : s'.join.kernel.sched = s.join.kernel.sched := m.sched
    exact ⟨hkernel ▸ inv.kernel.ring, hkernel ▸ inv.kernel.unstarted⟩
  fresh p hp := by
    have hlt : c < s.sched.count := inv.kernel.ring.current_lt c hc
    rw [m.sched] at hp
    rw [m.point_of_ne (show p ≠ c by omega)]
    exact inv.fresh p hp
  reader r hr := by
    rw [m.sched]
    rcases hreader r hr with hr | rfl
    · exact inv.reader r hr
    · exact inv.kernel.ring.current_lt r hc
  inside p hp := by
    by_cases hpc : p = c
    · subst hpc
      rw [m.point_self] at hp ⊢
      exact hinside hp
    · rw [m.point_of_ne hpc] at hp ⊢
      rw [m.control p hpc]
      exact inv.inside p hp
  ended p hend hcur := by
    rw [m.sched] at hend hcur
    obtain rfl : p = c := Option.some.inj (hcur.symm.trans hc)
    rw [m.point_self]
    by_contra hpt
    exact hlive hpt hend
  dry p h := by
    by_cases hpc : p = c
    · subst hpc
      exact hdry h
    · rw [m.fallingAsleep_of_ne hpc, m.asleep_of_ne hpc] at h
      unfold Dry
      rw [m.mayRead, m.head]
      rcases inv.dry p h, htail with ⟨hempty | hmay, htail | hne⟩
      · exact .inl (hempty.trans htail.symm)
      · exact absurd hempty hne
      · exact .inr hmay
      · exact .inr hmay
  pending p h := by
    by_cases hpc : p = c
    · subst hpc
      exact hpending h
    · rw [m.registered_of_ne hpc] at h
      rcases hothers with hsame | hothers
      · exact hsame.trans (inv.pending p h)
      · exact absurd h (hothers p hpc)
  armed p length h hp := by
    by_cases hpc : p = c
    · subst hpc
      rw [m.point_self] at hp
      exact harmed length h hp
    · rw [m.registered_of_ne hpc] at h
      rw [m.point_of_ne hpc] at hp
      rcases hcallback with hsame | hsome
      · rw [hsame]
        exact inv.armed p length h hp
      · exact hsome

end Moved

/-- A statement after which the task neither falls asleep nor sleeps. -/
theorem Moved.inv_awake {pt : ReadPoint} (m : Moved s s' c pt) (inv : s.Inv)
    (hc : s.sched.current = some c) (hin : s.point c ≠ .outside ∨ (s.sched.task c).state ≠ .terminated)
    (hpt : pt = .outside ∨ (∃ length, pt = .test length) ∨ (∃ i length, pt = .more i length) ∨
      ∃ i length, pt = .take i length)
    (hcontrol : s'.join.control c = .outside)
    (hpending : s'.pendingStdinReader = s.pendingStdinReader)
    (hcallback : s'.keyboard.onCharCallback = s.keyboard.onCharCallback)
    (htail : s'.keyboard.tail = s.keyboard.tail ∨ s.keyboard.head ≠ s.keyboard.tail) : s'.Inv := by
  have hawake : ¬ (s'.FallingAsleep c ∨ s'.Asleep c) := by
    unfold FallingAsleep Asleep
    rw [m.point_self]
    rcases hpt with rfl | ⟨_, rfl⟩ | ⟨_, _, rfl⟩ | ⟨_, _, rfl⟩ <;> simp
  refine m.inv inv hc (fun _ => ?_) (fun r hr => .inl (hpending ▸ hr)) (fun _ => .inl hcontrol) htail
    (fun h => absurd h hawake) (fun h => absurd h.fallingAsleep_or_asleep hawake) (.inl hpending)
    (.inl hcallback) fun _ h => absurd h.fallingAsleep_or_asleep hawake
  exact hin.elim (fun h => inv.live hc h) fun h => h

/-- A task inside `sysRead` but not in `blockCurrent` is outside the scheduler's machine. -/
theorem Inv.control_outside (inv : s.Inv) (h : s.point p ≠ .outside)
    (hblocking : ∀ length, s.point p ≠ .blocking length) : s.join.control p = .outside :=
  (inv.inside p h).resolve_right fun h => h.1.elim hblocking

theorem Moved.goto (s : StdinState) (c : Nat) (pt : ReadPoint) : Moved s (s.goto c pt) c pt :=
  ⟨rfl, fun _ _ => rfl, rfl, rfl, rfl⟩

section

variable (inv : s.Inv) (hc : s.sched.current = some c)
include inv hc

theorem Inv.test (hpt : s.point c = .test length) :
    (s.goto c (if s.hasChar c then .more 0 length else .register length)).Inv := by
  have hcontrol := inv.control_outside (p := c) (by simp [hpt]) (by simp [hpt])
  split_ifs with hchar
  · exact (Moved.goto s c _).inv_awake inv hc (.inl (by simp [hpt])) (by simp) hcontrol rfl rfl
      (.inl rfl)
  · have m := Moved.goto s c (.register length)
    refine m.inv inv hc (fun _ => inv.live hc (by simp [hpt])) (fun _ => .inl)
      (fun _ => .inl hcontrol) (.inl rfl) (fun _ => ?_) (fun h => ?_) (.inl rfl) (.inl rfl) (by simp)
    · -- the test failed: no character, or none for this task
      have hdry : s.Dry c := by
        unfold hasChar Keyboard.hasChar at hchar
        unfold Dry MayRead
        simpa [or_iff_not_imp_left] using hchar
      exact hdry
    · obtain ⟨-, h⟩ := h
      rw [m.point_self] at h
      simp at h

theorem Inv.register (hpt : s.point c = .register length) (guard : ∀ p, p ≠ c → ¬ s.Registered p) :
    { s.goto c (.arm length) with pendingStdinReader := some c : StdinState }.Inv := by
  have hcontrol := inv.control_outside (p := c) (by simp [hpt]) (by simp [hpt])
  have hlive := inv.live hc (by simp [hpt])
  have hdry := inv.dry c (.inl ⟨hlive, .inl ⟨length, hpt⟩⟩)
  have m : Moved s { s.goto c (.arm length) with pendingStdinReader := some c } c (.arm length) :=
    ⟨rfl, fun _ _ => rfl, rfl, rfl, rfl⟩
  exact m.inv inv hc (fun _ => hlive) (fun r hr => .inr (Option.some.inj hr).symm)
    (fun _ => .inl hcontrol) (.inl rfl) (fun _ => hdry) (fun _ => rfl) (.inr guard) (.inl rfl) (by simp)

theorem Inv.arm (hpt : s.point c = .arm length) (hs' : s' =
      let s := s.withKeyboard (s.keyboard.setOnCharCallback .wakeStdinReader)
      { s.goto c (.blocking length) with join := s.join.goto c (.block none) }) : s'.Inv := by
  have hlive := inv.live hc (by simp [hpt])
  have hdry := inv.dry c (.inl ⟨hlive, .inr (.inl ⟨length, hpt⟩)⟩)
  have hpending := inv.pending c ⟨hlive, .inl ⟨length, hpt⟩⟩
  have m : Moved s s' c (.blocking length) := by
    subst hs'
    exact ⟨rfl, fun p hp => by simp [JoinState.goto, hp, withKeyboard], rfl, rfl, rfl⟩
  subst hs'
  exact m.inv inv hc (fun _ => hlive) (fun _ => .inl)
    (fun _ => .inr ⟨⟨length, rfl⟩, .inl (by simp [JoinState.goto])⟩) (.inl rfl)
    (fun _ => hdry) (fun _ => hpending) (.inl rfl) (.inr rfl) fun _ _ _ => rfl

theorem Inv.take {i : Nat} (hpt : s.point c = .take i length) (input : Nat → List UInt8) :
    { (s.withKeyboard (s.keyboard.getChar (some (s.sched.task c).id)).2).goto c
      (.more (i + 1) length) with input : StdinState }.Inv := by
  have hcontrol := inv.control_outside (p := c) (by simp [hpt]) (by simp [hpt])
  obtain ⟨hhead, hfocus, hcallback, htail⟩ :=
    s.keyboard.getChar_cases (some (s.sched.task c).id)
  have m : Moved s { (s.withKeyboard (s.keyboard.getChar (some (s.sched.task c).id)).2).goto c
      (.more (i + 1) length) with input : StdinState } c (.more (i + 1) length) :=
    ⟨rfl, fun _ _ => rfl, rfl, hhead, hfocus⟩
  exact m.inv_awake inv hc (.inl (by simp [hpt])) (by simp) hcontrol rfl hcallback htail

theorem Inv.exec (guard : s.Undisturbed .exec) (h : s.exec c = some s') : s'.Inv := by
  unfold StdinState.exec at h
  cases hpt : s.point c with rw [hpt] at h
  | outside => cases h
  | test length =>
    cases h
    exact inv.test hc hpt
  | register length =>
    cases h
    refine inv.register hc hpt fun p hp h => ?_
    exact guard c hc ⟨length, hpt⟩ p (inv.lt_count h.fallingAsleep_or_asleep) hp h
  | arm length => exact inv.arm hc hpt (Option.some.inj h).symm
  | blocking length =>
    dsimp only at h
    split_ifs at h with hcontrol
    cases h
    exact (Moved.goto s c _).inv_awake inv hc (.inl (by simp [hpt])) (by simp) hcontrol rfl rfl
      (.inl rfl)
  | more i length =>
    cases h
    have hcontrol := inv.control_outside (p := c) (by simp [hpt]) (by simp [hpt])
    refine (Moved.goto s c _).inv_awake inv hc (.inl (by simp [hpt])) ?_ hcontrol rfl rfl (.inl rfl)
    split_ifs <;> simp
  | take i length =>
    cases h
    exact inv.take hc hpt _

end

/-- Every step of an undisturbed run keeps the invariant. -/
theorem Inv.next {a : StdinAction} (inv : s.Inv) (guard : s.Undisturbed a)
    (h : s.next a = some s') : s'.Inv := by
  cases a with
  | sched a =>
    simp only [StdinState.next] at h
    split_ifs at h with hmay
    obtain ⟨j, hj, rfl⟩ := Option.map_eq_some_iff.mp h
    exact (SchedStep.next inv guard hmay hj).inv inv
  | irq scancode =>
    cases h
    exact inv.irq guard
  | setFocus id =>
    cases h
    exact (SchedStep.keyboard (k := s.keyboard.setFocus id) inv (fun _ _ => rfl) rfl rfl rfl
      (.inr guard)).inv inv
  | sysRead length =>
    obtain ⟨c, hc, h⟩ := Option.bind_eq_some_iff.mp h
    obtain ⟨hc, hlive⟩ := Kernel.caller_eq_some.mp hc
    split_ifs at h with hout
    cases h
    have m : Moved s { s.goto c (.test (min length 4096)) with
        input := Function.update s.input c [] } c (.test (min length 4096)) :=
      ⟨rfl, fun _ _ => rfl, rfl, rfl, rfl⟩
    exact m.inv_awake inv hc (.inr hlive) (by simp) hout.2 rfl rfl (.inl rfl)
  | exec =>
    obtain ⟨c, hc, h⟩ := Option.bind_eq_some_iff.mp h
    exact inv.exec hc guard h

theorem inv_of_reachable (h : (stdinSystem.restrict Undisturbed).Reachable s) : s.Inv := by
  refine h.invariant Inv (fun s hs => ?_) fun s a s' inv step => ?_
  · obtain ⟨⟨⟨sched, hcount, hsched⟩, hcontrol, -⟩, -, hpoint, hreader⟩ := hs
    have hout : ∀ p, s.point p = .outside := fun p => by rw [hpoint]
    have hnobody : ∀ p, ¬ (s.FallingAsleep p ∨ s.Asleep p) := fun p => by
      simp [FallingAsleep, Asleep, hout p]
    exact
      { kernel := Kernel.inv_of_reachable (.init ⟨sched, hcount, hsched⟩)
        fresh := fun p _ => hout p
        reader := by simp [hreader]
        inside := fun p h => absurd (hout p) h
        ended := fun p _ _ => hout p
        dry := fun p h => absurd h (hnobody p)
        pending := fun p h => absurd h.fallingAsleep_or_asleep (hnobody p)
        armed := fun p _ h => absurd h.fallingAsleep_or_asleep (hnobody p) }
  · exact inv.next step.1 step.2

end StdinState

/-- **Readers are not left asleep in undisturbed runs.** In every state reached by
undisturbed steps, a task blocked in `sysRead` that may read has no character
waiting. -/
theorem noneLeftAsleep_of_undisturbed {s : StdinState}
    (h : (stdinSystem.restrict StdinState.Undisturbed).Reachable s) : s.NoneLeftAsleep := by
  intro p hasleep hmay
  exact ((inv_of_reachable h).dry p (.inr hasleep)).resolve_right (not_not.mpr hmay)

/-! ## Runs -/

/-- Two tasks, started. -/
def twoTasks : List StdinAction :=
  [.sched (.createTask plenty 16384), .sched (.createTask plenty 16384), .sched .start]

/-- The current task calls `sysRead` for one byte and goes up to `blockCurrent`. -/
def readUpToBlock : List StdinAction := [.sysRead 1, .exec, .exec, .exec]

/-- It marks itself blocked and yields. -/
def fallAsleep : List StdinAction := [.sched (.exec 0), .sched (.exec 0)]

/-- A reader sleeps, an ordinary key wakes it, and it reads the character. -/
def readRun : List StdinAction :=
  twoTasks ++ readUpToBlock ++ fallAsleep ++ [.irq 0x1E, .sched (.tick 0)] ++
    List.replicate 5 .exec ++ readUpToBlock ++ fallAsleep

/-- An arrow key arrives while a reader sleeps. -/
def arrowRun : List StdinAction :=
  twoTasks ++ readUpToBlock ++ fallAsleep ++ [.irq 0xE0, .irq 0x48]

/-- An ordinary key arrives between the arming and the store of `Blocked`. -/
def raceRun : List StdinAction := twoTasks ++ readUpToBlock ++ [.irq 0x1E] ++ fallAsleep

/-- A second reader takes the slot, and a key wakes only that one. -/
def secondReaderRun : List StdinAction :=
  twoTasks ++ readUpToBlock ++ fallAsleep ++ readUpToBlock ++ [.irq 0x1E]

/-- A key arrives for the focused second task, which then gives the focus up. -/
def refocusRun : List StdinAction :=
  twoTasks ++ [.setFocus 2] ++ readUpToBlock ++ fallAsleep ++ [.irq 0x1E, .sched (.tick 0)] ++
    List.replicate 4 .exec ++ fallAsleep ++ [.setFocus 0]

def stdinBoot : StdinState := ⟨joinBoot, fun _ => .outside, none, fun _ => []⟩

theorem stdinBoot_init : stdinSystem.init stdinBoot :=
  ⟨joinBoot_init, ⟨boot.keyboard, rfl⟩, rfl, rfl⟩

/-- What makes a final state a failure: task 0 is blocked in `sysRead`, nobody has
the focus, and a character is waiting. -/
def leftAsleep (s : StdinState) : Bool :=
  s.point 0 = .blocking 1 ∧ (s.sched.task 0).state = .blocked ∧ s.keyboard.focusedTaskId = 0 ∧
    s.keyboard.head ≠ s.keyboard.tail

theorem not_noneLeftAsleep_of_leftAsleep {s : StdinState} (h : leftAsleep s = true) :
    ¬ s.NoneLeftAsleep := by
  simp only [leftAsleep, decide_eq_true_eq] at h
  obtain ⟨hpoint, hblocked, hfocus, hchar⟩ := h
  intro hnone
  exact hchar (hnone 0 ⟨⟨1, hpoint⟩, hblocked⟩ (by simp [MayRead,
    callerIsFocused, hfocus]))

/-- Some reader is left asleep after `run`. -/
def LeavesAsleep (run : List StdinAction) : Prop :=
  ∃ s, runActions StdinState.next stdinBoot run = some s ∧ stdinSystem.Reachable s ∧
    ¬ s.NoneLeftAsleep

theorem leavesAsleep_of_any {run : List StdinAction}
    (h : (runActions StdinState.next stdinBoot run).any leftAsleep = true) : LeavesAsleep run := by
  obtain ⟨s, hs, hleft⟩ := Option.any_eq_true _ _ |>.mp h
  exact ⟨s, hs, reachable_of_runActions _ (.init stdinBoot_init) hs,
    not_noneLeftAsleep_of_leftAsleep hleft⟩

/-- After a successful read the task sleeps in the next one. -/
@[irreducible] def sleepingState : StdinState :=
  (runActions (guarded StdinState.next StdinState.Undisturbed) stdinBoot readRun).get
    (by decide +kernel)

theorem sleepingState_reachable :
    (stdinSystem.restrict Undisturbed).Reachable sleepingState := by
  unfold sleepingState
  exact reachable_get_guarded _ stdinBoot_init _

theorem sleepingState_asleep :
    sleepingState.point 0 = .blocking 1 ∧ (sleepingState.sched.task 0).state = .blocked := by
  decide +kernel

theorem sleepingState_noneLeftAsleep :
    (sleepingState.point 0 = .blocking 1 ∧ (sleepingState.sched.task 0).state = .blocked) ∧
      sleepingState.NoneLeftAsleep :=
  ⟨sleepingState_asleep, noneLeftAsleep_of_undisturbed sleepingState_reachable⟩

/-- Each kind of disturbance leaves a reader asleep next to a character: an arrow
key, a key before the store of `Blocked`, a second reader, and a change of the
focus. -/
theorem not_noneLeftAsleep :
    LeavesAsleep arrowRun ∧ LeavesAsleep raceRun ∧ LeavesAsleep secondReaderRun ∧
      LeavesAsleep refocusRun := by
  refine ⟨leavesAsleep_of_any ?_, leavesAsleep_of_any ?_, leavesAsleep_of_any ?_,
    leavesAsleep_of_any ?_⟩
  all_goals decide +kernel

end WengShiOS.Syscalls
