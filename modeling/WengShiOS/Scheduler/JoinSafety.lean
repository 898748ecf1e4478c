import WengShiOS.Scheduler.JoinInvariant

/-! # The join is correct in undisturbed runs

The remaining statements, the ticks, and the steps of the environment keep the
invariant, and it gives the join: a call that returned reports the exit code of
its target, and nobody sleeps on an ended task whose wake-up is not under way. -/

namespace WengShiOS.Scheduler

open Math Drivers ControlPoint Sched JoinState Scheduler.Task

namespace JoinState

variable {s s' : JoinState} {p q c t id : Nat} {pc old : ControlPoint}

/-! ### Moves of the current task -/

/-- The current task is in a state its control point `pc` allows. -/
def RunsAt (s : JoinState) (c : Nat) (pc : ControlPoint) : Prop :=
  s.state c = .running ∨ (s.state c ≠ .terminated ∧ ∃ wait, pc = .yield wait) ∨
    pc.endsSelf = true

theorem Stored.currentOk (m : Stored s s' c pc) (hc : s.sched.current = some c)
    (h : s'.RunsAt c pc) : s'.CurrentOk := by
  intro c' hc'
  obtain rfl : c = c' := Option.some.inj (hc.symm.trans (m.current ▸ hc'))
  rwa [m.control_self]

/-- The same for a write through a task pointer: the state of the current task
is kept, or the point it moves to needs none. -/
theorem currentOk_write {f : Task → Task} (hc : s.sched.current = some c) (hruns : s.RunsAt c pc)
    (h : c = t → (f (s.sched.task c)).state = s.state c ∨ pc.endsSelf = true) :
    ((s.withSched (s.sched.modify t f)).goto c pc).CurrentOk := by
  intro c' hc'
  obtain rfl : c = c' := Option.some.inj (hc.symm.trans hc')
  have hpc : ((s.withSched (s.sched.modify t f)).goto c pc).control c = pc := by simp [goto]
  rw [hpc]
  change ((s.sched.modify t f).task c).state = _ ∨ (((s.sched.modify t f).task c).state ≠ _ ∧ _) ∨ _
  by_cases htc : c = t
  · rcases h htc with hsame | hself
    · rw [← htc, modify_task_self, hsame]
      exact hruns
    · exact .inr (.inr hself)
  · rw [modify_task_of_ne htc]
    exact hruns

section Statement

variable (inv : s.JoinInv) (hc : s.sched.current = some c) (hpc : s.control c = old)
include inv hc hpc

/-- A statement that does not change whether the call has ended its caller. -/
theorem JoinInv.runsAt (hyield : ∀ wait, old ≠ .yield wait) (h : old.endsSelf = pc.endsSelf) :
    s.RunsAt c pc := by
  rcases inv.currentOk c hc with hrun | ⟨-, wait, hw⟩ | hself
  · exact .inl hrun
  · exact absurd (hpc.symm.trans hw) (hyield wait)
  · exact .inr (.inr (h ▸ hpc ▸ hself))

theorem JoinInv.running (hyield : ∀ wait, old ≠ .yield wait) (hself : old.endsSelf = false) :
    s.state c = .running := by
  have hruns : s.RunsAt c .outside := inv.runsAt hc hpc hyield hself
  rcases hruns with h | ⟨-, wait, h⟩ | h
  · exact h
  · cases h
  · cases h

theorem JoinInv.goto_quiet (hreg : old.registeredOn = none) (hrel : old.releasing = none)
    (hnew : (s.goto c pc).PointOk c pc) (hruns : s.RunsAt c pc) : (s.goto c pc).JoinInv where
  toJoinCore := inv.move_quiet hc (.goto inv.toJoinCore c pc) hnew (hpc ▸ hreg) (hpc ▸ hrel)
    inv.returned
  currentOk := (Moved.goto inv.toJoinCore c pc).currentOk hc hruns

theorem JoinInv.enqueue (hreg : old.registeredOn = none) (hrel : old.releasing = none)
    (hruns : s.RunsAt c pc) (hnew : ∀ s' : JoinState, s'.PointOk c pc) :
    ((s.withSched (s.sched.enqueueCleanup t)).goto c pc).JoinInv := by
  have m : Moved s ((s.withSched (s.sched.enqueueCleanup t)).goto c pc) c pc :=
    { kernel := ⟨inv.kernel.ring.enqueueCleanup t, fun h => absurd
        (inv.kernel.unstarted ((enqueueCleanup_started).symm.trans h)).1 (by simp [hc])⟩
      count := enqueueCleanup_count
      current := enqueueCleanup_current
      control := rfl
      id := fun _ => by
        change ((s.sched.enqueueCleanup t).task _).id = _
        rw [enqueueCleanup_task]
      task := enqueueCleanup_task
      endedWith := rfl }
  refine ⟨inv.move_quiet hc m (hnew _) (hpc ▸ hreg) (hpc ▸ hrel) inv.returned,
    m.currentOk hc ?_⟩
  unfold RunsAt state
  rwa [m.task]

end Statement

theorem JoinInv.waitNull (inv : s.JoinInv) (hc : s.sched.current = some c)
    (hpc : s.control c = .waitNull id none) :
    { s.goto c .outside with returned := s.returned ++ [⟨id, none, -1⟩] : JoinState }.JoinInv := by
  set s' : JoinState := { s.goto c .outside with returned := s.returned ++ [⟨id, none, -1⟩] }
  have m : Moved s s' c .outside := ⟨⟨inv.kernel, rfl, rfl, rfl, fun _ => rfl⟩, rfl, rfl⟩
  refine ⟨inv.move_quiet hc m trivial (by simp [hpc]) (by simp [hpc]) fun r hr u hru => ?_,
    m.currentOk hc (inv.runsAt hc hpc nofun rfl)⟩
  rcases List.mem_append.mp hr with hr | hr
  · exact inv.returned r hr u hru
  · obtain rfl := List.mem_singleton.mp hr
    cases hru

theorem JoinInv.waitRead (inv : s.JoinInv) (hc : s.sched.current = some c)
    (hpc : s.control c = .waitRead id t) :
    { s.goto c .outside with
      returned := s.returned ++ [⟨id, some t, (s.sched.task t).exitCode⟩] : JoinState }.JoinInv := by
  have hrun : s.state c = .running := inv.running hc hpc nofun rfl
  have hpoint := inv.point c
  rw [hpc] at hpoint
  obtain ⟨hnames, sleeper⟩ := hpoint
  have hend : s.state t = .terminated := sleeper.awake (.inr hrun)
  set s' : JoinState := { s.goto c .outside with
    returned := s.returned ++ [⟨id, some t, (s.sched.task t).exitCode⟩] } with hs'
  have m : Moved s s' c .outside := ⟨⟨inv.kernel, rfl, rfl, rfl, fun _ => rfl⟩, rfl, rfl⟩
  refine ⟨inv.move hc m trivial (fun u hu hslot => ?_) (by simp [hpc]) (by simp [hpc])
    fun r hr u hru => ?_, m.currentOk hc (.inl hrun)⟩
  · obtain rfl : t = u := by simpa [hpc] using hu
    have := role_eq hc (inv.cleared t c hnames.1 hslot hend)
    simp [hpc] at this
  · rcases List.mem_append.mp hr with hr | hr
    · exact inv.returned r hr u hru
    · obtain rfl := List.mem_singleton.mp hr
      obtain rfl : t = u := Option.some.inj hru
      exact ⟨hnames, inv.ended t hnames.1 hend⟩

/-- A step that moves no control point and under which no task ends or comes back; tasks may
be added. -/
structure Kept (s s' : JoinState) : Prop where
  kernel : s'.kernel.Inv
  count : s.sched.count ≤ s'.sched.count
  control : s'.control = s.control
  returned : s'.returned = s.returned
  endedWith : s'.endedWith = s.endedWith
  id : ∀ t < s.sched.count, (s'.sched.task t).id = (s.sched.task t).id
  exitCode : ∀ t < s.sched.count, (s'.sched.task t).exitCode = (s.sched.task t).exitCode
  parent : ∀ t < s.sched.count, s'.parent t = s.parent t
  terminated : ∀ t < s.sched.count, s'.state t = .terminated ↔ s.state t = .terminated
  added : ∀ t, s.sched.count ≤ t → t < s'.sched.count →
    s'.state t ≠ .terminated ∧ s'.parent t = none

theorem Kept.of_links {sched : Sched} (kernel : (s.withSched sched).kernel.Inv)
    (links : s.sched.SameLinks sched)
    (hterm : ∀ t, (sched.task t).state = .terminated ↔ s.state t = .terminated) :
    Kept s (s.withSched sched) where
  kernel := kernel
  count := links.count.ge
  control := rfl
  returned := rfl
  endedWith := rfl
  id t _ := links.id t
  exitCode t _ := links.exitCode t
  parent t _ := links.waitingParent t
  terminated t _ := hterm t
  added t hge hlt := absurd (links.count ▸ hlt) (by omega)

namespace Kept

variable (kept : Kept s s')
include kept

theorem names (h : s.Names id t) : s'.Names id t :=
  ⟨h.1.trans_le kept.count, (kept.id t h.1).trans h.2⟩

theorem joinCore (inv : s.JoinCore) (idle : s'.sched.current = none → ∀ p, s.control p = .outside)
    (point : ∀ p, s'.PointOk p (s.control p)) (releasing : ∀ t, s.Releasing t → s'.Releasing t) :
    s'.JoinCore where
  kernel := kept.kernel
  fresh p hp := by
    rw [kept.control]
    exact inv.fresh p (kept.count.trans hp)
  idle h := by
    rw [kept.control]
    exact idle h
  point p := by
    rw [kept.control]
    exact point p
  slot t p ht h := by
    by_cases hold : t < s.sched.count
    · rw [kept.parent t hold] at h
      obtain ⟨hp, hrole⟩ := inv.slot t p hold h
      refine ⟨hp.trans_le kept.count, hrole.imp (kept.terminated p hp).mpr fun hrole => ?_⟩
      rwa [kept.control]
    · rw [(kept.added t (by omega) ht).2] at h
      cases h
  cleared t p ht h hend := by
    by_cases hold : t < s.sched.count
    · rw [kept.parent t hold] at h
      exact releasing t (inv.cleared t p hold h ((kept.terminated t hold).mp hend))
    · rw [(kept.added t (by omega) ht).2] at h
      cases h
  ended t ht hend := by
    have hold : t < s.sched.count := by
      by_contra hge
      exact (kept.added t (by omega) ht).1 hend
    rw [kept.endedWith, kept.exitCode t hold]
    exact inv.ended t hold ((kept.terminated t hold).mp hend)
  unended t ht := by
    rw [kept.endedWith]
    refine inv.unended t ?_
    by_cases hold : t < s.sched.count
    · refine .inr fun hend => ?_
      rcases ht with ht | ht
      · exact absurd (hold.trans_le kept.count) (by omega)
      · exact ht ((kept.terminated t hold).mpr hend)
    · exact .inl (by omega)
  returned r hr t ht := by
    rw [kept.returned] at hr
    obtain ⟨hnames, hended⟩ := inv.returned r hr t ht
    exact ⟨kept.names hnames, by rwa [kept.endedWith]⟩

end Kept

/-! ### A tick outside the uninterrupted statements -/

theorem JoinCore.tick (inv : s.JoinCore) (runnable : s.sched.HasRunnable)
    (hquiet : ∀ c, s.sched.current = some c → (s.control c).uninterrupted = false) (regs : Nat) :
    (s.withSched (s.sched.tick regs)).JoinInv := by
  rcases tick_cases inv.kernel.ring regs with ⟨hidle, hsame⟩ | ⟨c, q, -, hc, outcome⟩
  · have hnone : s.sched.current = none := hidle.elim (fun h => (inv.kernel.unstarted h).1) fun h => h
    rw [hsame]
    exact ⟨inv, fun c hc => absurd (hc.symm.trans hnone) (by simp)⟩
  set s' := s.withSched (s.sched.tick regs)
  have links : s.sched.SameLinks s'.sched := outcome.links
  have hstate : ∀ p, s'.state p = s.state p ∨ (s.state p = .ready ∨ s.state p = .running) ∧
      (s'.state p = .ready ∨ s'.state p = .running) :=
    tick_state_of_hasRunnable inv.kernel.ring runnable regs
  have hterm : ∀ p, s'.state p = .terminated ↔ s.state p = .terminated := fun p => by
    rcases hstate p with h | ⟨h | h, h' | h'⟩ <;> rw [h] <;> simp [*]
  have hblocked : ∀ p, s'.state p = .blocked ↔ s.state p = .blocked := fun p => by
    rcases hstate p with h | ⟨h | h, h' | h'⟩ <;> rw [h] <;> simp [*]
  have hawake : ∀ p, s'.state p = .ready ∨ s'.state p = .running →
      s.state p = .ready ∨ s.state p = .running := fun p h => by
    rcases hstate p with h' | ⟨h', -⟩
    · rwa [h'] at h
    · exact h'
  have hreleasing : ∀ u, ¬ s.Releasing u := fun u h => by
    have := uninterrupted_of_releasing (role_eq hc h)
    rw [hquiet c hc] at this
    cases this
  have hwaking : ∀ u, ¬ s.Waking u := fun u ⟨c', hc', h⟩ =>
    hreleasing u ⟨c', hc', releasing_of_waking h⟩
  have kept : Kept s s' := .of_links (inv.kernel.next (a := .tick regs) rfl) links hterm
  refine ⟨kept.joinCore inv (fun h => ?_) (fun p => ?_) fun u h => absurd h (hreleasing u),
    fun c' hc' => .inl ?_⟩
  · exact absurd (outcome.current.symm.trans h) (by simp)
  · refine (inv.point p).frame (fun hun h => ?_) (fun id t => kept.names) fun t _ sleeper => ?_
    · rw [hquiet p h] at hun
      cases hun
    · refine ⟨fun hb => ?_, fun hb he => ?_, fun hr => ?_⟩
      · rw [parent, links.waitingParent]
        exact sleeper.asleep ((hblocked p).mp hb)
      · exact absurd (sleeper.waking ((hblocked p).mp hb) ((hterm t).mp he)) (hwaking t)
      · exact (hterm t).mpr (sleeper.awake (hawake p hr))
  · obtain rfl : q = c' := Option.some.inj (outcome.current.symm.trans hc')
    exact (outcome.state q).trans (if_pos rfl)

/-- The `yield` of `blockCurrent`. -/
theorem JoinCore.yield {wait : Option (Nat × Nat)} (inv : s.JoinCore)
    (hc : s.sched.current = some c) (hpc : s.control c = .yield wait)
    (runnable : s.sched.HasRunnable) (regs : Nat) :
    ((s.withSched (s.sched.tick regs)).goto c (.afterYield wait)).JoinInv := by
  have hpoint := inv.point c
  rw [hpc] at hpoint
  have moved : (s.goto c (.afterYield wait)).JoinCore := by
    refine inv.move hc (.goto inv c _) ?_ (fun t ht hslot => ?_) (by simp [hpc]) (by simp [hpc])
      inv.returned
    · cases wait with
      | none => trivial
      | some w =>
        obtain ⟨hnames, sleeper⟩ := hpoint
        refine ⟨hnames, sleeper.asleep, fun hb he => ?_, sleeper.awake⟩
        have := role_eq hc (sleeper.waking hb he)
        simp [hpc] at this
    · cases wait with
      | none => simp [hpc] at ht
      | some w => exact .inr (by simpa [hpc, afterYield] using ht)
  refine moved.tick runnable (fun c' hc' => ?_) regs
  obtain rfl : c = c' := Option.some.inj (hc.symm.trans hc')
  cases wait <;> simp [goto, afterYield]

/-! ### All statements -/

section

variable (inv : s.JoinInv) (hc : s.sched.current = some c)
include inv hc

theorem JoinInv.killParent {f : KillFrame} (hpc : s.control c = .killParent f) :
    (match s.parent f.target with
      | some q => s.goto c (.wakeTest f q)
      | none => s.goto c (.killQueue f)).JoinInv := by
  have ended := inv.point c
  rw [hpc] at ended
  have hruns : s.RunsAt c (.killQueue f) := inv.runsAt hc hpc nofun rfl
  split
  · next q hslot =>
    refine ⟨inv.move hc (.goto inv.toJoinCore c _) ⟨⟨hc, ended.target, ended.terminated⟩, hslot⟩
      (by simp [hpc]) (by simp [hpc]) (by simp [hpc]) inv.returned, ?_⟩
    exact (Moved.goto inv.toJoinCore c _).currentOk hc (hruns.imp_right (.imp_left (by simp)))
  · next hslot =>
    refine ⟨inv.move hc (.goto inv.toJoinCore c _) trivial (by simp [hpc]) (fun p t ht _ h => ?_)
      (fun p t ht h => ?_) inv.returned, (Moved.goto inv.toJoinCore c _).currentOk hc hruns⟩
    all_goals
      obtain rfl : f.target = t := by simpa [hpc] using ht
      rw [hslot] at h
      cases h

theorem JoinInv.wakeTest {f : KillFrame} (hpc : s.control c = .wakeTest f q) :
    (if s.state q = .blocked then s.goto c (.wakeSet f q)
      else s.goto c (.killClear f)).JoinInv := by
  have hpoint := inv.point c
  rw [hpc] at hpoint
  obtain ⟨ended, hslot⟩ := hpoint
  split_ifs with hblocked
  · refine ⟨inv.move hc (.goto inv.toJoinCore c _)
      ⟨⟨hc, ended.target, ended.terminated⟩, hslot, hblocked⟩
      (by simp [hpc]) (by simp [hpc]) (by simp [hpc]) inv.returned, ?_⟩
    exact (Moved.goto inv.toJoinCore c _).currentOk hc (inv.runsAt hc hpc nofun rfl)
  · refine ⟨inv.move hc (.goto inv.toJoinCore c _) ⟨hc, ended.target, ended.terminated⟩
      (by simp [hpc]) (fun p t ht hb h => ?_) (by simp [hpc]) inv.returned, ?_⟩
    · obtain rfl : f.target = t := by simpa [hpc] using ht
      obtain rfl : q = p := Option.some.inj (hslot.symm.trans h)
      exact absurd hb hblocked
    · exact (Moved.goto inv.toJoinCore c _).currentOk hc (inv.runsAt hc hpc nofun rfl)

/-- One statement of the current task. -/
theorem JoinInv.exec {regs : Nat} (guard : s.Undisturbed (.exec regs))
    (h : s.exec c regs = some s') : s'.JoinInv := by
  have hguard := guard c hc
  have hpoint := inv.point c
  have core := inv.toJoinCore
  unfold JoinState.exec at h
  cases hpc : s.control c with rw [hpc] at h hguard hpoint
  | outside => cases h
  | halted => cases h
  | waitFind id =>
    cases h
    refine inv.goto_quiet hc hpc rfl rfl (fun t ht => ?_) (inv.runsAt hc hpc (by simp) rfl)
    exact findTaskById_some core.kernel.ring ht
  | waitNull id target =>
    cases target with
    | none =>
      cases h
      exact inv.waitNull hc hpc
    | some t =>
      cases h
      exact inv.goto_quiet hc hpc rfl rfl (hpoint t rfl)
        (inv.runsAt hc hpc (by simp) rfl)
  | waitTest id t =>
    have hrun := inv.running hc hpc (by simp) rfl
    cases h
    split_ifs with halive
    · exact inv.goto_quiet hc hpc rfl rfl ⟨hpoint, hc, halive⟩ (.inl hrun)
    · have hend : s.state t = .terminated := not_not.mp halive
      refine inv.goto_quiet hc hpc rfl rfl ⟨hpoint, fun hb => ?_, fun hb => ?_,
        fun _ => hend⟩ (.inl hrun)
      all_goals exact absurd (hrun.symm.trans hb) (by simp)
  | waitRegister id t =>
    have hrun := inv.running hc hpc (by simp) rfl
    cases h
    exact ⟨core.waitRegister hc hpc hguard, currentOk_write hc (.inl hrun) fun _ => .inl rfl⟩
  | waitRead id t =>
    cases h
    exact inv.waitRead hc hpc
  | block wait =>
    have hrun := inv.running hc hpc (by simp) rfl
    cases h
    refine ⟨core.block hc hpc hrun, fun c' hc' => .inr (.inl ?_)⟩
    obtain rfl : c = c' := Option.some.inj (hc.symm.trans hc')
    refine ⟨?_, wait, by simp [goto]⟩
    change ((s.sched.setState c .blocked).task c).state ≠ _
    simp [setState_state]
  | yield wait =>
    cases h
    exact core.yield hc hpc hguard regs
  | killFind id exitCode =>
    cases h
    refine inv.goto_quiet hc hpc rfl rfl (fun t ht => ?_) (inv.runsAt hc hpc (by simp) rfl)
    exact (findTaskById_some core.kernel.ring ht).1
  | killTest id exitCode target =>
    have hrun := inv.running hc hpc (by simp) rfl
    cases target with
    | none =>
      cases h
      exact inv.goto_quiet hc hpc rfl rfl trivial (.inl hrun)
    | some t =>
      cases h
      split_ifs with hend
      · exact inv.goto_quiet hc hpc rfl rfl trivial (.inl hrun)
      · exact inv.goto_quiet hc hpc rfl rfl ⟨hc, hpoint t rfl, hend⟩ (.inl hrun)
  | killSelf id exitCode t =>
    have hrun := inv.running hc hpc (by simp) rfl
    cases h
    exact inv.goto_quiet hc hpc rfl rfl ⟨hc, hpoint.2.1, hpoint.2.2, rfl⟩
      (.inl hrun)
  | killCode f =>
    have hrun := inv.running hc hpc (by simp) rfl
    cases h
    exact ⟨core.killCode hc hpc, currentOk_write hc (.inl hrun) fun _ => .inl rfl⟩
  | killState f =>
    have hrun := inv.running hc hpc (by simp) rfl
    dsimp only at h
    rw [if_neg hpoint.1.alive] at h
    cases h
    refine ⟨core.killState hc hpc, ?_⟩
    refine currentOk_write hc (f := fun t => { t with state := .terminated }) (.inl hrun)
      fun htc => .inr ?_
    exact hpoint.1.itself.trans (decide_eq_true htc.symm)
  | killParent f =>
    cases h
    exact inv.killParent hc hpc
  | wakeTest f q =>
    cases h
    exact inv.wakeTest hc hpc
  | wakeSet f q =>
    cases h
    have hruns : s.RunsAt c (.killClear f) := inv.runsAt hc hpc (by simp) rfl
    refine ⟨core.wakeSet hc hpc, currentOk_write hc hruns fun hcq => ?_⟩
    have hblocked : s.state c = .blocked := hcq ▸ hpoint.2.2
    rcases hruns with hrun | ⟨-, wait, h⟩ | h
    · exact absurd (hrun.symm.trans hblocked) (by simp)
    · cases h
    · exact .inr h
  | killClear f =>
    cases h
    exact ⟨core.killClear hc hpc,
      currentOk_write hc (inv.runsAt hc hpc (by simp) rfl) fun _ => .inl rfl⟩
  | killQueue f =>
    cases h
    exact inv.enqueue hc hpc rfl rfl (inv.runsAt hc hpc (by simp) rfl) fun _ => trivial
  | killQueueAgain f =>
    cases h
    exact inv.enqueue hc hpc rfl rfl (inv.runsAt hc hpc (by simp) rfl) fun _ => trivial
  | killFocus f =>
    cases h
    split_ifs
    all_goals
      exact inv.goto_quiet hc hpc rfl rfl trivial (inv.runsAt hc hpc (by simp) rfl)
  | killUnfocus f =>
    cases h
    have m : Moved s ({ s with kernel := { s.kernel with keyboard := s.kernel.keyboard.setFocus 0 } }.goto
        c (.killEnd f)) c (.killEnd f) :=
      ⟨⟨⟨core.kernel.ring, core.kernel.unstarted⟩, rfl, rfl, rfl, fun _ => rfl⟩, rfl, rfl⟩
    exact ⟨core.move_quiet hc m trivial (by simp [hpc]) (by simp [hpc]) core.returned,
      m.currentOk hc (inv.runsAt hc hpc (by simp) rfl)⟩
  | killEnd f =>
    cases h
    have hruns : s.RunsAt c (.killEnd f) := inv.runsAt hc hpc (by simp) rfl
    refine inv.goto_quiet hc hpc rfl rfl (by split_ifs <;> trivial) ?_
    split_ifs with hself
    · exact .inr (.inr rfl)
    · rcases hruns with hrun | ⟨-, wait, h⟩ | h
      · exact .inl hrun
      · cases h
      · exact absurd h hself

end

/-! ### The other actions -/

theorem JoinInv.call {pc : Nat → ControlPoint} (inv : s.JoinInv) (h : s.call pc = some s')
    (hnew : ∀ c, (s.goto c (pc c)).PointOk c (pc c)) (hself : ∀ c, (pc c).endsSelf = false) :
    s'.JoinInv := by
  obtain ⟨c, hc, h⟩ := Option.bind_eq_some_iff.mp h
  split_ifs at h with hout
  cases h
  exact inv.goto_quiet hc hout rfl rfl (hnew c) (inv.runsAt hc hout nofun (hself c).symm)

/-- A step of the environment: the current task is the same, and only the state of a task
that is registered nowhere may change. -/
structure Environment (s s' : JoinState) : Prop extends Kept s s' where
  current : s'.sched.current = s.sched.current
  registered : ∀ p < s.sched.count, (s.control p).registeredOn ≠ none → s'.state p = s.state p
  running : ∀ p < s.sched.count, s.state p = .running → s'.state p = .running

namespace Environment

variable (env : Environment s s')
include env

theorem waking (h : s.Waking t) : s'.Waking t := by
  obtain ⟨c, hc, h⟩ := h
  exact ⟨c, env.current.trans hc, by rwa [env.control]⟩

theorem releasing (h : s.Releasing t) : s'.Releasing t := by
  obtain ⟨c, hc, h⟩ := h
  exact ⟨c, env.current.trans hc, by rwa [env.control]⟩

theorem sleeper (hp : p < s.sched.count) (ht : t < s.sched.count)
    (hsleep : (s.control p).sleepsOn = some t) (sleeper : s.Sleeper p t) : s'.Sleeper p t := by
  have hstate : s'.state p = s.state p :=
    env.registered p hp (by rw [registeredOn_of_sleepsOn hsleep]; exact Option.some_ne_none t)
  refine ⟨fun hb => ?_, fun hb he => ?_, fun hr => ?_⟩
  · rw [env.parent t ht]
    exact sleeper.asleep (hstate ▸ hb)
  · exact env.waking (sleeper.waking (hstate ▸ hb) ((env.terminated t ht).mp he))
  · exact (env.terminated t ht).mpr (sleeper.awake (by rwa [hstate] at hr))

theorem ended {f : KillFrame} (h : s.Ended p f) : s'.Ended p f where
  current := env.current.trans h.current
  target := h.target.trans_le env.count
  terminated := (env.terminated _ h.target).mpr h.terminated

theorem ending {f : KillFrame} (h : s.Ending p f) : s'.Ending p f where
  current := env.current.trans h.current
  target := h.target.trans_le env.count
  alive := mt (env.terminated _ h.target).mp h.alive
  itself := h.itself

theorem point (inv : s.JoinCore) (p : Nat) : s'.PointOk p (s.control p) := by
  have h := inv.point p
  have hlt : s.control p ≠ .outside → p < s.sched.count := fun hp => by
    by_contra hge
    exact hp (inv.fresh p (by omega))
  cases hpc : s.control p with rw [hpc] at h
  | waitNull id target => exact fun t ht => env.names (h t ht)
  | waitTest id t => exact env.names h
  | waitRegister id t =>
    exact ⟨env.names h.1, env.current.trans h.2.1, mt (env.terminated t h.1.1).mp h.2.2⟩
  | waitRead id t =>
    exact ⟨env.names h.1, env.sleeper (hlt (by simp [hpc])) h.1.1 (by simp [hpc]) h.2⟩
  | block wait =>
    cases wait with
    | none => trivial
    | some w =>
      exact ⟨env.names h.1, env.current.trans h.2.1, mt (env.terminated _ h.1.1).mp h.2.2.1,
        (env.parent _ h.1.1).trans h.2.2.2⟩
  | yield wait =>
    cases wait with
    | none => trivial
    | some w => exact ⟨env.names h.1, env.sleeper (hlt (by simp [hpc])) h.1.1 (by simp [hpc]) h.2⟩
  | killTest id exitCode target => exact fun t ht => (h t ht).trans_le env.count
  | killSelf id exitCode t =>
    exact ⟨env.current.trans h.1, h.2.1.trans_le env.count, mt (env.terminated t h.2.1).mp h.2.2⟩
  | killCode f => exact env.ending h
  | killState f => exact ⟨env.ending h.1, (env.exitCode _ h.1.target).trans h.2⟩
  | killParent f => exact env.ended h
  | wakeTest f q => exact ⟨env.ended h.1, (env.parent _ h.1.target).trans h.2⟩
  | wakeSet f q =>
    obtain ⟨ended, hslot, hblocked⟩ := h
    -- the waiter holds the slot, so it is registered and the step leaves it alone
    obtain ⟨hq, hrole⟩ := inv.slot _ q ended.target hslot
    have hreg := hrole.resolve_left (by simp [hblocked])
    exact ⟨env.ended ended, (env.parent _ ended.target).trans hslot,
      (env.registered q hq (by rw [hreg]; exact Option.some_ne_none _)).trans hblocked⟩
  | killClear f => exact env.ended h
  | _ => trivial

theorem joinInv (inv : s.JoinInv) : s'.JoinInv where
  toJoinCore := env.joinCore inv.toJoinCore (fun h => inv.idle (env.current ▸ h))
    (env.point inv.toJoinCore) fun _ => env.releasing
  currentOk c hc := by
    rw [env.current] at hc
    have hlt := inv.kernel.ring.current_lt c hc
    rw [env.control]
    exact (inv.currentOk c hc).imp (env.running c hlt)
      (.imp_left fun h => ⟨mt (env.terminated c hlt).mp h.1, h.2⟩)

end Environment

/-- An interrupt handler wakes a task that is not registered with a target. -/
theorem Environment.wake (inv : s.JoinInv) (hp : p < s.sched.count)
    (hout : (s.control p).registeredOn = none) :
    Environment s (s.withSched (s.sched.wake p)) := by
  have links := sameLinks_wake s.sched p
  have hstate : ∀ q, (s.withSched (s.sched.wake p)).state q =
      if q = p ∧ s.state q = .blocked then .ready else s.state q := fun q => wake_state
  have hterm : ∀ q, ((s.sched.wake p).task q).state = .terminated ↔ s.state q = .terminated := by
    intro q
    rw [wake_state]
    split_ifs with h
    · simp [h.2]
    · rfl
  have hkernel : (s.withSched (s.sched.wake p)).kernel.Inv :=
    inv.kernel.next (a := .wake p) (by simp [Kernel.next, hp]; rfl)
  refine ⟨.of_links hkernel links hterm, wake_current, fun q _ hreg => ?_, fun q _ hrun => ?_⟩
  · have hq : q ≠ p := fun h => hreg (h ▸ hout)
    rw [hstate, if_neg (by simp [hq])]
  · rw [hstate, if_neg (by simp [hrun])]
    exact hrun

theorem Environment.refl (inv : s.JoinInv) : Environment s s where
  kernel := inv.kernel
  count := le_rfl
  current := rfl
  control := rfl
  returned := rfl
  endedWith := rfl
  id _ _ := rfl
  exitCode _ _ := rfl
  parent _ _ := rfl
  terminated _ _ := Iff.rfl
  registered _ _ _ := rfl
  running _ _ h := h
  added t hge hlt := absurd hlt (by omega)

theorem Environment.createTask {mem : TaskMemory} {stackSize : Nat} {k : Kernel}
    (inv : s.JoinInv) (h : s.kernel.next (.createTask mem stackSize) = some k) :
    Environment s { s with kernel := k } := by
  have hkernel : k.Inv := inv.kernel.next h
  simp only [Kernel.next] at h
  split_ifs at h
  cases h
  rcases createTask_cases s.sched mem stackSize with hsame | created
  · rw [hsame]
    exact .refl inv
  · have old : ∀ {β : Type} (field : Task → β), (∀ t n, field { t with next := n } = field t) →
        ∀ t < s.sched.count, field ((s.sched.createTask mem stackSize).1.task t) =
          field (s.sched.task t) :=
      fun field hfield t ht => created.field_of_lt field hfield ht
    refine
      { kernel := hkernel
        count := created.count ▸ Nat.le_succ _
        current := created.current
        control := rfl
        returned := rfl
        endedWith := rfl
        id := old Task.id fun _ _ => rfl
        exitCode := old exitCode fun _ _ => rfl
        parent := old waitingParent fun _ _ => rfl
        terminated := fun t ht => by rw [state, old Task.state (fun _ _ => rfl) t ht]
        registered := fun q hq _ => old Task.state (fun _ _ => rfl) q hq
        running := fun q hq hrun => (old Task.state (fun _ _ => rfl) q hq).trans hrun
        added := fun t hge hlt => ?_ }
    obtain rfl : t = s.sched.count := by
      have : t < s.sched.count + 1 := created.count ▸ hlt
      omega
    have hnew : ∀ {β : Type} (field : Task → β), (∀ t n, field { t with next := n } = field t) →
        field ((s.sched.createTask mem stackSize).1.task s.sched.count) =
          field (s.sched.newTask mem stackSize) :=
      fun field hfield => (created.field field hfield _).trans (if_pos rfl)
    refine ⟨?_, hnew waitingParent fun _ _ => rfl⟩
    rw [state, hnew Task.state fun _ _ => rfl]
    simp [newTask]

theorem JoinInv.start {k : Kernel} (inv : s.JoinInv) (h : s.kernel.next .start = some k) :
    { s with kernel := k : JoinState }.JoinInv := by
  have hkernel : k.Inv := inv.kernel.next h
  simp only [Kernel.next] at h
  split_ifs at h with hstarted
  obtain ⟨sched, hs, rfl⟩ := Option.map_eq_some_iff.mp h
  obtain ⟨hnone, hready⟩ := inv.kernel.unstarted (by simpa using hstarted)
  have hout := inv.idle hnone
  obtain ⟨first, started⟩ := start_cases hs
  have halive : ∀ p < s.sched.count, s.state p ≠ .terminated := fun p hp => by
    rw [state, hready p hp]
    simp
  have halive' : ∀ p < s.sched.count, (sched.task p).state ≠ .terminated := fun p hp => by
    rw [started.state]
    split_ifs
    · simp
    · exact halive p hp
  have kept : Kept s { s with kernel := { s.kernel with sched } } :=
    { kernel := hkernel
      count := started.count.ge
      control := rfl
      returned := rfl
      endedWith := rfl
      id := fun t _ => started.field Task.id (fun _ _ => rfl) t
      exitCode := fun t _ => started.field exitCode (fun _ _ => rfl) t
      parent := fun t _ => started.field waitingParent (fun _ _ => rfl) t
      terminated := fun t ht => iff_of_false (halive' t ht) (halive t ht)
      added := fun t hge hlt => absurd (started.count ▸ hlt) (Nat.not_lt.mpr hge) }
  refine ⟨kept.joinCore inv.toJoinCore (fun _ => hout) (fun p => ?_) fun t h => ?_,
    fun c hc => .inl ?_⟩
  · rw [hout p]
    trivial
  · obtain ⟨c, hc, -⟩ := h
    rw [hnone] at hc
    cases hc
  · obtain rfl : first = c := Option.some.inj (started.current.symm.trans hc)
    exact (started.state first).trans (if_pos rfl)

/-- Every step of an undisturbed run keeps the invariant. -/
theorem JoinInv.next {a : JoinAction} (inv : s.JoinInv) (guard : s.Undisturbed a)
    (h : s.next a = some s') : s'.JoinInv := by
  cases a with
  | createTask mem stackSize =>
    obtain ⟨k, hk, rfl⟩ := Option.map_eq_some_iff.mp h
    exact (Environment.createTask inv hk).joinInv inv
  | start =>
    obtain ⟨k, hk, rfl⟩ := Option.map_eq_some_iff.mp h
    exact inv.start hk
  | tick regs =>
    cases h
    exact inv.toJoinCore.tick guard.1 guard.2 regs
  | wake p =>
    simp only [JoinState.next] at h
    split_ifs at h with hp
    cases h
    exact (Environment.wake inv hp guard).joinInv inv
  | waitForTask id => exact inv.call h (fun _ => trivial) fun _ => rfl
  | killTask id exitCode => exact inv.call h (fun _ => trivial) fun _ => rfl
  | exitTask exitCode => exact inv.call h (fun _ => trivial) fun _ => rfl
  | blockCurrent => exact inv.call h (fun _ => trivial) fun _ => rfl
  | exec regs =>
    obtain ⟨c, hc, h⟩ := Option.bind_eq_some_iff.mp h
    exact inv.exec hc guard h

theorem joinInv_of_reachable (h : (joinSystem.restrict Undisturbed).Reachable s) : s.JoinInv := by
  refine h.invariant JoinInv (fun s hs => ?_) fun s a s' inv step => ?_
  swap
  · exact inv.next step.1 step.2
  obtain ⟨⟨sched, hcount, hsched⟩, hcontrol, hreturned, hended⟩ := hs
  have hzero : s.sched.count = 0 := hsched ▸ hcount
  have hnone : s.sched.current = none := by
    rw [hsched]
    rfl
  have hout : ∀ p, s.control p = .outside := fun p => by rw [hcontrol]
  have hkernel : s.kernel.Inv := Kernel.inv_of_reachable (.init ⟨sched, hcount, hsched⟩)
  refine ⟨⟨hkernel, fun p _ => hout p, fun _ => hout, fun p => ?_, fun t p ht => ?_,
    fun t p ht => ?_, fun t ht => ?_, fun t _ => by rw [hended], fun r hr => ?_⟩, fun c hc => ?_⟩
  · rw [hout p]
    trivial
  · exact absurd ht (by omega)
  · exact absurd ht (by omega)
  · exact absurd ht (by omega)
  · simp [hreturned] at hr
  · exact absurd (hnone.symm.trans hc) (by simp)

theorem JoinCore.sleeper (inv : s.JoinCore) (h : s.WaitsFor p t) : s.Sleeper p t := by
  have hpoint := inv.point p
  unfold WaitsFor at h
  cases hpc : s.control p with
  | waitRead id u =>
    rw [hpc] at h hpoint
    obtain rfl : u = t := Option.some.inj h
    exact hpoint.2
  | yield wait =>
    rw [hpc] at h hpoint
    cases wait with
    | none => cases h
    | some w =>
      obtain rfl : w.2 = t := Option.some.inj h
      exact hpoint.2
  | _ =>
    rw [hpc] at h
    cases h

section WakeUp

variable {f : KillFrame} (hc : s.sched.current = some c)
include hc

theorem next_exec (regs : Nat) : s.next (.exec regs) = s.exec c regs := by
  change s.sched.current.bind _ = _
  rw [hc]
  rfl

theorem ready_of_wakeSet (hpc : s.control c = .wakeSet f p) :
    ∃ s', runActions next s (List.replicate 1 (.exec 0)) = some s' ∧
      s'.state p = .ready := by
  refine ⟨(s.withSched (s.sched.setState p .ready)).goto c (.killClear f), ?_, ?_⟩
  · simp [runActions, next_exec hc, exec, hpc]
  · exact (setState_state _).trans (if_pos rfl)

theorem ready_of_wakeTest (hpc : s.control c = .wakeTest f p) (hblocked : s.state p = .blocked) :
    ∃ s', runActions next s (List.replicate 2 (.exec 0)) = some s' ∧
      s'.state p = .ready := by
  have hstep : s.next (.exec 0) = some (s.goto c (.wakeSet f p)) := by
    simp [next_exec hc, exec, hpc, hblocked]
  obtain ⟨s', hrun, hready⟩ := ready_of_wakeSet (s := s.goto c (.wakeSet f p)) (p := p) (f := f) hc
    (by simp [goto])
  exact ⟨s', by rw [List.replicate_succ, runActions, hstep]; exact hrun, hready⟩

theorem ready_of_killParent (hpc : s.control c = .killParent f) (hslot : s.parent f.target = some p)
    (hblocked : s.state p = .blocked) :
    ∃ s', runActions next s (List.replicate 3 (.exec 0)) = some s' ∧
      s'.state p = .ready := by
  have hstep : s.next (.exec 0) = some (s.goto c (.wakeTest f p)) := by
    simp [next_exec hc, exec, hpc, hslot]
  obtain ⟨s', hrun, hready⟩ := ready_of_wakeTest (s := s.goto c (.wakeTest f p)) (f := f) hc
    (by simp [goto]) hblocked
  exact ⟨s', by rw [List.replicate_succ, runActions, hstep]; exact hrun, hready⟩

end WakeUp

/-- A wake-up that is under way: after at most three more statements of the
current task the waiter is ready. -/
theorem WakeUnderWay.ready (inv : s.JoinInv) (h : s.WakeUnderWay p t)
    (hblocked : s.state p = .blocked) :
    ∃ n ≤ 3, ∃ s', runActions next s (List.replicate n (.exec 0)) = some s' ∧
      s'.state p = .ready := by
  obtain ⟨hslot, c, hc, hwaking⟩ := h
  have hpoint := inv.point c
  cases hpc : s.control c with rw [hpc] at hwaking hpoint
  | killParent f =>
    obtain rfl : f.target = t := Option.some.inj hwaking
    exact ⟨3, le_rfl, ready_of_killParent hc hpc hslot hblocked⟩
  | wakeTest f q =>
    obtain rfl : f.target = t := Option.some.inj hwaking
    obtain rfl : q = p := Option.some.inj (hpoint.2.symm.trans hslot)
    exact ⟨2, by decide, ready_of_wakeTest hc hpc hblocked⟩
  | wakeSet f q =>
    obtain rfl : f.target = t := Option.some.inj hwaking
    obtain rfl : q = p := Option.some.inj (hpoint.2.1.symm.trans hslot)
    exact ⟨1, by decide, ready_of_wakeSet hc hpc⟩
  | _ => cases hwaking

end JoinState

/-- **`waitForTask` is a join in undisturbed runs.** In every state reached by
undisturbed steps, every call that returned did so after its target had
terminated and with that task's exit code, and a task that is still blocked on a
terminated one is about to be made ready by the statements the current task
executes next. -/
theorem join_of_undisturbed {s : JoinState}
    (h : (joinSystem.restrict JoinState.Undisturbed).Reachable s) :
    s.ReturnsExitCode ∧ s.NoneLeftWaiting ∧
      ∀ p t, s.WakeUnderWay p t → (s.sched.task p).state = .blocked →
        ∃ n ≤ 3, ∃ s', runActions JoinState.next s (List.replicate n (.exec 0)) = some s' ∧
          (s'.sched.task p).state = .ready := by
  have inv := joinInv_of_reachable h
  refine ⟨fun r hr t ht => ?_, fun p t hwaits hblocked hend => ?_, fun p t hwake => hwake.ready inv⟩
  · obtain ⟨hnames, hended⟩ := inv.returned r hr t ht
    refine ⟨hnames.2, ?_, hended⟩
    by_contra halive
    rw [inv.unended t (.inr halive)] at hended
    cases hended
  · have sleeper := inv.sleeper hwaits
    exact ⟨sleeper.asleep hblocked, sleeper.waking hblocked hend⟩

/-! ## Runs -/

/-- A task enters a function and executes `n` statements. -/
def callAndExec (entry : JoinAction) (n : Nat) : List JoinAction :=
  entry :: List.replicate n (.exec 0)

/-- Two tasks. The first waits for the second, which exits with code 7; then the
first goes on and its call returns. -/
def joinRun : List JoinAction :=
  [.createTask plenty 16384, .createTask plenty 16384, .start] ++
    callAndExec (.waitForTask 2) 6 ++ callAndExec (.exitTask 7) 12 ++ [.tick 0] ++ [.exec 0]

/-- Three tasks. The first two wait for the third, which exits; then the second
goes on. -/
def twoWaitersRun : List JoinAction :=
  [.createTask plenty 16384, .createTask plenty 16384, .createTask plenty 16384, .start] ++
    callAndExec (.waitForTask 3) 6 ++ callAndExec (.waitForTask 3) 6 ++
    callAndExec (.exitTask 7) 12 ++ [.tick 0] ++ [.exec 0]

/-- Two tasks. The second blocks itself; then the first waits for it, and since
nobody is ready the tick resumes it at once. -/
def idleTickRun : List JoinAction :=
  [.createTask plenty 16384, .createTask plenty 16384, .start, .tick 0] ++
    callAndExec .blockCurrent 2 ++ callAndExec (.waitForTask 2) 7

def joinBoot : JoinState := ⟨boot, fun _ => .outside, [], fun _ => none⟩

theorem joinBoot_init : joinSystem.init joinBoot := ⟨⟨_, rfl, rfl⟩, rfl, rfl, rfl⟩

@[irreducible] def joinedState : JoinState :=
  (runActions (guarded JoinState.next JoinState.Undisturbed) joinBoot joinRun).get
    (by decide +kernel)

@[irreducible] def twoWaitersState : JoinState :=
  (runActions JoinState.next joinBoot twoWaitersRun).get (by decide +kernel)

@[irreducible] def idleTickState : JoinState :=
  (runActions JoinState.next joinBoot idleTickRun).get (by decide +kernel)

theorem joinedState_reachable :
    (joinSystem.restrict Undisturbed).Reachable joinedState := by
  unfold joinedState
  exact reachable_get_guarded _ joinBoot_init _

theorem twoWaitersState_reachable : joinSystem.Reachable twoWaitersState := by
  unfold twoWaitersState
  exact reachable_get_runActions _ (.init joinBoot_init) _

theorem idleTickState_reachable : joinSystem.Reachable idleTickState := by
  unfold idleTickState
  exact reachable_get_runActions _ (.init joinBoot_init) _

theorem joinedState_returned : joinedState.returned = [⟨2, some 1, 7⟩] := by decide +kernel

theorem joinedState_join :
    joinedState.returned = [⟨2, some 1, 7⟩] ∧ joinedState.ReturnsExitCode ∧
      joinedState.NoneLeftWaiting :=
  ⟨joinedState_returned, (join_of_undisturbed joinedState_reachable).1,
    (join_of_undisturbed joinedState_reachable).2.1⟩

theorem twoWaitersState_sleeper :
    (twoWaitersState.control 0).sleepsOn = some 2 ∧
      (twoWaitersState.sched.task 0).state = .blocked ∧
      (twoWaitersState.sched.task 2).state = .terminated ∧
      (twoWaitersState.sched.task 2).waitingParent = none := by decide +kernel

theorem idleTickState_returned :
    idleTickState.returned = [⟨2, some 1, 0⟩] ∧ idleTickState.endedWith 1 = none ∧
      (idleTickState.sched.task 1).state = .blocked := by decide +kernel

/-- Disturbed runs break both halves. With two waiters the second takes the slot,
and after the target has ended the first is still blocked while the slot is
empty. A waiter resumed by a tick that found nobody ready returns although its
target is only blocked. -/
theorem not_join :
    (joinSystem.Reachable twoWaitersState ∧ twoWaitersState.WaitsFor 0 2 ∧
      (twoWaitersState.sched.task 0).state = .blocked ∧
      (twoWaitersState.sched.task 2).state = .terminated ∧
      ¬ twoWaitersState.NoneLeftWaiting) ∧
    (joinSystem.Reachable idleTickState ∧ idleTickState.returned = [⟨2, some 1, 0⟩] ∧
      (idleTickState.sched.task 1).state = .blocked ∧ ¬ idleTickState.ReturnsExitCode) := by
  obtain ⟨hwaits, hblocked, hend, hslot⟩ := twoWaitersState_sleeper
  obtain ⟨hreturned, hended, halive⟩ := idleTickState_returned
  refine ⟨⟨twoWaitersState_reachable, hwaits, hblocked, hend, fun h => ?_⟩,
    ⟨idleTickState_reachable, hreturned, halive, fun h => ?_⟩⟩
  · have := (h 0 2 hwaits hblocked hend).1
    rw [hslot] at this
    cases this
  · have := (h ⟨2, some 1, 0⟩ (by simp [hreturned]) 1 rfl).2.2
    rw [hended] at this
    cases this

end WengShiOS.Scheduler
