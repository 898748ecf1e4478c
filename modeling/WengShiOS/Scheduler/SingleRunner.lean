import WengShiOS.Scheduler.Dispatch

/-! # The ring and its single runner

What holds in every state of the scheduler, whatever calls led to it: the ring is
traversed in the order of creation, so both searches end and an id finds its task;
at most one task is running, and it is the current one. After every tick of a started
scheduler there is exactly one, and its saved stack pointer is the one that the
interrupt stub will load. -/

namespace WengShiOS.Scheduler

open Math Drivers Sched

namespace Sched

variable {s : Sched} {c p q id : Nat} {found : Task → Bool} {origin : Nat}

/-- The loop `do { if (found) return candidate; candidate = candidate->next; }
while (candidate != start); return nullptr;` ends with the given result. -/
inductive DoWhile (s : Sched) (found : Task → Bool) (start : Nat) : Nat → Option Nat → Prop
  | hit {c : Nat} : found (s.task c) = true → DoWhile s found start c (some c)
  | around {c : Nat} : found (s.task c) = false → (s.task c).next = start →
    DoWhile s found start c none
  | step {c : Nat} {r : Option Nat} : found (s.task c) = false → (s.task c).next ≠ start →
    DoWhile s found start (s.task c).next r → DoWhile s found start c r

/-- The loop ends within one round, with the result of the bounded walk. The induction is
on the steps that remain of the round. -/
theorem Ring.doWhile_walk {k fuel : Nat} (ring : Ring s) (horigin : origin < s.count)
    (hfuel : 0 < fuel) (hk : k + fuel = s.count) :
    DoWhile s found origin ((origin + k) % s.count)
      (s.walk found origin fuel ((origin + k) % s.count)) := by
  have hpos : 0 < s.count := by omega
  induction fuel generalizing k with
  | zero => omega
  | succ fuel ih =>
    have hnext : (s.task ((origin + k) % s.count)).next = (origin + (k + 1)) % s.count := by
      rw [ring.next_eq _ (Nat.mod_lt _ hpos), Nat.mod_add_mod, Nat.add_assoc]
    rw [walk]
    split_ifs with hfound hend
    · exact .hit hfound
    · exact .around (by simpa using hfound) hend
    · refine .step (by simpa using hfound) hend ?_
      rw [hnext] at hend ⊢
      refine ih ?_ (by omega)
      -- the last task of the round leads back to `origin`
      by_contra hlast
      have hround : k + 1 = s.count := by omega
      rw [hround, Nat.add_mod_right, Nat.mod_eq_of_lt horigin] at hend
      exact hend rfl

theorem Ring.doWhile (ring : Ring s) (found : Task → Bool) (horigin : origin < s.count) :
    DoWhile s found origin origin (s.walk found origin s.count origin) := by
  have h : DoWhile s found origin ((origin + 0) % s.count) _ :=
    ring.doWhile_walk horigin (by omega) (Nat.zero_add s.count)
  rwa [Nat.add_zero, Nat.mod_eq_of_lt horigin] at h

/-- Following `next` from the first task, the `i`-th step is at the `i`-th task. -/
theorem Ring.iterate_next (ring : Ring s) {i : Nat} (hi : i ≤ s.count) (hpos : 0 < s.count) :
    (fun p => (s.task p).next)^[i] 0 = i % s.count := by
  induction i with
  | zero => rw [Nat.zero_mod]; rfl
  | succ i ih =>
    rw [Function.iterate_succ_apply', ih (by omega), ring.next_eq _ (Nat.mod_lt _ hpos),
      Nat.mod_add_mod]

/-- The ids count the tasks. -/
structure Ids (s : Sched) : Prop where
  nextId : s.nextId = (s.count + 1) % 2 ^ 32
  id : ∀ p < s.count, (s.task p).id = (p + 1) % 2 ^ 32

theorem Ids.unique (ids : Ids s) (hcount : s.count < 2 ^ 32) (hp : p < s.count) (hq : q < s.count)
    (h : (s.task p).id = (s.task q).id) : p = q := by
  rw [ids.id p hp, ids.id q hq] at h
  omega

/-- At most one task is running, and it is the current one. -/
def SingleRunner (s : Sched) : Prop :=
  ∀ p < s.count, (s.task p).state = .running → s.current = some p

theorem Ids.of_sameLinks {s' : Sched} (ids : Ids s) (links : SameLinks s s') : Ids s' where
  nextId := by rw [links.nextId, links.count, ids.nextId]
  id p hp := by
    rw [links.count] at hp
    rw [links.id, ids.id p hp]

theorem Ids.createTask (ids : Ids s) (mem : TaskMemory) (stackSize : Nat) :
    Ids (s.createTask mem stackSize).1 := by
  have hnextId : (s.createTask mem stackSize).1 = s ∨
      (s.createTask mem stackSize).1.nextId = (s.nextId + 1) % 2 ^ 32 := by
    unfold Sched.createTask
    split_ifs
    · exact .inl rfl
    · exact .inl rfl
    · cases s.tail <;> exact .inr rfl
  rcases createTask_cases s mem stackSize with hsame | created
  · rwa [hsame]
  rcases hnextId with hsame | hnextId
  · rwa [hsame]
  refine ⟨?_, fun p hp => ?_⟩
  · rw [hnextId, created.count, ids.nextId, Nat.mod_add_mod]
  · rw [created.count] at hp
    rw [created.field Task.id fun _ _ => rfl]
    split_ifs with hnew
    · rw [hnew]
      exact ids.nextId
    · exact ids.id p (by omega)

theorem SingleRunner.createTask (single : SingleRunner s) (mem : TaskMemory) (stackSize : Nat) :
    SingleRunner (s.createTask mem stackSize).1 := by
  rcases createTask_cases s mem stackSize with hsame | created
  · rwa [hsame]
  · intro p hp hrun
    rw [created.count] at hp
    rw [created.field Task.state fun _ _ => rfl] at hrun
    rw [created.current]
    split_ifs at hrun with hnew
    · cases hrun
    · exact single p (by omega) hrun

/-- The task a tick makes current is the only one that runs, from its saved stack pointer. -/
theorem tick_runner (ring : Ring s) (single : SingleRunner s) (hstarted : s.started = true)
    (hc : s.current = some c) (regs : Nat) :
    ∃ q < s.count, (s.tick regs).current = some q ∧
      (∀ p < s.count, ((s.tick regs).task p).state = .running ↔ p = q) ∧
      (s.tick regs).nextTaskRsp = ((s.tick regs).task q).rsp := by
  obtain ⟨q, outcome⟩ := tick_spec regs ring hstarted hc
  refine ⟨q, outcome.lt, outcome.current, fun p hp => ?_, ?_⟩
  · rw [outcome.state]
    split_ifs with hpq
    · simp [hpq]
    · refine iff_of_false (fun hrun => ?_) hpq
      -- nobody but the current task was running, and it was preempted
      unfold preempted at hrun
      split_ifs at hrun with hcurrent
      have hpc : c = p := Option.some.inj (hc.symm.trans (single p hp hrun))
      exact hcurrent ⟨hpc.symm, hrun⟩
  · have hcurrent := outcome.current
    unfold tick at hcurrent ⊢
    rw [hstarted, hc] at hcurrent ⊢
    dsimp only at hcurrent ⊢
    cases hnext : (s.preempt c regs).findNextReady c with
    | none =>
      rw [hnext] at hcurrent
      have hq : c = q := by
        have : (s.preempt c regs).current = some q := hcurrent
        rw [preempt_current, hc] at this
        exact Option.some.inj this
      simp [resume, setState, modify, hq]
    | some next =>
      rw [hnext] at hcurrent
      have hq : next = q := Option.some.inj hcurrent
      simp [dispatch, setState, hq]

theorem SingleRunner.tick (single : SingleRunner s) (ring : Ring s) (regs : Nat) :
    SingleRunner (s.tick regs) := by
  rcases tick_cases ring regs with ⟨-, hsame⟩ | ⟨c, -, hstarted, hc, -⟩
  · rwa [hsame]
  obtain ⟨q, -, hcurrent, hrunning, -⟩ := tick_runner ring single hstarted hc regs
  intro p hp hrun
  rw [(tick_sameLinks ring regs).count] at hp
  rw [hcurrent, (hrunning p hp).mp hrun]

theorem SingleRunner.markBlocked (single : SingleRunner s) (c : Nat) :
    SingleRunner (s.markBlocked c) := by
  intro p hp hrun
  rw [Sched.markBlocked, setState_state] at hrun
  split_ifs at hrun
  exact single p hp hrun

theorem SingleRunner.wake (single : SingleRunner s) (q : Nat) : SingleRunner (s.wake q) := by
  intro p hp hrun
  rw [(sameLinks_wake s q).count] at hp
  rw [wake_state] at hrun
  rw [wake_current]
  split_ifs at hrun
  exact single p hp hrun

theorem SingleRunner.start {s' : Sched} (hready : ∀ p < s.count, (s.task p).state = .ready)
    (h : s.start = some s') : SingleRunner s' := by
  obtain ⟨first, started⟩ := start_cases h
  intro p hp hrun
  rw [started.count] at hp
  rw [started.state] at hrun
  split_ifs at hrun with hfirst
  · rw [started.current, hfirst]
  · rw [hready p hp] at hrun
    cases hrun

end Sched

namespace Kernel

variable {k k' : Kernel} {a : Action}

theorem killTask_nextId (id : Nat) (exitCode : Int) :
    (k.killTask id exitCode).1.sched.nextId = k.sched.nextId := by
  have henqueue : ∀ (s : Sched) (p : Nat), (s.enqueueCleanup p).nextId = s.nextId := fun s p => by
    unfold enqueueCleanup
    split_ifs <;> rfl
  have hrelease : ∀ (s : Sched) (p : Nat), (s.releaseWaiter p).nextId = s.nextId := fun s p => by
    unfold releaseWaiter
    split
    · exact (sameLinks_wake s _).nextId
    · exact henqueue s p
  rcases killTask_sched k id exitCode with h | ⟨target, -, -, h⟩ <;> rw [h]
  rw [henqueue, hrelease]
  rfl

theorem next_ids (inv : k.Inv) (ids : k.sched.Ids) (h : k.next a = some k') : k'.sched.Ids := by
  rcases next_cases h with ⟨mem, stackSize, -, rfl⟩ | ⟨s, -, -, hs, rfl⟩ | ⟨regs, -, rfl⟩ |
    ⟨regs, c, -, -, -, rfl⟩ | ⟨p, -, -, rfl⟩ | ⟨id, exitCode, c, -, -, rfl⟩
  · exact ids.createTask mem stackSize
  · obtain ⟨first, started⟩ := start_cases hs
    have hnextId : s.nextId = k.sched.nextId := by
      obtain ⟨tail, -, rfl⟩ := Option.map_eq_some_iff.mp hs
      rfl
    refine ⟨by rw [hnextId, started.count, ids.nextId], fun p hp => ?_⟩
    rw [started.count] at hp
    exact (started.field Task.id (fun _ _ => rfl) p).trans (ids.id p hp)
  · exact ids.of_sameLinks (tick_sameLinks inv.ring regs)
  · exact (ids.of_sameLinks (sameLinks_setState k.sched c .blocked)).of_sameLinks
      (tick_sameLinks (inv.ring.setState c .blocked) regs)
  · exact ids.of_sameLinks (sameLinks_wake k.sched p)
  · refine ⟨by rw [killTask_nextId, killTask_count, ids.nextId], fun p hp => ?_⟩
    rw [killTask_count] at hp
    rw [killTask_id, ids.id p hp]

theorem next_singleRunner (inv : k.Inv) (single : k.sched.SingleRunner)
    (h : k.next a = some k') : k'.sched.SingleRunner := by
  rcases next_cases h with ⟨mem, stackSize, -, rfl⟩ | ⟨s, -, hstarted, hs, rfl⟩ | ⟨regs, -, rfl⟩ |
    ⟨regs, c, -, -, -, rfl⟩ | ⟨p, -, -, rfl⟩ | ⟨id, exitCode, c, -, -, rfl⟩
  · exact single.createTask mem stackSize
  · exact .start (inv.unstarted hstarted).2 hs
  · exact single.tick inv.ring regs
  · exact (single.markBlocked c).tick (inv.ring.setState c .blocked) regs
  · exact single.wake p
  · intro p hp hrun
    rw [killTask_count] at hp
    rw [killTask_current]
    rcases killTask_state (p := p) id exitCode with hsame | ⟨target, -, -, ⟨-, hend⟩ | ⟨-, -, -, hend⟩⟩
    · exact single p hp (hsame ▸ hrun)
    · rw [hrun] at hend
      cases hend
    · rw [hrun] at hend
      cases hend

/-- A started scheduler has a current task. -/
theorem next_current (inv : k.Inv) (current : k.sched.started = true → ∃ c, k.sched.current = some c)
    (h : k.next a = some k') (hstarted : k'.sched.started = true) :
    ∃ c, k'.sched.current = some c := by
  rcases next_cases h with ⟨mem, stackSize, -, rfl⟩ | ⟨s, -, -, hs, rfl⟩ | ⟨regs, -, rfl⟩ |
    ⟨regs, c, -, hc, -, rfl⟩ | ⟨p, -, -, rfl⟩ | ⟨id, exitCode, c, -, hc, rfl⟩
  · rcases createTask_cases k.sched mem stackSize with hsame | created
    · rw [hsame] at hstarted ⊢
      exact current hstarted
    · rw [created.started] at hstarted
      obtain ⟨c, hc⟩ := current hstarted
      exact ⟨c, created.current.trans hc⟩
  · obtain ⟨first, started⟩ := start_cases hs
    exact ⟨first, started.current⟩
  · rw [(tick_sameLinks inv.ring regs).started] at hstarted
    obtain ⟨c, hc⟩ := current hstarted
    obtain ⟨q, outcome⟩ := tick_spec regs inv.ring hstarted hc
    exact ⟨q, outcome.current⟩
  · have ring : (k.sched.markBlocked c).Ring := inv.ring.setState c .blocked
    rw [blockCurrent, (tick_sameLinks ring regs).started] at hstarted
    obtain ⟨q, outcome⟩ := tick_spec regs ring hstarted hc
    exact ⟨q, outcome.current⟩
  · rw [(sameLinks_wake k.sched p).started] at hstarted
    obtain ⟨c, hc⟩ := current hstarted
    exact ⟨c, wake_current.trans hc⟩
  · exact ⟨c, (killTask_current id exitCode).trans hc⟩

/-- What is kept by every call, beside the ring itself. -/
structure RunnerInv (k : Kernel) : Prop extends Inv k where
  ids : k.sched.Ids
  single : k.sched.SingleRunner
  current : k.sched.started = true → ∃ c, k.sched.current = some c

theorem runnerInv_of_reachable (h : system.Reachable k) : k.RunnerInv := by
  refine h.invariant RunnerInv ?_ fun k a k' inv hstep => ⟨inv.toInv.next hstep,
    next_ids inv.toInv inv.ids hstep, next_singleRunner inv.toInv inv.single hstep,
    next_current inv.toInv inv.current hstep⟩
  intro k hinit
  have hinv : k.Inv := inv_of_reachable (.init hinit)
  obtain ⟨s, hs, hk⟩ := hinit
  have hcount : k.sched.count = 0 := by rw [hk]; exact hs
  refine ⟨hinv, ⟨?_, fun p hp => by omega⟩, fun p hp => by omega, fun hstarted => ?_⟩
  · rw [hcount, hk]
    rfl
  · rw [hk] at hstarted
    cases hstarted

/-- Exactly one task is running after the tick: the current one, and the stub will load its
saved stack pointer. -/
def RunsOne (s : Sched) : Prop :=
  ∃ q < s.count, s.current = some q ∧ (∀ p < s.count, (s.task p).state = .running ↔ p = q) ∧
    s.nextTaskRsp = (s.task q).rsp

/-- The ring and its runner at a state. -/
structure RingRule (k : Kernel) : Prop where
  traversal : ∀ tail, k.sched.tail = some tail →
    (∀ i < k.sched.count, (fun p => (k.sched.task p).next)^[i] (k.sched.task tail).next = i) ∧
      (fun p => (k.sched.task p).next)^[k.sched.count] (k.sched.task tail).next =
        (k.sched.task tail).next
  tail : k.sched.tail = none ↔ k.sched.count = 0
  nextReady : ∀ p < k.sched.count, k.sched.DoWhile (fun t => t.state = .ready)
    (k.sched.task p).next (k.sched.task p).next (k.sched.findNextReady p)
  byId : ∀ tail, k.sched.tail = some tail → ∀ id, k.sched.DoWhile (fun t => t.id = id)
    (k.sched.task tail).next (k.sched.task tail).next (k.sched.findTaskById id)
  found : ∀ id p, k.sched.findTaskById id = some p ↔
    p < k.sched.count ∧ (k.sched.task p).id = id
  single : ∀ p < k.sched.count, (k.sched.task p).state = .running → k.sched.current = some p
  tick : k.sched.started = true → ∀ regs, RunsOne (k.sched.tick regs)
  blockCurrent : ∀ c, k.sched.current = some c → ∀ regs, RunsOne (k.sched.blockCurrent c regs)

theorem RunnerInv.found (inv : k.RunnerInv) (hcount : k.sched.count < 2 ^ 32) (id p : Nat) :
    k.sched.findTaskById id = some p ↔ p < k.sched.count ∧ (k.sched.task p).id = id := by
  refine ⟨findTaskById_some inv.ring, ?_⟩
  rintro ⟨hp, rfl⟩
  cases hfind : k.sched.findTaskById (k.sched.task p).id with
  | some q =>
    obtain ⟨hq, hid⟩ := findTaskById_some inv.ring hfind
    rw [inv.ids.unique hcount hq hp hid]
  | none => exact absurd rfl (findTaskById_none inv.ring hfind p hp)

theorem RunnerInv.runsOne {s : Sched} {c : Nat} (ring : s.Ring) (single : s.SingleRunner)
    (hstarted : s.started = true) (hc : s.current = some c) (regs : Nat) :
    RunsOne (s.tick regs) := by
  obtain ⟨q, hq, hcurrent, hrunning, hrsp⟩ := tick_runner ring single hstarted hc regs
  have hcount := (tick_sameLinks ring regs).count
  exact ⟨q, hcount ▸ hq, hcurrent, fun p hp => hrunning p (hcount ▸ hp), hrsp⟩

/-- In every state of every run with fewer than `2 ^ 32` tasks, the ring is intact and has a
single runner. -/
theorem ringRule_of_reachable (h : system.Reachable k) (hcount : k.sched.count < 2 ^ 32) :
    k.RingRule := by
  have inv := runnerInv_of_reachable h
  refine ⟨fun tail htail => ?_, ?_, fun p hp => ?_, fun tail htail id => ?_, inv.found hcount,
    inv.single, fun hstarted regs => ?_, fun c hc regs => ?_⟩
  · obtain ⟨hpos, hfirst⟩ := inv.ring.first htail
    rw [hfirst]
    refine ⟨fun i hi => ?_, ?_⟩
    · rw [inv.ring.iterate_next hi.le hpos, Nat.mod_eq_of_lt hi]
    · rw [inv.ring.iterate_next le_rfl hpos, Nat.mod_self]
  · rw [inv.ring.tail_eq]
    split_ifs with hzero <;> simp [hzero]
  · exact inv.ring.doWhile _ (inv.ring.next_lt hp)
  · obtain ⟨hpos, hfirst⟩ := inv.ring.first htail
    rw [hfirst, findTaskById_eq inv.ring htail]
    exact inv.ring.doWhile _ hpos
  · obtain ⟨c, hc⟩ := inv.current hstarted
    exact RunnerInv.runsOne inv.ring inv.single hstarted hc regs
  · have hstarted : k.sched.started = true := by
      by_contra hnot
      rw [(inv.unstarted (by simpa using hnot)).1] at hc
      cases hc
    exact RunnerInv.runsOne (inv.ring.setState c .blocked) (inv.single.markBlocked c) hstarted hc regs

/-- Three tasks are created and started; one blocks, another one is killed. -/
def mixedRun : List Action :=
  [.createTask plenty 4096, .createTask plenty 4096, .createTask plenty 4096, .start,
    .blockCurrent 0x9000, .killTask 3 0, .tick 0xA000]

theorem mixedRun_isSome : (runActions Kernel.next boot mixedRun).isSome := by decide +kernel

def mixedState : Kernel := (runActions Kernel.next boot mixedRun).get mixedRun_isSome

theorem mixedState_ringRule : mixedState.RingRule :=
  ringRule_of_reachable (reachable_get_runActions _ boot_reachable mixedRun_isSome)
    (by decide +kernel)

end Kernel

end WengShiOS.Scheduler
