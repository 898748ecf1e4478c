import WengShiOS.Scheduler.Dispatch

/-! # Reclaiming the stacks of dead tasks

`killTask` puts its target into `g_pending_cleanup`, twice if nobody waits for it and
not at all if the array is full; the next `tick` begins with `reapTerminated`, which
passes the stack of every task in the array to `kfree` and clears the pointer. The
kernel stack of a task is only remembered by its top and is passed to nobody.

Beside the scheduler the state keeps a ledger: which stacks have been passed to
`kfree`, in order, where the stacks were allocated, and for every task that was
terminated the number of ticks since. -/

namespace WengShiOS.Scheduler

open Math Drivers Sched

namespace Sched

variable {s s' : Sched} {c p q : Nat} {l : List Nat}

/-- `waitForTask`, up to the point where the caller sleeps. -/
def waitForTask (s : Sched) (c id regs : Nat) : Sched :=
  match s.findTaskById id with
  | none => s
  | some target =>
    if (s.task target).state = .terminated then s
    else (s.modify target fun t => { t with waitingParent := some c }).blockCurrent c regs

/-- The scheduler that `waitForTask` ticks: `c` waits for `target`. -/
def waiting (s : Sched) (target c : Nat) : Sched :=
  (s.modify target fun t => { t with waitingParent := some c }).markBlocked c

theorem Ring.waiting (ring : Ring s) (target c : Nat) : Ring (s.waiting target c) := by
  have hlinks : ∀ t : Task, ({ t with waitingParent := some c } : Task).next = t.next :=
    fun _ => rfl
  exact Ring.setState (ring.modify hlinks) c .blocked

/-! ### One round of cleaning up -/

/-- The tasks of a list whose stack `reapTerminated` passes to `kfree`; for the others the
pointer is null already. -/
def reapedFrom (s : Sched) : List Nat → List Nat
  | [] => []
  | p :: rest =>
    if (s.task p).stackBase = 0 then (s.reapOne p).reapedFrom rest
    else p :: (s.reapOne p).reapedFrom rest

def reaped (s : Sched) : List Nat := s.reapedFrom s.pendingCleanup

theorem reapOne_stackBase :
    ((s.reapOne p).task q).stackBase = if q = p then 0 else (s.task q).stackBase := by
  by_cases hqp : q = p
  · simp [reapOne, modify, hqp]
  · simp [reapOne, modify, hqp]

theorem foldl_reapOne_stackBase :
    ((l.foldl reapOne s).task q).stackBase = if q ∈ l then 0 else (s.task q).stackBase := by
  induction l generalizing s with
  | nil => simp
  | cons p rest ih =>
    rw [List.foldl_cons, ih, reapOne_stackBase]
    by_cases hrest : q ∈ rest
    · simp [hrest]
    · by_cases hqp : q = p <;> simp [hrest, hqp]

theorem mem_reapedFrom : q ∈ s.reapedFrom l ↔ q ∈ l ∧ (s.task q).stackBase ≠ 0 := by
  induction l generalizing s with
  | nil => simp [reapedFrom]
  | cons p rest ih =>
    rw [reapedFrom]
    by_cases hqp : q = p
    · subst hqp
      split_ifs with hzero <;> simp [ih, reapOne_stackBase, hzero]
    · split_ifs with hzero <;> simp [ih, reapOne_stackBase, hqp]

/-- A stack that occurs twice in the array is passed to `kfree` once. -/
theorem nodup_reapedFrom : (s.reapedFrom l).Nodup := by
  induction l generalizing s with
  | nil => exact List.nodup_nil
  | cons p rest ih =>
    rw [reapedFrom]
    split_ifs
    · exact ih
    · refine List.nodup_cons.mpr ⟨fun hmem => ?_, ih⟩
      have := (mem_reapedFrom.mp hmem).2
      rw [reapOne_stackBase, if_pos rfl] at this
      exact this rfl

/-- The non-null pointers that are passed to `kfree` are the stacks of the tasks named. -/
theorem foldl_reapOne_freed :
    (l.foldl reapOne s).freed.filter (· ≠ 0) =
      s.freed.filter (· ≠ 0) ++ (s.reapedFrom l).map fun p => (s.task p).stackBase := by
  induction l generalizing s with
  | nil => simp [reapedFrom]
  | cons p rest ih =>
    have hsame : ((s.reapOne p).reapedFrom rest).map (fun q => ((s.reapOne p).task q).stackBase) =
        ((s.reapOne p).reapedFrom rest).map fun q => (s.task q).stackBase := by
      refine List.map_congr_left fun q hq => ?_
      have hbase := (mem_reapedFrom.mp hq).2
      rw [reapOne_stackBase] at hbase ⊢
      split_ifs at hbase ⊢
      · exact absurd rfl hbase
      · rfl
    have hone : (s.reapOne p).freed = s.freed ++ [(s.task p).stackBase] := rfl
    rw [List.foldl_cons, ih, hsame, hone, List.filter_append, reapedFrom]
    split_ifs with hzero
    · simp [hzero]
    · simp [hzero]

/-! ### What each function does to the array and the pointers -/

/-- The array, the calls of `kfree` and the stack pointers are the same. -/
structure SameCleanup (s s' : Sched) : Prop where
  pending : s'.pendingCleanup = s.pendingCleanup
  freed : s'.freed = s.freed
  stackBase : ∀ p, (s'.task p).stackBase = (s.task p).stackBase

theorem sameCleanup_modify {f : Task → Task} (hf : ∀ t, (f t).stackBase = t.stackBase) :
    SameCleanup s (s.modify p f) :=
  ⟨rfl, rfl, fun _ => modify_field Task.stackBase hf⟩

variable {s'' : Sched}

theorem SameCleanup.trans (h : SameCleanup s s') (h' : SameCleanup s' s'') :
    SameCleanup s s'' :=
  ⟨h'.pending.trans h.pending, h'.freed.trans h.freed,
    fun p => (h'.stackBase p).trans (h.stackBase p)⟩

theorem sameCleanup_wake : SameCleanup s (s.wake p) := by
  unfold wake
  split_ifs
  · exact sameCleanup_modify fun _ => rfl
  · exact ⟨rfl, rfl, fun _ => rfl⟩

theorem sameCleanup_start (h : s.start = some s') : SameCleanup s s' := by
  obtain ⟨first, started⟩ := start_cases h
  obtain ⟨tail, -, rfl⟩ := Option.map_eq_some_iff.mp h
  exact ⟨rfl, rfl, started.field Task.stackBase fun _ _ => rfl⟩

theorem sameCleanup_setState {st : TaskState} : SameCleanup s (s.setState p st) :=
  sameCleanup_modify fun _ => rfl

theorem sameCleanup_dispatch : SameCleanup s (s.dispatch p) :=
  have h : SameCleanup _ ({ s with current := some p }.setState p .running) := sameCleanup_setState
  ⟨h.pending, h.freed, h.stackBase⟩

theorem sameCleanup_resume : SameCleanup s (s.resume p) :=
  have h : SameCleanup _ ({ s with nextTaskRsp := (s.task p).rsp }.setState p .running) :=
    sameCleanup_setState
  ⟨h.pending, h.freed, h.stackBase⟩

/-- A tick of a started scheduler empties the array. -/
structure Reaps (s s' : Sched) : Prop where
  pending : s'.pendingCleanup = []
  freed : s'.freed.filter (· ≠ 0) =
    s.freed.filter (· ≠ 0) ++ s.reaped.map fun p => (s.task p).stackBase
  stackBase : ∀ p, (s'.task p).stackBase =
    if p ∈ s.pendingCleanup then 0 else (s.task p).stackBase

theorem tick_reaps (hstarted : s.started = true) (hc : s.current = some c) (regs : Nat) :
    Reaps s (s.tick regs) := by
  have hreap : Reaps s s.reapTerminated :=
    ⟨rfl, foldl_reapOne_freed, fun p => foldl_reapOne_stackBase⟩
  have hpreempt : SameCleanup s.reapTerminated (s.preempt c regs) :=
    sameCleanup_modify fun _ => rfl
  have key : SameCleanup s.reapTerminated (s.tick regs) := by
    unfold tick
    rw [hstarted, hc]
    dsimp only
    cases (s.preempt c regs).findNextReady c with
    | none => exact hpreempt.trans sameCleanup_resume
    | some next => exact hpreempt.trans sameCleanup_dispatch
  exact ⟨key.pending.trans hreap.pending, by rw [key.freed, hreap.freed],
    fun p => (key.stackBase p).trans (hreap.stackBase p)⟩

theorem Reaps.of_sameCleanup (h : SameCleanup s s') (h' : Reaps s' s'') :
    Reaps s s'' := by
  have hreaped : ∀ (l : List Nat) {s s' : Sched},
      (∀ p, (s'.task p).stackBase = (s.task p).stackBase) → s'.reapedFrom l = s.reapedFrom l := by
    intro l
    induction l with
    | nil => exact fun _ => rfl
    | cons p rest ih =>
      intro s s' hbase
      have hrest : (s'.reapOne p).reapedFrom rest = (s.reapOne p).reapedFrom rest :=
        ih fun q => by rw [reapOne_stackBase, reapOne_stackBase, hbase]
      rw [reapedFrom, reapedFrom, hbase, hrest]
  refine ⟨h'.pending, ?_, fun p => by rw [h'.stackBase, h.pending, h.stackBase]⟩
  rw [h'.freed, h.freed, reaped, h.pending, hreaped _ h.stackBase, reaped]
  simp only [h.stackBase]

/-- `killTask` puts its target into the array, if there is room, and nothing else. -/
structure Enqueues (s s' : Sched) (target : Nat) : Prop where
  freed : s'.freed = s.freed
  stackBase : ∀ p, (s'.task p).stackBase = (s.task p).stackBase
  old : ∀ p ∈ s.pendingCleanup, p ∈ s'.pendingCleanup
  new : ∀ p ∈ s'.pendingCleanup, p ∈ s.pendingCleanup ∨ p = target
  room : s.pendingCleanup.length < maxPendingCleanup → target ∈ s'.pendingCleanup

theorem enqueues_enqueueCleanup : Enqueues s (s.enqueueCleanup p) p := by
  unfold enqueueCleanup
  split_ifs with hroom
  · refine ⟨rfl, fun _ => rfl, fun q hq => List.mem_append_left _ hq, fun q hq => ?_,
      fun _ => by simp⟩
    simpa using hq
  · exact ⟨rfl, fun _ => rfl, fun _ => id, fun _ => .inl, fun h => absurd h hroom⟩

theorem Enqueues.of_sameCleanup (h : SameCleanup s s') (h' : Enqueues s' s'' p) :
    Enqueues s s'' p where
  freed := h'.freed.trans h.freed
  stackBase q := (h'.stackBase q).trans (h.stackBase q)
  old q hq := h'.old q (h.pending ▸ hq)
  new q hq := h.pending ▸ h'.new q hq
  room hroom := h'.room (h.pending ▸ hroom)

theorem Enqueues.trans (h : Enqueues s s' p) (h' : Enqueues s' s'' p) :
    Enqueues s s'' p where
  freed := h'.freed.trans h.freed
  stackBase q := (h'.stackBase q).trans (h.stackBase q)
  old q hq := h'.old q (h.old q hq)
  new q hq := (h'.new q hq).elim (h.new q) .inr
  room hroom := h'.old p (h.room hroom)

end Sched

namespace Kernel

variable {k k' : Kernel} {a : Action} {p : Nat}

/-- The task a call of `killTask` ends. -/
def victim (k : Kernel) (id : Nat) : Option Nat :=
  (k.sched.findTaskById id).filter fun target => (k.sched.task target).state ≠ .terminated

theorem victim_eq_some {id target : Nat} : k.victim id = some target ↔
    k.sched.findTaskById id = some target ∧ (k.sched.task target).state ≠ .terminated := by
  simp [victim, Option.filter_eq_some_iff]

theorem killTask_of_no_victim {id : Nat} (h : k.victim id = none) (exitCode : Int) :
    (k.killTask id exitCode).1 = k := by
  unfold killTask
  split
  · rfl
  · next target hfound =>
    by_cases hterm : (k.sched.task target).state = .terminated
    · rw [if_pos hterm]
    · rw [victim_eq_some.mpr ⟨hfound, hterm⟩] at h
      cases h

/-- The victim is queued: once if somebody waits for it, else twice. -/
theorem killTask_enqueues {id target : Nat} (h : k.victim id = some target) (exitCode : Int) :
    Enqueues k.sched (k.killTask id exitCode).1.sched target ∧
      ((k.killTask id exitCode).1.sched.task target).state = .terminated := by
  obtain ⟨hfound, hlive⟩ := victim_eq_some.mp h
  have hsched : (k.killTask id exitCode).1.sched =
      ((k.sched.terminate target exitCode).releaseWaiter target).enqueueCleanup target := by
    unfold killTask
    rw [hfound]
    dsimp only
    rw [if_neg hlive]
  have hterminate : SameCleanup k.sched (k.sched.terminate target exitCode) :=
    sameCleanup_modify fun _ => rfl
  refine ⟨?_, ?_⟩
  · rw [hsched]
    unfold releaseWaiter
    split
    · refine .of_sameCleanup ?_ enqueues_enqueueCleanup
      exact (hterminate.trans sameCleanup_wake).trans (sameCleanup_modify fun _ => rfl)
    · exact (Enqueues.of_sameCleanup hterminate enqueues_enqueueCleanup).trans
        enqueues_enqueueCleanup
  · rw [hsched, enqueueCleanup_task, releaseWaiter_state, terminate_state,
      if_pos rfl]
    simp

/-- Only `killTask` ends a task. -/
theorem next_alive (inv : k.Inv) (h : k.next a = some k') (hp : p < k.sched.count)
    (halive : (k.sched.task p).state ≠ .terminated) :
    (k'.sched.task p).state ≠ .terminated ∨
      ∃ id exitCode, a = .killTask id exitCode ∧ k.victim id = some p := by
  by_cases hpassive : passive a = true
  · exact .inl (((next_passive inv h hpassive).2.2 p hp).1 halive)
  rcases next_cases h with ⟨mem, stackSize, rfl, -⟩ | ⟨s, rfl, -⟩ | ⟨regs, rfl, -⟩ |
    ⟨regs, c, -, -, -, rfl⟩ | ⟨q, rfl, -⟩ | ⟨id, exitCode, c, rfl, -, rfl⟩
  iterate 3 exact absurd rfl hpassive
  · refine .inl (tick_alive (inv.ring.setState c .blocked) regs ?_)
    rw [setState_state]
    split_ifs <;> simp [halive]
  · exact absurd rfl hpassive
  · rcases killTask_state (k := k) (p := p) id exitCode with hsame | ⟨target, hfound, hlive, heq | hne⟩
    · exact .inl (hsame.trans_ne halive)
    · exact .inr ⟨id, exitCode, rfl, victim_eq_some.mpr ⟨heq.1 ▸ hfound, heq.1 ▸ hlive⟩⟩
    · exact .inl (by rw [hne.2.2.2]; decide)

end Kernel

/-! ## The ledger -/

/-- A stack that `createTask` allocated, by its task. -/
inductive Stack
  | task (p : Nat)
  | kernel (p : Nat)
  deriving DecidableEq, Repr

def Stack.owner : Stack → Nat
  | .task p => p
  | .kernel p => p

/-- The calls of the scheduler, `waitForTask` among them. -/
inductive Call
  | sched (a : Action)
  | waitForTask (id regs : Nat)

structure Ledger where
  kernel : Kernel
  frees : List Stack
  address : Stack → Nat
  age : Nat → Option Nat

namespace Kernel

def nextCall (k : Kernel) : Call → Option Kernel
  | .sched a => k.next a
  | .waitForTask id regs =>
    k.caller.map fun c => { k with sched := k.sched.waitForTask c id regs }

/-- The call runs a tick that does something. -/
def ticks (k : Kernel) : Call → Bool
  | .sched (.tick _) => k.sched.started && k.sched.current.isSome
  | .sched (.blockCurrent _) => true
  | .waitForTask id _ => (k.victim id).isSome
  | _ => false

/-- The task the call ends. -/
def ends (k : Kernel) : Call → Option Nat
  | .sched (.killTask id _) => k.victim id
  | _ => none

/-- The stacks the call allocates. -/
def allocates (k : Kernel) (address : Stack → Nat) : Call → Stack → Nat
  | .sched (.createTask mem stackSize), x =>
    if (k.sched.createTask mem stackSize).2.isSome then
      if x = .task k.sched.count then mem.stack
      else if x = .kernel k.sched.count then mem.kstack else address x
    else address x
  | _, x => address x

variable {k k' : Kernel} {p : Nat}

/-- What a call does as far as the ledger is concerned. -/
inductive Effect (k : Kernel) (call : Call) (k' : Kernel) : Prop
  | created (mem : Sched.TaskMemory) (stackSize : Nat)
    (hcall : call = .sched (.createTask mem stackSize))
    (hstack : mem.stack ≠ 0) (hsome : (k.sched.createTask mem stackSize).2.isSome)
    (hcreated : Sched.Created k.sched k'.sched (k.sched.newTask mem stackSize))
    (hpending : k'.sched.pendingCleanup = k.sched.pendingCleanup)
    (hfreed : k'.sched.freed = k.sched.freed)
  | quiet (hticks : k.ticks call = false) (hends : k.ends call = none)
    (haddress : ∀ address, k.allocates address call = address)
    (hcount : k'.sched.count = k.sched.count) (hsame : Sched.SameCleanup k.sched k'.sched)
  | ticked (hticks : k.ticks call = true) (haddress : ∀ address, k.allocates address call = address)
    (hcount : k'.sched.count = k.sched.count) (hreaps : Sched.Reaps k.sched k'.sched)
  | ended (target : Nat) (hticks : k.ticks call = false) (hends : k.ends call = some target)
    (haddress : ∀ address, k.allocates address call = address)
    (hcount : k'.sched.count = k.sched.count) (hlt : target < k.sched.count)
    (hend : (k'.sched.task target).state = .terminated)
    (henqueues : Sched.Enqueues k.sched k'.sched target)

theorem createTask_effect (k : Kernel) (mem : TaskMemory) (stackSize : Nat) :
    Effect k (.sched (.createTask mem stackSize))
      { k with sched := (k.sched.createTask mem stackSize).1 } := by
  rcases createTask_result k.sched mem stackSize with hfail | ⟨hsome, created⟩
  · refine .quiet rfl rfl (fun address => ?_) (by rw [hfail])
      (by rw [hfail]; exact ⟨rfl, rfl, fun _ => rfl⟩)
    funext x
    simp [allocates, hfail]
  · have hstack : mem.stack ≠ 0 := by
      intro hzero
      simp [createTask, hzero] at hsome
    have hsame : (k.sched.createTask mem stackSize).1.pendingCleanup = k.sched.pendingCleanup ∧
        (k.sched.createTask mem stackSize).1.freed = k.sched.freed := by
      unfold createTask
      split_ifs
      · exact ⟨rfl, rfl⟩
      · exact ⟨rfl, rfl⟩
      · cases k.sched.tail <;> exact ⟨rfl, rfl⟩
    exact .created mem stackSize rfl hstack (by rw [hsome]; rfl) created hsame.1 hsame.2

variable {call : Call}

/-- A tick is effective if there is a current task. -/
theorem tick_effect {s : Sched} {c regs : Nat} (ring : s.Ring) (hsame : SameCleanup k.sched s)
    (hcount : s.count = k.sched.count) (hstarted : s.started = true) (hc : s.current = some c)
    (hticks : k.ticks call = true) (haddress : ∀ address, k.allocates address call = address) :
    Effect k call { k with sched := s.tick regs } :=
  .ticked hticks haddress ((tick_sameLinks ring regs).count.trans hcount)
    (.of_sameCleanup hsame (tick_reaps hstarted hc regs))

theorem started_of_current (inv : k.Inv) {c : Nat} (hc : k.sched.current = some c) :
    k.sched.started = true := by
  by_contra hnot
  rw [(inv.unstarted (by simpa using hnot)).1] at hc
  cases hc

/-- A caller that has to wait is recorded as the target's waiter, blocked, and switched away
from. -/
theorem waitForTask_cases (k : Kernel) (id c regs : Nat) :
    (k.sched.waitForTask c id regs = k.sched ∧ k.victim id = none) ∨
      ∃ target, k.victim id = some target ∧
        k.sched.waitForTask c id regs = (k.sched.waiting target c).tick regs := by
  unfold waitForTask
  cases hfound : k.sched.findTaskById id with
  | none => exact .inl ⟨rfl, by rw [victim, hfound]; rfl⟩
  | some target =>
    by_cases hterm : (k.sched.task target).state = .terminated
    · refine .inl ⟨if_pos hterm, ?_⟩
      by_contra hvictim
      obtain ⟨p, hp⟩ := Option.ne_none_iff_exists'.mp hvictim
      obtain ⟨hfound', hlive⟩ := victim_eq_some.mp hp
      obtain rfl := Option.some.inj (hfound.symm.trans hfound')
      exact hlive hterm
    · exact .inr ⟨target, victim_eq_some.mpr ⟨hfound, hterm⟩, if_neg hterm⟩

section

variable (inv : k.Inv) (h : k.nextCall call = some k')
include inv h

theorem nextCall_effect :
    Effect k call k' := by
  have hrefl : SameCleanup k.sched k.sched := ⟨rfl, rfl, fun _ => rfl⟩
  cases call with
  | waitForTask id regs =>
    obtain ⟨c, hcaller, rfl⟩ := Option.map_eq_some_iff.mp h
    obtain ⟨hc, -⟩ := caller_eq_some.mp hcaller
    rcases waitForTask_cases k id c regs with ⟨hsame, hvictim⟩ | ⟨target, hvictim, hwait⟩
    · rw [hsame]
      exact .quiet (by rw [ticks, hvictim]; rfl) rfl (fun _ => rfl) rfl hrefl
    · have hwaiter : SameCleanup k.sched
          (k.sched.modify target fun t => { t with waitingParent := some c }) :=
        sameCleanup_modify fun _ => rfl
      rw [hwait]
      exact tick_effect (inv.ring.waiting target c) (hwaiter.trans sameCleanup_setState) rfl
        (started_of_current inv hc) hc (by rw [ticks, hvictim]; rfl) fun _ => rfl
  | sched a =>
    rcases next_cases h with ⟨mem, stackSize, rfl, rfl⟩ | ⟨s, rfl, -, hs, rfl⟩ | ⟨regs, rfl, rfl⟩ |
      ⟨regs, c, rfl, hc, -, rfl⟩ | ⟨p, rfl, -, rfl⟩ | ⟨id, exitCode, c, rfl, hc, rfl⟩
    · exact createTask_effect k mem stackSize
    · obtain ⟨first, started⟩ := start_cases hs
      exact .quiet rfl rfl (fun _ => rfl) started.count (sameCleanup_start hs)
    · rcases tick_cases inv.ring regs with ⟨hidle, hsame⟩ | ⟨c, -, hstarted, hc, -⟩
      · rw [hsame]
        refine .quiet ?_ rfl (fun _ => rfl) rfl hrefl
        rcases hidle with hidle | hidle <;> simp [ticks, hidle]
      · exact tick_effect inv.ring hrefl rfl hstarted hc (by simp [ticks, hstarted, hc])
          fun _ => rfl
    · exact tick_effect (inv.ring.setState c .blocked) sameCleanup_setState rfl
        (started_of_current inv hc) hc rfl fun _ => rfl
    · exact .quiet rfl rfl (fun _ => rfl) (sameLinks_wake k.sched p).count
        sameCleanup_wake
    · cases hvictim : k.victim id with
      | none =>
        rw [killTask_of_no_victim hvictim]
        exact .quiet rfl hvictim (fun _ => rfl) rfl hrefl
      | some target =>
        obtain ⟨henqueues, hend⟩ := killTask_enqueues hvictim exitCode
        have hlt := (findTaskById_some inv.ring (victim_eq_some.mp hvictim).1).1
        exact .ended target rfl hvictim (fun _ => rfl) (killTask_count id exitCode) hlt hend
          henqueues

/-- Without a tick no task comes back. -/
theorem nextCall_terminated (hticks : k.ticks call = false) (hlt : p < k.sched.count)
    (hend : (k.sched.task p).state = .terminated) : (k'.sched.task p).state = .terminated := by
  cases call with
  | waitForTask id regs =>
    obtain ⟨c, -, rfl⟩ := Option.map_eq_some_iff.mp h
    rcases waitForTask_cases k id c regs with ⟨hsame, -⟩ | ⟨target, hvictim, -⟩
    · rwa [hsame]
    · rw [ticks, hvictim] at hticks
      cases hticks
  | sched a =>
    refine (next_terminated inv h hlt hend).resolve_right ?_
    rintro ⟨hcur, regs, rfl | rfl⟩
    · simp [ticks, hcur, started_of_current inv hcur] at hticks
    · cases hticks

theorem count_le_nextCall :
    k.sched.count ≤ k'.sched.count := by
  cases nextCall_effect inv h with
  | created mem stackSize hcall hstack hsome hcreated => exact hcreated.count.ge.trans' (by omega)
  | quiet hticks hends haddress hcount => exact hcount.ge
  | ticked hticks haddress hcount => exact hcount.ge
  | ended target hticks hends haddress hcount => exact hcount.ge

end

/-- A dead task is terminated and has been switched away from. -/
structure Dead (k : Kernel) (p : Nat) : Prop where
  lt : p < k.sched.count
  ended : (k.sched.task p).state = .terminated
  away : k.sched.current ≠ some p

theorem Inv.nextCall (inv : k.Inv) (h : k.nextCall call = some k') : k'.Inv := by
  cases call with
  | sched a => exact inv.next h
  | waitForTask id regs =>
    obtain ⟨c, hcaller, rfl⟩ := Option.map_eq_some_iff.mp h
    obtain ⟨hc, -⟩ := caller_eq_some.mp hcaller
    have hstarted := started_of_current inv hc
    rcases waitForTask_cases k id c regs with ⟨hsame, -⟩ | ⟨target, -, hwait⟩
    · rwa [hsame]
    · have ring := inv.ring.waiting target c
      refine ⟨hwait ▸ ring.tick regs, fun hnot => ?_⟩
      have hkept := (tick_sameLinks ring regs).started
      rw [← hwait, show started _ = false from hnot] at hkept
      exact absurd (hkept.trans hstarted) (by decide)

/-- No call brings a dead task back. -/
theorem Dead.nextCall (dead : k.Dead p) (inv : k.Inv) (h : k.nextCall call = some k') :
    k'.Dead p := by
  obtain ⟨hlt, hend, haway⟩ := dead
  -- it stays terminated, since only the current task is ever resumed
  have key : (k'.sched.task p).state = .terminated ∧ k'.sched.current ≠ some p := by
    cases call with
    | sched a =>
      have hend' := (next_terminated inv h hlt hend).resolve_right fun hcur => haway hcur.1
      exact ⟨hend', fun hcurrent => haway (next_current_terminated inv h hcurrent hend').1⟩
    | waitForTask id regs =>
      obtain ⟨c, hcaller, rfl⟩ := Option.map_eq_some_iff.mp h
      obtain ⟨hc, -⟩ := caller_eq_some.mp hcaller
      have hpc : p ≠ c := fun heq => haway (heq ▸ hc)
      rcases waitForTask_cases k id c regs with ⟨hsame, -⟩ | ⟨target, -, hwait⟩
      · rw [hsame]
        exact ⟨hend, haway⟩
      · have ring := inv.ring.waiting target c
        have hstate : ((k.sched.waiting target c).task p).state = .terminated := by
          rw [waiting, markBlocked, setState_state, if_neg hpc,
            modify_field Task.state]
          · exact hend
          · exact fun _ => rfl
        have hend' := (tick_terminated ring regs hstate).resolve_right fun heq =>
          hpc (Option.some.inj (heq.symm.trans hc))
        rw [hwait]
        refine ⟨hend', fun heq => ?_⟩
        exact hpc (Option.some.inj
          ((tick_current_terminated ring regs heq hend').1.symm.trans hc))
  exact ⟨hlt.trans_le (count_le_nextCall inv h), key.1, key.2⟩

end Kernel

namespace Ledger

def next (l : Ledger) (call : Call) : Option Ledger :=
  (l.kernel.nextCall call).map fun kernel =>
    { kernel
      frees := if l.kernel.ticks call then l.frees ++ l.kernel.sched.reaped.map .task else l.frees
      address := l.kernel.allocates l.address call
      age := if l.kernel.ticks call then fun p => (l.age p).map (· + 1)
        else match l.kernel.ends call with
          | none => l.age
          | some target => Function.update l.age target (some ((l.age target).getD 0)) }

/-- All runs from `Scheduler::init`, before any task exists. -/
def system : System Ledger Call :=
  .ofNext next fun l => (∃ s : Sched, s.count = 0 ∧ l.kernel.sched = s.init) ∧
    l.kernel.sched.freed = [] ∧ l.frees = [] ∧ l.age = fun _ => none

variable {l l' : Ledger} {call : Call} {p n : Nat}

/-! ### What holds in every run -/

structure Inv (l : Ledger) : Prop where
  kernel : l.kernel.Inv
  pending : ∀ p ∈ l.kernel.sched.pendingCleanup,
    p < l.kernel.sched.count ∧ (l.kernel.sched.task p).state = .terminated
  /-- A task has its stack until it is passed to `kfree`. -/
  stack : ∀ p < l.kernel.sched.count,
    ((l.kernel.sched.task p).stackBase = 0 ∧ .task p ∈ l.frees) ∨
      ((l.kernel.sched.task p).stackBase ≠ 0 ∧ .task p ∉ l.frees ∧
        (l.kernel.sched.task p).stackBase = l.address (.task p))
  frees : ∀ x ∈ l.frees, ∃ p < l.kernel.sched.count, x = .task p
  once : l.frees.Nodup
  calls : l.kernel.sched.freed.filter (· ≠ 0) = l.frees.map l.address

theorem Inv.mem_reaped (inv : l.Inv) (hp : p < l.kernel.sched.count) :
    p ∈ l.kernel.sched.reaped ↔ p ∈ l.kernel.sched.pendingCleanup ∧ .task p ∉ l.frees := by
  rw [reaped, mem_reapedFrom]
  rcases inv.stack p hp with ⟨hzero, hfreed⟩ | ⟨hbase, hfreed, -⟩
  · simp [hzero, hfreed]
  · simp [hbase, hfreed]

theorem next_of_not_ticks (h : l.next call = some l') (hticks : l.kernel.ticks call = false) :
    l'.frees = l.frees := by
  obtain ⟨k', hcall, rfl⟩ := Option.map_eq_some_iff.mp h
  simp [hticks]

/-- The pending tasks stay terminated until the tick that empties the array. -/
theorem Inv.pending_next (inv : l.Inv) (h : l.next call = some l')
    (hticks : l.kernel.ticks call = false) (hmem : p ∈ l.kernel.sched.pendingCleanup) :
    p < l'.kernel.sched.count ∧ (l'.kernel.sched.task p).state = .terminated := by
  obtain ⟨k', hcall, rfl⟩ := Option.map_eq_some_iff.mp h
  obtain ⟨hlt, hend⟩ := inv.pending p hmem
  refine ⟨?_, Kernel.nextCall_terminated inv.kernel hcall hticks hlt hend⟩
  exact hlt.trans_le (Kernel.count_le_nextCall inv.kernel hcall)

/-- A call that frees and allocates nothing. -/
theorem Inv.keep (inv : l.Inv) (kernel : l'.kernel.Inv) (hfrees : l'.frees = l.frees)
    (haddress : l'.address = l.address) (hcount : l'.kernel.sched.count = l.kernel.sched.count)
    (hbase : ∀ p, (l'.kernel.sched.task p).stackBase = (l.kernel.sched.task p).stackBase)
    (hfreed : l'.kernel.sched.freed = l.kernel.sched.freed)
    (pending : ∀ p ∈ l'.kernel.sched.pendingCleanup,
      p < l'.kernel.sched.count ∧ (l'.kernel.sched.task p).state = .terminated) : l'.Inv where
  kernel := kernel
  pending := pending
  stack p hp := by
    rw [hbase, hfrees, haddress]
    exact inv.stack p (hcount ▸ hp)
  frees x hx := by
    rw [hcount]
    exact inv.frees x (hfrees ▸ hx)
  once := hfrees ▸ inv.once
  calls := by rw [hfreed, hfrees, haddress, inv.calls]

theorem Inv.created {mem : TaskMemory} {stackSize : Nat} (inv : l.Inv)
    (kernel : l'.kernel.Inv) (hfrees : l'.frees = l.frees)
    (haddress : ∀ x, l'.address x = if x = .task l.kernel.sched.count then mem.stack
      else if x = .kernel l.kernel.sched.count then mem.kstack else l.address x)
    (hstack : mem.stack ≠ 0)
    (hcreated : Created l.kernel.sched l'.kernel.sched (l.kernel.sched.newTask mem stackSize))
    (hfreed : l'.kernel.sched.freed = l.kernel.sched.freed)
    (pending : ∀ p ∈ l'.kernel.sched.pendingCleanup,
      p < l'.kernel.sched.count ∧ (l'.kernel.sched.task p).state = .terminated) : l'.Inv where
  kernel := kernel
  pending := pending
  stack p hp := by
    have hbase := hcreated.field Task.stackBase (fun _ _ => rfl) p
    rw [hbase, hfrees, haddress]
    by_cases hnew : p = l.kernel.sched.count
    · -- the new task has its stack, and nobody freed it before it existed
      have hfresh : .task p ∉ l.frees := fun hmem => by
        obtain ⟨q, hq, heq⟩ := inv.frees _ hmem
        obtain rfl : p = q := Stack.task.inj heq
        omega
      exact .inr ⟨by simpa [hnew, newTask] using hstack, hfresh,
        by simp [hnew, newTask]⟩
    · have hlt : p < l.kernel.sched.count := by
        rw [hcreated.count] at hp
        omega
      simpa [hnew] using inv.stack p hlt
  frees x hx := by
    obtain ⟨p, hp, rfl⟩ := inv.frees x (hfrees ▸ hx)
    exact ⟨p, by rw [hcreated.count]; omega, rfl⟩
  once := hfrees ▸ inv.once
  calls := by
    rw [hfreed, hfrees, inv.calls]
    refine List.map_congr_left fun x hx => ?_
    obtain ⟨p, hp, rfl⟩ := inv.frees x hx
    simp [haddress, hp.ne]

theorem Inv.ticked (inv : l.Inv) (kernel : l'.kernel.Inv)
    (hfrees : l'.frees = l.frees ++ l.kernel.sched.reaped.map .task)
    (haddress : l'.address = l.address) (hcount : l'.kernel.sched.count = l.kernel.sched.count)
    (hreaps : Reaps l.kernel.sched l'.kernel.sched) : l'.Inv where
  kernel := kernel
  pending p hp := by
    rw [hreaps.pending] at hp
    cases hp
  stack p hp := by
    have hlt : p < l.kernel.sched.count := hcount ▸ hp
    have hmem : Stack.task p ∈ l'.frees ↔
        .task p ∈ l.frees ∨ p ∈ l.kernel.sched.pendingCleanup := by
      rw [hfrees, List.mem_append, List.mem_map_of_injective fun _ _ => Stack.task.inj,
        inv.mem_reaped hlt]
      tauto
    rw [hreaps.stackBase, haddress, hmem]
    by_cases hpending : p ∈ l.kernel.sched.pendingCleanup
    · simp [hpending]
    · simpa [hpending] using inv.stack p hlt
  frees x hx := by
    rw [hfrees, List.mem_append, List.mem_map] at hx
    rw [hcount]
    rcases hx with hx | ⟨p, hp, rfl⟩
    · exact inv.frees x hx
    · exact ⟨p, (inv.pending p (mem_reapedFrom.mp hp).1).1, rfl⟩
  once := by
    rw [hfrees]
    refine inv.once.append (nodup_reapedFrom.map fun _ _ => Stack.task.inj) fun x hx hx' => ?_
    obtain ⟨p, hp, rfl⟩ := List.mem_map.mp hx'
    have hlt := (inv.pending p (mem_reapedFrom.mp hp).1).1
    exact ((inv.mem_reaped hlt).mp hp).2 hx
  calls := by
    rw [hreaps.freed, inv.calls, hfrees, haddress, List.map_append, List.map_map]
    congr 1
    refine List.map_congr_left fun p hp => ?_
    obtain ⟨hmem, hbase⟩ := mem_reapedFrom.mp hp
    rcases inv.stack p (inv.pending p hmem).1 with ⟨hzero, -⟩ | ⟨-, -, haddr⟩
    · exact absurd hzero hbase
    · exact haddr

theorem Inv.next (inv : l.Inv) (h : l.next call = some l') : l'.Inv := by
  obtain ⟨k', hcall, hl'⟩ := Option.map_eq_some_iff.mp h
  have kernel := inv.kernel.nextCall hcall
  cases Kernel.nextCall_effect inv.kernel hcall with
  | created mem stackSize heq hstack hsome hcreated hpending hfreed =>
    have hticks : l.kernel.ticks call = false := by rw [heq]; rfl
    subst hl'
    refine inv.created kernel (next_of_not_ticks h hticks) (fun x => ?_) hstack hcreated hfreed
      fun p hp => inv.pending_next h hticks (hpending ▸ hp)
    simp only [heq, Kernel.allocates, hsome, if_true]
  | quiet hticks hends haddress hcount hsame =>
    subst hl'
    exact inv.keep kernel (next_of_not_ticks h hticks) (haddress _) hcount hsame.stackBase
      hsame.freed fun p hp => inv.pending_next h hticks (hsame.pending ▸ hp)
  | ticked hticks haddress hcount hreaps =>
    subst hl'
    exact inv.ticked kernel (if_pos hticks) (haddress _) hcount hreaps
  | ended target hticks hends haddress hcount hlt hend henqueues =>
    subst hl'
    refine inv.keep kernel (next_of_not_ticks h hticks) (haddress _) hcount henqueues.stackBase
      henqueues.freed fun p hp => ?_
    rcases henqueues.new p hp with hold | rfl
    · exact inv.pending_next h hticks hold
    · exact ⟨hcount ▸ hlt, hend⟩

theorem inv_of_reachable (h : system.Reachable l) : l.Inv := by
  refine h.invariant Inv (fun l hinit => ?_) fun l call l' inv hstep => inv.next hstep
  obtain ⟨⟨s, hzero, hs⟩, hfreed, hfrees, -⟩ := hinit
  have hcount : l.kernel.sched.count = 0 := by rw [hs]; exact hzero
  have hpending : l.kernel.sched.pendingCleanup = [] := by rw [hs]; rfl
  refine ⟨⟨hs ▸ .init hzero, fun _ => ⟨by rw [hs]; rfl, fun p hp => by omega⟩⟩, ?_, ?_, ?_, ?_, ?_⟩
  · simp [hpending]
  · intro p hp
    omega
  · simp [hfrees]
  · simp [hfrees]
  · simp [hfrees, hfreed]

/-! ### Runs that reclaim -/

/-- A dead task is not dispatched again, whatever is called. -/
theorem path_away {l'' : Ledger} (inv : l.Inv) (dead : l.kernel.Dead p)
    (h : system.Path l l'') : l''.kernel.sched.current ≠ some p := by
  have key : l''.Inv ∧ l''.kernel.Dead p := by
    refine h.stable (fun l => l.Inv ∧ l.kernel.Dead p) (fun l call l' both hstep => ?_) ⟨inv, dead⟩
    obtain ⟨k', hcall, rfl⟩ := Option.map_eq_some_iff.mp hstep
    exact ⟨both.1.next hstep, both.2.nextCall both.1.kernel hcall⟩
  exact key.2.away

/-- No stack is freed under the current task, and nobody is killed while the array is full. -/
def Orderly (l : Ledger) (call : Call) : Prop :=
  (l.kernel.ticks call = true → ∀ c ∈ l.kernel.sched.current,
    c ∈ l.kernel.sched.pendingCleanup → (l.kernel.sched.task c).stackBase = 0) ∧
  (l.kernel.ends call ≠ none → l.kernel.sched.pendingCleanup.length < Sched.maxPendingCleanup)

instance (l : Ledger) (call : Call) : Decidable (l.Orderly call) :=
  inferInstanceAs (Decidable (_ ∧ _))

/-- No task that was terminated lives to see a second tick. -/
def Brief (l : Ledger) (call : Call) : Prop :=
  l.kernel.ticks call = true → ∀ p < l.kernel.sched.count, l.age p = none ∨ l.age p = some 0

instance (l : Ledger) (call : Call) : Decidable (l.Brief call) :=
  inferInstanceAs (Decidable (_ → _))

/-- The stacks are reclaimed in a state of a system, and by the steps it takes from there.
`owed p` are the stacks of the task `p` that have to be given back. -/
structure Reclaims (sys : System Ledger Call) (owed : Nat → List Stack) (l : Ledger) : Prop where
  /-- The ledger lists the calls of `kfree`; `kfree` ignores a null pointer. -/
  calls : l.kernel.sched.freed.filter (· ≠ 0) = l.frees.map l.address
  once : l.frees.Nodup
  /-- A stack is freed when its task is not the current one and never will be again. -/
  dead : ∀ call l', sys.step l call l' → ∀ x ∈ l'.frees, x ∉ l.frees →
    ∀ l'', system.Path l l'' → l''.kernel.sched.current ≠ some x.owner
  done : ∀ p n, l.age p = some n → 2 ≤ n → ∀ x ∈ owed p, x ∈ l.frees

theorem age_of_ticks (h : l.next call = some l') (hticks : l.kernel.ticks call = true)
    (hage : l'.age p = some n) : ∃ m, l.age p = some m ∧ m + 1 = n := by
  obtain ⟨k', -, rfl⟩ := Option.map_eq_some_iff.mp h
  simp only [hticks, if_true] at hage
  exact Option.map_eq_some_iff.mp hage

theorem age_of_not_ticks (h : l.next call = some l') (hticks : l.kernel.ticks call = false)
    (hage : l'.age p = some n) :
    l.age p = some n ∨ l.kernel.ends call = some p ∧ n = 0 := by
  obtain ⟨k', -, rfl⟩ := Option.map_eq_some_iff.mp h
  cases hends : l.kernel.ends call with
  | none =>
    simp only [hticks, hends, Bool.false_eq_true, if_false] at hage
    exact .inl hage
  | some target =>
    simp only [hticks, hends, Bool.false_eq_true, if_false] at hage
    by_cases hp : p = target
    · subst hp
      cases hbefore : l.age p with
      | none => exact .inr ⟨rfl, by simpa [hbefore] using hage.symm⟩
      | some m => exact .inl (by simpa [hbefore] using hage)
    · rw [Function.update_of_ne hp] at hage
      exact .inl hage

/-- In an orderly run the stack of a task is freed by the first tick after its end. -/
structure OrderlyInv (l : Ledger) : Prop where
  inv : l.Inv
  aged : ∀ p n, l.age p = some n → p < l.kernel.sched.count ∧
    (.task p ∈ l.frees ∨ n = 0 ∧ p ∈ l.kernel.sched.pendingCleanup)

theorem OrderlyInv.next (o : l.OrderlyInv) (hguard : l.Orderly call)
    (h : l.next call = some l') : l'.OrderlyInv := by
  refine ⟨o.inv.next h, fun p n hage => ?_⟩
  obtain ⟨k', hcall, hl'⟩ := Option.map_eq_some_iff.mp h
  have hkernel : l'.kernel = k' := by rw [← hl']
  have hle := Kernel.count_le_nextCall o.inv.kernel hcall
  rw [hkernel]
  -- a task that ended earlier stays in the array until the next tick
  have hold : l.age p = some n → l.kernel.ticks call = false →
      (∀ q ∈ l.kernel.sched.pendingCleanup, q ∈ k'.sched.pendingCleanup) →
      p < k'.sched.count ∧ (.task p ∈ l'.frees ∨ n = 0 ∧ p ∈ k'.sched.pendingCleanup) := by
    intro hage hticks hpending
    obtain ⟨hlt, hfreed⟩ := o.aged p n hage
    rw [next_of_not_ticks h hticks]
    exact ⟨hlt.trans_le hle, hfreed.imp_right fun hp => ⟨hp.1, hpending p hp.2⟩⟩
  cases Kernel.nextCall_effect o.inv.kernel hcall with
  | created mem stackSize heq hstack hsome hcreated hpending hfreed =>
    have hticks : l.kernel.ticks call = false := by rw [heq]; rfl
    refine hold ?_ hticks fun _ hq => hpending ▸ hq
    exact (age_of_not_ticks h hticks hage).resolve_right fun hends => by
      simp [heq, Kernel.ends] at hends
  | quiet hticks hends haddress hcount hsame =>
    refine hold ?_ hticks fun _ hq => hsame.pending ▸ hq
    exact (age_of_not_ticks h hticks hage).resolve_right fun hend => by simp [hends] at hend
  | ticked hticks haddress hcount hreaps =>
    obtain ⟨m, hm, -⟩ := age_of_ticks h hticks hage
    obtain ⟨hlt, hfreed⟩ := o.aged p m hm
    refine ⟨hcount ▸ hlt, .inl ?_⟩
    rw [← hl']
    simp only [hticks, if_true, List.mem_append]
    rw [List.mem_map_of_injective fun _ _ => Stack.task.inj, o.inv.mem_reaped hlt]
    tauto
  | ended target hticks hends haddress hcount hlt hend henqueues =>
    rcases age_of_not_ticks h hticks hage with hage | ⟨hp, rfl⟩
    · exact hold hage hticks henqueues.old
    · -- the task that ends is queued, since there is room
      obtain rfl : p = target := Option.some.inj (hp.symm.trans hends)
      exact ⟨hcount ▸ hlt, .inr ⟨rfl, henqueues.room (hguard.2 (by simp [hends]))⟩⟩

theorem orderlyInv_of_reachable (h : (system.restrict Orderly).Reachable l) : l.OrderlyInv := by
  refine h.invariant OrderlyInv (fun l hinit => ?_) fun l call l' o hstep => ?_
  · refine ⟨inv_of_reachable (.init hinit), fun p n hage => ?_⟩
    rw [hinit.2.2.2] at hage
    cases hage
  · exact o.next hstep.1 hstep.2

/-- A tick that is not run by a task in the array frees the stacks of dead tasks only. -/
theorem Inv.dead_of_freed {x : Stack} (inv : l.Inv) (hguard : l.Orderly call)
    (h : l.next call = some l') (hx : x ∈ l'.frees) (hnew : x ∉ l.frees) :
    l.kernel.Dead x.owner := by
  obtain ⟨k', hcall, rfl⟩ := Option.map_eq_some_iff.mp h
  by_cases hticks : l.kernel.ticks call = true
  · simp only [hticks, if_true, List.mem_append, hnew, false_or, List.mem_map] at hx
    obtain ⟨p, hp, rfl⟩ := hx
    obtain ⟨hmem, hbase⟩ := mem_reapedFrom.mp hp
    obtain ⟨hlt, hend⟩ := inv.pending p hmem
    exact ⟨hlt, hend, fun hcurrent => hbase (hguard.1 hticks p hcurrent hmem)⟩
  · rw [next_of_not_ticks h (by simpa using hticks)] at hx
    exact absurd hx hnew

theorem OrderlyInv.dead {l'' : Ledger} {x : Stack} (o : l.OrderlyInv) (hguard : l.Orderly call)
    (h : l.next call = some l') (hx : x ∈ l'.frees) (hnew : x ∉ l.frees)
    (hpath : system.Path l l'') : l''.kernel.sched.current ≠ some x.owner :=
  path_away o.inv (o.inv.dead_of_freed hguard h hx hnew) hpath

/-- In brief runs no task lives to see a second tick after its end. -/
theorem age_le_one (h : (system.restrict fun l call => l.Orderly call ∧ l.Brief call).Reachable l)
    (hage : l.age p = some n) : n ≤ 1 := by
  have key : l.OrderlyInv ∧ ∀ p n, l.age p = some n → n ≤ 1 := by
    refine h.invariant (fun l => l.OrderlyInv ∧ ∀ p n, l.age p = some n → n ≤ 1)
      (fun l hinit => ?_) fun l call l' both hstep => ?_
    · refine ⟨orderlyInv_of_reachable (.init hinit), fun p n hage => ?_⟩
      rw [hinit.2.2.2] at hage
      cases hage
    · obtain ⟨⟨horderly, hbrief⟩, hnext⟩ := hstep
      refine ⟨both.1.next horderly hnext, fun p n hage => ?_⟩
      by_cases hticks : l.kernel.ticks call = true
      · obtain ⟨m, hm, rfl⟩ := age_of_ticks hnext hticks hage
        have hzero := hbrief hticks p (both.1.aged p m hm).1
        simp only [hm, reduceCtorEq, Option.some.injEq, false_or] at hzero
        omega
      · rcases age_of_not_ticks hnext (by simpa using hticks) hage with hage | ⟨-, rfl⟩
        · exact both.2 p n hage
        · omega
  exact key.2 p n hage

/-- If no tick runs on a stack it frees and no task is killed while the array is full, the task
stacks are reclaimed. The kernel stacks are reclaimed only as long as they need not be yet. -/
theorem reclaims_of_orderly :
    ((system.restrict Orderly).Reachable l →
      l.Reclaims (system.restrict Orderly) fun p => [.task p]) ∧
    ((system.restrict fun l call => l.Orderly call ∧ l.Brief call).Reachable l →
      l.Reclaims (system.restrict fun l call => l.Orderly call ∧ l.Brief call)
        fun p => [.task p, .kernel p]) := by
  refine ⟨fun h => ?_, fun h => ?_⟩
  · have o := orderlyInv_of_reachable h
    refine ⟨o.inv.calls, o.inv.once, fun call l' hstep x hx hnew l'' => ?_,
      fun p n hage hn x hx => ?_⟩
    · exact o.dead hstep.1 hstep.2 hx hnew
    · rw [List.mem_singleton.mp hx]
      exact (o.aged p n hage).2.resolve_right (by omega)
  · have o : l.OrderlyInv := orderlyInv_of_reachable (h.mono fun _ _ => And.left)
    refine ⟨o.inv.calls, o.inv.once, fun call l' hstep x hx hnew l'' => ?_, fun p n hage hn => ?_⟩
    · exact o.dead hstep.1.1 hstep.2 hx hnew
    · have := age_le_one h hage
      omega

/-! ### Runs -/

def boot : Ledger where
  kernel := Scheduler.boot
  frees := []
  address _ := 0
  age _ := none

theorem boot_init : system.init boot := ⟨⟨_, rfl, rfl⟩, rfl, rfl, rfl⟩

def create : Call := .sched (.createTask plenty 16384)

def kill (id : Nat) : Call := .sched (.killTask id 0)

def tick : Call := .sched (.tick 0x100800)

/-- The first of two tasks kills the second. -/
def killRun : List Call := [create, create, .sched .start, kill 2]

@[irreducible] def orderlyState : Ledger :=
  (runActions (guarded next Orderly) boot (killRun ++ [tick, tick])).get (by decide +kernel)

@[irreducible] def briefState : Ledger :=
  (runActions (guarded next fun l call => l.Orderly call ∧ l.Brief call) boot
      (killRun ++ [tick])).get (by decide +kernel)

theorem orderlyState_reachable : (system.restrict Orderly).Reachable orderlyState := by
  unfold orderlyState
  exact reachable_get_guarded next boot_init _

theorem briefState_reachable :
    (system.restrict fun l call => l.Orderly call ∧ l.Brief call).Reachable briefState := by
  unfold briefState
  exact reachable_get_guarded next boot_init _

theorem orderlyState_reclaims :
    (orderlyState.age 1 = some 2 ∧
      orderlyState.Reclaims (system.restrict Orderly) fun p => [.task p]) ∧
    (briefState.age 1 = some 1 ∧
      briefState.Reclaims (system.restrict fun l call => l.Orderly call ∧ l.Brief call)
        fun p => [.task p, .kernel p]) :=
  ⟨⟨by decide +kernel, reclaims_of_orderly.1 orderlyState_reachable⟩,
    ⟨by decide +kernel, reclaims_of_orderly.2 briefState_reachable⟩⟩

/-- The first task exits and is still the current one. -/
def exitRun : List Call := [create, create, .sched .start, kill 1]

/-- Five tasks are killed between two ticks, which fills the array with the first four. -/
def crowdedRun : List Call :=
  List.replicate 6 create ++ [.sched .start, kill 2, kill 3, kill 4, kill 5, kill 6, tick, tick]

/-- The stack of an exiting task is freed while it is the current task; the stack of the fifth
task that is killed between two ticks is never freed; and a kernel stack is not freed either. -/
theorem not_reclaims :
    (∃ l call l', system.Reachable l ∧ system.step l call l' ∧
      l.kernel.sched.current = some 0 ∧ .task 0 ∉ l.frees ∧ .task 0 ∈ l'.frees) ∧
    (∃ l, system.Reachable l ∧ l.age 5 = some 2 ∧ .task 5 ∉ l.frees) ∧
    (∃ l, system.Reachable l ∧ l.age 1 = some 2 ∧ .task 1 ∈ l.frees ∧ .kernel 1 ∉ l.frees) := by
  refine ⟨?_, exists_reachable_of_any next boot_init crowdedRun _ (by decide +kernel),
    ⟨orderlyState, orderlyState_reachable.of_restrict, by decide +kernel, by decide +kernel,
      by decide +kernel⟩⟩
  obtain ⟨l, hl, hcurrent, hkept, hfreed⟩ := exists_reachable_of_any next boot_init exitRun
    (fun l => l.kernel.sched.current = some 0 ∧ .task 0 ∉ l.frees ∧
      (l.next tick).any fun l' => .task 0 ∈ l'.frees) (by decide +kernel)
  obtain ⟨l', hstep, hmem⟩ := Option.any_eq_true _ _ |>.mp hfreed
  exact ⟨l, tick, l', hl, hstep, hcurrent, hkept, of_decide_eq_true hmem⟩

end Ledger

end WengShiOS.Scheduler
