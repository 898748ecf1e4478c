import Mathlib.Tactic.Common
import WengShiOS.Scheduler.Basic

/-! # The task ring and what one tick does

The ring invariant says that `next` runs through the tasks in the order of their
creation. It makes the bounded walks complete: a search that comes back empty has
seen every task. From that, `tick_spec` says everything a tick can do to the
states of the tasks; the invariants of the other modules are derived from it. -/

namespace WengShiOS.Scheduler

open Scheduler.Task

namespace Sched

variable {s : Sched} {p q c : Nat} {f : Task → Task}

section Fields

@[simp] theorem modify_count : (s.modify p f).count = s.count := rfl
@[simp] theorem modify_current : (s.modify p f).current = s.current := rfl
@[simp] theorem modify_tail : (s.modify p f).tail = s.tail := rfl
@[simp] theorem modify_started : (s.modify p f).started = s.started := rfl
@[simp] theorem modify_nextId : (s.modify p f).nextId = s.nextId := rfl
@[simp] theorem modify_pendingCleanup :
    (s.modify p f).pendingCleanup = s.pendingCleanup := rfl

@[simp] theorem modify_task_self : (s.modify p f).task p = f (s.task p) := by
  simp [modify]

theorem modify_task_of_ne (h : q ≠ p) : (s.modify p f).task q = s.task q := by
  simp [modify, h]

/-- A field that the write leaves alone keeps its value in every task. -/
theorem modify_field {β : Type*} (field : Task → β) (h : ∀ t, field (f t) = field t) :
    field ((s.modify p f).task q) = field (s.task q) := by
  by_cases hqp : q = p
  · subst hqp
    simp [h]
  · rw [modify_task_of_ne hqp]

theorem setState_state (st : TaskState) :
    ((s.setState p st).task q).state = if q = p then st else (s.task q).state := by
  by_cases hqp : q = p
  · simp [setState, hqp]
  · simp [setState, hqp, modify_task_of_ne hqp]

end Fields

/-- `s'` differs from `s` at most in task states, saved stack pointers, stack
bases, and in the globals that are not part of the ring. -/
structure SameLinks (s s' : Sched) : Prop where
  count : s'.count = s.count
  tail : s'.tail = s.tail
  nextId : s'.nextId = s.nextId
  started : s'.started = s.started
  next : ∀ p, (s'.task p).next = (s.task p).next
  id : ∀ p, (s'.task p).id = (s.task p).id
  exitCode : ∀ p, (s'.task p).exitCode = (s.task p).exitCode
  waitingParent : ∀ p, (s'.task p).waitingParent = (s.task p).waitingParent

theorem SameLinks.refl (s : Sched) : SameLinks s s :=
  ⟨rfl, rfl, rfl, rfl, fun _ => rfl, fun _ => rfl, fun _ => rfl, fun _ => rfl⟩

theorem SameLinks.trans {s₁ s₂ s₃ : Sched} (h : SameLinks s₁ s₂) (h' : SameLinks s₂ s₃) :
    SameLinks s₁ s₃ where
  count := h'.count.trans h.count
  tail := h'.tail.trans h.tail
  nextId := h'.nextId.trans h.nextId
  started := h'.started.trans h.started
  next p := (h'.next p).trans (h.next p)
  id p := (h'.id p).trans (h.id p)
  exitCode p := (h'.exitCode p).trans (h.exitCode p)
  waitingParent p := (h'.waitingParent p).trans (h.waitingParent p)

theorem sameLinks_setState (s : Sched) (p : Nat) (st : TaskState) :
    SameLinks s (s.setState p st) where
  count := rfl
  tail := rfl
  nextId := rfl
  started := rfl
  next _ := modify_field next fun _ => rfl
  id _ := modify_field Task.id fun _ => rfl
  exitCode _ := modify_field exitCode fun _ => rfl
  waitingParent _ := modify_field waitingParent fun _ => rfl

theorem sameLinks_dispatch (s : Sched) (p : Nat) : SameLinks s (s.dispatch p) :=
  have h := sameLinks_setState { s with current := some p } p .running
  ⟨h.count, h.tail, h.nextId, h.started, h.next, h.id, h.exitCode, h.waitingParent⟩

theorem sameLinks_resume (s : Sched) (p : Nat) : SameLinks s (s.resume p) :=
  have h := sameLinks_setState { s with nextTaskRsp := (s.task p).rsp } p .running
  ⟨h.count, h.tail, h.nextId, h.started, h.next, h.id, h.exitCode, h.waitingParent⟩

theorem sameLinks_reapOne (s : Sched) (p : Nat) :
    SameLinks s (s.reapOne p) ∧ (s.reapOne p).current = s.current ∧
      ∀ q, ((s.reapOne p).task q).state = (s.task q).state := by
  refine ⟨⟨rfl, rfl, rfl, rfl, fun _ => ?_, fun _ => ?_, fun _ => ?_, fun _ => ?_⟩, rfl,
    fun _ => ?_⟩
  · exact modify_field next fun _ => rfl
  · exact modify_field Task.id fun _ => rfl
  · exact modify_field exitCode fun _ => rfl
  · exact modify_field waitingParent fun _ => rfl
  · exact modify_field state fun _ => rfl

/-- Reaping frees stacks and touches neither the ring nor any task's state. -/
theorem sameLinks_reapTerminated (s : Sched) :
    SameLinks s s.reapTerminated ∧ s.reapTerminated.current = s.current ∧
      ∀ q, (s.reapTerminated.task q).state = (s.task q).state := by
  have fold : ∀ (l : List Nat) (s : Sched), SameLinks s (l.foldl reapOne s) ∧
      (l.foldl reapOne s).current = s.current ∧
      ∀ q, ((l.foldl reapOne s).task q).state = (s.task q).state := by
    intro l
    induction l with
    | nil => exact fun s => ⟨.refl s, rfl, fun _ => rfl⟩
    | cons p l ih =>
      intro s
      obtain ⟨links, current, state⟩ := sameLinks_reapOne s p
      obtain ⟨links', current', state'⟩ := ih (s.reapOne p)
      exact ⟨links.trans links', current'.trans current, fun q => (state' q).trans (state q)⟩
  obtain ⟨⟨h₁, h₂, h₃, h₄, h₅, h₆, h₇, h₈⟩, current, state⟩ := fold s.pendingCleanup s
  exact ⟨⟨h₁, h₂, h₃, h₄, h₅, h₆, h₇, h₈⟩, current, state⟩

/-- Following `next` visits the tasks in the order of their creation. -/
structure Ring (s : Sched) : Prop where
  next_eq : ∀ p < s.count, (s.task p).next = (p + 1) % s.count
  tail_eq : s.tail = if s.count = 0 then none else some (s.count - 1)
  current_lt : ∀ p, s.current = some p → p < s.count

theorem Ring.of_sameLinks {s s' : Sched} (h : Ring s) (links : SameLinks s s')
    (current : ∀ p, s'.current = some p → p < s.count) : Ring s' where
  next_eq p hp := by
    rw [links.count] at hp ⊢
    rw [links.next, h.next_eq p hp]
  tail_eq := by rw [links.tail, links.count, h.tail_eq]
  current_lt p hp := by
    rw [links.count]
    exact current p hp

/-! ### The walk around the ring -/

theorem Ring.next_lt (ring : Ring s) (hp : p < s.count) : (s.task p).next < s.count := by
  rw [ring.next_eq p hp]
  exact Nat.mod_lt _ (by omega)

variable {start id : Nat}

/-- The search walks along the ring. By induction on the steps that remain; the last one
leads back to `start`. -/
theorem Ring.walk_eq_find? {k fuel : Nat} (ring : Ring s) (found : Task → Bool)
    (hstart : start < s.count) (hk : k + fuel = s.count) :
    s.walk found start fuel ((start + k) % s.count) =
      ((List.range fuel).map fun i => (start + k + i) % s.count).find? fun p => found (s.task p) := by
  have hpos : 0 < s.count := by omega
  induction fuel generalizing k with
  | zero => rfl
  | succ fuel ih =>
    have hnext : (s.task ((start + k) % s.count)).next = (start + (k + 1)) % s.count := by
      rw [ring.next_eq _ (Nat.mod_lt _ hpos), Nat.mod_add_mod, Nat.add_assoc]
    have hrest : (List.range fuel).map ((fun i => (start + k + i) % s.count) ∘ Nat.succ) =
        (List.range fuel).map fun i => (start + (k + 1) + i) % s.count := by
      apply List.map_congr_left
      intro i _
      simp only [Function.comp_apply]
      congr 1
      omega
    rw [walk, hnext, List.range_succ_eq_map, List.map_cons, List.map_map, hrest, List.find?_cons,
      Nat.add_zero]
    cases found (s.task ((start + k) % s.count)) with
    | true => rfl
    | false =>
      rw [if_neg (by decide)]
      split_ifs with hback
      · have hlast : fuel = 0 := by
          by_contra hmore
          rcases Nat.lt_or_ge (start + (k + 1)) s.count with hsmall | hlarge
          · rw [Nat.mod_eq_of_lt hsmall] at hback
            omega
          · rw [Nat.mod_eq_sub_mod hlarge, Nat.mod_eq_of_lt (by omega)] at hback
            omega
        rw [hlast]
        rfl
      · exact ih (by omega)

/-- A search that is not stopped goes around the whole ring. -/
theorem Ring.walk_count (ring : Ring s) (found : Task → Bool) (hstart : start < s.count) :
    s.walk found start s.count start =
      ((List.range s.count).map fun i => (start + i) % s.count).find? fun p => found (s.task p) := by
  have hwalk := ring.walk_eq_find? found hstart (Nat.zero_add s.count)
  rwa [Nat.add_zero, Nat.mod_eq_of_lt hstart] at hwalk

/-- Once around from any task every task is met. -/
theorem mem_around {n : Nat} (hn : 0 < n) (hstart : start ≤ n) :
    p ∈ ((List.range n).map fun i => (start + i) % n) ↔ p < n := by
  rw [List.mem_map]
  constructor
  · rintro ⟨i, -, rfl⟩
    exact Nat.mod_lt _ hn
  · intro hp
    refine ⟨(p + n - start) % n, List.mem_range.mpr (Nat.mod_lt _ hn), ?_⟩
    rw [Nat.add_mod_mod, show start + (p + n - start) = p + n by omega, Nat.add_mod_right,
      Nat.mod_eq_of_lt hp]

section

variable (ring : Ring s)
include ring

theorem findNextReady_some (hp : p < s.count) (h : s.findNextReady p = some q) :
    q < s.count ∧ (s.task q).state = .ready := by
  have hnext := ring.next_lt hp
  rw [findNextReady, ring.walk_count _ hnext] at h
  exact ⟨(mem_around (by omega) (Nat.le_of_lt hnext)).mp (List.mem_of_find?_eq_some h),
    by simpa using List.find?_some h⟩

theorem findNextReady_none (hp : p < s.count) (h : s.findNextReady p = none) :
    ∀ q < s.count, (s.task q).state ≠ .ready := by
  have hnext := ring.next_lt hp
  rw [findNextReady, ring.walk_count _ hnext] at h
  intro q hq
  simpa using List.find?_eq_none.mp h q ((mem_around (by omega) (Nat.le_of_lt hnext)).mpr hq)

/-- The first task in the order of creation follows the last one. -/
theorem Ring.first {tail : Nat} (htail : s.tail = some tail) :
    0 < s.count ∧ (s.task tail).next = 0 := by
  have htail' := ring.tail_eq
  rw [htail] at htail'
  split_ifs at htail' with hcount
  cases htail'
  refine ⟨by omega, ?_⟩
  rw [ring.next_eq _ (by omega), show s.count - 1 + 1 = s.count by omega, Nat.mod_self]

/-- The search for an id starts with the first task. -/
theorem findTaskById_eq {tail : Nat} (htail : s.tail = some tail) (id : Nat) :
    s.findTaskById id = s.walk (fun t => t.id = id) 0 s.count 0 := by
  unfold findTaskById
  rw [htail]
  dsimp only
  rw [(ring.first htail).2]

/-- The tasks are searched in the order of their creation. -/
theorem findTaskById_eq_find? (id : Nat) :
    s.findTaskById id = (List.range s.count).find? fun p => (s.task p).id = id := by
  cases htail : s.tail with
  | none =>
    have hzero : s.count = 0 := by
      rw [ring.tail_eq] at htail
      split_ifs at htail with hzero
      exact hzero
    rw [findTaskById, htail, hzero]
    rfl
  | some tail =>
    have hfirst := (ring.first htail).1
    have hsame : ((List.range s.count).map fun i => (0 + i) % s.count) = List.range s.count := by
      refine (List.map_congr_left fun i hi => ?_).trans (List.map_id _)
      rw [Nat.zero_add, Nat.mod_eq_of_lt (List.mem_range.mp hi), id_eq]
    rw [findTaskById_eq ring htail, ring.walk_count _ hfirst, hsame]

theorem findTaskById_some (h : s.findTaskById id = some p) :
    p < s.count ∧ (s.task p).id = id := by
  rw [findTaskById_eq_find? ring] at h
  exact ⟨List.mem_range.mp (List.mem_of_find?_eq_some h), by simpa using List.find?_some h⟩

theorem findTaskById_none (h : s.findTaskById id = none) :
    ∀ p < s.count, (s.task p).id ≠ id := by
  intro p hp
  rw [findTaskById_eq_find? ring] at h
  simpa using List.find?_eq_none.mp h p (List.mem_range.mpr hp)

/-- `findTaskById` finds the oldest task with the id. -/
theorem findTaskById_eq_some_iff :
    s.findTaskById id = some p ↔
      p < s.count ∧ (s.task p).id = id ∧ ∀ q < p, (s.task q).id ≠ id := by
  rw [findTaskById_eq_find? ring, List.find?_range_eq_some]
  simp only [decide_eq_true_eq, List.mem_range, Bool.not_eq_true', decide_eq_false_iff_not]
  exact and_left_comm

end

/-! ### One tick -/

/-- The state a task is in once the current task `c` has been preempted. -/
def preempted (s : Sched) (c p : Nat) : TaskState :=
  if p = c ∧ (s.task p).state = .running then .ready else (s.task p).state

theorem preempt_state (regs : Nat) : ((s.preempt c regs).task p).state = s.preempted c p := by
  obtain ⟨-, -, state⟩ := sameLinks_reapTerminated s
  by_cases hpc : p = c
  · subst hpc
    simp [preempt, preempted, state]
  · simp [preempt, preempted, hpc, modify_task_of_ne hpc, state]

theorem sameLinks_preempt (s : Sched) (c : Nat) (regs : Nat) :
    SameLinks s (s.preempt c regs) := by
  refine (sameLinks_reapTerminated s).1.trans
    ⟨rfl, rfl, rfl, rfl, fun _ => ?_, fun _ => ?_, fun _ => ?_, fun _ => ?_⟩
  · exact modify_field next fun _ => rfl
  · exact modify_field Task.id fun _ => rfl
  · exact modify_field exitCode fun _ => rfl
  · exact modify_field waitingParent fun _ => rfl

theorem preempt_current (c regs : Nat) : (s.preempt c regs).current = s.current :=
  (sameLinks_reapTerminated s).2.1

theorem Ring.preempt (ring : Ring s) (c regs : Nat) : Ring (s.preempt c regs) :=
  ring.of_sameLinks (sameLinks_preempt s c regs) fun p hp =>
    ring.current_lt p (by rwa [preempt_current] at hp)

/-- Everything a tick can do to the tasks: the current task is preempted and one
task is dispatched, which was ready or is the preempted one; when neither exists
the current task is resumed whatever its state. -/
structure TickOutcome (s s' : Sched) (c q : Nat) : Prop where
  links : SameLinks s s'
  current : s'.current = some q
  lt : q < s.count
  state : ∀ p, (s'.task p).state = if p = q then .running else s.preempted c p
  chosen : s.preempted c q = .ready ∨
    q = c ∧ (s.task c).state ≠ .running ∧ ∀ p < s.count, (s.task p).state ≠ .ready

theorem tick_spec (regs : Nat) (ring : Ring s) (hstarted : s.started = true) (hc : s.current = some c) :
    ∃ q, TickOutcome s (s.tick regs) c q := by
  have hlt := ring.current_lt c hc
  have hcount := (sameLinks_preempt s c regs).count
  unfold tick
  rw [hstarted, hc]
  dsimp only
  cases hnext : (s.preempt c regs).findNextReady c with
  | some q =>
    obtain ⟨hq, hready⟩ := findNextReady_some (ring.preempt c regs) (by rwa [hcount]) hnext
    refine ⟨q, ?_, rfl, by rwa [hcount] at hq, fun p => ?_, Or.inl ?_⟩
    · exact (sameLinks_preempt s c regs).trans (sameLinks_dispatch _ q)
    · simp only [dispatch, setState_state, preempt_state]
    · rw [← preempt_state regs]
      exact hready
  | none =>
    have hnone := findNextReady_none (ring.preempt c regs) (by rwa [hcount]) hnext
    have hidle : ∀ p < s.count, s.preempted c p ≠ .ready := fun p hp => by
      rw [← preempt_state regs]
      exact hnone p (by rwa [hcount])
    have hrunning : (s.task c).state ≠ .running := fun h => hidle c hlt (by simp [preempted, h])
    refine ⟨c, ?_, (preempt_current c regs).trans hc, hlt, fun p => ?_, Or.inr ⟨rfl, hrunning, fun p hp h => ?_⟩⟩
    · exact (sameLinks_preempt s c regs).trans (sameLinks_resume _ c)
    · simp only [resume, setState_state, preempt_state]
    · exact hidle p hp (by simp [preempted, h])

theorem tick_of_not_started (regs : Nat) (h : s.started = false ∨ s.current = none) : s.tick regs = s := by
  unfold tick
  rcases h with h | h <;> rw [h]
  cases s.started <;> rfl

/-- A tick does nothing before `start`; else it has an outcome. -/
theorem tick_cases (ring : Ring s) (regs : Nat) :
    (s.started = false ∨ s.current = none) ∧ s.tick regs = s ∨
      ∃ c q, s.started = true ∧ s.current = some c ∧ TickOutcome s (s.tick regs) c q := by
  by_cases h : s.started = false ∨ s.current = none
  · exact .inl ⟨h, tick_of_not_started regs h⟩
  · push Not at h
    obtain ⟨c, hc⟩ := Option.ne_none_iff_exists'.mp h.2
    have hstarted : s.started = true := by simpa using h.1
    obtain ⟨q, outcome⟩ := tick_spec regs ring hstarted hc
    exact .inr ⟨c, q, hstarted, hc, outcome⟩

theorem tick_sameLinks (ring : Ring s) (regs : Nat) : SameLinks s (s.tick regs) := by
  rcases tick_cases ring regs with ⟨-, hsame⟩ | ⟨c, q, -, -, outcome⟩
  · rw [hsame]
    exact .refl s
  · exact outcome.links

theorem Ring.tick (ring : Ring s) (regs : Nat) : Ring (s.tick regs) := by
  rcases tick_cases ring regs with ⟨-, hsame⟩ | ⟨c, q, -, -, outcome⟩
  · rwa [hsame]
  · refine ring.of_sameLinks outcome.links fun p hp => ?_
    obtain rfl : q = p := by simpa using outcome.current.symm.trans hp
    exact outcome.lt

end Sched

end WengShiOS.Scheduler
