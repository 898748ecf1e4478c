import Mathlib.Data.List.Rotate
import WengShiOS.Scheduler.SingleRunner

/-! # Round robin

The tasks that are ready or running, in the order of the ring after the current task, are a
list that ends with the current task (`rotation`). A tick dispatches the first one of it, and
seen from there the list is rotated by one. So as many ticks as there are such tasks
dispatch each of them once and end where they began (`roundRobin`). This needs that nobody
but the current task is running, as in every state that the scheduler reaches: a second
running task would never be found by `findNextReady` (`not_roundRobin`). -/

namespace WengShiOS.Scheduler

open Math

namespace Sched

variable {s s' s₀ : Sched} {c p q : Nat}

/-- The tasks in the order in which `next` leads to them from `c`, which comes last. -/
def ringAfter (s : Sched) (c : Nat) : List Nat :=
  (List.range s.count).map fun i => (fun p => (s.task p).next)^[i + 1] c

/-- The tasks that are ready or running. -/
def runnable (s : Sched) : Finset Nat :=
  (Finset.range s.count).filter fun p =>
    (s.task p).state = .ready ∨ (s.task p).state = .running

/-- The runnable tasks in the order of the ring. -/
def rotation (s : Sched) (c : Nat) : List Nat := (s.ringAfter c).filter (· ∈ s.runnable)

/-- Ticks one after the other, with the frames that the stub pushed. -/
def ticks (s : Sched) (regs : List Nat) : Sched := regs.foldl tick s

/-- The task that each tick dispatches. -/
def dispatched (s : Sched) : List Nat → List (Option Nat)
  | [] => []
  | r :: regs => (s.tick r).current :: (s.tick r).dispatched regs

/-! ### The order of the ring -/

section

variable (ring : Ring s) (hc : c < s.count)
include ring hc

theorem Ring.ringAfter_eq :
    s.ringAfter c = (List.range s.count).map fun i => (c + 1 + i) % s.count := by
  apply List.map_congr_left
  intro i hi
  clear hi
  induction i with
  | zero => exact ring.next_eq c hc
  | succ i ih =>
    rw [Function.iterate_succ_apply', ih, ring.next_eq _ (Nat.mod_lt _ (by omega)),
      Nat.mod_add_mod, Nat.add_assoc]

theorem Ring.mem_ringAfter : p ∈ s.ringAfter c ↔ p < s.count := by
  rw [ring.ringAfter_eq hc]
  exact mem_around (by omega) hc

theorem Ring.ringAfter_nodup : (s.ringAfter c).Nodup := by
  rw [ring.ringAfter_eq hc]
  refine List.nodup_range.map_on fun i hi j hj heq => ?_
  have hmod : i ≡ j [MOD s.count] := Nat.ModEq.add_left_cancel' (c + 1) heq
  rwa [Nat.ModEq, Nat.mod_eq_of_lt (List.mem_range.mp hi),
    Nat.mod_eq_of_lt (List.mem_range.mp hj)] at hmod

/-- From the task at position `k` the same ring is seen, rotated. -/
theorem Ring.ringAfter_rotate (k : Nat) :
    s.ringAfter ((c + 1 + k) % s.count) = (s.ringAfter c).rotate (k + 1) := by
  rw [ring.ringAfter_eq hc, ring.ringAfter_eq (Nat.mod_lt _ (by omega))]
  apply List.ext_getElem
  · simp
  · intro i hi hi'
    simp only [List.getElem_rotate, List.getElem_map, List.getElem_range, List.length_map,
      List.length_range, Nat.add_mod_mod]
    rw [Nat.add_assoc, Nat.mod_add_mod]
    congr 1
    omega

/-- The current task comes last. -/
theorem Ring.ringAfter_concat :
    ∃ front, s.ringAfter c = front ++ [c] := by
  obtain ⟨n, hn⟩ : ∃ n, s.count = n + 1 := ⟨s.count - 1, by omega⟩
  rw [ring.ringAfter_eq hc, hn, List.range_succ, List.map_append]
  refine ⟨_, congrArg _ ?_⟩
  rw [List.map_singleton, show c + 1 + n = c + (n + 1) by omega, Nat.add_mod_right,
    Nat.mod_eq_of_lt (hn ▸ hc)]

theorem Ring.findNextReady_eq :
    s.findNextReady c = (s.ringAfter c).find? fun p => (s.task p).state = .ready := by
  rw [findNextReady, ring.walk_count _ (ring.next_lt hc), ring.ringAfter_eq hc]
  congr 1
  apply List.map_congr_left
  intro i _
  rw [ring.next_eq c hc, Nat.mod_add_mod]

end

/-! ### Runnable tasks -/

theorem mem_runnable : p ∈ s.runnable ↔
    p < s.count ∧ ((s.task p).state = .ready ∨ (s.task p).state = .running) := by
  rw [runnable, Finset.mem_filter, Finset.mem_range]

theorem Ring.mem_rotation (ring : Ring s) (hc : c < s.count) :
    p ∈ s.rotation c ↔ p ∈ s.runnable := by
  rw [rotation, List.mem_filter, ring.mem_ringAfter hc, decide_eq_true_iff]
  exact and_iff_right_of_imp fun hp => (mem_runnable.mp hp).1

theorem Ring.rotation_nodup (ring : Ring s) (hc : c < s.count) : (s.rotation c).Nodup :=
  (ring.ringAfter_nodup hc).filter _

theorem Ring.length_rotation (ring : Ring s) (hc : c < s.count) :
    (s.rotation c).length = s.runnable.card := by
  have hset : (s.rotation c).toFinset = s.runnable := by
    ext p
    rw [List.mem_toFinset, ring.mem_rotation hc]
  rw [← hset, List.toFinset_card_of_nodup (ring.rotation_nodup hc)]

theorem Ring.rotation_concat (ring : Ring s) (hc : c ∈ s.runnable) :
    ∃ front, s.rotation c = front ++ [c] := by
  obtain ⟨front, hfront⟩ := ring.ringAfter_concat (mem_runnable.mp hc).1
  refine ⟨front.filter (· ∈ s.runnable), ?_⟩
  rw [rotation, hfront, List.filter_append, List.filter_singleton, decide_eq_true hc]
  rfl

/-- Seen from the first runnable task, the others come before it. -/
theorem Ring.rotation_next (ring : Ring s) (hc : c < s.count) {rest : List Nat}
    (h : s.rotation c = q :: rest) : s.rotation q = rest ++ [q] := by
  obtain ⟨skipped, after, hring, hskipped, hq, hafter⟩ := List.filter_eq_cons_iff.mp h
  have hlen : skipped.length < (s.ringAfter c).length := by
    rw [hring, List.length_append, List.length_cons]
    omega
  have hq' : (c + 1 + skipped.length) % s.count = q := by
    have hget : (s.ringAfter c)[skipped.length]? = some q := by
      rw [hring, List.getElem?_append_right le_rfl, Nat.sub_self, List.getElem?_cons_zero]
    rw [ring.ringAfter_eq hc, List.getElem?_map] at hget
    rw [ring.ringAfter_eq hc, List.length_map, List.length_range] at hlen
    simpa [List.getElem?_range hlen] using hget
  have hrotate : s.ringAfter q = after ++ (skipped ++ [q]) := by
    have hsplit : s.ringAfter c = (skipped ++ [q]) ++ after := by
      rw [hring, List.append_assoc, List.singleton_append]
    calc s.ringAfter q = s.ringAfter ((c + 1 + skipped.length) % s.count) := by rw [hq']
      _ = (s.ringAfter c).rotate (skipped.length + 1) := ring.ringAfter_rotate hc _
      _ = ((skipped ++ [q]) ++ after).rotate (skipped ++ [q]).length := by
        rw [hsplit, List.length_append, List.length_singleton]
      _ = after ++ (skipped ++ [q]) := List.rotate_append_length_eq _ _
  have hnone : skipped.filter (· ∈ s.runnable) = [] := List.filter_eq_nil_iff.mpr hskipped
  rw [rotation, hrotate, List.filter_append, List.filter_append, hafter, hnone, List.nil_append,
    List.filter_singleton, hq]
  rfl

/-! ### One tick -/

theorem tick_eq_dispatch (regs : Nat) (hstarted : s.started = true) (hc : s.current = some c)
    (h : (s.preempt c regs).findNextReady c = some q) :
    s.tick regs = (s.preempt c regs).dispatch q := by
  rw [tick, hstarted, hc]
  dsimp only
  rw [h]

/-- It is the turn of `c`: compared with `s₀`, at most the roles of the runnable tasks have
changed. -/
structure Turn (s₀ s : Sched) (c : Nat) : Prop where
  ring : Ring s
  started : s.started = true
  current : s.current = some c
  count : s.count = s₀.count
  next : ∀ p, (s.task p).next = (s₀.task p).next
  runnable : c ∈ s₀.runnable
  state : ∀ p, (s.task p).state =
    if p = c then .running else if p ∈ s₀.runnable then .ready else (s₀.task p).state

theorem ringAfter_congr (hcount : s.count = s₀.count)
    (hnext : ∀ p, (s.task p).next = (s₀.task p).next) (c : Nat) :
    s.ringAfter c = s₀.ringAfter c := by
  rw [ringAfter, ringAfter, hcount, funext hnext]

/-- After the preemption the runnable tasks are those that are ready. -/
theorem Turn.findNextReady (t : Turn s₀ s c) (regs : Nat) :
    (s.preempt c regs).findNextReady c = (s₀.rotation c).head? := by
  have links := sameLinks_preempt s c regs
  have hc : c < s.count := t.ring.current_lt c t.current
  have hring : (s.preempt c regs).ringAfter c = s₀.ringAfter c :=
    ringAfter_congr (links.count.trans t.count) (fun p => (links.next p).trans (t.next p)) c
  rw [(t.ring.preempt c regs).findNextReady_eq (links.count ▸ hc), hring, ← List.head?_filter,
    rotation]
  congr 1
  apply List.filter_congr
  intro p hp
  rw [← ringAfter_congr t.count t.next, t.ring.mem_ringAfter hc] at hp
  rw [preempt_state, preempted, t.state, decide_eq_decide]
  by_cases hpc : p = c
  · simp [hpc, t.runnable]
  · by_cases hrun : p ∈ s₀.runnable
    · simp [hpc, hrun]
    · have hidle : (s₀.task p).state ≠ .ready := fun hready =>
        hrun (mem_runnable.mpr ⟨t.count ▸ hp, .inl hready⟩)
      simp [hpc, hrun, hidle]

/-- A tick gives the turn to the first task of the rotation. -/
theorem Turn.tick (t : Turn s₀ s c) {rest : List Nat} (h : s₀.rotation c = q :: rest)
    (hq : q ∈ s₀.runnable) (regs : Nat) : Turn s₀ (s.tick regs) q := by
  have hfind : (s.preempt c regs).findNextReady c = some q := by
    rw [t.findNextReady regs, h, List.head?_cons]
  have htick := tick_eq_dispatch regs t.started t.current hfind
  have links : SameLinks s (s.tick regs) := tick_sameLinks t.ring regs
  refine ⟨t.ring.tick regs, links.started.trans t.started, by rw [htick]; rfl,
    links.count.trans t.count, fun p => (links.next p).trans (t.next p), hq, fun p => ?_⟩
  rw [htick]
  simp only [dispatch, setState_state, preempt_state, preempted]
  by_cases hpq : p = q
  · rw [if_pos hpq, if_pos hpq]
  · rw [if_neg hpq, if_neg hpq, t.state]
    by_cases hpc : p = c
    · simp [hpc, t.runnable]
    · simp [hpc]

/-! ### Many ticks -/

/-- Up to one round: each tick takes the next task of the rotation. -/
theorem Turn.ticks (t : Turn s₀ s c) (ring : Ring s₀) (regs : List Nat)
    (hle : regs.length ≤ (s₀.rotation c).length) :
    s.dispatched regs = ((s₀.rotation c).take regs.length).map some ∧
      ∃ c', Turn s₀ (s.ticks regs) c' ∧
        s₀.rotation c' = (s₀.rotation c).rotate regs.length := by
  induction regs generalizing s c with
  | nil => exact ⟨rfl, c, t, by rw [List.length_nil, List.rotate_zero]⟩
  | cons r regs ih =>
    have hc : c < s₀.count := (mem_runnable.mp t.runnable).1
    cases hrot : s₀.rotation c with
    | nil =>
      rw [hrot] at hle
      exact absurd hle (by simp)
    | cons q rest =>
      have hq : q ∈ s₀.runnable := (ring.mem_rotation hc).mp (by simp [hrot])
      have hnext := ring.rotation_next hc hrot
      rw [hrot, List.length_cons, List.length_cons] at hle
      have hle' : regs.length ≤ (s₀.rotation q).length := by
        rw [hnext, List.length_append, List.length_singleton]
        omega
      obtain ⟨hdisp, c', t', hrot'⟩ := ih (t.tick hrot hq r) hle'
      refine ⟨?_, c', t', ?_⟩
      · rw [dispatched, hdisp, (t.tick hrot hq r).current, hnext,
          List.take_append_of_le_length (by omega), List.length_cons, List.take_succ_cons,
          List.map_cons]
      · rw [hrot', hnext, List.length_cons, List.rotate_cons_succ]

/-- One round. -/
structure RoundRobin (s : Sched) (c : Nat) (regs : List Nat) : Prop where
  /-- the ticks dispatch the runnable tasks in the order of the ring -/
  dispatched : s.dispatched regs = (s.rotation c).map some
  /-- each one once -/
  once : (s.rotation c).Nodup
  all : ∀ p, p ∈ s.rotation c ↔ p ∈ s.runnable
  current : (s.ticks regs).current = some c
  state : ∀ p, ((s.ticks regs).task p).state = (s.task p).state

theorem turn_self (ring : Ring s) (hstarted : s.started = true) (hcurrent : s.current = some c)
    (hrunning : (s.task c).state = .running) (single : SingleRunner s) : Turn s s c := by
  have hc := ring.current_lt c hcurrent
  have hrun : c ∈ s.runnable := mem_runnable.mpr ⟨hc, .inr hrunning⟩
  refine ⟨ring, hstarted, hcurrent, rfl, fun _ => rfl, hrun, fun p => ?_⟩
  by_cases hpc : p = c
  · rw [if_pos hpc, hpc, hrunning]
  · split_ifs with hp
    · obtain ⟨hlt, hready | hother⟩ := mem_runnable.mp hp
      · exact hready
      · exact absurd (Option.some.inj (hcurrent.symm.trans (single p hlt hother))).symm hpc
    · rfl

theorem Turn.fullRound (start : Turn s s c) (regs : List Nat)
    (hregs : regs.length = s.runnable.card) : RoundRobin s c regs := by
  have ring := start.ring
  have hc := ring.current_lt c start.current
  have hlen : regs.length = (s.rotation c).length := hregs.trans (ring.length_rotation hc).symm
  obtain ⟨hdisp, c', t, hrot⟩ := start.ticks ring regs hlen.le
  rw [hlen, List.take_length] at hdisp
  rw [hlen, List.rotate_length] at hrot
  -- the last task of a rotation is the one whose turn it is
  obtain ⟨front, hfront⟩ := ring.rotation_concat start.runnable
  obtain ⟨front', hfront'⟩ := ring.rotation_concat t.runnable
  rw [hfront, hfront'] at hrot
  obtain rfl : c' = c := by simpa using (List.append_inj' hrot rfl).2
  refine ⟨hdisp, ring.rotation_nodup hc, fun p => ring.mem_rotation hc, t.current, fun p => ?_⟩
  rw [t.state, ← start.state]

/-- **Fairness.** If the current task is running and nobody else is, as many ticks as there
are runnable tasks dispatch each of them once, and leave all tasks in the states they were
in. -/
theorem roundRobin (ring : Ring s) (hstarted : s.started = true) (hcurrent : s.current = some c)
    (hrunning : (s.task c).state = .running) (single : SingleRunner s) (regs : List Nat)
    (hregs : regs.length = s.runnable.card) : RoundRobin s c regs :=
  (turn_self ring hstarted hcurrent hrunning single).fullRound regs hregs

/-- Tasks in the given states, of which the first one is the current task. -/
def ringOf (states : List TaskState) : Sched where
  count := states.length
  task p := ⟨0, p + 1, states.getD p .terminated, 0, 0, 0, 0, 0, none, 0, (p + 1) % states.length⟩
  current := some 0
  tail := some (states.length - 1)
  nextId := states.length + 1
  started := true
  pendingCleanup := []
  nextTaskRsp := 0
  kernelStack := 0
  addressSpace := 0
  freed := []

theorem ring_ringOf {states : List TaskState} (h : states ≠ []) : Ring (ringOf states) := by
  have hpos := List.length_pos_iff.mpr h
  refine ⟨fun _ _ => rfl, ?_, fun p hp => ?_⟩
  · exact (if_neg hpos.ne').symm
  · cases hp
    exact hpos

theorem ringOf_roundRobin :
    RoundRobin (ringOf [.running, .blocked, .ready, .terminated]) 0 [0, 0] ∧
      (ringOf [.running, .blocked, .ready, .terminated]).rotation 0 = [2, 0] := by
  have single : SingleRunner (ringOf [.running, .blocked, .ready, .terminated]) := by
    unfold SingleRunner
    decide
  exact ⟨roundRobin (ring_ringOf (by decide)) rfl rfl rfl single _ (by decide), by decide⟩

/-- Two running tasks: every tick dispatches the first one again. -/
theorem not_roundRobin :
    ¬ ∀ (s : Sched) (c : Nat) (regs : List Nat), Ring s → s.started = true →
      s.current = some c → (s.task c).state = .running → regs.length = s.runnable.card →
      RoundRobin s c regs := by
  intro h
  have hround := h (ringOf [.running, .running]) 0 [0, 0] (ring_ringOf (by decide)) rfl rfl rfl
    (by decide)
  exact absurd hround.dispatched (by decide)

end Sched

/-- In the states that the scheduler reaches, nobody but the current task is running. -/
theorem Kernel.roundRobin_of_reachable {k : Kernel} {c : Nat} (h : system.Reachable k)
    (hstarted : k.sched.started = true) (hcurrent : k.sched.current = some c)
    (hrunning : (k.sched.task c).state = .running) (regs : List Nat)
    (hregs : regs.length = k.sched.runnable.card) : k.sched.RoundRobin c regs := by
  have inv := runnerInv_of_reachable h
  exact (Sched.turn_self inv.ring hstarted hcurrent hrunning inv.single).fullRound regs hregs

end WengShiOS.Scheduler
