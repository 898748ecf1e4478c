import Mathlib.Logic.Relation
import Mathlib.Tactic.SplitIfs

/-! # Labelled transition systems

A system is given by its initial states and by the states each action may lead
to. Reachability, restriction of a system to the steps that satisfy a guard, and
the two induction rules everything else is derived from: an invariant holds in
every reachable state, and a stable property is kept along every later path. -/

namespace WengShiOS.Math

/-- A labelled transition system over states `σ` and actions `α`. -/
structure System (σ α : Type*) where
  init : σ → Prop
  step : σ → α → σ → Prop

namespace System

variable {σ α : Type*} {sys : System σ α} {s t u : σ} {a : α}

/-- States reached from an initial state by finitely many steps. -/
inductive Reachable (sys : System σ α) : σ → Prop
  | init {s : σ} : sys.init s → Reachable sys s
  | step {s t : σ} {a : α} : Reachable sys s → sys.step s a t → Reachable sys t

/-- `sys.Path s t`: some finite sequence of steps leads from `s` to `t`. -/
inductive Path (sys : System σ α) (s : σ) : σ → Prop
  | refl : Path sys s s
  | tail {t u : σ} {a : α} : Path sys s t → sys.step t a u → Path sys s u

/-- The system that only takes the steps whose source state and action meet `guard`. -/
def restrict (sys : System σ α) (guard : σ → α → Prop) : System σ α where
  init := sys.init
  step s a t := guard s a ∧ sys.step s a t

/-- What holds initially and is kept by every step holds in every reachable state. -/
theorem Reachable.invariant (inv : σ → Prop) (start : ∀ s, sys.init s → inv s)
    (keep : ∀ s a t, inv s → sys.step s a t → inv t) (h : sys.Reachable s) : inv s := by
  induction h with
  | init hs => exact start _ hs
  | step _ hstep ih => exact keep _ _ _ ih hstep

/-- What every step keeps is kept along every path. -/
theorem Path.stable (inv : σ → Prop) (keep : ∀ s a t, inv s → sys.step s a t → inv t)
    (h : sys.Path s t) (hs : inv s) : inv t := by
  induction h with
  | refl => exact hs
  | tail _ hstep ih => exact keep _ _ _ ih hstep

/-- Restricting the steps removes behaviour, it never adds any. -/
theorem Reachable.of_restrict {guard : σ → α → Prop}
    (h : (sys.restrict guard).Reachable s) : sys.Reachable s := by
  induction h with
  | init hs => exact .init hs
  | step _ hstep ih => exact .step ih hstep.2

/-- A weaker guard allows more. -/
theorem Reachable.mono {guard guard' : σ → α → Prop} (hle : ∀ s a, guard s a → guard' s a)
    (h : (sys.restrict guard).Reachable s) : (sys.restrict guard').Reachable s := by
  induction h with
  | init hs => exact .init hs
  | step _ hstep ih => exact .step ih ⟨hle _ _ hstep.1, hstep.2⟩

end System

section Execution

variable {σ α : Type*} (next : σ → α → Option σ)

/-- The system of a partial step function. -/
def System.ofNext (init : σ → Prop) : System σ α where
  init := init
  step s a t := next s a = some t

/-- Execute a list of actions, failing as soon as one of them is not enabled. -/
def runActions : σ → List α → Option σ
  | s, [] => some s
  | s, a :: rest => (next s a).bind fun t => runActions t rest

variable {init : σ → Prop} {s : σ} {actions : List α}

/-- A successful execution stays inside the reachable states. -/
theorem reachable_of_runActions {t : σ} (hs : (System.ofNext next init).Reachable s)
    (h : runActions next s actions = some t) :
    (System.ofNext next init).Reachable t := by
  induction actions generalizing s with
  | nil =>
    obtain rfl : s = t := by simpa [runActions] using h
    exact hs
  | cons a rest ih =>
    obtain ⟨u, hu, hrest⟩ := Option.bind_eq_some_iff.mp h
    exact ih (.step hs hu) hrest

/-- The last state of a successful execution, as a value to compute with. -/
theorem reachable_get_runActions (hs : (System.ofNext next init).Reachable s)
    (h : (runActions next s actions).isSome) :
    (System.ofNext next init).Reachable ((runActions next s actions).get h) :=
  reachable_of_runActions next hs (Option.some_get h).symm

/-- An execution whose last state has `P` reaches such a state. -/
theorem exists_reachable_of_any (hs : init s) (actions : List α) (P : σ → Prop) [DecidablePred P]
    (h : (runActions next s actions).any fun t => P t) :
    ∃ t, (System.ofNext next init).Reachable t ∧ P t := by
  obtain ⟨t, ht, hP⟩ := Option.any_eq_true _ _ |>.mp h
  exact ⟨t, reachable_of_runActions next (.init hs) ht, of_decide_eq_true hP⟩

/-- The step function of a restricted system. -/
def guarded (guard : σ → α → Prop) [∀ s a, Decidable (guard s a)] (s : σ) (a : α) : Option σ :=
  if guard s a then next s a else none

theorem ofNext_guarded (guard : σ → α → Prop) [∀ s a, Decidable (guard s a)] :
    System.ofNext (guarded next guard) init = (System.ofNext next init).restrict guard := by
  have hstep : ∀ s a t, guarded next guard s a = some t ↔ guard s a ∧ next s a = some t := by
    intro s a t
    unfold guarded
    split_ifs with h <;> simp [h]
  simp only [System.ofNext, System.restrict, hstep]

/-- The last state of an execution all of whose steps meet the guard. -/
theorem reachable_get_guarded {guard : σ → α → Prop} [∀ s a, Decidable (guard s a)] (hs : init s)
    (h : (runActions (guarded next guard) s actions).isSome) :
    ((System.ofNext next init).restrict guard).Reachable
      ((runActions (guarded next guard) s actions).get h) := by
  rw [← ofNext_guarded]
  exact reachable_get_runActions _ (.init hs) h

end Execution

end WengShiOS.Math
