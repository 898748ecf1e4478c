import WengShiOS.Math.Bytes

/-! # Programs over a disk and a heap

A program of type `Prog σ α` computes on a state of type `σ`, allocates and frees
buffers, and reads and writes sectors of a disk. What the heap and the device
answer is left open: every allocation and every device access is a node of the
program, and the rest of the program is a function of the answer.

`Prog.Runs` is every way a program can go, with the list of its accesses and whether
each of them succeeded; an access that fails transfers nothing. `Prog.exec` is the run
against a heap and a device that never fail, `Prog.run` the one for a given pattern of
failures. The contents of a buffer are passed by value, so the pointer is only a token. -/

namespace WengShiOS.Math

def sectorSize : Nat := 512

inductive Prog (σ α : Type) : Type
  | ret (a : α)
  | get (next : σ → Prog σ α)
  | put (s : σ) (next : Prog σ α)
  | kmalloc (size : Nat) (next : Option Nat → Prog σ α)
  | kfree (ptr : Nat) (next : Prog σ α)
  | read (lba count : Nat) (next : Option Bytes → Prog σ α)
  | write (lba count : Nat) (data : Bytes) (next : Bool → Prog σ α)

/-- The state of a program together with the contents of its disk. -/
structure Store (σ : Type) where
  state : σ
  disk : Bytes

namespace Prog

variable {σ α β : Type}

def bind : Prog σ α → (α → Prog σ β) → Prog σ β
  | .ret a, f => f a
  | .get next, f => .get fun s => (next s).bind f
  | .put s next, f => .put s (next.bind f)
  | .kmalloc size next, f => .kmalloc size fun p => (next p).bind f
  | .kfree ptr next, f => .kfree ptr (next.bind f)
  | .read lba count next, f => .read lba count fun buf => (next buf).bind f
  | .write lba count data next, f => .write lba count data fun ok => (next ok).bind f

instance : Monad (Prog σ) where
  pure := .ret
  bind := .bind

def getState : Prog σ σ := .get .ret

def putState (s : σ) : Prog σ Unit := .put s (.ret ())

/-- Allocate a buffer: its pointer, or none. Both are possible for every size; what a heap
cannot answer is left out by a condition on the accesses of the run. -/
def alloc (size : Nat) : Prog σ (Option Nat) := .kmalloc size .ret

def free (ptr : Nat) : Prog σ Unit := .kfree ptr (.ret ())

def readSectors (lba count : Nat) : Prog σ (Option Bytes) := .read lba count .ret

def writeSectors (lba count : Nat) (data : Bytes) : Prog σ Bool := .write lba count data .ret

/-- The run in which no allocation and no device access fails. -/
def exec : Prog σ α → Store σ → α × Store σ
  | .ret a, v => (a, v)
  | .get next, v => (next v.state).exec v
  | .put s next, v => next.exec { v with state := s }
  | .kmalloc _ next, v => (next (some 0)).exec v
  | .kfree _ next, v => next.exec v
  | .read lba count next, v =>
    (next (some (window v.disk (sectorSize * lba) (sectorSize * count)))).exec v
  | .write lba count data next, v =>
    (next true).exec
      { v with disk := overlay v.disk (sectorSize * lba) (sectorSize * count) data }

variable {v : Store σ} {s : σ}

@[simp] theorem exec_pure (a : α) : (pure a : Prog σ α).exec v = (a, v) := rfl

@[simp] theorem exec_bind (p : Prog σ α) (f : α → Prog σ β) :
    (p >>= f).exec v = (f (p.exec v).1).exec (p.exec v).2 := by
  show (p.bind f).exec v = _
  induction p generalizing v with
  | ret a => rfl
  | get next ih => exact ih v.state
  | put s next ih => exact ih
  | kmalloc size next ih => exact ih (some 0)
  | kfree ptr next ih => exact ih
  | read lba count next ih => exact ih _
  | write lba count data next ih => exact ih true

@[simp] theorem exec_getState : (getState : Prog σ σ).exec v = (v.state, v) := rfl

@[simp] theorem exec_putState : (putState s).exec v = ((), { v with state := s }) := rfl

@[simp] theorem exec_alloc {size : Nat} : (alloc size : Prog σ _).exec v = (some 0, v) := rfl

@[simp] theorem exec_free {ptr : Nat} : (free ptr : Prog σ _).exec v = ((), v) := rfl

theorem exec_readSectors {lba count : Nat} : (readSectors lba count).exec v =
    (some (window v.disk (sectorSize * lba) (sectorSize * count)), v) := rfl

@[simp] theorem exec_ite {c : Prop} [Decidable c] (p q : Prog σ α) :
    (if c then p else q).exec v = if c then p.exec v else q.exec v := by
  split <;> rfl

end Prog

/-! ### Runs with failures -/

/-- What a program asks of the heap or of the device. -/
inductive Access
  | kmalloc (size : Nat)
  | read (lba count : Nat)
  | write (lba count : Nat)
  deriving DecidableEq, Repr

/-- An access and whether it succeeded. -/
structure Event where
  access : Access
  ok : Bool
  deriving DecidableEq, Repr

/-- The access is a write to the device. -/
def Access.isWrite : Access → Bool
  | .kmalloc _ => false
  | .read _ _ => false
  | .write _ _ => true

@[simp] theorem Access.isWrite_kmalloc (size : Nat) : (Access.kmalloc size).isWrite = false := rfl

@[simp] theorem Access.isWrite_read (lba count : Nat) : (Access.read lba count).isWrite = false := rfl

@[simp] theorem Access.isWrite_write (lba count : Nat) : (Access.write lba count).isWrite = true :=
  rfl

/-- No write was tried. -/
def NoWrite (trace : List Event) : Prop := ∀ e ∈ trace, e.access.isWrite = false

section Writes

variable {trace trace' : List Event}

theorem noWrite_nil : NoWrite [] := by simp [NoWrite]

theorem noWrite_append : NoWrite (trace ++ trace') ↔ NoWrite trace ∧ NoWrite trace' := by
  simp [NoWrite, or_imp, forall_and]

end Writes

/-- No access failed. -/
def AllOk (trace : List Event) : Prop := ∀ e ∈ trace, e.ok = true

section AllOk

variable {trace trace' : List Event} {e : Event}

@[simp] theorem allOk_nil : AllOk [] := by simp [AllOk]

@[simp] theorem allOk_cons : AllOk (e :: trace) ↔ e.ok = true ∧ AllOk trace := by simp [AllOk]

@[simp] theorem allOk_append : AllOk (trace ++ trace') ↔ AllOk trace ∧ AllOk trace' := by
  simp [AllOk, or_imp, forall_and]

end AllOk

namespace Prog

variable {σ α β : Type}

/-- `p.Runs v trace a v'`: from `v` the program can end with `a` in `v'`, having made
the accesses of `trace`. -/
def Runs : Prog σ α → Store σ → List Event → α → Store σ → Prop
  | .ret a, v, trace, a', v' => trace = [] ∧ a' = a ∧ v' = v
  | .get next, v, trace, a', v' => (next v.state).Runs v trace a' v'
  | .put s next, v, trace, a', v' => next.Runs { v with state := s } trace a' v'
  | .kmalloc size next, v, trace, a', v' => ∃ ok rest, trace = ⟨.kmalloc size, ok⟩ :: rest ∧
      (next (if ok then some 0 else none)).Runs v rest a' v'
  | .kfree _ next, v, trace, a', v' => next.Runs v trace a' v'
  | .read lba count next, v, trace, a', v' => ∃ ok rest, trace = ⟨.read lba count, ok⟩ :: rest ∧
      (next (if ok then some (window v.disk (sectorSize * lba) (sectorSize * count)) else none)).Runs
        v rest a' v'
  | .write lba count data next, v, trace, a', v' =>
    ∃ ok rest, trace = ⟨.write lba count, ok⟩ :: rest ∧
      (next ok).Runs (if ok then
        { v with disk := overlay v.disk (sectorSize * lba) (sectorSize * count) data } else v)
        rest a' v'

/-- The run in which the `n`-th access, `n = 0, 1, …`, succeeds if `pattern n`. -/
def run : Prog σ α → (Nat → Bool) → Store σ → α × Store σ × List Event
  | .ret a, _, v => (a, v, [])
  | .get next, pattern, v => (next v.state).run pattern v
  | .put s next, pattern, v => next.run pattern { v with state := s }
  | .kmalloc size next, pattern, v =>
    let (a, v', rest) :=
      (next (if pattern 0 then some 0 else none)).run (fun n => pattern (n + 1)) v
    (a, v', ⟨.kmalloc size, pattern 0⟩ :: rest)
  | .kfree _ next, pattern, v => next.run pattern v
  | .read lba count next, pattern, v =>
    let (a, v', rest) :=
      (next (if pattern 0 then some (window v.disk (sectorSize * lba) (sectorSize * count))
        else none)).run (fun n => pattern (n + 1)) v
    (a, v', ⟨.read lba count, pattern 0⟩ :: rest)
  | .write lba count data next, pattern, v =>
    let (a, v', rest) :=
      (next (pattern 0)).run (fun n => pattern (n + 1)) (if pattern 0 then
        { v with disk := overlay v.disk (sectorSize * lba) (sectorSize * count) data } else v)
    (a, v', ⟨.write lba count, pattern 0⟩ :: rest)

variable {v v' : Store σ} {trace : List Event} {a : α} {s : σ} {lba count size ptr : Nat}

/-- The answers after the first `k`. -/
def later (pattern : Nat → Bool) (k : Nat) : Nat → Bool := fun n => pattern (n + k)

theorem run_bind (p : Prog σ α) (f : α → Prog σ β) (pattern : Nat → Bool) :
    (p >>= f).run pattern v =
      let (a, u, first) := p.run pattern v
      let (b, v', rest) := (f a).run (later pattern first.length) u
      (b, v', first ++ rest) := by
  show (p.bind f).run pattern v = _
  induction p generalizing v pattern with
  | ret a => rfl
  | get next ih => exact ih v.state pattern
  | put s next ih => exact ih pattern
  | kfree ptr next ih => exact ih pattern
  | kmalloc size next ih | read lba count next ih | write lba count data next ih =>
    simp only [bind, run, ih]
    rfl

theorem run_bind_cases {p : Prog σ α} {f : α → Prog σ β} {pattern : Nat → Bool} {b : β}
    (h : (p >>= f).run pattern v = (b, v', trace)) :
    ∃ a u first rest, p.run pattern v = (a, u, first) ∧
      (f a).run (later pattern first.length) u = (b, v', rest) ∧ trace = first ++ rest := by
  rw [run_bind] at h
  cases h
  exact ⟨_, _, _, _, rfl, rfl, rfl⟩

theorem run_getState_bind {k : σ → Prog σ β} {pattern : Nat → Bool} :
    (getState >>= k).run pattern v = (k v.state).run pattern v := rfl

/-- A program can go as any pattern of failures tells it to. -/
theorem runs_run (p : Prog σ α) (pattern : Nat → Bool) :
    p.Runs v (p.run pattern v).2.2 (p.run pattern v).1 (p.run pattern v).2.1 := by
  induction p generalizing v pattern with
  | ret a => exact ⟨rfl, rfl, rfl⟩
  | get next ih => exact ih v.state pattern
  | put s next ih => exact ih pattern
  | kmalloc size next ih => exact ⟨pattern 0, _, rfl, ih _ _⟩
  | kfree ptr next ih => exact ih pattern
  | read lba count next ih => exact ⟨pattern 0, _, rfl, ih _ _⟩
  | write lba count data next ih => exact ⟨pattern 0, _, rfl, ih _ _⟩

theorem runs_of_run {p : Prog σ α} {pattern : Nat → Bool} (h : p.run pattern v = (a, v', trace)) :
    p.Runs v trace a v' := by
  have hruns := runs_run p pattern (v := v)
  rw [h] at hruns
  exact hruns

/-- Without failures there is one run. -/
theorem Runs.eq_exec {p : Prog σ α} (h : p.Runs v trace a v') (hok : AllOk trace) :
    p.exec v = (a, v') := by
  induction p generalizing v trace with
  | ret b =>
    obtain ⟨-, rfl, rfl⟩ := h
    rfl
  | get next ih => exact ih v.state h hok
  | put s next ih => exact ih h hok
  | kfree ptr next ih => exact ih h hok
  | kmalloc size next ih | read lba count next ih | write lba count data next ih =>
    obtain ⟨ok, rest, rfl, h⟩ := h
    obtain ⟨rfl, hrest⟩ := allOk_cons.mp hok
    exact ih _ h hrest

theorem allOk_run (p : Prog σ α) (v : Store σ) : AllOk (p.run (fun _ => true) v).2.2 := by
  induction p generalizing v with
  | ret a => exact allOk_nil
  | get next ih => exact ih v.state v
  | put s next ih => exact ih { v with state := s }
  | kmalloc size next ih => exact allOk_cons.mpr ⟨rfl, ih _ v⟩
  | kfree ptr next ih => exact ih v
  | read lba count next ih => exact allOk_cons.mpr ⟨rfl, ih _ v⟩
  | write lba count data next ih => exact allOk_cons.mpr ⟨rfl, ih true _⟩

/-- The pattern without failures gives that run. -/
theorem exec_eq_run (p : Prog σ α) (v : Store σ) :
    p.exec v = ((p.run (fun _ => true) v).1, (p.run (fun _ => true) v).2.1) :=
  (runs_run p _).eq_exec (allOk_run p v)

theorem exists_runs_exec (p : Prog σ α) (v : Store σ) :
    ∃ trace, AllOk trace ∧ p.Runs v trace (p.exec v).1 (p.exec v).2 := by
  rw [exec_eq_run]
  exact ⟨_, allOk_run p v, runs_run p _⟩

/-- The run without failures is `exec`. -/
theorem exec_eq_iff {p : Prog σ α} :
    p.exec v = (a, v') ↔ ∃ trace, AllOk trace ∧ p.Runs v trace a v' := by
  constructor
  · intro h
    obtain ⟨trace, hok, hruns⟩ := exists_runs_exec p v
    rw [h] at hruns
    exact ⟨trace, hok, hruns⟩
  · rintro ⟨trace, hok, hruns⟩
    exact hruns.eq_exec hok

/-! The inversion rules, one for each way to build a program. -/

@[simp] theorem runs_pure {b : α} :
    (pure b : Prog σ α).Runs v trace a v' ↔ trace = [] ∧ a = b ∧ v' = v := Iff.rfl

theorem runs_bind {p : Prog σ α} {f : α → Prog σ β} {b : β} :
    (p >>= f).Runs v trace b v' ↔ ∃ first rest a u, trace = first ++ rest ∧
      p.Runs v first a u ∧ (f a).Runs u rest b v' := by
  induction p generalizing v trace with
  | ret a =>
    constructor
    · intro h
      exact ⟨[], trace, a, v, rfl, ⟨rfl, rfl, rfl⟩, h⟩
    · rintro ⟨first, rest, a', u, rfl, ⟨rfl, rfl, rfl⟩, h⟩
      exact h
  | get next ih => exact ih v.state
  | put s next ih => exact ih
  | kfree ptr next ih => exact ih
  | kmalloc size next ih | read lba count next ih | write lba count data next ih =>
    constructor
    · rintro ⟨ok, tail, rfl, h⟩
      obtain ⟨first, rest, a, u, rfl, hp, hf⟩ := (ih _).mp h
      exact ⟨_ :: first, rest, a, u, rfl, ⟨ok, first, rfl, hp⟩, hf⟩
    · rintro ⟨first, rest, a, u, rfl, ⟨ok, tail, rfl, hp⟩, hf⟩
      exact ⟨ok, tail ++ rest, rfl, (ih _).mpr ⟨tail, rest, a, u, rfl, hp, hf⟩⟩

/-- Looking at the state is not seen in the trace. -/
theorem runs_getState_bind {k : σ → Prog σ β} {b : β} :
    (getState >>= k).Runs v trace b v' ↔ (k v.state).Runs v trace b v' := Iff.rfl

@[simp] theorem runs_putState {r : Unit} :
    (putState s).Runs v trace r v' ↔ trace = [] ∧ v' = { v with state := s } := by
  constructor
  · rintro ⟨htrace, -, hv⟩
    exact ⟨htrace, hv⟩
  · rintro ⟨htrace, hv⟩
    exact ⟨htrace, rfl, hv⟩

@[simp] theorem runs_free {r : Unit} :
    (free ptr : Prog σ Unit).Runs v trace r v' ↔ trace = [] ∧ v' = v := by
  constructor
  · rintro ⟨htrace, -, hv⟩
    exact ⟨htrace, hv⟩
  · rintro ⟨htrace, hv⟩
    exact ⟨htrace, rfl, hv⟩

theorem runs_alloc {r : Option Nat} : (alloc size : Prog σ _).Runs v trace r v' ↔
    ∃ ok, trace = [⟨.kmalloc size, ok⟩] ∧ (r = if ok then some 0 else none) ∧ v' = v := by
  constructor
  · rintro ⟨ok, rest, rfl, rfl, rfl, rfl⟩
    exact ⟨ok, rfl, rfl, rfl⟩
  · rintro ⟨ok, rfl, rfl, rfl⟩
    exact ⟨ok, [], rfl, rfl, rfl, rfl⟩

theorem runs_readSectors {r : Option Bytes} : (readSectors lba count).Runs v trace r v' ↔
    ∃ ok, trace = [⟨.read lba count, ok⟩] ∧ v' = v ∧
      r = if ok then some (window v.disk (sectorSize * lba) (sectorSize * count)) else none := by
  constructor
  · rintro ⟨ok, rest, rfl, rfl, rfl, rfl⟩
    exact ⟨ok, rfl, rfl, rfl⟩
  · rintro ⟨ok, rfl, rfl, rfl⟩
    exact ⟨ok, [], rfl, rfl, rfl, rfl⟩

theorem runs_writeSectors {data : Bytes} {r : Bool} :
    (writeSectors lba count data).Runs v trace r v' ↔
      trace = [⟨.write lba count, r⟩] ∧ v' = if r then
        { v with disk := overlay v.disk (sectorSize * lba) (sectorSize * count) data } else v := by
  constructor
  · rintro ⟨ok, rest, rfl, rfl, rfl, rfl⟩
    exact ⟨rfl, rfl⟩
  · rintro ⟨rfl, rfl⟩
    exact ⟨r, [], rfl, rfl, rfl, rfl⟩

/-! ### What a program leaves alone -/

/-- The program changes neither its state nor the disk, and it does not try to. -/
def ReadOnly (p : Prog σ α) : Prop :=
  ∀ ⦃v trace a v'⦄, p.Runs v trace a v' → v' = v ∧ NoWrite trace

/-- The program does not change what `f` sees of its state. -/
def Keeps (f : σ → β) (p : Prog σ α) : Prop :=
  ∀ ⦃v trace a v'⦄, p.Runs v trace a v' → f v'.state = f v.state

/-- Whatever the program returns meets `P`. -/
def Returns (P : α → Prop) (p : Prog σ α) : Prop :=
  ∀ ⦃v trace a v'⦄, p.Runs v trace a v' → P a

section Rules

variable {p : Prog σ α} {k : α → Prog σ β} {γ : Type} {f : σ → γ} {P : β → Prop}

theorem ReadOnly.pure (a : α) : ReadOnly (pure a : Prog σ α) := by
  rintro v trace b v' ⟨rfl, rfl, rfl⟩
  exact ⟨rfl, noWrite_nil⟩

theorem ReadOnly.bind (hp : ReadOnly p) (hk : ∀ a, ReadOnly (k a)) : ReadOnly (p >>= k) := by
  intro v trace b v' h
  obtain ⟨first, rest, a, u, rfl, hfirst, hrest⟩ := runs_bind.mp h
  obtain ⟨rfl, hw⟩ := hp hfirst
  obtain ⟨rfl, hw'⟩ := hk a hrest
  exact ⟨rfl, noWrite_append.mpr ⟨hw, hw'⟩⟩

theorem ReadOnly.getState : ReadOnly (getState : Prog σ σ) := by
  rintro v trace b v' ⟨rfl, rfl, rfl⟩
  exact ⟨rfl, noWrite_nil⟩

theorem ReadOnly.alloc (size : Nat) : ReadOnly (alloc size : Prog σ (Option Nat)) := by
  intro v trace b v' h
  obtain ⟨ok, rfl, -, rfl⟩ := runs_alloc.mp h
  exact ⟨rfl, by simp [NoWrite]⟩

theorem ReadOnly.free (ptr : Nat) : ReadOnly (free ptr : Prog σ Unit) := by
  intro v trace b v' h
  obtain ⟨rfl, rfl⟩ := runs_free.mp h
  exact ⟨rfl, noWrite_nil⟩

theorem ReadOnly.readSectors (lba count : Nat) :
    ReadOnly (readSectors lba count : Prog σ (Option Bytes)) := by
  intro v trace b v' h
  obtain ⟨ok, rfl, rfl, -⟩ := runs_readSectors.mp h
  exact ⟨rfl, by simp [NoWrite]⟩

theorem ReadOnly.keeps (hp : ReadOnly p) : Keeps f p := by
  intro v trace a v' h
  rw [(hp h).1]

theorem Keeps.pure (a : α) : Keeps f (pure a : Prog σ α) := (ReadOnly.pure a).keeps

theorem Keeps.bind (hp : Keeps f p) (hk : ∀ a, Keeps f (k a)) : Keeps f (p >>= k) := by
  intro v trace b v' h
  obtain ⟨first, rest, a, u, rfl, hfirst, hrest⟩ := runs_bind.mp h
  exact (hk a hrest).trans (hp hfirst)

theorem Keeps.getState : Keeps f (getState : Prog σ σ) := ReadOnly.getState.keeps

theorem Keeps.writeSectors (lba count : Nat) (data : Bytes) :
    Keeps f (writeSectors lba count data) := by
  intro v trace ok v' h
  obtain ⟨-, rfl⟩ := runs_writeSectors.mp h
  split_ifs <;> rfl

theorem Keeps.ite {c : Prop} [Decidable c] {q : Prog σ α} (hp : Keeps f p) (hq : Keeps f q) :
    Keeps f (if c then p else q) := by
  split_ifs
  · exact hp
  · exact hq

theorem Returns.pure {b : β} (hb : P b) : Returns P (pure b : Prog σ β) := by
  rintro v trace a v' ⟨-, rfl, -⟩
  exact hb

theorem Returns.bind {Q : α → Prop} (hp : Returns Q p) (hk : ∀ a, Q a → Returns P (k a)) :
    Returns P (p >>= k) := by
  intro v trace b v' h
  obtain ⟨first, rest, a, u, -, hfirst, hrest⟩ := runs_bind.mp h
  exact hk a (hp hfirst) hrest

/-- What the first part returns does not matter. -/
theorem Returns.bind_any (hk : ∀ a, Returns P (k a)) : Returns P (p >>= k) := by
  intro v trace b v' h
  obtain ⟨first, rest, a, u, -, -, hrest⟩ := runs_bind.mp h
  exact hk a hrest

theorem Returns.ite {c : Prop} [Decidable c] {p q : Prog σ β} (hp : Returns P p)
    (hq : Returns P q) : Returns P (if c then p else q) := by
  split_ifs
  · exact hp
  · exact hq

end Rules

end Prog

end WengShiOS.Math
