import WengShiOS.Math.DeviceProgram
import Mathlib.Data.Finset.Basic

/-! # Who owns the buffers

The runs of `Prog.Runs` look at whether an allocation succeeds, but not at the pointer. Here
a run carries a ledger of the pointers that are allocated: `kmalloc` gives any pointer that
is not in it, and a pointer that is freed has to be in it. `Prog.Ends` is what a program
guarantees about its result and the ledger, whatever fails and whichever pointers it gets; it
has a rule for each way to build a program. A program is balanced if it ends with the ledger
that it began with. -/

namespace WengShiOS.Math

open Finset Prog

/-- The pointers that are allocated, and whether a pointer was freed that was not. -/
@[ext]
structure Ledger where
  live : Finset Nat
  misfreed : Bool

namespace Ledger

variable (l : Ledger) (ptr : Nat)

def take : Ledger := { l with live := insert ptr l.live }

def release : Ledger :=
  if ptr ∈ l.live then { l with live := l.live.erase ptr } else { l with misfreed := true }

variable {l ptr}

@[simp] theorem mem_live_take {p : Nat} : p ∈ (l.take ptr).live ↔ p = ptr ∨ p ∈ l.live :=
  mem_insert

theorem release_take (h : ptr ∉ l.live) : (l.take ptr).release ptr = l := by
  unfold release take
  rw [if_pos (mem_insert_self ..), erase_insert h]

/-- Two pointers may be freed in any order. -/
theorem release_take_take {ptr' : Nat} (h : ptr ∉ l.live) (h' : ptr' ∉ (l.take ptr).live) :
    ((l.take ptr).take ptr').release ptr = l.take ptr' := by
  have hne : ptr ≠ ptr' := by
    rintro rfl
    exact h' (mem_live_take.mpr (.inl rfl))
  unfold release take
  rw [if_pos (by simp)]
  rw [erase_insert_of_ne hne.symm, erase_insert h]

end Ledger

namespace Prog

variable {σ α β : Type}

/-! Programs that are put together in another way are the same. -/

theorem bind_of_pure (a : α) (f : α → Prog σ β) : (pure a : Prog σ α) >>= f = f a := rfl

theorem bind_bind {γ : Type} (p : Prog σ α) (f : α → Prog σ β) (g : β → Prog σ γ) :
    p >>= f >>= g = p >>= fun a => f a >>= g := by
  induction p with
  | ret a => rfl
  | put s next ih => exact congrArg (put s) ih
  | kfree ptr next ih => exact congrArg (kfree ptr) ih
  | get next ih => exact congrArg get (funext ih)
  | kmalloc size next ih => exact congrArg (kmalloc size) (funext ih)
  | read lba count next ih => exact congrArg (read lba count) (funext ih)
  | write lba count data next ih => exact congrArg (write lba count data) (funext ih)

theorem bind_of_eq {p : Prog σ α} {f g : α → Prog σ β} (h : ∀ a, f a = g a) :
    p >>= f = p >>= g := by
  rw [funext h]

theorem bind_of_ite {c : Prop} [Decidable c] (p q : Prog σ α) (f : α → Prog σ β) :
    (if c then p else q) >>= f = if c then p >>= f else q >>= f := by
  split_ifs <;> rfl

/-! ### Runs with a ledger -/

/-- The runs of `Prog.Runs` with the ledger before and after. -/
def RunsOn : Prog σ α → Store σ → Ledger → List Event → α → Store σ → Ledger → Prop
  | .ret a, v, l, trace, a', v', l' => trace = [] ∧ a' = a ∧ v' = v ∧ l' = l
  | .get next, v, l, trace, a', v', l' => (next v.state).RunsOn v l trace a' v' l'
  | .put s next, v, l, trace, a', v', l' => next.RunsOn { v with state := s } l trace a' v' l'
  | .kmalloc size next, v, l, trace, a', v', l' =>
    (∃ rest, trace = ⟨.kmalloc size, false⟩ :: rest ∧ (next none).RunsOn v l rest a' v' l') ∨
      ∃ ptr ∉ l.live, ∃ rest, trace = ⟨.kmalloc size, true⟩ :: rest ∧
        (next (some ptr)).RunsOn v (l.take ptr) rest a' v' l'
  | .kfree ptr next, v, l, trace, a', v', l' => next.RunsOn v (l.release ptr) trace a' v' l'
  | .read lba count next, v, l, trace, a', v', l' =>
    ∃ ok rest, trace = ⟨.read lba count, ok⟩ :: rest ∧
      (next (if ok then some (window v.disk (sectorSize * lba) (sectorSize * count))
        else none)).RunsOn v l rest a' v' l'
  | .write lba count data next, v, l, trace, a', v', l' =>
    ∃ ok rest, trace = ⟨.write lba count, ok⟩ :: rest ∧
      (next ok).RunsOn (if ok then
        { v with disk := overlay v.disk (sectorSize * lba) (sectorSize * count) data } else v)
        l rest a' v' l'

/-- The `n`-th access succeeds if `pattern n`. -/
def Follows (pattern : Nat → Bool) (events : List Event) : Prop :=
  ∀ n e, events[n]? = some e → e.ok = pattern n

theorem Follows.cons {pattern : Nat → Bool} {e : Event} {rest : List Event}
    (he : e.ok = pattern 0) (hrest : Follows (fun n => pattern (n + 1)) rest) :
    Follows pattern (e :: rest) := by
  intro n e' h
  cases n with
  | zero =>
    obtain rfl : e = e' := by simpa using h
    exact he
  | succ n => exact hrest n e' (by simpa using h)

/-- There is a run for every pattern of failures: the heap always has a pointer that is not
in use. -/
theorem exists_runsOn (p : Prog σ α) (pattern : Nat → Bool) (v : Store σ) (l : Ledger) :
    ∃ trace a v' l', Follows pattern trace ∧ p.RunsOn v l trace a v' l' := by
  induction p generalizing pattern v l with
  | ret a => exact ⟨[], a, v, l, by simp [Follows], rfl, rfl, rfl, rfl⟩
  | get next ih => exact ih v.state pattern v l
  | put s next ih => exact ih pattern { v with state := s } l
  | kfree ptr next ih => exact ih pattern v (l.release ptr)
  | kmalloc size next ih =>
    cases hok : pattern 0 with
    | false =>
      obtain ⟨rest, a, v', l', hrest, h⟩ := ih none (fun n => pattern (n + 1)) v l
      exact ⟨_, a, v', l', .cons hok.symm hrest, .inl ⟨rest, rfl, h⟩⟩
    | true =>
      obtain ⟨ptr, hptr⟩ := Infinite.exists_notMem_finset l.live
      obtain ⟨rest, a, v', l', hrest, h⟩ := ih (some ptr) (fun n => pattern (n + 1)) v (l.take ptr)
      exact ⟨_, a, v', l', .cons hok.symm hrest, .inr ⟨ptr, hptr, rest, rfl, h⟩⟩
  | read lba count next ih =>
    obtain ⟨rest, a, v', l', hrest, h⟩ := ih _ (fun n => pattern (n + 1)) v l
    exact ⟨_, a, v', l', .cons rfl hrest, pattern 0, rest, rfl, h⟩
  | write lba count data next ih =>
    obtain ⟨rest, a, v', l', hrest, h⟩ := ih (pattern 0) (fun n => pattern (n + 1)) _ l
    exact ⟨_, a, v', l', .cons rfl hrest, pattern 0, rest, rfl, h⟩

/-- A run of two programs, one after the other; by induction on the first. -/
theorem RunsOn.of_bind {p : Prog σ α} {k : α → Prog σ β} {v v' : Store σ} {l l' : Ledger}
    {trace : List Event} {b : β} (h : (p >>= k).RunsOn v l trace b v' l') :
    ∃ first rest a u m, p.RunsOn v l first a u m ∧ (k a).RunsOn u m rest b v' l' := by
  induction p generalizing v l trace with
  | ret a => exact ⟨[], trace, a, v, l, ⟨rfl, rfl, rfl, rfl⟩, h⟩
  | get next ih => exact ih v.state h
  | put s next ih => exact ih h
  | kfree ptr next ih => exact ih h
  | kmalloc size next ih =>
    rcases h with ⟨tail, -, h⟩ | ⟨ptr, hptr, tail, -, h⟩
    · obtain ⟨first, rest, a, u, m, hp, hk⟩ := ih none h
      exact ⟨_ :: first, rest, a, u, m, .inl ⟨first, rfl, hp⟩, hk⟩
    · obtain ⟨first, rest, a, u, m, hp, hk⟩ := ih (some ptr) h
      exact ⟨_ :: first, rest, a, u, m, .inr ⟨ptr, hptr, first, rfl, hp⟩, hk⟩
  | read lba count next ih | write lba count data next ih =>
    obtain ⟨ok, tail, -, h⟩ := h
    obtain ⟨first, rest, a, u, m, hp, hk⟩ := ih _ h
    exact ⟨_ :: first, rest, a, u, m, ⟨ok, first, rfl, hp⟩, hk⟩

/-- Begun with ledger `l`, the program ends with a result and a ledger that meet `Q`. -/
def Ends (p : Prog σ α) (l : Ledger) (Q : α → Ledger → Prop) : Prop :=
  ∀ ⦃v trace a v' l'⦄, p.RunsOn v l trace a v' l' → Q a l'

section Rules

variable {l : Ledger}

theorem Ends.pure {Q : α → Ledger → Prop} {a : α} (h : Q a l) : (pure a : Prog σ α).Ends l Q := by
  rintro v trace a v' l' ⟨-, rfl, -, rfl⟩
  exact h

theorem Ends.bind {p : Prog σ α} {k : α → Prog σ β} {Q : β → Ledger → Prop}
    (h : p.Ends l fun a l' => (k a).Ends l' Q) : (p >>= k).Ends l Q := by
  intro v trace b v' l' hrun
  obtain ⟨first, rest, a, u, m, hp, hk⟩ := hrun.of_bind
  exact h hp hk

theorem Ends.alloc {size : Nat} {Q : Option Nat → Ledger → Prop} (hnone : Q none l)
    (hsome : ∀ ptr ∉ l.live, Q (some ptr) (l.take ptr)) : (alloc size : Prog σ _).Ends l Q := by
  rintro v trace a v' l' (⟨rest, -, -, rfl, -, rfl⟩ | ⟨ptr, hptr, rest, -, -, rfl, -, rfl⟩)
  · exact hnone
  · exact hsome ptr hptr

theorem Ends.free {ptr : Nat} {Q : Unit → Ledger → Prop} (h : Q () (l.release ptr)) :
    (free ptr : Prog σ Unit).Ends l Q := by
  rintro v trace a v' l' ⟨-, -, -, rfl⟩
  exact h

theorem Ends.mono {p : Prog σ α} {Q R : α → Ledger → Prop} (h : p.Ends l Q)
    (hQR : ∀ a l', Q a l' → R a l') : p.Ends l R :=
  fun _ _ _ _ _ hrun => hQR _ _ (h hrun)

end Rules

/-- Whatever fails, the program ends with the ledger that it began with. -/
def Balanced (p : Prog σ α) : Prop := ∀ ⦃l⦄, p.Ends l fun _ l' => l' = l

section Balanced

variable {p : Prog σ α} {k : α → Prog σ β} {l : Ledger}

/-- What comes behind a balanced program has the same ledger. -/
theorem Balanced.ends {Q : β → Ledger → Prop} (hp : Balanced p) (hk : ∀ a, (k a).Ends l Q) :
    (p >>= k).Ends l Q :=
  .bind (Ends.mono (@hp l) fun a _ hl => hl ▸ hk a)

theorem Balanced.pure (a : α) : Balanced (pure a : Prog σ α) := fun _ => .pure rfl

theorem Balanced.bind (hp : Balanced p) (hk : ∀ a, Balanced (k a)) : Balanced (p >>= k) :=
  fun l => hp.ends fun a => @hk a l

theorem Balanced.getState : Balanced (getState : Prog σ σ) := by
  rintro l v trace a v' l' ⟨-, -, -, hl⟩
  exact hl

theorem Balanced.putState (s : σ) : Balanced (putState s) := by
  rintro l v trace a v' l' ⟨-, -, -, hl⟩
  exact hl

theorem Balanced.readSectors (lba count : Nat) :
    Balanced (readSectors lba count : Prog σ (Option Bytes)) := by
  rintro l v trace a v' l' ⟨-, rest, -, -, -, -, hl⟩
  exact hl

theorem Balanced.writeSectors (lba count : Nat) (data : Bytes) :
    Balanced (writeSectors lba count data : Prog σ Bool) := by
  rintro l v trace a v' l' ⟨-, rest, -, -, -, -, hl⟩
  exact hl

/-- For every pattern of failures the program ends, and however it ends, the same pointers
are allocated as before and no pointer was freed that was not allocated. -/
structure Clean (p : Prog σ α) : Prop where
  ends : ∀ pattern v l, ∃ trace a v', Follows pattern trace ∧ p.RunsOn v l trace a v' l
  balanced : ∀ ⦃v l trace a v' l'⦄, p.RunsOn v l trace a v' l' → l' = l

theorem Balanced.clean (hp : Balanced p) : Clean p where
  ends pattern v l := by
    obtain ⟨trace, a, v', l', hfollows, hrun⟩ := exists_runsOn p pattern v l
    exact ⟨trace, a, v', hfollows, hp hrun ▸ hrun⟩
  balanced _ _ _ _ _ _ hrun := hp hrun

end Balanced

end Prog

end WengShiOS.Math
