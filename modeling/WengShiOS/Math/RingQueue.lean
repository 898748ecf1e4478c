import Mathlib.Logic.Function.Basic
import Mathlib.Tactic.SplitIfs

/-! # A queue in a ring of slots

A ring of `n` slots with two positions: `head`, where the next element goes, and `tail`,
where the oldest one is. They are equal if the ring is empty, so that one slot always stays
free. What is in the ring, the oldest first, is a list (`contents`): an element that is
pushed is appended to it and the one that is popped is its first, wherever the two positions
are and whatever the other slots hold. -/

namespace WengShiOS.Math.RingQueue

open Function

variable {α : Type*} {slots slots' : Nat → α} {n head tail i : Nat}

/-- The number of slots from `tail` to `head`. -/
def size (n head tail : Nat) : Nat := (head + n - tail) % n

/-- The elements of the ring, the oldest first. -/
def contents (slots : Nat → α) (n head tail : Nat) : List α :=
  (List.range (size n head tail)).map fun i => slots ((tail + i) % n)

/-! ### Positions -/

theorem next_eq (h : i < n) : (i + 1) % n = if i + 1 = n then 0 else i + 1 := by
  split_ifs with hlast
  · rw [hlast, Nat.mod_self]
  · exact Nat.mod_eq_of_lt (by omega)

theorem position_eq (ht : tail < n) (hi : i < n) :
    (tail + i) % n = if tail + i < n then tail + i else tail + i - n := by
  split_ifs with hlt
  · exact Nat.mod_eq_of_lt hlt
  · rw [Nat.mod_eq_sub_mod (by omega), Nat.mod_eq_of_lt (by omega)]

theorem size_eq (hh : head < n) (ht : tail < n) :
    size n head tail = if tail ≤ head then head - tail else head + n - tail := by
  unfold size
  split_ifs with hle
  · rw [Nat.mod_eq_sub_mod (by omega), Nat.mod_eq_of_lt (by omega)]
    omega
  · exact Nat.mod_eq_of_lt (by omega)

theorem size_lt (hh : head < n) : size n head tail < n := Nat.mod_lt _ (by omega)

theorem size_eq_zero (hh : head < n) (ht : tail < n) : size n head tail = 0 ↔ head = tail := by
  rw [size_eq hh ht]
  split_ifs <;> omega

/-- The ring has no room if the position after `head` is `tail`. -/
theorem full_iff (hh : head < n) (ht : tail < n) :
    (head + 1) % n = tail ↔ size n head tail = n - 1 := by
  rw [next_eq hh, size_eq hh ht]
  split_ifs <;> omega

/-- The slot at `head` holds no element. -/
theorem position_ne_head (hh : head < n) (ht : tail < n) (hi : i < size n head tail) :
    (tail + i) % n ≠ head := by
  have hlt : size n head tail < n := size_lt hh
  rw [size_eq hh ht] at hi hlt
  rw [position_eq ht (by omega)]
  split_ifs at hi ⊢ <;> omega

theorem position_size (hh : head < n) (ht : tail < n) : (tail + size n head tail) % n = head := by
  rw [position_eq ht (size_lt hh), size_eq hh ht]
  split_ifs <;> omega

/-! ### Elements -/

@[simp] theorem length_contents : (contents slots n head tail).length = size n head tail := by
  simp [contents]

theorem contents_eq_nil (hh : head < n) (ht : tail < n) :
    contents slots n head tail = [] ↔ head = tail := by
  rw [← List.length_eq_zero_iff, length_contents, size_eq_zero hh ht]

/-- An element is stored at `head`, if there is room. -/
theorem contents_push (hh : head < n) (ht : tail < n) (hroom : (head + 1) % n ≠ tail) (x : α) :
    contents (update slots head x) n ((head + 1) % n) tail =
      contents slots n head tail ++ [x] := by
  have hsize : size n ((head + 1) % n) tail = size n head tail + 1 := by
    rw [size_eq (Nat.mod_lt _ (by omega)) ht, size_eq hh ht]
    rw [next_eq hh] at hroom ⊢
    split_ifs at hroom ⊢ <;> omega
  rw [contents, hsize, List.range_succ, List.map_append, contents]
  congr 1
  · apply List.map_congr_left
    intro i hi
    exact update_of_ne (position_ne_head hh ht (List.mem_range.mp hi)) _ _
  · rw [List.map_singleton, position_size hh ht, update_self]

/-- The element at `tail` is taken. -/
theorem contents_pop (hh : head < n) (ht : tail < n) (hne : head ≠ tail) :
    contents slots n head tail = slots tail :: contents slots n head ((tail + 1) % n) := by
  have hsize : size n head tail = size n head ((tail + 1) % n) + 1 := by
    rw [size_eq hh (Nat.mod_lt _ (by omega)), size_eq hh ht, next_eq ht]
    split_ifs <;> omega
  rw [contents, hsize, List.range_succ_eq_map, List.map_cons, List.map_map, contents,
    Nat.add_zero, Nat.mod_eq_of_lt ht]
  congr 1
  apply List.map_congr_left
  intro i _
  rw [comp_apply, Nat.mod_add_mod, Nat.add_right_comm, Nat.add_assoc]

end WengShiOS.Math.RingQueue
