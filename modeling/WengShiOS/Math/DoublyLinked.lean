import Mathlib.Data.List.Basic
import Mathlib.Tactic.Common

/-! # Doubly linked lists in a memory of nodes

A memory of nodes gives, at every address, a value and two pointers. `Linked`
says that a list of addresses and values is laid out in it from one end to the
other, each node pointing to its two neighbours. Addresses are numbers and the
pointers before the first and after the last node are parameters, so that a list
can be cut in two at any place. -/

namespace WengShiOS.Math

/-- A node of a doubly linked list. -/
structure Node (β : Type*) where
  value : β
  next : Nat
  prev : Nat

variable {β : Type*}

/-- The address of the first node, or what follows an empty list. -/
def firstAddr : List (Nat × β) → Nat → Nat
  | [], q => q
  | b :: _, _ => b.1

/-- The address of the last node, or what comes before an empty list. -/
def lastAddr : Nat → List (Nat × β) → Nat
  | p, [] => p
  | _, b :: rest => lastAddr b.1 rest

/-- `xs` is laid out in `node`, after the node `p` and before the node `q`. -/
def Linked (node : Nat → Node β) : Nat → List (Nat × β) → Nat → Prop
  | _, [], _ => True
  | p, b :: rest, q => node b.1 = ⟨b.2, firstAddr rest q, p⟩ ∧ Linked node b.1 rest q

variable {node node' : Nat → Node β} {p q : Nat} {xs ys : List (Nat × β)} {b : Nat × β}

@[simp] theorem firstAddr_nil : firstAddr ([] : List (Nat × β)) q = q := rfl

@[simp] theorem firstAddr_cons : firstAddr (b :: xs) q = b.1 := rfl

@[simp] theorem lastAddr_nil : lastAddr p ([] : List (Nat × β)) = p := rfl

@[simp] theorem lastAddr_cons : lastAddr p (b :: xs) = lastAddr b.1 xs := rfl

@[simp] theorem firstAddr_append : firstAddr (xs ++ ys) q = firstAddr xs (firstAddr ys q) := by
  cases xs <;> rfl

@[simp] theorem lastAddr_append : lastAddr p (xs ++ ys) = lastAddr (lastAddr p xs) ys := by
  induction xs generalizing p with
  | nil => rfl
  | cons b rest ih => exact ih

@[simp] theorem linked_append :
    Linked node p (xs ++ ys) q ↔
      Linked node p xs (firstAddr ys q) ∧ Linked node (lastAddr p xs) ys q := by
  induction xs generalizing p with
  | nil => simp [Linked, lastAddr]
  | cons b rest ih => simp [Linked, lastAddr, ih, and_assoc]

@[simp] theorem linked_cons :
    Linked node p (b :: xs) q ↔ node b.1 = ⟨b.2, firstAddr xs q, p⟩ ∧ Linked node b.1 xs q :=
  Iff.rfl

@[simp] theorem linked_nil : Linked node p [] q := trivial

/-- Only the nodes of the list matter. -/
theorem Linked.congr (h : Linked node p xs q) (hsame : ∀ b ∈ xs, node' b.1 = node b.1) :
    Linked node' p xs q := by
  induction xs generalizing p with
  | nil => trivial
  | cons b rest ih =>
    exact ⟨(hsame b (by simp)).trans h.1, ih h.2 fun c hc => hsame c (by simp [hc])⟩

theorem Linked.value_eq (h : Linked node p xs q) (hb : b ∈ xs) : (node b.1).value = b.2 := by
  induction xs generalizing p with
  | nil => cases hb
  | cons c rest ih =>
    rcases List.mem_cons.mp hb with rfl | hb
    · rw [h.1]
    · exact ih h.2 hb

/-- A list is relinked to a new predecessor by changing its first node. -/
theorem Linked.relink {p' : Nat} (h : Linked node p xs q)
    (hfirst : ∀ b ∈ xs.head?, node' b.1 = { node b.1 with prev := p' })
    (hsame : ∀ b ∈ xs.tail, node' b.1 = node b.1) : Linked node' p' xs q := by
  cases xs with
  | nil => trivial
  | cons b rest =>
    refine ⟨?_, h.2.congr hsame⟩
    rw [hfirst b rfl, h.1]

/-- A node is appended: the last one points to it, and it points back. -/
theorem Linked.concat {t n q' : Nat} {v w : β} (h : Linked node p (xs ++ [(t, v)]) q)
    (hsame : ∀ b ∈ xs, node' b.1 = node b.1) (hlast : node' t = { node t with next := n })
    (hnew : node' n = ⟨w, q', t⟩) : Linked node' p (xs ++ [(t, v)] ++ [(n, w)]) q' := by
  obtain ⟨hxs, ht, -⟩ := linked_append.mp h
  simp only [linked_append, linked_cons, linked_nil, lastAddr_append, lastAddr_cons, lastAddr_nil,
    firstAddr_cons, firstAddr_nil, and_true]
  refine ⟨⟨hxs.congr hsame, ?_⟩, hnew⟩
  rw [hlast, ht]

end WengShiOS.Math
