import WengShiOS.Mm.UserBytes

/-! # Words and strings in memory

The reads of the kernel through a pointer it was given: a number of several bytes, and a
string up to its terminating zero. `none` is a page fault. Where the memory holds the
bytes of a number or a string, this is what is read. -/

namespace WengShiOS.Mm

open Math

namespace Machine

/-- The number in the `n` bytes from `addr` on. -/
def loadLE (m : Machine) : Nat → Nat → Option Nat
  | 0, _ => some 0
  | n + 1, addr => (m.readByte addr).bind fun b =>
      (m.loadLE n (wrap (addr + 1))).map fun rest => b.toNat + 256 * rest

/-- The bytes from `addr` on up to the first zero; `fuel` bounds their number. -/
def loadString (m : Machine) : (fuel : Nat) → (addr : Nat) → Option (List UInt8)
  | 0, _ => none
  | fuel + 1, addr => (m.readByte addr).bind fun b =>
      if b = 0 then some []
      else (m.loadString fuel (wrap (addr + 1))).map fun rest => b :: rest

/-- The bytes from `addr` on are `data`. -/
def Holds (m : Machine) (addr : Nat) (data : List UInt8) : Prop :=
  ∀ i < data.length, m.readByte (addr + i) = data[i]?

variable {m : Machine} {addr n value fuel : Nat} {b : UInt8} {xs ys s : List UInt8}

theorem Holds.head (h : m.Holds addr (b :: xs)) : m.readByte addr = some b := by
  have := h 0 (Nat.succ_pos _)
  simpa using this

theorem Holds.tail (h : m.Holds addr (b :: xs)) : m.Holds (addr + 1) xs := by
  intro i hi
  have := h (i + 1) (Nat.succ_lt_succ hi)
  rwa [List.getElem?_cons_succ, Nat.add_comm i, ← Nat.add_assoc] at this

theorem holds_append : m.Holds addr (xs ++ ys) ↔
    m.Holds addr xs ∧ m.Holds (addr + xs.length) ys := by
  constructor
  · refine fun h => ⟨fun i hi => ?_, fun i hi => ?_⟩
    · have := h i (by rw [List.length_append]; omega)
      rwa [List.getElem?_append_left hi] at this
    · have := h (xs.length + i) (by rw [List.length_append]; omega)
      rwa [List.getElem?_append_right (Nat.le_add_right ..), Nat.add_sub_cancel_left,
        ← Nat.add_assoc] at this
  · rintro ⟨hx, hy⟩ i hi
    rcases Nat.lt_or_ge i xs.length with hlt | hge
    · rw [List.getElem?_append_left hlt]
      exact hx i hlt
    · rw [List.getElem?_append_right hge, ← hy (i - xs.length) (by
        rw [List.length_append] at hi
        omega), Nat.add_assoc, Nat.add_sub_cancel' hge]

/-- A number is read where its bytes are. -/
theorem loadLE_of_holds (h : m.Holds addr ((List.range n).map (byteOf value)))
    (hvalue : value < 256 ^ n) (haddr : addr + n < 2 ^ 64) : m.loadLE n addr = some value := by
  -- over a total memory with the same bytes this is `readLE`
  have hbyte : ∀ i < n, m.readByte (addr + i) = some (byteOf value i) := by
    intro i hi
    rw [h i (by simpa using hi)]
    simp [hi]
  have hload : ∀ k a, addr ≤ a → a + k = addr + n →
      m.loadLE k a = some (readLE k (fun w => (m.readByte w).getD 0) a) := by
    intro k
    induction k with
    | zero => exact fun _ _ _ => rfl
    | succ k ih =>
      intro a hle hend
      have hread := hbyte (a - addr) (by omega)
      rw [Nat.add_sub_cancel' hle] at hread
      rw [loadLE, hread, Option.bind_some, wrap_of_lt (by omega), ih (a + 1) (by omega) (by omega),
        Option.map_some, readLE, hread]
      rfl
  have hvalue' : readLE n (fun w => (m.readByte w).getD 0) addr = value % 256 ^ n :=
    readLE_of_byteOf fun i hi => by rw [hbyte i hi, Option.getD_some]
  rw [hload n addr le_rfl rfl, hvalue', Nat.mod_eq_of_lt hvalue]

/-- A string is read where its bytes and a zero are. -/
theorem loadString_of_holds (h : m.Holds addr (s ++ [0])) (hs : 0 ∉ s) (hfuel : s.length < fuel)
    (haddr : addr + s.length < 2 ^ 64) : m.loadString fuel addr = some s := by
  induction s generalizing addr fuel with
  | nil =>
    obtain ⟨fuel, rfl⟩ := Nat.exists_eq_succ_of_ne_zero (Nat.ne_zero_of_lt hfuel)
    rw [loadString, h.head, Option.bind_some, if_pos rfl]
  | cons b s ih =>
    obtain ⟨fuel, rfl⟩ := Nat.exists_eq_succ_of_ne_zero (Nat.ne_zero_of_lt hfuel)
    obtain ⟨hb, hs⟩ : 0 ≠ b ∧ 0 ∉ s := by simpa using hs
    rw [List.length_cons] at hfuel haddr
    rw [loadString, h.head, Option.bind_some, if_neg hb.symm, wrap_of_lt (by omega),
      ih h.tail hs (by omega) (by omega), Option.map_some]

/-- What was stored is there. -/
theorem holds_of_stored (old : Nat → Option UInt8)
    (h : ∀ w, addr ≤ w → w < addr + xs.length → m.readByte w = stored addr xs w (old w)) :
    m.Holds addr xs := by
  intro i hi
  rw [h _ (by omega) (by omega), stored, if_pos (by omega), Nat.add_sub_cancel_left]

end Machine

end WengShiOS.Mm
