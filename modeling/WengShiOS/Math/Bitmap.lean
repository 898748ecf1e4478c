import WengShiOS.Math.Bytes
import Mathlib.Data.Finset.Card
import Mathlib.Data.Finset.Range

/-! # Bitmaps

A bitmap keeps bit `i` in byte `i / 8`, at weight `2 ^ (i % 8)`. Setting and
clearing change one bit; the number of clear bits follows. -/

namespace WengShiOS.Math

open Function

/-- `bitmap[i / 8] & (1 << (i % 8))` -/
def testBit (bitmap : Bytes) (i : Nat) : Bool := (bitmap (i / 8)).toNat.testBit (i % 8)

/-- `bitmap[i / 8] |= 1 << (i % 8);` -/
def setBit (bitmap : Bytes) (i : Nat) : Bytes :=
  Function.update bitmap (i / 8) (.ofNat ((bitmap (i / 8)).toNat ||| 2 ^ (i % 8)))

/-- `bitmap[i / 8] &= ~(1 << (i % 8));` -/
def clearBit (bitmap : Bytes) (i : Nat) : Bytes :=
  Function.update bitmap (i / 8) (.ofNat ((bitmap (i / 8)).toNat &&& (255 ^^^ 2 ^ (i % 8))))

variable {bitmap : Bytes} {i j n : Nat}

/-- The low eight bits of a number are those of its byte. -/
theorem testBit_ofNat_toNat {v k : Nat} (hk : k < 8) :
    (UInt8.ofNat v).toNat.testBit k = v.testBit k := by
  rw [UInt8.toNat_ofNat', Nat.testBit_mod_two_pow]
  simp [hk]

@[simp] theorem testBit_setBit :
    testBit (setBit bitmap i) j = (decide (i = j) || testBit bitmap j) := by
  unfold testBit setBit
  by_cases hbyte : j / 8 = i / 8
  · rw [hbyte, update_self, testBit_ofNat_toNat (Nat.mod_lt _ (by omega)),
      Nat.testBit_or, Nat.testBit_two_pow, Bool.or_comm]
    congr 1
    exact decide_eq_decide.mpr (by omega)
  · rw [update_of_ne hbyte]
    have hij : i ≠ j := fun h => hbyte (h ▸ rfl)
    simp [hij]

@[simp] theorem testBit_clearBit :
    testBit (clearBit bitmap i) j = (decide (i ≠ j) && testBit bitmap j) := by
  unfold testBit clearBit
  by_cases hbyte : j / 8 = i / 8
  · have hmask : (255 ^^^ 2 ^ (i % 8)).testBit (j % 8) = decide (i ≠ j) := by
      have h255 : (255 : Nat).testBit (j % 8) = true := by
        rw [show (255 : Nat) = 2 ^ 8 - 1 by rfl, Nat.testBit_two_pow_sub_one]
        exact decide_eq_true (Nat.mod_lt _ (by omega))
      rw [Nat.testBit_xor, h255, Nat.testBit_two_pow, Bool.true_xor, ← decide_not]
      exact decide_eq_decide.mpr (by omega)
    rw [hbyte, update_self, testBit_ofNat_toNat (Nat.mod_lt _ (by omega)),
      Nat.testBit_and, hmask, Bool.and_comm]
  · rw [update_of_ne hbyte]
    have hij : i ≠ j := fun h => hbyte (h ▸ rfl)
    simp [hij]

/-- The positions below `n` whose bit is clear. -/
def clearBits (bitmap : Bytes) (n : Nat) : Finset Nat :=
  (Finset.range n).filter fun i => testBit bitmap i = false

@[simp] theorem mem_clearBits : i ∈ clearBits bitmap n ↔ i < n ∧ testBit bitmap i = false := by
  simp [clearBits]

theorem clearBits_setBit : clearBits (setBit bitmap i) n = (clearBits bitmap n).erase i := by
  ext j
  simp only [mem_clearBits, testBit_setBit, Finset.mem_erase, Bool.or_eq_false_iff,
    decide_eq_false_iff_not]
  tauto

theorem clearBits_clearBit (hi : i < n) :
    clearBits (clearBit bitmap i) n = insert i (clearBits bitmap n) := by
  ext j
  simp only [mem_clearBits, testBit_clearBit, Finset.mem_insert, Bool.and_eq_false_iff,
    decide_eq_false_iff_not, not_not]
  constructor
  · rintro ⟨hj, rfl | hbit⟩
    · exact .inl rfl
    · exact .inr ⟨hj, hbit⟩
  · rintro (rfl | ⟨hj, hbit⟩)
    · exact ⟨hi, .inl rfl⟩
    · exact ⟨hj, .inr hbit⟩

end WengShiOS.Math
