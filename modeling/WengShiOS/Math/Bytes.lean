import Mathlib.Data.Nat.Digits.Lemmas
import Mathlib.Tactic.Ring

/-! # Memory as bytes

A memory gives a byte at every address. The one way to change it is to lay a
range of bytes over it; numbers are read and written in little-endian order. -/

namespace WengShiOS.Math

abbrev Bytes := Nat → UInt8

/-- `m` with the `n` bytes `f 0, …, f (n - 1)` laid over it from address `a`. -/
def overlay (m : Bytes) (a n : Nat) (f : Nat → UInt8) : Bytes := fun x =>
  if a ≤ x ∧ x < a + n then f (x - a) else m x

/-- The number in the `n` bytes from address `a`. -/
def readLE : Nat → Bytes → Nat → Nat
  | 0, _, _ => 0
  | n + 1, m, a => (m a).toNat + 256 * readLE n m (a + 1)

/-- The `i`-th byte of a number. -/
def byteOf (v i : Nat) : UInt8 := UInt8.ofNat (v / 256 ^ i)

def writeLE (n : Nat) (m : Bytes) (a v : Nat) : Bytes := overlay m a n (byteOf v)

/-- The `n` bytes of `m` from address `a` as a buffer; past its end it reads as zero. -/
def window (m : Bytes) (a n : Nat) : Bytes := fun i => if i < n then m (a + i) else 0

variable {m m' : Bytes} {a b n k v : Nat} {f : Nat → UInt8}

theorem overlay_of_lt {i : Nat} (h : i < n) : overlay m a n f (a + i) = f i := by
  simp [overlay, h]

theorem overlay_of_not_mem {x : Nat} (h : ¬ (a ≤ x ∧ x < a + n)) : overlay m a n f x = m x :=
  if_neg h

/-- Two ranges have no address in common. -/
def Apart (a n b k : Nat) : Prop := a + n ≤ b ∨ b + k ≤ a

theorem readLE_congr (h : ∀ i < n, m (a + i) = m' (b + i)) : readLE n m a = readLE n m' b := by
  induction n generalizing a b with
  | zero => rfl
  | succ n ih =>
    have h0 := h 0 (Nat.succ_pos n)
    have hrest : ∀ i < n, m (a + 1 + i) = m' (b + 1 + i) := fun i hi => by
      have := h (i + 1) (Nat.succ_lt_succ hi)
      rwa [Nat.add_comm i, ← Nat.add_assoc, ← Nat.add_assoc] at this
    rw [readLE, readLE, ih hrest, show m a = m' b from h0]

theorem readLE_lt : readLE n m a < 256 ^ n := by
  induction n generalizing a with
  | zero => simp [readLE]
  | succ n ih =>
    have hbyte := (m a).toNat_lt
    have hrest : readLE n m (a + 1) < 256 ^ n := ih
    rw [readLE, pow_succ]
    omega

theorem readLE_overlay_of_apart (h : Apart a n b k) :
    readLE k (overlay m a n f) b = readLE k m b :=
  readLE_congr fun i hi => overlay_of_not_mem (by unfold Apart at h; omega)

/-- A number that is stored byte by byte is read back, up to the bytes there are. -/
theorem readLE_of_byteOf (h : ∀ i < n, m (a + i) = byteOf v i) : readLE n m a = v % 256 ^ n := by
  induction n generalizing a v with
  | zero => simp [readLE, Nat.mod_one]
  | succ n ih =>
    have h0 : m a = byteOf v 0 := h 0 (Nat.succ_pos n)
    have hrest : readLE n m (a + 1) = v / 256 % 256 ^ n := by
      refine ih fun i hi => ?_
      have := h (i + 1) (Nat.succ_lt_succ hi)
      rw [Nat.add_comm i, ← Nat.add_assoc] at this
      rw [this, byteOf, byteOf, Nat.div_div_eq_div_mul, pow_add, pow_one]
    rw [readLE, h0, hrest, pow_succ, Nat.mul_comm (256 ^ n), Nat.mod_mul]
    simp [byteOf]

/-- Replacing a byte of a number changes this byte only. -/
theorem byteOf_replace (word i j : Nat) (b : UInt8) :
    byteOf (word - word / 256 ^ i % 256 * 256 ^ i + b.toNat * 256 ^ i) j =
      if j = i then b else byteOf word j := by
  have hb := b.toNat_lt
  -- the bytes above, the byte itself and the bytes below
  obtain ⟨high, low, hlow, rfl⟩ : ∃ high low, low < 256 ^ i ∧ word = high * 256 ^ i + low :=
    ⟨word / 256 ^ i, word % 256 ^ i, Nat.mod_lt _ (by positivity), (Nat.div_add_mod' ..).symm⟩
  have hpos : 0 < 256 ^ i := by positivity
  have hbyte : (high * 256 ^ i + low) / 256 ^ i = high := by
    rw [Nat.add_comm, Nat.add_mul_div_right _ _ hpos, Nat.div_eq_of_lt hlow, Nat.zero_add]
  have hnew : high * 256 ^ i + low - high % 256 * 256 ^ i + b.toNat * 256 ^ i =
      (high / 256 * 256 + b.toNat) * 256 ^ i + low := by
    have hsplit : high * 256 ^ i = high / 256 * 256 * 256 ^ i + high % 256 * 256 ^ i := by
      rw [← Nat.add_mul, Nat.div_add_mod']
    rw [Nat.add_mul, hsplit]
    omega
  rw [hbyte, hnew]
  unfold byteOf
  rcases Nat.lt_trichotomy j i with hlt | rfl | hgt
  · -- below, both numbers are the low bytes and a multiple of `256`
    rw [if_neg hlt.ne]
    obtain ⟨d, rfl⟩ := Nat.exists_eq_add_of_lt hlt
    have hdiv : ∀ x, (x * 256 ^ (j + d + 1) + low) / 256 ^ j =
        low / 256 ^ j + 256 * (x * 256 ^ d) := by
      intro x
      rw [Nat.add_comm, show x * 256 ^ (j + d + 1) = 256 ^ j * (256 * (x * 256 ^ d)) by ring,
        Nat.add_mul_div_left _ _ (by positivity)]
    rw [hdiv, hdiv]
    apply UInt8.toNat_inj.mp
    simp
  · rw [if_pos rfl, Nat.add_comm, Nat.add_mul_div_right _ _ hpos, Nat.div_eq_of_lt hlow]
    apply UInt8.toNat_inj.mp
    simp
  · rw [if_neg hgt.ne']
    obtain ⟨d, rfl⟩ := Nat.exists_eq_add_of_lt hgt
    have hdiv : ∀ x, (x * 256 ^ i + low) / 256 ^ (i + d + 1) = x / 256 / 256 ^ d := by
      intro x
      rw [Nat.add_assoc, pow_add, ← Nat.div_div_eq_div_mul, Nat.add_comm (x * _),
        Nat.add_mul_div_right _ _ hpos, Nat.div_eq_of_lt hlow, Nat.zero_add, pow_succ',
        Nat.div_div_eq_div_mul]
    rw [hdiv, hdiv]
    congr 2
    omega

theorem readLE_writeLE : readLE n (writeLE n m a v) a = v % 256 ^ n :=
  readLE_of_byteOf fun _ hi => overlay_of_lt hi

theorem readLE_writeLE_of_lt (h : v < 256 ^ n) : readLE n (writeLE n m a v) a = v := by
  rw [readLE_writeLE, Nat.mod_eq_of_lt h]

theorem readLE_writeLE_of_apart (h : Apart a n b k) :
    readLE k (writeLE n m a v) b = readLE k m b :=
  readLE_overlay_of_apart h

theorem window_of_lt {i : Nat} (h : i < n) : window m a n i = m (a + i) := if_pos h

theorem window_congr (h : ∀ i < n, m (a + i) = m' (b + i)) : window m a n = window m' b n := by
  funext i
  unfold window
  split
  · exact h i ‹_›
  · rfl

theorem readLE_window (h : b + k ≤ n) : readLE k (window m a n) b = readLE k m (a + b) :=
  readLE_congr fun i hi => by rw [window_of_lt (by omega), Nat.add_assoc]

theorem window_overlay_of_apart (h : Apart a n b k) :
    window (overlay m a n f) b k = window m b k :=
  window_congr fun i hi => overlay_of_not_mem (by unfold Apart at h; omega)

theorem window_overlay_self : window (overlay m a n f) a n = window f 0 n :=
  window_congr fun i hi => by rw [overlay_of_lt hi, Nat.zero_add]

theorem window_window (h : b + k ≤ n) : window (window m a n) b k = window m (a + b) k :=
  window_congr fun i hi => by rw [window_of_lt (by omega), Nat.add_assoc]

@[simp] theorem window_window_self : window (window m a n) 0 n = window m a n :=
  window_window (by omega)

end WengShiOS.Math
