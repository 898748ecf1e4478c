import WengShiOS.Math.Bytes

/-! # `memmove`

The two loops of `memmove` read and write the same memory. Towards lower addresses the bytes
are copied from the front, towards higher addresses from the back, so the byte that is read
next has not been overwritten yet. -/

namespace WengShiOS.Libc

open Math

variable {mem : Bytes} {dest src count : Nat}

/-- `d[i] = s[i];` -/
def copyByte (mem : Bytes) (d s i : Nat) : Bytes :=
  Function.update mem ((d + i) % 2 ^ 64) (mem ((s + i) % 2 ^ 64))

/-- `for (size_t i = 0; i < count; ++i) d[i] = s[i];`, with `left` passes to go. -/
def copyUp (d s : Nat) : (left i : Nat) → Bytes → Bytes
  | 0, _, mem => mem
  | left + 1, i, mem => copyUp d s left (i + 1) (copyByte mem d s i)

/-- `for (size_t i = count; i > 0; --i) d[i - 1] = s[i - 1];` -/
def copyDown (d s : Nat) : (i : Nat) → Bytes → Bytes
  | 0, mem => mem
  | i + 1, mem => copyDown d s i (copyByte mem d s i)

/-- The pointer that is returned and the memory afterwards. -/
def memmove (mem : Bytes) (dest src count : Nat) : Nat × Bytes :=
  if dest = src ∨ count = 0 then (dest, mem)
  else if dest < src then (dest, copyUp dest src count 0 mem)
  else (dest, copyDown dest src count mem)

/-- What `memmove` is for: the bytes of the source, as they were, laid over the destination. -/
def moved (mem : Bytes) (dest src count : Nat) : Bytes :=
  overlay mem dest count fun i => mem (src + i)

/-- From the front, the source is read before the destination gets there. -/
theorem copyByte_front {i : Nat} (hle : dest ≤ src) (hdest : dest + i < 2 ^ 64)
    (hsrc : src + i < 2 ^ 64) :
    copyByte (moved mem dest src i) dest src i = moved mem dest src (i + 1) := by
  funext x
  rw [copyByte, Nat.mod_eq_of_lt hdest, Nat.mod_eq_of_lt hsrc, Function.update_apply]
  have hread : moved mem dest src i (src + i) = mem (src + i) :=
    overlay_of_not_mem (by omega)
  split_ifs with hx
  · rw [hread, hx, moved, overlay_of_lt (Nat.lt_succ_self i)]
  · simp only [moved, overlay, show dest ≤ x ∧ x < dest + (i + 1) ↔ dest ≤ x ∧ x < dest + i by omega]

/-- From the back, the bytes from `i` on have been moved. -/
theorem copyByte_back {i n : Nat} (hle : src ≤ dest) (hdest : dest + i < 2 ^ 64)
    (hsrc : src + i < 2 ^ 64) :
    copyByte (moved mem (dest + (i + 1)) (src + (i + 1)) n) dest src i =
      moved mem (dest + i) (src + i) (n + 1) := by
  funext x
  rw [copyByte, Nat.mod_eq_of_lt hdest, Nat.mod_eq_of_lt hsrc, Function.update_apply]
  have hread : moved mem (dest + (i + 1)) (src + (i + 1)) n (src + i) = mem (src + i) :=
    overlay_of_not_mem (by omega)
  split_ifs with hx
  · rw [hread, hx]
    exact (overlay_of_lt (m := mem) (f := fun k => mem (src + i + k)) (Nat.succ_pos n)).symm
  · simp only [moved, overlay]
    by_cases hin : dest + (i + 1) ≤ x ∧ x < dest + (i + 1) + n
    · rw [if_pos hin, if_pos (by omega)]
      congr 1
      omega
    · rw [if_neg hin, if_neg (by omega)]

theorem copyUp_moved {left i : Nat} (hle : dest ≤ src) (hsrc : src + (i + left) ≤ 2 ^ 64) :
    copyUp dest src left i (moved mem dest src i) = moved mem dest src (i + left) := by
  induction left generalizing i with
  | zero => rfl
  | succ left ih =>
    rw [copyUp, copyByte_front hle (by omega) (by omega), ih (by omega)]
    congr 1
    omega

theorem copyDown_moved {i n : Nat} (hle : src ≤ dest) (hdest : dest + i ≤ 2 ^ 64) :
    copyDown dest src i (moved mem (dest + i) (src + i) n) = moved mem dest src (i + n) := by
  induction i generalizing n with
  | zero => simp [copyDown]
  | succ i ih =>
    rw [copyDown, copyByte_back hle (by omega) (by omega), ih (by omega)]
    congr 1
    omega

theorem moved_zero : moved mem dest src 0 = mem :=
  funext fun _ => overlay_of_not_mem (by omega)

/-- **`memmove` copies as if through a temporary.** If neither region wraps around the address
space, the destination has the bytes that were in the source, and all other bytes are as they
were. -/
theorem memmove_copies (hdest : dest + count ≤ 2 ^ 64) (hsrc : src + count ≤ 2 ^ 64) :
    (∀ i < count, (memmove mem dest src count).2 (dest + i) = mem (src + i)) ∧
      ∀ x, x < dest ∨ dest + count ≤ x → (memmove mem dest src count).2 x = mem x := by
  have hmoved : (memmove mem dest src count).2 = moved mem dest src count := by
    unfold memmove
    split_ifs with hnothing hlt
    · rcases hnothing with rfl | rfl
      · -- the bytes are where they should be
        funext x
        simp only [moved, overlay]
        split_ifs with hx
        · rw [Nat.add_sub_cancel' hx.1]
        · rfl
      · exact moved_zero.symm
    · have hup : copyUp dest src count 0 (moved mem dest src 0) = _ :=
        copyUp_moved hlt.le (by omega)
      rwa [moved_zero, Nat.zero_add] at hup
    · have hdown : copyDown dest src count (moved mem (dest + count) (src + count) 0) = _ :=
        copyDown_moved (Nat.not_lt.mp hlt) hdest
      rwa [moved_zero, Nat.add_zero] at hdown
  rw [hmoved]
  exact ⟨fun i hi => overlay_of_lt hi, fun x hx => overlay_of_not_mem (by omega)⟩

/-- Eight bytes are moved up by three, over themselves. -/
theorem memmove_up_three : (∀ i < 8, (memmove UInt8.ofNat 103 100 8).2 (103 + i) =
      UInt8.ofNat (100 + i)) ∧
    ∀ x, x < 103 ∨ 103 + 8 ≤ x → (memmove UInt8.ofNat 103 100 8).2 x = UInt8.ofNat x :=
  memmove_copies (by decide) (by decide)

end WengShiOS.Libc
