import Mathlib.Data.Nat.Digits.Lemmas

/-! # Reading a hexadecimal number

`hex_to_u64` reads the digits from left to right into 64 bits and gives up as soon as the next
digit does not fit. A string is the bytes before its NUL, and a null pointer is `none`; `out`
is what the result pointer points to. -/

namespace WengShiOS.Libc

def isSpace (c : UInt8) : Bool :=
  c = 32 || c = 9 || c = 10 || c = 13 || c = 11 || c = 12

def hexDigit (c : UInt8) : Int :=
  if 48 ≤ c ∧ c ≤ 57 then c.toNat - 48
  else if 97 ≤ c ∧ c ≤ 102 then 10 + (c.toNat - 97)
  else if 65 ≤ c ∧ c ≤ 70 then 10 + (c.toNat - 65)
  else -1

/-- The string behind `0x` or `0X`, if it begins so. -/
def skipMark : List UInt8 → List UInt8
  | 48 :: 120 :: s => s
  | 48 :: 88 :: s => s
  | s => s

/-- The loop over the digits; `none` is the return inside it. -/
def hexLoop : List UInt8 → UInt64 → Option UInt64
  -- the NUL is not a digit
  | [], acc => some acc
  | c :: s, acc =>
    if 0 ≤ hexDigit c then
      if acc > (0xFFFFFFFFFFFFFFFF : UInt64) >>> 4 then none
      else hexLoop s (acc <<< 4 ||| UInt64.ofNat (hexDigit c).toNat)
    else some acc

/-- The result, and what `out` points to afterwards. -/
def hexToU64 (s : Option (List UInt8)) (out : Option UInt64) : Int × Option UInt64 :=
  match s, out with
  | some s, some old =>
    let s := skipMark (s.dropWhile isSpace)
    if hexDigit (s.headD 0) < 0 then (-1, some old)
    else
      match hexLoop s 0 with
      | none => (-1, some old)
      | some acc => (0, some acc)
  | _, _ => (-1, out)

/-! ### The numeral that a string begins with -/

/-- The value of a hexadecimal digit, written with a small or a capital letter. -/
def digitValue (c : UInt8) : Option Nat :=
  (List.range 16).find? fun d =>
    Char.ofNat c.toNat = d.digitChar ∨ Char.ofNat c.toNat = d.digitChar.toUpper

/-- The values of the digits up to the first byte that is none. -/
def leadingDigits (s : List UInt8) : List Nat :=
  (s.takeWhile fun c => (digitValue c).isSome).filterMap digitValue

theorem leadingDigits_of_none {c : UInt8} (s : List UInt8) (hc : digitValue c = none) :
    leadingDigits (c :: s) = [] := by
  simp [leadingDigits, hc]

theorem leadingDigits_of_some {c : UInt8} {d : Nat} (s : List UInt8) (hc : digitValue c = some d) :
    leadingDigits (c :: s) = d :: leadingDigits s := by
  simp [leadingDigits, hc]

/-- The number that digits denote, the most significant one first. -/
def numeralValue (digits : List Nat) : Nat := Nat.ofDigits 16 digits.reverse

theorem numeralValue_cons (d : Nat) (digits : List Nat) :
    numeralValue (d :: digits) = d * 16 ^ digits.length + numeralValue digits := by
  rw [numeralValue, List.reverse_cons, Nat.ofDigits_append, Nat.ofDigits_singleton,
    List.length_reverse, numeralValue]
  ring

theorem hexDigit_eq (c : UInt8) : hexDigit c = ((digitValue c).elim (-1) fun d => (d : Int)) ∧
    ∀ d ∈ digitValue c, d < 16 := by
  have key : ∀ n < 256, hexDigit (UInt8.ofNat n) =
      ((digitValue (UInt8.ofNat n)).elim (-1) fun d => (d : Int)) ∧
        ∀ d ∈ digitValue (UInt8.ofNat n), d < 16 := by
    decide +kernel
  have h := key c.toNat c.toNat_lt
  rwa [UInt8.ofNat_toNat] at h

/-! ### The loop -/

/-- A digit is put behind an accumulator whose upper four bits are clear. -/
theorem toNat_shiftLeft_or {acc : UInt64} {d : Nat} (hacc : acc.toNat < 2 ^ 60) (hd : d < 16) :
    (acc <<< 4 ||| UInt64.ofNat d).toNat = acc.toNat * 16 + d := by
  have hshift : (acc <<< 4).toNat = acc.toNat <<< 4 := by
    have hfits : acc.toNat <<< 4 < 2 ^ 64 := by
      rw [Nat.shiftLeft_eq]
      omega
    rw [UInt64.toNat_shiftLeft]
    exact Nat.mod_eq_of_lt hfits
  have hdigit : (UInt64.ofNat d).toNat = d := Nat.mod_eq_of_lt (by omega)
  rw [UInt64.toNat_or, hshift, hdigit, ← Nat.shiftLeft_add_eq_or_of_lt (by omega), Nat.shiftLeft_eq]

/-- The loop appends the digits to what it has read, as long as the number fits. -/
theorem hexLoop_eq (s : List UInt8) (acc : UInt64) :
    hexLoop s acc =
      let n := acc.toNat * 16 ^ (leadingDigits s).length + numeralValue (leadingDigits s)
      if n < 2 ^ 64 then some (UInt64.ofNat n) else none := by
  induction s generalizing acc with
  | nil =>
    have hfits := acc.toNat_lt
    simp [hexLoop, leadingDigits, numeralValue, hfits]
  | cons c s ih =>
    obtain ⟨hdigit, hlt⟩ := hexDigit_eq c
    rw [hexLoop]
    cases hc : digitValue c with
    | none =>
      have hfits := acc.toNat_lt
      simp [hdigit, hc, leadingDigits_of_none s hc, numeralValue, hfits]
    | some d =>
      have hd : d < 16 := hlt d hc
      rw [hc, Option.elim_some] at hdigit
      rw [leadingDigits_of_some s hc, hdigit, if_pos (Int.natCast_nonneg d), Int.toNat_natCast, ih]
      simp only [List.length_cons, numeralValue_cons, pow_succ]
      have hfull : acc > (0xFFFFFFFFFFFFFFFF : UInt64) >>> 4 ↔ 2 ^ 60 ≤ acc.toNat := by
        rw [gt_iff_lt, UInt64.lt_iff_toNat_lt]
        exact Nat.succ_le_iff.symm
      simp only [hfull]
      by_cases hacc : acc.toNat < 2 ^ 60
      · rw [if_neg (by omega), toNat_shiftLeft_or hacc hd]
        congr 2 <;> ring_nf
      · -- the next digit would be shifted out
        have hpos : 1 ≤ 16 ^ (leadingDigits s).length := Nat.one_le_pow _ _ (by omega)
        have hbig : 2 ^ 60 * (1 * 16) ≤ acc.toNat * (16 ^ (leadingDigits s).length * 16) :=
          Nat.mul_le_mul (by omega) (Nat.mul_le_mul_right 16 hpos)
        rw [if_pos (by omega), if_neg (by omega)]

/-- **`hex_to_u64` accepts exactly the numerals that fit.** After white space and a mark it
needs a digit, and the digits up to the first other byte have to denote a number of 64 bits;
that number is stored. Otherwise it fails and stores nothing. -/
theorem hexToU64_eq (s : List UInt8) (out : UInt64) :
    hexToU64 (some s) (some out) =
      let digits := leadingDigits (skipMark (s.dropWhile isSpace))
      if digits ≠ [] ∧ numeralValue digits < 2 ^ 64 then
        (0, some (UInt64.ofNat (numeralValue digits)))
      else (-1, some out) := by
  unfold hexToU64
  dsimp only
  generalize skipMark (s.dropWhile isSpace) = s
  have hloop := hexLoop_eq s 0
  rw [UInt64.toNat_zero, Nat.zero_mul, Nat.zero_add] at hloop
  cases s with
  | nil => simp [hexDigit, leadingDigits]
  | cons c s =>
    obtain ⟨hdigit, -⟩ := hexDigit_eq c
    rw [List.headD_cons, hloop]
    cases hc : digitValue c with
    | none => simp [hdigit, hc, leadingDigits_of_none s hc]
    | some d =>
      have hne : leadingDigits (c :: s) ≠ [] := by simp [leadingDigits_of_some s hc]
      rw [hdigit, hc, Option.elim_some, if_neg (Int.not_lt.mpr (Int.natCast_nonneg d))]
      by_cases hfits : numeralValue (leadingDigits (c :: s)) < 2 ^ 64
      · simp only [if_pos hfits, if_pos (And.intro hne hfits)]
      · simp only [if_neg hfits, if_neg fun h => hfits (And.right h)]

end WengShiOS.Libc
