import Mathlib.Data.Nat.Digits.Lemmas

/-! # `printf`

`printf` and the functions of the terminal that it prints numbers with. A format is the bytes
before its NUL. To read behind the NUL, to store behind a digit buffer and to take an argument
of another type are errors. -/

namespace WengShiOS.Libc

/-- What is sent to the terminal. -/
inductive TerminalOp
  | putChar (c : UInt8)
  | setColorForeground (fg : Int)
  | setColorBackground (bg : Int)
  deriving DecidableEq, Repr

/-- A variable argument: a string or null, an `int`, or 64 bits. -/
inductive Arg
  | str (s : Option (List UInt8))
  | int (n : Int)
  | word (val : BitVec 64)
  deriving DecidableEq, Repr

/-! ### The terminal -/

/-- `write` puts one character after the other. -/
def write (s : List UInt8) : List TerminalOp := s.map .putChar

def digitChar (d : Nat) : UInt8 := UInt8.ofNat (48 + d)

/-- The loop that stores digits, the last one first; `room` places of the buffer are left. -/
def storeDigits (base : Nat) : (room value : Nat) → (digits : List UInt8) → Option (List UInt8)
  | 0, value, digits => if value = 0 then some digits else none
  | room + 1, value, digits =>
    if value = 0 then some digits
    else storeDigits base room (value / base) (digitChar (value % base) :: digits)

/-- A number through a buffer with `room` places, or `0`. -/
def writeDigits (base room value : Nat) : Option (List TerminalOp) :=
  if value = 0 then some (write [48]) else (storeDigits base room value []).map write

/-- `char digits[20]` -/
def writeDec (value : Nat) : Option (List TerminalOp) := writeDigits 10 20 value

/-- `char buf[65]`, with the NUL -/
def writeBinary (value : Nat) : Option (List TerminalOp) := writeDigits 2 64 value

/-- `char buf[23]`, with the NUL -/
def writeOctal (value : Nat) : Option (List TerminalOp) := writeDigits 8 22 value

/-- The loop of `writeHex` over the `n` nibbles that are left. -/
def writeHexLoop (value : Nat) : (n : Nat) → (leading : Bool) → List UInt8
  | 0, _ => []
  | n + 1, leading =>
    let nibble := value / 16 ^ n % 16
    let leading := leading && nibble = 0
    if !leading || n = 0 then
      (if nibble < 10 then digitChar nibble else UInt8.ofNat (55 + nibble)) ::
        writeHexLoop value n leading
    else writeHexLoop value n leading

/-- `0x`, then the digits. -/
def writeHex (value : Nat) : List TerminalOp := write ([48, 120] ++ writeHexLoop value 16 true)

/-! ### The format -/

/-- The cases of the `switch`. -/
inductive Conversion
  | s | c | r | R | d | u | x | p | b | o | percent | other (c : UInt8)
  deriving DecidableEq, Repr

def Conversion.ofChar : UInt8 → Conversion
  | 115 => .s
  | 99 => .c
  | 114 => .r
  | 82 => .R
  | 100 => .d
  | 117 => .u
  | 120 => .x
  | 112 => .p
  | 98 => .b
  | 111 => .o
  | 37 => .percent
  | char => .other char

/-- `char buf[] = {…, c, '\0'}` as a string. -/
def upToNul (c : UInt8) : List UInt8 := if c = 0 then [] else [c]

/-- What a case prints, and the arguments that are left. The negation of the least `int64_t`
is taken to wrap. -/
def convert : Conversion → List Arg → Option (List TerminalOp × List Arg)
  | .s, .str s :: args => some (write (s.getD [40, 110, 117, 108, 108, 41]), args)
  | .c, .int n :: args => some (write (upToNul (UInt8.ofNat (n % 256).toNat)), args)
  | .r, .int fg :: args => some ([.setColorForeground fg], args)
  | .R, .int bg :: args => some ([.setColorBackground bg], args)
  | .d, .word val :: args =>
    if val.toInt < 0 then (writeDec (-val).toNat).map fun out => (write [45] ++ out, args)
    else (writeDec val.toNat).map fun out => (out, args)
  | .u, .word val :: args => (writeDec val.toNat).map fun out => (out, args)
  | .x, .word val :: args => some (writeHex val.toNat, args)
  | .p, .word val :: args => some (write [48, 120] ++ writeHex val.toNat, args)
  | .b, .word val :: args => (writeBinary val.toNat).map fun out => (out, args)
  | .o, .word val :: args => (writeOctal val.toNat).map fun out => (out, args)
  | .percent, args => some (write [37], args)
  | .other c, args => some (write (37 :: upToNul c), args)
  | _, _ => none

/-- `format[i]`, up to the NUL. -/
def charAt (format : List UInt8) (i : Nat) : Option UInt8 := (format ++ [0])[i]?

/-- The loop from index `i` on; inside the `switch` the index is one further. -/
def printfLoop (format : List UInt8) : (fuel i : Nat) → List Arg → Option (List TerminalOp)
  | 0, _, _ => none
  | fuel + 1, i, args => (charAt format i).bind fun c =>
    if c = 0 then some []
    else if c = 37 then (charAt format (i + 1)).bind fun c =>
      (convert (.ofChar c) args).bind fun (out, args) =>
        (printfLoop format fuel (i + 2) args).map (out ++ ·)
    else (printfLoop format fuel (i + 1) args).map (write [c] ++ ·)

/-- Every pass reads a character up to the NUL, so there are no more passes than these. -/
def printf (format : List UInt8) (args : List Arg) : Option (List TerminalOp) :=
  printfLoop format (format.length + 1) 0 args

/-! ### What is to be printed -/

/-- The shortest numeral. -/
def numeral (base n : Nat) : List UInt8 :=
  if n = 0 then [48] else ((Nat.digits base n).map digitChar).reverse

def signedNumeral (n : Int) : List UInt8 :=
  if n < 0 then 45 :: numeral 10 n.natAbs else numeral 10 n.natAbs

/-- What a conversion stands for, if the argument matches it: numerals, and otherwise what is
written. -/
def meaning : Conversion → List Arg → Option (List TerminalOp × List Arg)
  | .d, .word val :: args => some (write (signedNumeral val.toInt), args)
  | .u, .word val :: args => some (write (numeral 10 val.toNat), args)
  | .b, .word val :: args => some (write (numeral 2 val.toNat), args)
  | .o, .word val :: args => some (write (numeral 8 val.toNat), args)
  | conv, args => convert conv args

/-- The output for a format with matching arguments: literal characters and conversions, one
after the other. -/
inductive Renders : List UInt8 → List Arg → List TerminalOp → Prop
  | nil (args) : Renders [] args []
  | literal {c format args out} (hc : c ≠ 37) (h : Renders format args out) :
    Renders (c :: format) args (write [c] ++ out)
  | conversion {c format args shown rest out} (hc : meaning (.ofChar c) args = some (shown, rest))
    (h : Renders format rest out) : Renders (37 :: c :: format) args (shown ++ out)
  | lone (args) : Renders [37] args (write [37])

/-- The last character is a `%` that begins a conversion. -/
def endsInside : List UInt8 → Bool
  | [] => false
  | [c] => c = 37
  | c :: d :: rest => if c = 37 then endsInside rest else endsInside (d :: rest)

/-! ### Digits -/

theorem storeDigits_eq {base room value : Nat} (hbase : 1 < base) (h : value < base ^ room)
    (digits : List UInt8) : storeDigits base room value digits =
      some (((Nat.digits base value).map digitChar).reverse ++ digits) := by
  induction room generalizing value digits with
  | zero =>
    obtain rfl : value = 0 := by simpa using h
    simp [storeDigits]
  | succ room ih =>
    rw [storeDigits]
    split_ifs with hzero
    · simp [hzero]
    · have hrest : value / base < base ^ room :=
        Nat.div_lt_of_lt_mul (by rwa [pow_succ, Nat.mul_comm] at h)
      rw [ih hrest, Nat.digits_def' hbase (Nat.pos_of_ne_zero hzero)]
      simp

theorem writeDigits_eq {base room value : Nat} (hbase : 1 < base) (h : value < base ^ room) :
    writeDigits base room value = some (write (numeral base value)) := by
  unfold writeDigits numeral
  split_ifs
  · rfl
  · rw [storeDigits_eq hbase h, List.append_nil, Option.map_some]

theorem writeDec_eq (val : BitVec 64) : writeDec val.toNat = some (write (numeral 10 val.toNat)) :=
  writeDigits_eq (by decide) (val.isLt.trans (by decide))

theorem convert_signed (val : BitVec 64) (args : List Arg) :
    convert .d (.word val :: args) = some (write (signedNumeral val.toInt), args) := by
  have hlt := val.isLt
  have hint := BitVec.toInt_eq_toNat_cond val
  change (if _ then (writeDec _).map _ else (writeDec _).map _) = _
  rw [signedNumeral]
  split_ifs with hneg
  · have habs : (-val).toNat = val.toInt.natAbs := by
      rw [BitVec.toNat_neg]
      split_ifs at hint <;> omega
    rw [writeDec_eq, habs]
    rfl
  · have habs : val.toNat = val.toInt.natAbs := by
      split_ifs at hint <;> omega
    rw [writeDec_eq, ← habs]
    rfl

/-- The digits of every 64-bit number fit in the buffers. -/
theorem convert_eq (conv : Conversion) (args : List Arg) : convert conv args = meaning conv args := by
  unfold meaning
  split
  · exact convert_signed ..
  · change (writeDec _).map _ = _
    rw [writeDec_eq]
    rfl
  · change (writeDigits 2 64 _).map _ = _
    rw [writeDigits_eq (by decide) (BitVec.isLt _)]
    rfl
  · change (writeDigits 8 22 _).map _ = _
    rw [writeDigits_eq (by decide) ((BitVec.isLt _).trans (by decide))]
    rfl
  · rfl

/-! ### The scan -/

variable {format : List UInt8} {args : List Arg} {out : List TerminalOp}

theorem printfLoop_append (before format : List UInt8) (fuel i : Nat) (args : List Arg) :
    printfLoop (before ++ format) fuel (before.length + i) args = printfLoop format fuel i args := by
  have hchar : ∀ k, charAt (before ++ format) (before.length + k) = charAt format k := fun k => by
    rw [charAt, List.append_assoc, List.getElem?_append_right (by omega), Nat.add_sub_cancel_left]
    rfl
  induction fuel generalizing i args with
  | zero => rfl
  | succ fuel ih => simp only [printfLoop, Nat.add_assoc, hchar, ih]

/-- By induction on what is to be printed; the rest of a format is a format. -/
theorem printfLoop_eq {fuel : Nat} (hnul : 0 ∉ format) (h : Renders format args out)
    (hfuel : format.length < fuel) :
    printfLoop format fuel 0 args = if endsInside format then none else some out := by
  obtain ⟨fuel, rfl⟩ : ∃ n, fuel = n + 1 := Nat.exists_eq_succ_of_ne_zero (by omega)
  induction h generalizing fuel with
  | nil args => rfl
  | @literal c format args out hc h ih =>
    obtain ⟨hc0, hnul⟩ := not_or.mp (List.mem_cons.not.mp hnul)
    obtain ⟨fuel, rfl⟩ : ∃ n, fuel = n + 1 := Nat.exists_eq_succ_of_ne_zero (by simp at hfuel; omega)
    have hends : endsInside (c :: format) = endsInside format := by
      cases format <;> simp [endsInside, hc]
    have hrest : printfLoop (c :: format) (fuel + 1) 1 args = _ :=
      (printfLoop_append [c] format (fuel + 1) 0 args).trans (ih hnul fuel (by simp at hfuel; omega))
    rw [printfLoop, charAt, List.cons_append, List.getElem?_cons_zero, Option.bind_some,
      if_neg (Ne.symm hc0), if_neg hc, hrest, hends]
    split_ifs <;> rfl
  | @conversion c format args shown rest out hc h ih =>
    obtain ⟨fuel, rfl⟩ : ∃ n, fuel = n + 1 := Nat.exists_eq_succ_of_ne_zero (by simp at hfuel; omega)
    have hrest : printfLoop (37 :: c :: format) (fuel + 1) 2 rest = _ :=
      (printfLoop_append [37, c] format (fuel + 1) 0 rest).trans
        (ih (fun hmem => hnul (by simp [hmem])) fuel (by simp at hfuel; omega))
    rw [printfLoop]
    simp only [charAt, List.cons_append, List.getElem?_cons_zero, List.getElem?_cons_succ,
      Option.bind_some, Nat.zero_add]
    rw [if_neg (by decide), if_pos trivial, convert_eq, hc, Option.bind_some, hrest, endsInside, if_pos rfl]
    split_ifs <;> rfl
  | lone args =>
    -- the `NUL` is taken for a conversion, and the next index is behind it
    cases fuel <;> rfl

/-- **`printf` renders a format within its string.** With matching arguments the output is the
one that is to be printed, no digit leaves its buffer, and nothing is read behind the NUL, if
and only if the format does not end inside a conversion. -/
theorem printf_renders_iff (hnul : 0 ∉ format) (h : Renders format args out) :
    printf format args = some out ↔ endsInside format = false := by
  rw [printf, printfLoop_eq hnul h (Nat.lt_succ_self _)]
  cases endsInside format <;> simp

/-- The least `int64_t` with a label, `m=%d`. -/
theorem printf_least : printf [109, 61, 37, 100] [.word 0x8000000000000000#64] =
    some (write [109] ++ (write [61] ++ (write (signedNumeral (-2 ^ 63)) ++ []))) :=
  (printf_renders_iff (by decide) (.literal (by decide) (.literal (by decide)
    (.conversion (by decide) (.nil []))))).mpr (by decide)

/-- `100%` is read behind its end. -/
theorem not_printf_renders : Renders [49, 48, 48, 37] [] (write [49] ++ (write [48] ++ (write [48] ++
      write [37]))) ∧ printf [49, 48, 48, 37] [] = none :=
  ⟨.literal (by decide) (.literal (by decide) (.literal (by decide) (.lone _))), by decide⟩

end WengShiOS.Libc
