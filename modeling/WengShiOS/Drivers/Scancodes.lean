import Mathlib.Data.Finset.Insert
import Mathlib.Data.Finset.Erase
import WengShiOS.Drivers.Keyboard

/-! # Scancodes and held keys

What a decoder should do is told by the keys that are held: a key types its shifted
character if one of the two shift keys is down (`decode`). The driver keeps a single bit
instead, set by the press and cleared by the release of either shift. The two agree as long
as no shift key is released while the other one is held (`types_eq_decode`); after such a
release the driver types lower case although a shift key is still down
(`not_types_eq_decode`). -/

namespace WengShiOS.Drivers

open Keyboard

/-! ### Keys and their codes -/

/-- The code of an ordinary key. No key has the code `0x60`: its release would look like the
prefix `0xE0`. -/
abbrev OrdinaryCode : Type :=
  { c : UInt8 // c < 0x80 ∧ c ≠ 0x60 ∧ c ≠ scancodeLShiftDown ∧ c ≠ scancodeRShiftDown }

/-- The code of a key that comes after the prefix `0xE0`. -/
abbrev ExtendedCode : Type := { c : UInt8 // c < 0x80 ∧ c ≠ 0x60 }

inductive Key
  | ordinary (code : OrdinaryCode)
  | leftShift
  | rightShift
  | extended (code : ExtendedCode)
  deriving DecidableEq

inductive KeyEvent
  | press (key : Key)
  | release (key : Key)
  deriving DecidableEq

namespace Key

def lead : Key → List UInt8
  | .extended _ => [0xE0]
  | _ => []

def code : Key → UInt8
  | .ordinary code => code.1
  | .leftShift => scancodeLShiftDown
  | .rightShift => scancodeRShiftDown
  | .extended code => code.1

/-- The character that the key types. -/
def char (shift : Bool) : Key → Option UInt8
  | .ordinary code =>
    let c := (if shift then scancodeAsciiShift else scancodeAscii).getD code.1.toNat 0
    if c = 0 then none else some c
  | .extended code => extendedKey code.1
  | _ => none

end Key

/-- A shift key is among the keys that are held. -/
def shifted (held : Finset Key) : Bool := .leftShift ∈ held ∨ .rightShift ∈ held

namespace KeyEvent

/-- What the keyboard sends. -/
def bytes : KeyEvent → List UInt8
  | .press key => key.lead ++ [key.code]
  | .release key => key.lead ++ [key.code ||| scancodeReleaseBit]

/-- The keys that are held after the event. -/
def heldAfter (held : Finset Key) : KeyEvent → Finset Key
  | .press key => insert key held
  | .release key => held.erase key

/-- What is typed if the keys `held` are down. -/
def chars (held : Finset Key) : KeyEvent → List UInt8
  | .press key => (key.char (shifted held)).toList
  | .release _ => []

/-- Not the release of a shift key while the other one is held. -/
def Apart (held : Finset Key) (e : KeyEvent) : Prop :=
  (e = .release .leftShift → .rightShift ∉ held) ∧ (e = .release .rightShift → .leftShift ∉ held)

end KeyEvent

/-! ### The two decoders -/

/-- The characters that are typed, by the keys that are held. -/
def decode (held : Finset Key) : List KeyEvent → List UInt8
  | [] => []
  | e :: rest => e.chars held ++ decode (e.heldAfter held) rest

/-- No shift key is released while the other one is held. -/
def ShiftsApart (held : Finset Key) : List KeyEvent → Prop
  | [] => True
  | e :: rest => e.Apart held ∧ ShiftsApart (e.heldAfter held) rest

open KeyEvent Key

namespace Keyboard

variable {k : Keyboard} {held : Finset Key} {e : KeyEvent}

/-- The driver after some interrupts. -/
def interrupts (k : Keyboard) (scancodes : List UInt8) : Keyboard :=
  scancodes.foldl (fun k scancode => (k.onIRQ scancode).1) k

/-- The characters that the driver passes to `pushChar`, one interrupt after the other. -/
def types (k : Keyboard) : List UInt8 → List UInt8
  | [] => []
  | scancode :: rest => (k.typed scancode).toList ++ (k.onIRQ scancode).1.types rest

theorem types_append (k : Keyboard) (before after : List UInt8) :
    k.types (before ++ after) = k.types before ++ (k.interrupts before).types after := by
  induction before generalizing k with
  | nil => rfl
  | cons scancode before ih =>
    rw [List.cons_append, types, types, ih, List.append_assoc]
    rfl

/-! ### Codes -/

variable {c : UInt8}

theorem code_eq_ofNat (hc : c < 0x80) : ∃ n < 128, UInt8.ofNat n = c :=
  ⟨c.toNat, UInt8.lt_iff_toNat_lt.mp hc, by simp⟩

/-- A press is no release. -/
theorem press_code (hc : c < 0x80) :
    c ≠ 0xE0 ∧ c ≠ scancodeLShiftUp ∧ c ≠ scancodeRShiftUp ∧ c &&& scancodeReleaseBit = 0 ∧
      ¬ 128 ≤ c := by
  obtain ⟨n, hn, rfl⟩ := code_eq_ofNat hc
  revert n
  decide

/-- A release tells the key. -/
theorem release_code (hc : c < 0x80) :
    (c ||| scancodeReleaseBit = 0xE0 → c = 0x60) ∧
    (c ||| scancodeReleaseBit = scancodeLShiftUp → c = scancodeLShiftDown) ∧
    (c ||| scancodeReleaseBit = scancodeRShiftUp → c = scancodeRShiftDown) ∧
    c ||| scancodeReleaseBit ≠ scancodeLShiftDown ∧
    c ||| scancodeReleaseBit ≠ scancodeRShiftDown ∧
    (c ||| scancodeReleaseBit) &&& scancodeReleaseBit ≠ 0 := by
  obtain ⟨n, hn, rfl⟩ := code_eq_ofNat hc
  revert n
  decide

/-! ### One event -/

/-- The driver is between two codes, and its bit says whether a shift key is held. -/
structure Follows (k : Keyboard) (held : Finset Key) : Prop where
  extended : k.extended = false
  shift : k.shiftPressed = shifted held

/-- The driver types what it should type, and is then between two codes again. -/
structure Decodes (k : Keyboard) (held : Finset Key) (e : KeyEvent) : Prop where
  types : k.types e.bytes = e.chars held
  follows : (k.interrupts e.bytes).Follows (e.heldAfter held)

theorem onIRQ_extended (k : Keyboard) (scancode : UInt8) :
    (k.onIRQ scancode).1.extended = decide (scancode = 0xE0) := by
  rw [onIRQ_eq]

theorem onIRQ_shiftPressed (k : Keyboard) (scancode : UInt8) :
    (k.onIRQ scancode).1.shiftPressed = k.nextShift scancode := by
  rw [onIRQ_eq]

/-- An interrupt after which the driver is between two codes. -/
theorem follows_onIRQ {scancode : UInt8} (hne : scancode ≠ 0xE0)
    (hshift : k.nextShift scancode = shifted held) : (k.onIRQ scancode).1.Follows held := by
  refine ⟨?_, ?_⟩
  · rw [onIRQ_extended, decide_eq_false hne]
  · rw [onIRQ_shiftPressed, hshift]

section

variable (h : k.Follows held)
include h

theorem Follows.press_ordinary (code : OrdinaryCode) :
    k.Decodes held (.press (.ordinary code)) := by
  obtain ⟨c, hc, h60, hl, hr⟩ := code
  obtain ⟨hescape, hlup, hrup, hbit, hhigh⟩ := press_code hc
  constructor
  · simp [types, bytes, chars, lead, code, char, typed, hescape,
      h.extended, hl, hr, hlup, hrup, hbit, hhigh, ordinaryChar, h.shift]
  · apply follows_onIRQ hescape
    have hkeys : shifted (heldAfter held (.press (.ordinary ⟨c, hc, h60, hl, hr⟩))) =
        shifted held := by simp [heldAfter, shifted]
    rw [hkeys, ← h.shift]
    simp [nextShift, hl, hr, hlup, hrup]

theorem Follows.release_ordinary (code : OrdinaryCode) :
    k.Decodes held (.release (.ordinary code)) := by
  obtain ⟨c, hc, h60, hl, hr⟩ := code
  obtain ⟨hescape, hlup, hrup, hldown, hrdown, hbit⟩ := release_code hc
  replace hescape := mt hescape h60
  constructor
  · simp [types, bytes, chars, lead, code, typed, hescape, h.extended,
      mt hlup hl, mt hrup hr, hldown, hrdown, hbit]
  · apply follows_onIRQ hescape
    have hkeys : shifted (heldAfter held (.release (.ordinary ⟨c, hc, h60, hl, hr⟩))) =
        shifted held := by simp [heldAfter, shifted]
    rw [hkeys, ← h.shift]
    simp [nextShift, mt hlup hl, mt hrup hr, hldown, hrdown]

/-- The code after the prefix goes to the table of the arrow keys, and the shift bit stays. -/
theorem Follows.prefixed (hc : c ≠ 0xE0) :
    k.types [0xE0, c] =
        (if c &&& scancodeReleaseBit ≠ 0 then none else extendedKey c).toList ∧
      (k.interrupts [0xE0, c]).Follows held := by
  have hext : (k.onIRQ 0xE0).1.extended = true := by rw [onIRQ_extended, decide_eq_true rfl]
  have hshift : (k.onIRQ 0xE0).1.shiftPressed = shifted held := by
    rw [onIRQ_shiftPressed, nextShift, if_pos (.inl rfl), h.shift]
  constructor
  · have hnone : k.typed 0xE0 = none := if_pos rfl
    have hkey : (k.onIRQ 0xE0).1.typed c =
        if c &&& scancodeReleaseBit ≠ 0 then none else extendedKey c := by
      rw [typed, if_neg hc, if_pos hext]
    simp only [types, hnone, hkey, Option.toList_none, List.nil_append, List.append_nil]
  · apply follows_onIRQ hc
    rw [nextShift, if_pos (.inr hext), hshift]

theorem Follows.press_extended (code : ExtendedCode) :
    k.Decodes held (.press (.extended code)) := by
  obtain ⟨c, hc, -⟩ := code
  obtain ⟨hescape, -, -, hbit, -⟩ := press_code hc
  obtain ⟨htypes, hfollows⟩ := h.prefixed hescape
  refine ⟨?_, hfollows.extended, ?_⟩
  · exact htypes.trans (by simp [hbit, chars, char])
  · exact hfollows.shift.trans (by simp [heldAfter, shifted])

theorem Follows.release_extended (code : ExtendedCode) :
    k.Decodes held (.release (.extended code)) := by
  obtain ⟨c, hc, h60⟩ := code
  obtain ⟨hescape, -, -, -, -, hbit⟩ := release_code hc
  obtain ⟨htypes, hfollows⟩ := h.prefixed (mt hescape h60)
  refine ⟨?_, hfollows.extended, ?_⟩
  · exact htypes.trans (by simp [hbit, chars])
  · exact hfollows.shift.trans (by simp [heldAfter, shifted])

/-- A press of a shift key sets the bit. -/
theorem Follows.press_shift {key : Key} (hkey : key = .leftShift ∨ key = .rightShift) :
    k.Decodes held (.press key) := by
  rcases hkey with rfl | rfl <;> constructor
  · simp [types, bytes, chars, lead, code, char, typed, h.extended]
  · apply follows_onIRQ (by decide)
    simp [nextShift, h.extended, heldAfter, shifted, code, scancodeLShiftDown]
  · simp [types, bytes, chars, lead, code, char, typed, h.extended]
  · apply follows_onIRQ (by decide)
    simp [nextShift, h.extended, heldAfter, shifted, code, scancodeRShiftDown]

theorem Follows.nextShift_release {scancode : UInt8}
    (hup : scancode = scancodeLShiftUp ∨ scancode = scancodeRShiftUp) :
    k.nextShift scancode = false := by
  have hescape : ¬ (scancode = 0xE0 ∨ k.extended = true) := by
    rw [h.extended]
    rcases hup with rfl | rfl <;> decide
  have hdown : ¬ (scancode = scancodeLShiftDown ∨ scancode = scancodeRShiftDown) := by
    rcases hup with rfl | rfl <;> decide
  rw [nextShift, if_neg hescape, if_neg hdown, if_pos hup]

/-- A release of a shift key clears the bit, which is right if the other one is up. -/
theorem Follows.release_shift {key : Key} (hkey : key = .leftShift ∨ key = .rightShift)
    (hapart : Apart held (.release key)) : k.Decodes held (.release key) := by
  have hl : scancodeLShiftDown ||| scancodeReleaseBit = scancodeLShiftUp := by decide
  have hr : scancodeRShiftDown ||| scancodeReleaseBit = scancodeRShiftUp := by decide
  rcases hkey with rfl | rfl <;> constructor
  · simp [types, bytes, chars, lead, code, typed, h.extended, hl]
  · apply follows_onIRQ (by decide)
    rw [code, hl, h.nextShift_release (.inl rfl)]
    simp [heldAfter, shifted, hapart.1 rfl]
  · simp [types, bytes, chars, lead, code, typed, h.extended, hr]
  · apply follows_onIRQ (by decide)
    rw [code, hr, h.nextShift_release (.inr rfl)]
    simp [heldAfter, shifted, hapart.2 rfl]

theorem Follows.decodes (hapart : e.Apart held) : k.Decodes held e := by
  cases e with
  | press key =>
    cases key with
    | ordinary code => exact h.press_ordinary code
    | leftShift => exact h.press_shift (.inl rfl)
    | rightShift => exact h.press_shift (.inr rfl)
    | extended code => exact h.press_extended code
  | release key =>
    cases key with
    | ordinary code => exact h.release_ordinary code
    | leftShift => exact h.release_shift (.inl rfl) hapart
    | rightShift => exact h.release_shift (.inr rfl) hapart
    | extended code => exact h.release_extended code

/-! ### Sequences -/

theorem Follows.types {events : List KeyEvent} (hapart : ShiftsApart held events) :
    k.types (events.flatMap bytes) = decode held events := by
  induction events generalizing k held with
  | nil => rfl
  | cons e events ih =>
    have hstep := h.decodes hapart.1
    rw [List.flatMap_cons, types_append, hstep.types, ih hstep.follows hapart.2, decode]

end

end Keyboard

/-- **Decoding.** After `Keyboard::init`, if no shift key is released while the other one is
held, the driver types what the held keys say. -/
theorem types_eq_decode (k : Keyboard) (events : List KeyEvent) (h : ShiftsApart ∅ events) :
    k.init.types (events.flatMap KeyEvent.bytes) = decode ∅ events :=
  Keyboard.Follows.types ⟨rfl, by simp [shifted, Keyboard.init]⟩ h

/-- The key `a`. -/
def keyA : Key := .ordinary ⟨0x1E, by decide⟩

/-- One shift key after the other, with a key before, between and after. -/
def shiftsInTurn : List KeyEvent :=
  [.press keyA, .press .leftShift, .press keyA, .release .leftShift, .press .rightShift,
   .release keyA, .press keyA, .release .rightShift, .press keyA]

theorem shiftsInTurn_types : ShiftsApart ∅ shiftsInTurn ∧
    Keyboard.resting.init.types (shiftsInTurn.flatMap KeyEvent.bytes) = decode ∅ shiftsInTurn ∧
    decode ∅ shiftsInTurn = [97, 65, 65, 97] := by
  have h : ShiftsApart ∅ shiftsInTurn := by
    simp [shiftsInTurn, ShiftsApart, Apart, heldAfter, keyA]
  exact ⟨h, types_eq_decode Keyboard.resting _ h, by decide⟩

/-- Both shift keys are pressed and one of them is released. -/
def shiftsTogether : List KeyEvent :=
  [.press .leftShift, .press .rightShift, .release .rightShift, .press keyA]

/-- With the left shift key held the driver types `a`, where `A` is right. -/
theorem not_types_eq_decode :
    ¬ ∀ (k : Keyboard) (events : List KeyEvent),
      k.init.types (events.flatMap KeyEvent.bytes) = decode ∅ events := by
  intro h
  have hdriver : Keyboard.resting.init.types (shiftsTogether.flatMap bytes) = [97] := by
    decide
  have hkeys : decode ∅ shiftsTogether = [65] := by decide
  have := (hdriver.symm.trans (h Keyboard.resting shiftsTogether)).trans hkeys
  exact absurd this (by decide)

end WengShiOS.Drivers
