import Mathlib.Logic.Function.Basic
import Mathlib.Tactic.SplitIfs

/-! # The keyboard driver

`src/drivers/keyboard/keyboard.cpp`: a 256-byte ring buffer filled by the IRQ
handler from scancodes and emptied by readers, the id of the task that has the
focus, and the one-shot callback the handler calls after an ordinary key. -/

namespace WengShiOS.Drivers

/-- The functions ever installed as `g_on_char_callback`. -/
inductive WakeCallback
  | wakeStdinReader
  deriving DecidableEq, Repr

/-- The globals of the driver. -/
structure Keyboard where
  buffer : Nat → UInt8
  head : Nat
  tail : Nat
  shiftPressed : Bool
  extended : Bool
  focusedTaskId : Nat
  onCharCallback : Option WakeCallback

namespace Keyboard

def bufferSize : Nat := 256

def keyUp : UInt8 := 0x80
def keyDown : UInt8 := 0x81
def keyLeft : UInt8 := 0x82
def keyRight : UInt8 := 0x83

def scancodeLShiftDown : UInt8 := 0x2A
def scancodeRShiftDown : UInt8 := 0x36
def scancodeLShiftUp : UInt8 := 0xAA
def scancodeRShiftUp : UInt8 := 0xB6
def scancodeReleaseBit : UInt8 := 0x80
def scancodeExtUp : UInt8 := 0x48
def scancodeExtDown : UInt8 := 0x50
def scancodeExtLeft : UInt8 := 0x4B
def scancodeExtRight : UInt8 := 0x4D

/-- `scancode_ascii`; the entries past the initialiser are zero. -/
def scancodeAscii : List UInt8 :=
  [0, 27, 49, 50, 51, 52, 53, 54, 55, 56, 57, 48, 45, 61, 8,
   9, 113, 119, 101, 114, 116, 121, 117, 105, 111, 112, 91, 93, 10,
   0, 97, 115, 100, 102, 103, 104, 106, 107, 108, 59, 39, 96,
   0, 92, 122, 120, 99, 118, 98, 110, 109, 44, 46, 47, 0,
   42, 0, 32, 0]

/-- `scancode_ascii_shift`. -/
def scancodeAsciiShift : List UInt8 :=
  [0, 27, 33, 64, 35, 36, 37, 94, 38, 42, 40, 41, 95, 43, 8,
   9, 81, 87, 69, 82, 84, 89, 85, 73, 79, 80, 123, 125, 10,
   0, 65, 83, 68, 70, 71, 72, 74, 75, 76, 58, 34, 126,
   0, 124, 90, 88, 67, 86, 66, 78, 77, 60, 62, 63, 0,
   42, 0, 32, 0]

/-- A full buffer (255 characters pending) drops the character. -/
def pushChar (k : Keyboard) (c : UInt8) : Keyboard :=
  let next := (k.head + 1) % bufferSize
  if next = k.tail then k
  else { k with buffer := Function.update k.buffer k.head c, head := next }

def setFocus (k : Keyboard) (taskId : Nat) : Keyboard :=
  { k with focusedTaskId := taskId }

def getFocus (k : Keyboard) : Nat := k.focusedTaskId

/-- `currentId` is the id of `Scheduler::currentTask()`, if there is one. -/
def callerIsFocused (k : Keyboard) (currentId : Option Nat) : Bool :=
  if k.focusedTaskId = 0 then true else currentId = some k.focusedTaskId

def setOnCharCallback (k : Keyboard) (cb : WakeCallback) : Keyboard :=
  { k with onCharCallback := some cb }

def init (k : Keyboard) : Keyboard :=
  { k with head := 0, tail := 0, shiftPressed := false, extended := false }

/-- The character pushed for an extended make code, if any. -/
def extendedKey (scancode : UInt8) : Option UInt8 :=
  if scancode = scancodeExtUp then some keyUp
  else if scancode = scancodeExtDown then some keyDown
  else if scancode = scancodeExtLeft then some keyLeft
  else if scancode = scancodeExtRight then some keyRight
  else none

/-- The character of an ordinary make code; 0 when the key has none. -/
def ordinaryChar (k : Keyboard) (scancode : UInt8) : UInt8 :=
  (if k.shiftPressed then scancodeAsciiShift else scancodeAscii).getD scancode.toNat 0

/-- One keyboard interrupt. The second component is the callback the handler
takes out of its slot and calls before it returns. -/
def onIRQ (k : Keyboard) (scancode : UInt8) : Keyboard × Option WakeCallback :=
  if scancode = 0xE0 then ({ k with extended := true }, none)
  else if k.extended then
    let k := { k with extended := false }
    if scancode &&& scancodeReleaseBit ≠ 0 then (k, none)
    else
      -- the extended path pushes the key and returns without the callback
      match extendedKey scancode with
      | some c => (k.pushChar c, none)
      | none => (k, none)
  else if scancode = scancodeLShiftDown ∨ scancode = scancodeRShiftDown then
    ({ k with shiftPressed := true }, none)
  else if scancode = scancodeLShiftUp ∨ scancode = scancodeRShiftUp then
    ({ k with shiftPressed := false }, none)
  else if scancode &&& scancodeReleaseBit ≠ 0 then (k, none)
  else if 128 ≤ scancode then (k, none)
  else
    let c := k.ordinaryChar scancode
    if c = 0 then (k, none)
    else
      let k := k.pushChar c
      ({ k with onCharCallback := none }, k.onCharCallback)

def hasChar (k : Keyboard) (currentId : Option Nat) : Bool :=
  k.head ≠ k.tail && k.callerIsFocused currentId

/-- The character read and the buffer after it; 0 when there is none to read. -/
def getChar (k : Keyboard) (currentId : Option Nat) : UInt8 × Keyboard :=
  if k.head = k.tail ∨ k.callerIsFocused currentId = false then (0, k)
  else (k.buffer k.tail, { k with tail := (k.tail + 1) % bufferSize })

/-- Nothing in the buffer, no key held, and no task with the focus. -/
def resting : Keyboard := ⟨fun _ => 0, 0, 0, false, false, 0, none⟩

/-! ### What an interrupt changes -/

/-- The interrupt takes the extended path and pushes an arrow key. -/
def TypesArrow (k : Keyboard) (scancode : UInt8) : Prop :=
  scancode ≠ 0xE0 ∧ k.extended = true ∧ (extendedKey scancode).isSome

/-- The interrupt pushes the character of an ordinary key. -/
def TypesChar (k : Keyboard) (scancode : UInt8) : Prop :=
  scancode ≠ 0xE0 ∧ k.extended = false ∧ k.ordinaryChar scancode ≠ 0

instance (k : Keyboard) (scancode : UInt8) : Decidable (k.TypesArrow scancode) := by
  unfold TypesArrow
  infer_instance

instance (k : Keyboard) (scancode : UInt8) : Decidable (k.TypesChar scancode) := by
  unfold TypesChar
  infer_instance

/-- `k'` has the buffer, the focus and the callback of `k`. -/
structure SameInput (k k' : Keyboard) : Prop where
  head : k'.head = k.head
  tail : k'.tail = k.tail
  focus : k'.focusedTaskId = k.focusedTaskId
  callback : k'.onCharCallback = k.onCharCallback

theorem pushChar_focus (k : Keyboard) (c : UInt8) :
    (k.pushChar c).focusedTaskId = k.focusedTaskId := by
  unfold pushChar
  dsimp only
  split <;> rfl

theorem pushChar_callback (k : Keyboard) (c : UInt8) :
    (k.pushChar c).onCharCallback = k.onCharCallback := by
  unfold pushChar
  dsimp only
  split <;> rfl

/-- Reading a character moves the tail of a buffer that is not empty. -/
theorem getChar_cases (k : Keyboard) (currentId : Option Nat) :
    (k.getChar currentId).2.head = k.head ∧
      (k.getChar currentId).2.focusedTaskId = k.focusedTaskId ∧
      (k.getChar currentId).2.onCharCallback = k.onCharCallback ∧
      ((k.getChar currentId).2.tail = k.tail ∨ k.head ≠ k.tail) := by
  unfold getChar
  split_ifs with h
  · exact ⟨rfl, rfl, rfl, .inl rfl⟩
  · exact ⟨rfl, rfl, rfl, .inr fun hempty => h (.inl hempty)⟩

/-- An interrupt pushes nothing, or an arrow key without the callback, or the
character of an ordinary key followed by the callback. -/
theorem onIRQ_cases (k : Keyboard) (scancode : UInt8) :
    (SameInput k (k.onIRQ scancode).1 ∧ (k.onIRQ scancode).2 = none) ∨
    (k.TypesArrow scancode ∧ (k.onIRQ scancode).2 = none ∧
      (k.onIRQ scancode).1.focusedTaskId = k.focusedTaskId ∧
      (k.onIRQ scancode).1.onCharCallback = k.onCharCallback) ∨
    (k.TypesChar scancode ∧ (k.onIRQ scancode).2 = k.onCharCallback ∧
      (k.onIRQ scancode).1.focusedTaskId = k.focusedTaskId ∧
      (k.onIRQ scancode).1.onCharCallback = none) := by
  have same : ∀ b b' : Bool, SameInput k { k with extended := b, shiftPressed := b' } :=
    fun _ _ => ⟨rfl, rfl, rfl, rfl⟩
  unfold onIRQ
  split_ifs with hext hextended hrelease hdown hup hrelease' hhigh
  · exact .inl ⟨same _ _, rfl⟩
  · exact .inl ⟨same _ _, rfl⟩
  · split
    · next c hc =>
      exact .inr (.inl ⟨⟨hext, hextended, by simp [hc]⟩, rfl, pushChar_focus _ c, pushChar_callback _ c⟩)
    · exact .inl ⟨same _ _, rfl⟩
  · exact .inl ⟨same _ _, rfl⟩
  · exact .inl ⟨same _ _, rfl⟩
  · exact .inl ⟨same _ _, rfl⟩
  · exact .inl ⟨same _ _, rfl⟩
  · dsimp only
    split_ifs with hc
    · exact .inl ⟨same _ _, rfl⟩
    · exact .inr (.inr ⟨⟨hext, by simpa using hextended, hc⟩, pushChar_callback _ _,
        pushChar_focus _ _, rfl⟩)

/-! ### What an interrupt types -/

/-- The character that the interrupt passes to `pushChar`, if any. -/
def typed (k : Keyboard) (scancode : UInt8) : Option UInt8 :=
  if scancode = 0xE0 then none
  else if k.extended then
    if scancode &&& scancodeReleaseBit ≠ 0 then none else extendedKey scancode
  else if scancode = scancodeLShiftDown ∨ scancode = scancodeRShiftDown then none
  else if scancode = scancodeLShiftUp ∨ scancode = scancodeRShiftUp then none
  else if scancode &&& scancodeReleaseBit ≠ 0 ∨ 128 ≤ scancode then none
  else if k.ordinaryChar scancode = 0 then none
  else some (k.ordinaryChar scancode)

/-- `g_shift_pressed` after the interrupt. -/
def nextShift (k : Keyboard) (scancode : UInt8) : Bool :=
  if scancode = 0xE0 ∨ k.extended = true then k.shiftPressed
  else if scancode = scancodeLShiftDown ∨ scancode = scancodeRShiftDown then true
  else if scancode = scancodeLShiftUp ∨ scancode = scancodeRShiftUp then false
  else k.shiftPressed

/-- The buffer after the interrupt. -/
def pushTyped (k : Keyboard) (scancode : UInt8) : Keyboard :=
  match k.typed scancode with
  | some c => k.pushChar c
  | none => k

/-- The flags of the decoder do not matter to the buffer. -/
theorem pushChar_extended (k : Keyboard) (b : Bool) (c : UInt8) :
    { k with extended := b }.pushChar c = { k.pushChar c with extended := b } := by
  simp only [pushChar]
  split_ifs <;> rfl

theorem pushChar_flags (k : Keyboard) (c : UInt8) :
    (k.pushChar c).shiftPressed = k.shiftPressed ∧ (k.pushChar c).extended = k.extended := by
  simp only [pushChar]
  split_ifs <;> exact ⟨rfl, rfl⟩

/-- **One interrupt.** The typed character goes into the buffer, and the two flags follow
the scancode. -/
theorem onIRQ_eq (k : Keyboard) (scancode : UInt8) :
    (k.onIRQ scancode).1 =
      { k.pushTyped scancode with
        shiftPressed := k.nextShift scancode
        extended := decide (scancode = 0xE0)
        onCharCallback := (k.onIRQ scancode).1.onCharCallback } := by
  unfold onIRQ pushTyped typed nextShift
  by_cases hescape : scancode = 0xE0
  · simp [hescape]
  · by_cases hext : k.extended = true
    · by_cases hrelease : scancode &&& scancodeReleaseBit ≠ 0
      · simp [hescape, hext, hrelease]
      · cases extendedKey scancode with
        | none => simp [hescape, hext, hrelease]
        | some c =>
          have hshift := (pushChar_flags k c).1
          simp [hescape, hext, hrelease, pushChar_extended, hshift]
    · have hoff : k.extended = false := by simpa using hext
      have same : k = { k with extended := false } := by rw [← hoff]
      by_cases hdown : scancode = scancodeLShiftDown ∨ scancode = scancodeRShiftDown
      · simp [hescape, hext, hdown]
      by_cases hup : scancode = scancodeLShiftUp ∨ scancode = scancodeRShiftUp
      · simp [hescape, hext, hdown, hup]
      by_cases hrelease : scancode &&& scancodeReleaseBit ≠ 0
      · simpa [hescape, hext, hdown, hup, hrelease] using same
      by_cases hhigh : 128 ≤ scancode
      · simpa [hescape, hext, hdown, hup, hrelease, hhigh] using same
      by_cases hchar : k.ordinaryChar scancode = 0
      · simpa [hescape, hext, hdown, hup, hrelease, hhigh, hchar] using same
      · obtain ⟨hshift, hextended⟩ := pushChar_flags k (k.ordinaryChar scancode)
        simp [hescape, hext, hdown, hup, hrelease, hhigh, hchar, hshift, hextended]

end Keyboard

end WengShiOS.Drivers
