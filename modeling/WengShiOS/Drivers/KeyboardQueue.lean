import WengShiOS.Drivers.Keyboard
import WengShiOS.Math.RingQueue
import WengShiOS.Math.Transition

/-! # The keyboard buffer is a queue

Interrupts and the calls of readers come in any order, and the focus moves between the
tasks. Whatever they do, the characters that were read are those that `pushChar` accepted,
in the same order, and what was accepted and not yet read is in the buffer
(`keyboard_fifo`). -/

namespace WengShiOS.Drivers

open Math RingQueue

namespace Keyboard

variable {k : Keyboard} {c scancode : UInt8} {caller : Option Nat}

/-- The characters that were pushed and not yet read, the oldest first. -/
def pending (k : Keyboard) : List UInt8 :=
  RingQueue.contents k.buffer bufferSize k.head k.tail

/-- The positions are inside the buffer. No character in it is 0, which is what `getChar`
returns if there is none. -/
structure Valid (k : Keyboard) : Prop where
  head : k.head < bufferSize
  tail : k.tail < bufferSize
  chars : ∀ c ∈ k.pending, c ≠ 0

/-- The test of `pushChar`. -/
def full (k : Keyboard) : Bool := (k.head + 1) % bufferSize = k.tail

theorem pushChar_of_full (h : k.full = true) (c : UInt8) : k.pushChar c = k :=
  if_pos (by simpa [full] using h)

theorem pushChar_of_room (h : k.full = false) (c : UInt8) : k.pushChar c =
    { k with buffer := Function.update k.buffer k.head c, head := (k.head + 1) % bufferSize } :=
  if_neg (by simpa [full] using h)

theorem Valid.full_iff (h : k.Valid) : k.full = true ↔ k.pending.length = 255 := by
  rw [full, decide_eq_true_iff, RingQueue.full_iff h.head h.tail, pending,
    length_contents]
  rfl

theorem Valid.pending_pushChar (h : k.Valid) (hroom : k.full = false) (c : UInt8) :
    (k.pushChar c).pending = k.pending ++ [c] := by
  rw [pushChar_of_room hroom]
  exact contents_push h.head h.tail (by simpa [full] using hroom) c

theorem Valid.pushChar (h : k.Valid) (hc : c ≠ 0) : (k.pushChar c).Valid := by
  cases hfull : k.full with
  | true => rwa [pushChar_of_full hfull]
  | false =>
    have hpending := h.pending_pushChar hfull c
    have hroom := pushChar_of_room hfull c
    refine ⟨?_, ?_, fun d hd => ?_⟩
    · rw [hroom]
      exact Nat.mod_lt _ (by decide)
    · rw [hroom]
      exact h.tail
    · rw [hpending] at hd
      rcases List.mem_append.mp hd with hold | hnew
      · exact h.chars d hold
      · rwa [List.mem_singleton.mp hnew]

/-- A rejected character leaves no trace, and an accepted one does. -/
theorem Valid.pushChar_eq_self_iff (h : k.Valid) (c : UInt8) :
    k.pushChar c = k ↔ k.pending.length = 255 := by
  rw [← h.full_iff]
  refine ⟨fun heq => ?_, fun hfull => pushChar_of_full hfull c⟩
  by_contra hroom
  have hpending := h.pending_pushChar (by simpa using hroom) c
  rw [heq] at hpending
  exact absurd (congrArg List.length hpending) (by simp)

theorem extendedKey_ne_zero (h : extendedKey scancode = some c) : c ≠ 0 := by
  unfold extendedKey at h
  split_ifs at h <;> obtain rfl := Option.some.inj h <;> decide

theorem typed_ne_zero (h : k.typed scancode = some c) : c ≠ 0 := by
  unfold typed at h
  split_ifs at h with _ _ _ _ _ _ hchar
  · exact extendedKey_ne_zero h
  · cases h
    exact hchar

/-- `getChar` takes the oldest character, if there is one and the caller has the focus. -/
theorem Valid.getChar_cases (h : k.Valid) (caller : Option Nat) :
    (k.hasChar caller = false ∧ k.getChar caller = (0, k)) ∨
    (k.hasChar caller = true ∧ k.pending = (k.getChar caller).1 :: (k.getChar caller).2.pending ∧
      (k.getChar caller).2 = { k with tail := (k.tail + 1) % bufferSize }) := by
  by_cases hstop : k.head = k.tail ∨ k.callerIsFocused caller = false
  · refine .inl ⟨?_, if_pos hstop⟩
    rcases hstop with hempty | hfocus
    · simp [hasChar, hempty]
    · simp [hasChar, hfocus]
  · obtain ⟨hne, hfocus⟩ := not_or.mp hstop
    rw [getChar, if_neg hstop]
    refine .inr ⟨?_, contents_pop h.head h.tail hne, rfl⟩
    simpa [hasChar, hne] using hfocus

end Keyboard

/-! ### All interleavings -/

/-- A call of one of the driver's functions; `caller` is the id of the task that calls. -/
inductive KeyboardAction
  | onIRQ (scancode : UInt8)
  | hasChar (caller : Option Nat)
  | getChar (caller : Option Nat)
  | setFocus (taskId : Nat)
  | setOnCharCallback (cb : WakeCallback)

/-- The driver with its history: the characters that `pushChar` accepted and those that
successful calls of `getChar` returned. -/
structure KeyboardRun where
  keyboard : Keyboard
  accepted : List UInt8
  returned : List UInt8

namespace KeyboardRun

open Keyboard

/-- A character is accepted unless the buffer is full. -/
def accept (s : KeyboardRun) (c : Option UInt8) : List UInt8 :=
  match c with
  | some c => if s.keyboard.full then s.accepted else s.accepted ++ [c]
  | none => s.accepted

def next (s : KeyboardRun) : KeyboardAction → Option KeyboardRun
  | .onIRQ scancode => some { s with
      keyboard := (s.keyboard.onIRQ scancode).1
      accepted := s.accept (s.keyboard.typed scancode) }
  | .hasChar _ => some s
  | .getChar caller =>
    let (c, keyboard) := s.keyboard.getChar caller
    some { s with keyboard, returned := if c = 0 then s.returned else s.returned ++ [c] }
  | .setFocus taskId => some { s with keyboard := s.keyboard.setFocus taskId }
  | .setOnCharCallback cb => some { s with keyboard := s.keyboard.setOnCharCallback cb }

end KeyboardRun

/-- All runs after `Keyboard::init`. -/
def keyboardSystem : System KeyboardRun KeyboardAction :=
  .ofNext KeyboardRun.next fun s =>
    (∃ k : Keyboard, s.keyboard = k.init) ∧ s.accepted = [] ∧ s.returned = []

namespace KeyboardRun

open Keyboard

variable {s s' : KeyboardRun} {a : KeyboardAction}

/-- A bounded queue. -/
structure Fifo (s : KeyboardRun) : Prop where
  /-- characters are read in the order in which they were accepted, each one once -/
  order : s.accepted = s.returned ++ s.keyboard.pending
  rejected : ∀ c, s.keyboard.pushChar c = s.keyboard ↔ s.keyboard.pending.length = 255
  pushed : ∀ c, s.keyboard.pending.length ≠ 255 →
    (s.keyboard.pushChar c).pending = s.keyboard.pending ++ [c]
  hasChar : ∀ caller, s.keyboard.hasChar caller = true ↔ (s.keyboard.getChar caller).1 ≠ 0
  unfocused : ∀ caller, s.keyboard.callerIsFocused caller = false →
    s.keyboard.getChar caller = (0, s.keyboard)

/-- What every call keeps. -/
structure Inv (s : KeyboardRun) : Prop where
  valid : s.keyboard.Valid
  order : s.accepted = s.returned ++ s.keyboard.pending

theorem Inv.fifo (inv : s.Inv) : s.Fifo where
  order := inv.order
  rejected := inv.valid.pushChar_eq_self_iff
  pushed c hroom := by
    apply inv.valid.pending_pushChar
    rwa [Ne, ← inv.valid.full_iff, Bool.not_eq_true] at hroom
  hasChar caller := by
    rcases inv.valid.getChar_cases caller with ⟨hno, hget⟩ | ⟨hyes, hpending, -⟩
    · simp [hno, hget]
    · have hmem : (s.keyboard.getChar caller).1 ∈ s.keyboard.pending := by simp [hpending]
      simpa [hyes] using inv.valid.chars _ hmem
  unfocused caller hfocus := if_pos (.inr hfocus)

/-- The flags, the focus and the callback may change as they like. -/
theorem Inv.of_buffer {k : Keyboard} (inv : s.Inv) (buffer : k.buffer = s.keyboard.buffer)
    (head : k.head = s.keyboard.head) (tail : k.tail = s.keyboard.tail) :
    Inv { s with keyboard := k } := by
  have hpending : k.pending = s.keyboard.pending := by rw [pending, buffer, head, tail, ← pending]
  refine ⟨⟨?_, ?_, ?_⟩, ?_⟩
  · exact head ▸ inv.valid.head
  · exact tail ▸ inv.valid.tail
  · exact hpending ▸ inv.valid.chars
  · exact inv.order.trans (by rw [hpending])

theorem Inv.pushChar (inv : s.Inv) {c : UInt8} (hc : c ≠ 0) :
    Inv { s with keyboard := s.keyboard.pushChar c, accepted := s.accept (some c) } := by
  refine ⟨inv.valid.pushChar hc, ?_⟩
  cases hfull : s.keyboard.full with
  | true => simpa [accept, hfull, pushChar_of_full hfull] using inv.order
  | false =>
    simp only [accept, hfull, inv.valid.pending_pushChar hfull, inv.order, List.append_assoc]
    rfl

theorem Inv.onIRQ (inv : s.Inv) (scancode : UInt8) :
    Inv { s with
      keyboard := (s.keyboard.onIRQ scancode).1
      accepted := s.accept (s.keyboard.typed scancode) } := by
  have hpushed : Inv { s with
      keyboard := s.keyboard.pushTyped scancode
      accepted := s.accept (s.keyboard.typed scancode) } := by
    unfold pushTyped
    cases htyped : s.keyboard.typed scancode with
    | none => exact inv
    | some c => exact inv.pushChar (typed_ne_zero htyped)
  rw [onIRQ_eq]
  exact hpushed.of_buffer rfl rfl rfl

theorem Inv.getChar (inv : s.Inv) (caller : Option Nat) :
    Inv { s with
      keyboard := (s.keyboard.getChar caller).2
      returned := if (s.keyboard.getChar caller).1 = 0 then s.returned
        else s.returned ++ [(s.keyboard.getChar caller).1] } := by
  rcases inv.valid.getChar_cases caller with ⟨-, hget⟩ | ⟨-, hpending, hk⟩
  · rw [hget]
    exact inv
  · have hne : (s.keyboard.getChar caller).1 ≠ 0 := inv.valid.chars _ (by simp [hpending])
    have htail : (s.keyboard.tail + 1) % bufferSize < bufferSize := Nat.mod_lt _ (by decide)
    refine ⟨⟨?_, ?_, fun d hd => ?_⟩, ?_⟩
    · simpa only [hk] using inv.valid.head
    · simpa only [hk] using htail
    · exact inv.valid.chars d (hpending ▸ List.mem_cons_of_mem _ hd)
    · rw [if_neg hne, List.append_assoc, List.singleton_append, ← hpending]
      exact inv.order

theorem Inv.next (inv : s.Inv) (h : s.next a = some s') : s'.Inv := by
  cases a with
  | onIRQ scancode =>
    cases h
    exact inv.onIRQ scancode
  | hasChar caller =>
    cases h
    exact inv
  | getChar caller =>
    cases h
    exact inv.getChar caller
  | setFocus taskId =>
    cases h
    exact inv.of_buffer rfl rfl rfl
  | setOnCharCallback cb =>
    cases h
    exact inv.of_buffer rfl rfl rfl

theorem inv_of_reachable (h : keyboardSystem.Reachable s) : s.Inv := by
  apply h.invariant
  · rintro s ⟨⟨k, hk⟩, haccepted, hreturned⟩
    have hsize : 0 < bufferSize := by decide
    have hempty : s.keyboard.pending = [] := by
      rw [hk]
      exact (contents_eq_nil hsize hsize).mpr rfl
    refine ⟨⟨?_, ?_, ?_⟩, ?_⟩
    · rwa [hk]
    · rwa [hk]
    · simp [hempty]
    · rw [haccepted, hreturned, hempty, List.append_nil]
  · exact fun s a s' inv hstep => inv.next hstep

end KeyboardRun

/-- **The buffer is a bounded queue**, for every order of interrupts and calls. -/
theorem keyboard_fifo {s : KeyboardRun} (h : keyboardSystem.Reachable s) : s.Fifo :=
  (KeyboardRun.inv_of_reachable h).fifo

/-- The driver after `Keyboard::init`. -/
def idleKeyboard : KeyboardRun := ⟨.resting, [], []⟩

/-- A key is pressed and task 3 gets the focus. -/
def typeKey : List KeyboardAction := [.onIRQ 0x1E, .setFocus 3]

/-- Task 2 tries to read and gets 0, and then task 3 gets the character. -/
theorem typeAndRead_fifo :
    ∃ s s', runActions KeyboardRun.next idleKeyboard typeKey = some s ∧
      s.keyboard.getChar (some 2) = (0, s.keyboard) ∧
      runActions KeyboardRun.next s [.getChar (some 2), .getChar (some 3)] = some s' ∧
      s'.accepted = [97] ∧ s'.returned = [97] ∧ s'.Fifo := by
  have hstart : keyboardSystem.Reachable idleKeyboard :=
    .init ⟨⟨idleKeyboard.keyboard, rfl⟩, rfl, rfl⟩
  have htyped : (runActions KeyboardRun.next idleKeyboard typeKey).isSome := rfl
  have hs := reachable_get_runActions _ hstart htyped
  have hread : (runActions KeyboardRun.next ((runActions KeyboardRun.next idleKeyboard
      typeKey).get htyped) [.getChar (some 2), .getChar (some 3)]).isSome := rfl
  exact ⟨_, _, (Option.some_get htyped).symm, (keyboard_fifo hs).unfocused (some 2) rfl,
    (Option.some_get hread).symm, rfl, rfl,
    keyboard_fifo (reachable_get_runActions _ hs hread)⟩

end WengShiOS.Drivers
