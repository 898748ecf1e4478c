import WengShiOS.Drivers.Keyboard
import WengShiOS.Math.Bytes
import Mathlib.Data.List.DropRight

/-! # The line editor of the shell

The loop of `Shell::run` keeps a line and the last sixteen lines in arrays of fixed size. It is
an editor of texts, whatever the keys are and whatever the commands leave in the line buffer.
What is drawn on the terminal is not part of the model. -/

namespace WengShiOS.Shell

open Math Function Drivers.Keyboard

abbrev lineBufferSize : Nat := 256

abbrev maxHistory : Nat := 16

/-- A buffer and the number of bytes in it. -/
structure Row where
  bytes : Bytes
  length : Nat

/-- `g_line_buffer` and `g_line_length`, `g_cursor`, `g_history` and `g_history_lengths`,
`g_history_count`, `g_history_pos`. -/
structure Editor where
  line : Row
  cursor : Nat
  history : Nat → Row
  count : Nat
  pos : Nat

/-! ### The loops, after `n` passes -/

/-- `dst[i] = src[i]` from 0 on. -/
def copyBytes (dst src : Bytes) : Nat → Bytes
  | 0 => dst
  | n + 1 => update (copyBytes dst src n) n (src n)

/-- `b[i] = b[i + 1]` from `a` on. -/
def closeGap (b : Bytes) (a : Nat) : Nat → Bytes
  | 0 => b
  | n + 1 => update (closeGap b a n) (a + n) (closeGap b a n (a + n + 1))

/-- `b[i] = b[i - 1]` from `e` down. -/
def openGap (b : Bytes) (e : Nat) : Nat → Bytes
  | 0 => b
  | n + 1 => update (openGap b e n) (e - n) (openGap b e n (e - n - 1))

def Row.copy (dst src : Row) : Row := ⟨copyBytes dst.bytes src.bytes src.length, src.length⟩

/-- Each row is copied to the one before it. -/
def shiftRows (rows : Nat → Row) : Nat → Nat → Row
  | 0 => rows
  | n + 1 => update (shiftRows rows n) n ((shiftRows rows n n).copy (shiftRows rows n (n + 1)))

namespace Editor

def init (s : Editor) : Editor := { s with line.length := 0, cursor := 0, count := 0, pos := 0 }

def loadHistory (s : Editor) (index : Nat) : Editor :=
  { s with line := s.line.copy (s.history index), cursor := (s.history index).length }

def pushHistory (s : Editor) (line : Row) : Editor :=
  if line.length = 0 then s
  else if s.count < maxHistory then
    { s with
      history := update s.history s.count ((s.history s.count).copy line)
      count := s.count + 1
      pos := s.count + 1 }
  else
    let rows := shiftRows s.history (maxHistory - 1)
    { s with
      history := update rows (maxHistory - 1) ((rows (maxHistory - 1)).copy line)
      pos := s.count }

/-- One pass of the loop for the key `c`; `after` is what `executeLine` leaves in the buffer. -/
def press (s : Editor) (c : UInt8) (after : Bytes) : Editor :=
  if c = 10 then
    let s := s.pushHistory ⟨update s.line.bytes s.line.length 0, s.line.length⟩
    { s with line := ⟨overlay s.line.bytes 0 lineBufferSize after, 0⟩, cursor := 0 }
  else if c = 8 then
    if 0 < s.cursor then
      let passes := s.line.length - 1 - (s.cursor - 1)
      { s with
        line := ⟨closeGap s.line.bytes (s.cursor - 1) passes, s.line.length - 1⟩
        cursor := s.cursor - 1 }
    else s
  else if c = keyLeft then
    if 0 < s.cursor then { s with cursor := s.cursor - 1 } else s
  else if c = keyRight then
    if s.cursor < s.line.length then { s with cursor := s.cursor + 1 } else s
  else if c = keyUp then
    if 0 < s.pos then { s with pos := s.pos - 1 }.loadHistory (s.pos - 1) else s
  else if c = keyDown then
    if s.pos < s.count then
      if s.pos + 1 = s.count then { s with pos := s.pos + 1, line.length := 0, cursor := 0 }
      else { s with pos := s.pos + 1 }.loadHistory (s.pos + 1)
    else s
  else if s.line.length < lineBufferSize - 1 then
    let opened := openGap s.line.bytes s.line.length (s.line.length - s.cursor)
    { s with line := ⟨update opened s.cursor c, s.line.length + 1⟩, cursor := s.cursor + 1 }
  else s

/-- The counters fit the arrays, and nothing behind the arrays has changed since `s₀`. -/
structure Within (s₀ s : Editor) : Prop where
  cursor : s.cursor ≤ s.line.length
  length : s.line.length < lineBufferSize
  count : s.count ≤ maxHistory
  lengths : ∀ h < s.count, (s.history h).length < lineBufferSize
  pos : s.pos ≤ s.count
  line : ∀ x, lineBufferSize ≤ x → s.line.bytes x = s₀.line.bytes x
  history : ∀ h x, maxHistory ≤ h ∨ lineBufferSize ≤ x →
    (s.history h).bytes x = (s₀.history h).bytes x

end Editor

/-! ### Texts -/

/-- An editor of texts, with the lines entered before. -/
structure Text where
  line : List UInt8
  cursor : Nat
  history : List (List UInt8)
  pos : Nat

namespace Text

/-- A line of the history; behind the last one there is an empty line. -/
def load (t : Text) (pos : Nat) : Text :=
  let line := t.history.getD pos []
  { t with line, cursor := line.length, pos }

def press (t : Text) (c : UInt8) : Text :=
  if c = 10 then
    if t.line.length = 0 then ⟨[], 0, t.history, t.pos⟩
    else
      let history := (t.history ++ [t.line]).rtake maxHistory
      ⟨[], 0, history, history.length⟩
  else if c = 8 then
    if 0 < t.cursor then
      { t with line := t.line.eraseIdx (t.cursor - 1), cursor := t.cursor - 1 }
    else t
  else if c = keyLeft then { t with cursor := t.cursor - 1 }
  else if c = keyRight then { t with cursor := min (t.cursor + 1) t.line.length }
  else if c = keyUp then if 0 < t.pos then t.load (t.pos - 1) else t
  else if c = keyDown then if t.pos < t.history.length then t.load (t.pos + 1) else t
  else if t.line.length < lineBufferSize - 1 then
    { t with line := t.line.insertIdx t.cursor c, cursor := t.cursor + 1 }
  else t

end Text

def Row.text (r : Row) : List UInt8 := (List.range r.length).map r.bytes

def Editor.view (s : Editor) : Text where
  line := s.line.text
  cursor := s.cursor
  history := (List.range s.count).map fun h => (s.history h).text
  pos := s.pos

/-! ### The editor shows texts -/

@[simp] theorem length_text (r : Row) : r.text.length = r.length := by simp [Row.text]

@[grind =] theorem copy_bytes (dst src : Row) (x : Nat) :
    (dst.copy src).bytes x = if x < src.length then src.bytes x else dst.bytes x := by
  show copyBytes _ _ _ x = _
  induction src.length with
  | zero => rfl
  | succ n ih =>
    rw [copyBytes, update_apply, ih]
    grind

@[simp] theorem text_copy (dst src : Row) : (dst.copy src).text = src.text :=
  List.map_congr_left fun _ hx => (copy_bytes ..).trans (if_pos (List.mem_range.mp hx))

@[grind =] theorem closeGap_apply (b : Bytes) (a n x : Nat) :
    closeGap b a n x = if a ≤ x ∧ x < a + n then b (x + 1) else b x := by
  induction n generalizing x with
  | zero => rw [closeGap, if_neg (by omega)]
  | succ n ih =>
    rw [closeGap, update_apply, ih, ih]
    grind

theorem text_closeGap {b : Bytes} {n k : Nat} (hk : k < n) :
    Row.text ⟨closeGap b k (n - 1 - k), n - 1⟩ = (Row.text ⟨b, n⟩).eraseIdx k := by
  apply List.ext_getElem
  · simp [List.length_eraseIdx, hk]
  · intro i hi _
    rw [length_text] at hi
    simp [Row.text, List.getElem_eraseIdx, closeGap_apply]
    grind

@[grind =] theorem openGap_apply (b : Bytes) {e n : Nat} (hn : n ≤ e) (x : Nat) :
    openGap b e n x = if e - n < x ∧ x ≤ e then b (x - 1) else b x := by
  induction n generalizing x with
  | zero => rw [openGap, if_neg (by omega)]
  | succ n ih =>
    rw [openGap, update_apply, ih (by omega), ih (by omega)]
    grind

theorem text_openGap {b : Bytes} {n k : Nat} (hk : k ≤ n) (c : UInt8) :
    Row.text ⟨update (openGap b n (n - k)) k c, n + 1⟩ = (Row.text ⟨b, n⟩).insertIdx k c := by
  apply List.ext_getElem
  · simp [List.length_insertIdx, hk]
  · intro i hi _
    rw [length_text] at hi
    simp [Row.text, List.getElem_insertIdx, update_apply, openGap_apply]
    grind

theorem shiftRows_apply (rows : Nat → Row) (n h : Nat) :
    shiftRows rows n h = if h < n then (rows h).copy (rows (h + 1)) else rows h := by
  induction n generalizing h with
  | zero => rfl
  | succ n ih =>
    rw [shiftRows, update_apply, ih, ih]
    grind

namespace Editor

variable {s₀ s : Editor}

theorem Within.press (within : Within s₀ s) (c : UInt8) (after : Bytes) :
    Within s₀ (s.press c after) := by
  obtain ⟨hcursor, hlength, hcount, hlengths, hpos, hline, hhistory⟩ := within
  have hcopy (dst src : Row) : (dst.copy src).length = src.length := rfl
  unfold Editor.press pushHistory loadHistory
  dsimp only
  split_ifs
  all_goals constructor <;> grind [overlay, shiftRows_apply, update_apply]

theorem view_loadHistory {pos : Nat} (h : pos < s.count) :
    ({ s with pos }.loadHistory pos).view = s.view.load pos := by
  simp [loadHistory, Text.load, view, h]

theorem view_pushHistory (within : Within s₀ s) (line : Row) (h : line.length ≠ 0) :
    (s.pushHistory line).view.history = (s.view.history ++ [line.text]).rtake maxHistory ∧
      (s.pushHistory line).pos = (s.pushHistory line).count := by
  have hcount := within.count
  -- The oldest line is lost if the history is full.
  have hlost : s.count + 1 - maxHistory = if s.count < maxHistory then 0 else 1 := by grind
  unfold pushHistory view List.rtake
  rw [if_neg h]
  split_ifs at hlost ⊢
  all_goals
    refine ⟨List.ext_getElem ?_ fun i hi _ => ?_, rfl⟩
    · simp [hlost]
    · simp [hlost, List.getElem_append, update_apply, shiftRows_apply] at hi ⊢
      grind [text_copy]

theorem view_press (within : Within s₀ s) (c : UInt8) (after : Bytes) :
    (s.press c after).view = s.view.press c := by
  have hcursor := within.cursor
  have hpos := within.pos
  unfold Editor.press Text.press
  have hlength : s.view.line.length = s.line.length := length_text _
  have hcount : s.view.history.length = s.count := by simp [view]
  have hcur : s.view.cursor = s.cursor := rfl
  have hat : s.view.pos = s.pos := rfl
  by_cases henter : c = 10
  · rw [if_pos henter, if_pos henter, hlength]
    by_cases hempty : s.line.length = 0
    · simp [pushHistory, hempty, view, Row.text]
    -- the zero byte is stored behind the line
    have hline : Row.text ⟨update s.line.bytes s.line.length 0, s.line.length⟩ = s.line.text :=
      List.map_congr_left fun x hx => update_of_ne (List.mem_range.mp hx).ne ..
    obtain ⟨hhistory, hlast⟩ :=
      view_pushHistory within ⟨update s.line.bytes s.line.length 0, _⟩ hempty
    rw [if_neg hempty]
    dsimp only [view] at hhistory ⊢
    rw [← hline, ← hhistory]
    simp [hlast, Row.text]
  rw [if_neg henter, if_neg henter]
  by_cases hbackspace : c = 8
  · rw [if_pos hbackspace, if_pos hbackspace, hcur]
    by_cases hstart : 0 < s.cursor
    · rw [if_pos hstart, if_pos hstart]
      dsimp only [view]
      rw [text_closeGap (show s.cursor - 1 < s.line.length by omega)]
    · rw [if_neg hstart, if_neg hstart]
  rw [if_neg hbackspace, if_neg hbackspace]
  by_cases hleft : c = keyLeft
  · rw [if_pos hleft, if_pos hleft]
    split_ifs with hstart
    · rfl
    · simp [view]; omega
  rw [if_neg hleft, if_neg hleft]
  by_cases hright : c = keyRight
  · rw [if_pos hright, if_pos hright, hlength]
    split_ifs with hend
    · simp [view]; omega
    · simp [view]; omega
  rw [if_neg hright, if_neg hright]
  by_cases hup : c = keyUp
  · rw [if_pos hup, if_pos hup, hat]
    by_cases holder : 0 < s.pos
    · rw [if_pos holder, if_pos holder]
      exact view_loadHistory (by omega)
    · rw [if_neg holder, if_neg holder]
  rw [if_neg hup, if_neg hup]
  by_cases hdown : c = keyDown
  · rw [if_pos hdown, if_pos hdown, hcount, hat]
    by_cases hnewer : s.pos < s.count
    · rw [if_pos hnewer, if_pos hnewer]
      split_ifs with hlast
      · simp_all [Text.load, view, Row.text]
      · exact view_loadHistory (by omega)
    · rw [if_neg hnewer, if_neg hnewer]
  rw [if_neg hdown, if_neg hdown, hlength]
  by_cases hroom : s.line.length < lineBufferSize - 1
  · rw [if_pos hroom, if_pos hroom]
    dsimp only [view]
    rw [text_openGap hcursor]
  · rw [if_neg hroom, if_neg hroom]

/-- **The line editor.** After any keys it shows what the editor of texts shows, and nothing
outside of the arrays has changed. -/
theorem view_run (s₀ : Editor) (keys : List (UInt8 × Bytes)) :
    (keys.foldl (fun s k => s.press k.1 k.2) s₀.init).view =
        (keys.map Prod.fst).foldl Text.press ⟨[], 0, [], 0⟩ ∧
      Within s₀ (keys.foldl (fun s k => s.press k.1 k.2) s₀.init) := by
  induction keys using List.reverseRecOn with
  | nil => exact ⟨rfl, by constructor <;> simp [init]⟩
  | append_singleton keys k ih =>
    rw [List.map_append, List.foldl_append, List.foldl_append, ← ih.1]
    exact ⟨view_press ih.2 .., ih.2.press ..⟩

end Editor

end WengShiOS.Shell
