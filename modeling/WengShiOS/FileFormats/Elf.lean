import WengShiOS.Fs.Vfs

/-! # Reading an executable

`readFully` in `src/file_formats/elf/elf.cpp`: the loader asks the VFS again and again until
it has all bytes. -/

namespace WengShiOS.FileFormats.Elf

open Fs

variable {D I P W : Type*} (drivers : D → FilesystemDriver W I P)

/-- The loop of `readFully`, with the bytes that the buffer has so far. `none` stands for a
loop that has not ended after the given number of passes. -/
def readFullyLoop (fd : Int) (count : Nat) : (fuel : Nat) → (v : Vfs D I P W) → (total : Nat) →
    (buf : List UInt8) → Option (Bool × List UInt8 × Vfs D I P W)
  | 0, _, _, _ => none
  | fuel + 1, v, total, buf =>
    if total < count then
      let (n, data, v) := v.read drivers fd (count - total)
      if n ≤ 0 then some (false, buf ++ data, v)
      else readFullyLoop fd count fuel v ((total + n.toNat) % 2 ^ 64) (buf ++ data)
    else some (true, buf, v)

/-- Every pass but the last reads at least one byte. -/
def readFully (v : Vfs D I P W) (fd : Int) (count : Nat) :
    Option (Bool × List UInt8 × Vfs D I P W) :=
  readFullyLoop drivers fd count (count + 1) v 0 []

section Passes

variable {drivers} {v v' : Vfs D I P W} {fd : Int} {count fuel total : Nat} {buf data : List UInt8}
  {n : Int}

theorem readFullyLoop_done (h : count ≤ total) :
    readFullyLoop drivers fd count (fuel + 1) v total buf = some (true, buf, v) := by
  rw [readFullyLoop, if_neg (by omega)]

/-- A pass that gets nothing gives up. -/
theorem readFullyLoop_stop (h : total < count)
    (hread : v.read drivers fd (count - total) = (n, data, v')) (hn : n ≤ 0) :
    readFullyLoop drivers fd count (fuel + 1) v total buf = some (false, buf ++ data, v') := by
  rw [readFullyLoop, if_pos h, hread]
  exact if_pos hn

theorem readFullyLoop_next (h : total < count)
    (hread : v.read drivers fd (count - total) = (n, data, v')) (hn : 0 < n) :
    readFullyLoop drivers fd count (fuel + 1) v total buf =
      readFullyLoop drivers fd count fuel v' ((total + n.toNat) % 2 ^ 64) (buf ++ data) := by
  rw [readFullyLoop, if_pos h, hread]
  exact if_neg (by omega)

end Passes

/-! ### What a driver keeps to -/

/-- A read stores no more than it was asked for, and the number of bytes that it reports. -/
def Honest : Prop :=
  ∀ d fs handle offset count w, count < 2 ^ 64 →
    ((drivers d).read fs handle offset count w).2.1.length ≤ count ∧
    (0 < ((drivers d).read fs handle offset count w).1 →
      (((drivers d).read fs handle offset count w).2.1.length : Int) =
        ((drivers d).read fs handle offset count w).1)

/-- Reads through a descriptor give the bytes of a file, one after the other; `positioned p`
says of a state of the VFS that the descriptor is at position `p`. -/
structure Serves (fd : Int) (file : List UInt8) (positioned : Nat → Vfs D I P W → Prop) :
    Prop where
  seek : ∀ {p v offset}, positioned p v → offset < 2 ^ 63 →
    positioned offset (v.seek fd (toInt64 offset) .set).2
  read : ∀ {p v count n data v'}, positioned p v → count < 2 ^ 64 →
    v.read drivers fd count = (n, data, v') → 0 < n →
    data = (file.drop p).take data.length ∧ positioned (p + data.length) v'
  /-- a read that reports nothing has stored nothing -/
  nothing : ∀ {p v count n data v'}, positioned p v → (p < file.length → p + count < 2 ^ 64) →
    v.read drivers fd count = (n, data, v') → n ≤ 0 → data = []

/-- Besides, every read inside the file gives something. -/
structure Delivers (fd : Int) (file : List UInt8) (positioned : Nat → Vfs D I P W → Prop) : Prop
    extends Serves drivers fd file positioned where
  more : ∀ {p v count}, positioned p v → 0 < count → p + count ≤ file.length →
    0 < (v.read drivers fd count).1

/-- Each read gives what is left of the file, up to the number of bytes asked for. -/
def Reads (fd : Int) (file : List UInt8) (positioned : Nat → Vfs D I P W → Prop) : Prop :=
  ∀ {p v count}, positioned p v → count < 2 ^ 63 →
    (v.read drivers fd count).2.1 = (file.drop p).take count ∧
      positioned (p + ((file.drop p).take count).length) (v.read drivers fd count).2.2

section Runs

variable {drivers} {v v' : Vfs D I P W} {fd : Int} {count p : Nat} {data file : List UInt8} {n : Int}
  {positioned : Nat → Vfs D I P W → Prop}

section

variable (h : Honest drivers) (hcount : count < 2 ^ 64)
include h hcount

theorem Honest.vfsRead (hread : v.read drivers fd count = (n, data, v')) :
    data.length ≤ count ∧ (0 < n → (data.length : Int) = n) := by
  unfold Vfs.read at hread
  split at hread
  · obtain ⟨rfl, hrest⟩ := Prod.mk.inj hread
    obtain ⟨rfl, -⟩ := Prod.mk.inj hrest
    exact ⟨Nat.zero_le _, fun hn => absurd hn (by decide)⟩
  · obtain ⟨rfl, hrest⟩ := Prod.mk.inj hread
    obtain ⟨rfl, -⟩ := Prod.mk.inj hrest
    exact h _ _ _ _ _ _ hcount

/-- The loop, for what each successful pass keeps. By induction on the passes left: each
one stores a byte at least. -/
theorem Honest.readFullyLoop (fd : Int) (Inv : List UInt8 → Vfs D I P W → Prop)
    (hstep : ∀ {buf v k n data v'}, Inv buf v → k < 2 ^ 64 →
      v.read drivers fd k = (n, data, v') → 0 < n → Inv (buf ++ data) v') (fuel : Nat)
    (buf : List UInt8) (hle : buf.length ≤ count) (hfuel : count < fuel + buf.length)
    (hinv : Inv buf v) :
    ∃ ok data v', Elf.readFullyLoop drivers fd count fuel v buf.length buf = some (ok, data, v') ∧
      data.length ≤ count ∧ (ok = true → data.length = count ∧ Inv data v') ∧
      (ok = false → ∃ buf v, Inv buf v ∧ buf.length < count ∧
        (v.read drivers fd (count - buf.length)).1 ≤ 0 ∧
        data = buf ++ (v.read drivers fd (count - buf.length)).2.1) := by
  induction fuel generalizing v buf with
  | zero => omega
  | succ fuel ih =>
    by_cases hlt : buf.length < count
    · obtain ⟨n, data, v₁, hread⟩ : ∃ n data v₁,
          v.read drivers fd (count - buf.length) = (n, data, v₁) := ⟨_, _, _, rfl⟩
      obtain ⟨hdata, hn⟩ := h.vfsRead (by omega) hread
      by_cases hpos : 0 < n
      · have htotal : (buf.length + n.toNat) % 2 ^ 64 = (buf ++ data).length := by
          rw [List.length_append, Nat.mod_eq_of_lt (by omega)]
          omega
        rw [readFullyLoop_next hlt hread hpos, htotal]
        exact ih _ (by rw [List.length_append]; omega) (by rw [List.length_append]; omega)
          (hstep hinv (by omega) hread hpos)
      · rw [readFullyLoop_stop hlt hread (by omega)]
        refine ⟨_, _, _, rfl, ?_, nofun, fun _ => ⟨buf, v, hinv, hlt, ?_, by rw [hread]⟩⟩
        · rw [List.length_append]
          omega
        · rw [hread]
          exact Int.not_lt.mp hpos
    · rw [readFullyLoop_done (by omega)]
      exact ⟨_, _, _, rfl, hle, fun _ => ⟨by omega, hinv⟩, nofun⟩

/-- `readFully` ends, and the buffer holds no more than was asked for. -/
theorem Honest.readFully (v : Vfs D I P W) (fd : Int) :
    ∃ ok data v', Elf.readFully drivers v fd count = some (ok, data, v') ∧
      data.length ≤ count ∧ (ok = true → data.length = count) := by
  obtain ⟨ok, data, v', hrun, hle, hok, -⟩ := h.readFullyLoop (v := v) hcount fd (fun _ _ => True)
    (fun _ _ _ _ => trivial) (count + 1) [] (Nat.zero_le _) (Nat.lt_succ_self _) trivial
  exact ⟨ok, data, v', hrun, hle, fun h => (hok h).1⟩

end

/-- What is in the buffer while the loop reads a file from `p` on, and where the descriptor
is. -/
def Serves.Filled (file : List UInt8) (positioned : Nat → Vfs D I P W → Prop) (p : Nat)
    (buf : List UInt8) (v : Vfs D I P W) : Prop :=
  buf = (file.drop p).take buf.length ∧ positioned (p + buf.length) v

theorem Serves.filled_append (hs : Serves drivers fd file positioned) {buf : List UInt8} {k : Nat}
    (hbuf : Filled file positioned p buf v) (hk : k < 2 ^ 64)
    (hread : v.read drivers fd k = (n, data, v')) (hn : 0 < n) :
    Filled file positioned p (buf ++ data) v' := by
  obtain ⟨hdata, hpos⟩ := hs.read hbuf.2 hk hread hn
  unfold Filled
  rw [List.length_append, ← Nat.add_assoc]
  refine ⟨?_, hpos⟩
  rw [List.take_add, List.drop_drop, ← hbuf.1, ← hdata]

theorem Serves.filled_nil (hp : positioned p v) : Filled file positioned p [] v := ⟨by simp, hp⟩

/-- If `readFully` succeeds, the buffer holds the bytes of the file. -/
theorem Serves.readFully (hs : Serves drivers fd file positioned) (h : Honest drivers)
    (hcount : count < 2 ^ 64) (hp : positioned p v)
    (hrun : Elf.readFully drivers v fd count = some (true, data, v')) :
    data = (file.drop p).take count ∧ data.length = count ∧ positioned (p + count) v' := by
  obtain ⟨ok, data', v₁, hrun', -, hok, -⟩ := h.readFullyLoop (v := v) hcount fd
    (Filled file positioned p) hs.filled_append (count + 1) [] (Nat.zero_le _) (Nat.lt_succ_self _)
    (filled_nil hp)
  obtain ⟨rfl, hrest⟩ := Prod.mk.inj (Option.some.inj (hrun'.symm.trans hrun))
  cases hrest
  obtain ⟨hlen, hdata, hpos⟩ := hok rfl
  rw [hlen] at hdata hpos
  exact ⟨hdata, hlen, hpos⟩

/-- In any case the buffer holds no more than is left of the file. -/
theorem Serves.readFully_length {ok : Bool} (hs : Serves drivers fd file positioned)
    (h : Honest drivers) (hcount : count < 2 ^ 64) (hp : positioned p v)
    (hover : p < file.length → p + count < 2 ^ 64)
    (hrun : Elf.readFully drivers v fd count = some (ok, data, v')) :
    data.length ≤ file.length - p := by
  have hle : ∀ {buf v}, Filled file positioned p buf v → buf.length ≤ file.length - p := by
    intro buf v hbuf
    rw [hbuf.1, List.length_take, List.length_drop]
    exact Nat.min_le_right ..
  obtain ⟨ok', data', v₁, hrun', -, hok, hfail⟩ := h.readFullyLoop (v := v) hcount fd
    (Filled file positioned p) hs.filled_append (count + 1) [] (Nat.zero_le _) (Nat.lt_succ_self _)
    (filled_nil hp)
  obtain ⟨rfl, hrest⟩ := Prod.mk.inj (Option.some.inj (hrun'.symm.trans hrun))
  cases hrest
  cases ok' with
  | true => exact hle (hok rfl).2
  | false =>
    obtain ⟨buf, v₁, hbuf, hlt, hread, rfl⟩ := hfail rfl
    rcases hgot : v₁.read drivers fd (count - buf.length) with ⟨n, got, v₂⟩
    rw [hgot] at hread
    have hnil : got = [] := hs.nothing hbuf.2 (by omega) hgot hread
    rw [hnil, List.append_nil]
    exact hle hbuf

/-- Where a seek to `offset` ends that starts at `p`: a negative position is refused. -/
def seekTarget (p offset : Nat) : Nat := if offset < 2 ^ 63 then offset else p

theorem Serves.seekTarget {offset : Nat} (hs : Serves drivers fd file positioned)
    (hp : positioned p v) (hoffset : offset < 2 ^ 64) :
    positioned (Elf.seekTarget p offset) (v.seek fd (toInt64 offset) .set).2 := by
  unfold Elf.seekTarget
  split_ifs with hlt
  · exact hs.seek hp hlt
  · have hneg : toInt64 offset < 0 := by
      rw [toInt64, Int.bmod_def]
      omega
    rw [Vfs.seek_set_of_neg fd hneg]
    exact hp

/-- If the bytes are there, `readFully` succeeds. -/
theorem Delivers.readFully (hs : Delivers drivers fd file positioned) (h : Honest drivers)
    (hcount : count < 2 ^ 64) (hp : positioned p v) (hle : p + count ≤ file.length) :
    ∃ v', Elf.readFully drivers v fd count = some (true, (file.drop p).take count, v') := by
  obtain ⟨ok, data, v', hrun, -, hok, hfail⟩ := h.readFullyLoop (v := v) hcount fd
    (Serves.Filled file positioned p) hs.filled_append (count + 1) [] (Nat.zero_le _)
    (Nat.lt_succ_self _) (Serves.filled_nil hp)
  cases ok with
  | true =>
    obtain ⟨hlen, hdata, -⟩ := hok rfl
    rw [hlen] at hdata
    exact ⟨v', hdata ▸ hrun⟩
  | false =>
    obtain ⟨buf, v₁, hbuf, hlt, hread, -⟩ := hfail rfl
    have := hs.more hbuf.2 (by omega : 0 < count - buf.length) (by omega)
    omega

end Runs

end WengShiOS.FileFormats.Elf
