import WengShiOS.Fs.Vfs
import WengShiOS.Math.Bytes

/-! # `VFS::normalizePath`

The function joins the working directory and the argument in a buffer of 256 bytes,
resolves `.` and `..` on a stack of at most 32 segments of at most 63 bytes each, and
writes the segments that are left to the caller's buffer. Every store to that buffer is
recorded, in order, with its index.

The bytes of a segment are only written below `out_size - 2`, but the slash behind it
and the final NUL are written wherever the index stands. One slash too many fits, so
the stores stay inside the buffer exactly if the last but one segment starts before
that bound. -/

namespace WengShiOS.Fs

open Math

def dot : UInt8 := 0x2E

/-- `for (i = 0; src[i] != '\0' && ci < limit; ++i) combined[ci++] = src[i];` -/
def appendBounded (limit : Nat) (combined src : CString) : CString :=
  combined ++ src.take (limit - combined.length)

/-- What stands in `combined`. -/
def combine (cwd input : CString) : CString :=
  if input.head? = some slash then appendBounded 255 [slash] (input.drop 1)
  else
    let combined := appendBounded 254 [] cwd
    let combined := if combined.getLast? = some slash then combined else combined ++ [slash]
    appendBounded 255 combined input

/-- One round of the loop over `combined`, for the bytes between two slashes. -/
def pushSegment (segments : List CString) (seg : CString) : List CString :=
  if seg = [] then segments
  else if seg = [dot] then segments
  else if seg = [dot, dot] then segments.dropLast
  else if segments.length < 32 then segments ++ [seg.take 63]
  else segments

/-- The segments that are left. -/
def pathSegments (cwd input : CString) : List CString :=
  ((combine cwd input).splitOn slash).foldl pushSegment []

/-- The stores to `out` so far, and the index of the next one. -/
structure OutBuffer where
  oi : Nat
  stores : List (Nat × UInt8)

namespace OutBuffer

/-- `out[oi++] = c;` -/
def put (o : OutBuffer) (c : UInt8) : OutBuffer := ⟨o.oi + 1, o.stores ++ [(o.oi, c)]⟩

/-- The bytes of a segment, as far as they fit. -/
def putSegment (limit : Nat) : OutBuffer → CString → OutBuffer
  | o, [] => o
  | o, c :: rest => if o.oi < limit then putSegment limit (o.put c) rest else o

/-- The loop over the segments. -/
def putSegments (limit : Nat) : OutBuffer → List CString → OutBuffer
  | o, [] => o
  | o, [seg] => o.putSegment limit seg
  | o, seg :: next :: rest => putSegments limit ((o.putSegment limit seg).put slash) (next :: rest)

end OutBuffer

/-- The stores of `normalizePath(cwd, input, out, out_size)`. -/
def normalizePath (cwd input : CString) (outSize : Nat) : List (Nat × UInt8) :=
  let out := OutBuffer.put ⟨0, []⟩ slash
  let out := out.putSegments (outSize - 2) (pathSegments cwd input)
  (out.put 0).stores

/-- The memory behind `out` after the stores. -/
def storeAll (mem : Bytes) (stores : List (Nat × UInt8)) : Bytes :=
  stores.foldl (fun mem s => Function.update mem s.1 s.2) mem

/-- The stores stay inside a buffer of the given size and leave a string in it. -/
structure Contained (outSize : Nat) (stores : List (Nat × UInt8)) : Prop where
  inBounds : ∀ s ∈ stores, s.1 < outSize
  terminated : ∀ mem, ∃ i < outSize, storeAll mem stores i = 0

/-! ### Where the stores go -/

namespace OutBuffer

variable {o : OutBuffer} {limit : Nat} {seg : CString} {segs : List CString}

/-- The indices count up from 0. -/
def Counted (o : OutBuffer) : Prop := o.stores.map Prod.fst = List.range o.oi

theorem Counted.put (h : o.Counted) (c : UInt8) : (o.put c).Counted := by
  unfold Counted OutBuffer.put at *
  rw [List.map_append, h, List.range_succ]
  rfl

theorem Counted.putSegment (h : o.Counted) : (o.putSegment limit seg).Counted := by
  induction seg generalizing o with
  | nil => exact h
  | cons c rest ih =>
    rw [OutBuffer.putSegment]
    split_ifs
    · exact ih (h.put c)
    · exact h

theorem Counted.putSegments (h : o.Counted) : (o.putSegments limit segs).Counted := by
  induction segs generalizing o with
  | nil => exact h
  | cons seg rest ih =>
    cases rest with
    | nil => exact h.putSegment
    | cons next rest => exact ih (h.putSegment.put slash)

theorem oi_putSegment :
    (o.putSegment limit seg).oi = max o.oi (min (o.oi + seg.length) limit) := by
  induction seg generalizing o with
  | nil =>
    simp only [putSegment, List.length_nil]
    omega
  | cons c rest ih =>
    rw [putSegment]
    split_ifs with hlt
    · rw [ih]
      simp only [put, List.length_cons]
      omega
    · omega

/-- The bytes that segments and the slashes behind them take. -/
def width (segs : List CString) : Nat := (segs.map fun seg => seg.length + 1).sum

@[simp] theorem width_nil : width [] = 0 := rfl

@[simp] theorem width_cons : width (seg :: segs) = seg.length + 1 + width segs := by
  simp [width]

@[simp] theorem width_append (pre post : List CString) :
    width (pre ++ post) = width pre + width post := by
  simp [width]

/-- The index after the last segment: it stays within one of the limit if the last but
one segment starts at the limit or before. -/
theorem oi_putSegments_le (limit : Nat) (o : OutBuffer) (segs : List CString)
    (first second : CString) :
    (o.putSegments limit (segs ++ [first, second])).oi ≤ limit + 1 ↔
      o.oi + width segs ≤ limit := by
  induction segs generalizing o with
  | nil =>
    simp only [List.nil_append, putSegments, oi_putSegment, put, width_nil]
    omega
  | cons seg rest ih =>
    -- a segment that is cut short ends at the limit, and its slash goes beyond it
    have hnext : o.putSegments limit (seg :: rest ++ [first, second]) =
        ((o.putSegment limit seg).put slash).putSegments limit (rest ++ [first, second]) := by
      cases rest <;> rfl
    rw [hnext, ih]
    simp only [put, oi_putSegment, width_cons]
    omega

end OutBuffer

open OutBuffer

theorem forall_lt_iff_of_counted {o : OutBuffer} (h : o.Counted) (n : Nat) :
    (∀ s ∈ o.stores, s.1 < n) ↔ o.oi ≤ n := by
  have hmem : (∀ s ∈ o.stores, s.1 < n) ↔ ∀ i ∈ o.stores.map Prod.fst, i < n := by simp
  rw [hmem, h]
  constructor
  · intro hall
    by_contra hlt
    exact absurd (hall n (List.mem_range.mpr (by omega))) (lt_irrefl n)
  · intro hle i hi
    exact lt_of_lt_of_le (List.mem_range.mp hi) hle

theorem contained_put_nul_iff {o : OutBuffer} (h : o.Counted) (n : Nat) :
    Contained n (o.put 0).stores ↔ o.oi < n := by
  have hall := forall_lt_iff_of_counted (h.put 0) n
  constructor
  · intro c
    exact hall.mp c.inBounds
  · intro hlt
    refine ⟨hall.mpr hlt, fun mem => ⟨o.oi, hlt, ?_⟩⟩
    simp [put, storeAll, List.foldl_append]

/-- The last but one segment starts before the bound on the bytes. -/
def FitsBefore (limit : Nat) (segs : List CString) : Prop :=
  segs.length ≤ 1 ∨ 1 + width segs.dropLast.dropLast ≤ limit

/-- **The output buffer.** For every working directory and argument and every size of at
least 2, the stores of `normalizePath` stay inside the buffer and end its string there,
exactly if at most one segment is left or the last but one starts at `out_size - 2` or
before. -/
theorem normalizePath_contained_iff (cwd input : CString) {outSize : Nat} (hsize : 2 ≤ outSize) :
    Contained outSize (normalizePath cwd input outSize) ↔
      FitsBefore (outSize - 2) (pathSegments cwd input) := by
  have hstart : (OutBuffer.put ⟨0, []⟩ slash).Counted := rfl
  rw [normalizePath, contained_put_nul_iff hstart.putSegments]
  obtain ⟨segs, hsegs⟩ : ∃ segs, segs = pathSegments cwd input := ⟨_, rfl⟩
  rw [← hsegs]
  rcases List.eq_nil_or_concat' segs with rfl | ⟨init, second, rfl⟩
  · -- only the root is left
    simp only [FitsBefore, putSegments, put, List.length_nil, Nat.zero_le, true_or, iff_true]
    omega
  · rcases List.eq_nil_or_concat' init with rfl | ⟨init, first, rfl⟩
    · simp only [FitsBefore, List.nil_append, putSegments, oi_putSegment, put, List.length_singleton,
        le_refl, true_or, iff_true]
      omega
    · have hle := oi_putSegments_le (outSize - 2) (OutBuffer.put ⟨0, []⟩ slash) init first second
      have hdrop : (init ++ [first, second]).dropLast.dropLast = init := by simp
      have hlen : ¬ (init ++ [first, second]).length ≤ 1 := by simp
      rw [List.append_assoc, List.singleton_append]
      rw [FitsBefore, hdrop, or_iff_right hlen]
      simp only [put] at hle ⊢
      omega

/-! ### How large a buffer is enough -/

theorem width_splitOn (path : CString) : width (path.splitOn slash) = path.length + 1 := by
  unfold List.splitOn
  induction path with
  | nil => rfl
  | cons c rest ih =>
    rw [List.splitOnP_cons_eq_if_modifyHead]
    split_ifs
    · rw [width_cons, ih, List.length_nil, List.length_cons]
      omega
    · obtain ⟨piece, pieces, hpieces⟩ := List.exists_cons_of_ne_nil
        (List.splitOnP_ne_nil (· == slash) rest)
      rw [hpieces] at ih ⊢
      rw [List.modifyHead_cons, width_cons, List.length_cons, List.length_cons]
      rw [width_cons] at ih
      omega

theorem width_dropLast_lt {segs : List CString} (hne : segs ≠ []) :
    width segs.dropLast < width segs := by
  rcases List.eq_nil_or_concat' segs with rfl | ⟨init, last, rfl⟩
  · exact absurd rfl hne
  · simp

theorem width_pushSegment_le (segs : List CString) (seg : CString) :
    width (pushSegment segs seg) ≤ width segs + (seg.length + 1) := by
  unfold pushSegment
  split_ifs
  · omega
  · omega
  · by_cases hne : segs = []
    · simp [hne]
    · have := width_dropLast_lt hne
      omega
  · simp only [width_append, width_cons, width_nil, List.length_take]
    omega
  · omega

theorem width_foldl_pushSegment_le (segs pieces : List CString) :
    width (pieces.foldl pushSegment segs) ≤ width segs + width pieces := by
  induction pieces generalizing segs with
  | nil => simp
  | cons piece rest ih =>
    have hone := width_pushSegment_le segs piece
    have hrest := ih (pushSegment segs piece)
    rw [List.foldl_cons, width_cons]
    omega

/-- `/a/b` and `../c/d`, in a buffer of a shell command. -/
theorem normalizePath_contained_short :
    Contained 128 (normalizePath [slash, 97, slash, 98] [dot, dot, slash, 99, slash, 100] 128) :=
  (normalizePath_contained_iff _ _ (by decide)).mpr (.inr (by decide))

/-- Two long segments and two short ones. -/
def deepPath : CString :=
  slash :: List.replicate 63 97 ++ slash :: List.replicate 63 98 ++ [slash, 99, slash, 100]

/-- The slash behind the third segment takes the last byte of the buffer, and the NUL
goes behind it. -/
theorem not_normalizePath_contained : ¬ Contained 128 (normalizePath [slash] deepPath 128) := by
  intro c
  have hstore : (128, 0) ∈ normalizePath [slash] deepPath 128 := by decide +kernel
  exact absurd (c.inBounds _ hstore) (lt_irrefl _)

end WengShiOS.Fs
