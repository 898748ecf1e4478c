import Mathlib.Data.List.GetD
import WengShiOS.Fs.NormalizePath

/-! # Canonical paths

A canonical path is a list of proper segments: none is empty, `.` or `..`, and none
holds a slash. It is written with a slash before each segment, the root as one slash.

Resolving the segments of a path one after another, with no bound on their number or
length, gives the canonical path that `normalizePath` is for. Where the joined path
fits the buffers of the source, the stores to `out` are exactly its text and a NUL. -/

namespace WengShiOS.Fs

open Math OutBuffer

/-- A segment that names an entry of a directory. -/
structure Proper (seg : CString) : Prop where
  ne_nil : seg ≠ []
  slash_notMem : slash ∉ seg
  ne_dot : seg ≠ [dot]
  ne_dotdot : seg ≠ [dot, dot]

/-- The text of an absolute path. -/
def render (segs : List CString) : CString := slash :: [slash].intercalate segs

/-- A path as a list of segments that needs no further resolution. -/
structure CanonicalPath where
  segs : List CString
  proper : ∀ seg ∈ segs, Proper seg

namespace CanonicalPath

/-- What stands in a string that holds the path. -/
def text (p : CanonicalPath) : CString := render p.segs

end CanonicalPath

/-! ### The path that is meant -/

/-- `input` if it is absolute, and otherwise `input` below `cwd`. -/
def fullPath (cwd input : CString) : CString :=
  if input.head? = some slash then input
  else (if cwd.getLast? = some slash then cwd else cwd ++ [slash]) ++ input

/-- `.` and an empty segment change nothing, and `..` goes up where there is an up. -/
def resolveSegment (segs : List CString) (seg : CString) : List CString :=
  if seg = [] ∨ seg = [dot] then segs
  else if seg = [dot, dot] then segs.dropLast
  else segs ++ [seg]

variable {segs pieces : List CString} {seg path cwd input : CString} {outSize : Nat}

theorem proper_resolveSegment (hsegs : ∀ s ∈ segs, Proper s) (hslash : slash ∉ seg) :
    ∀ s ∈ resolveSegment segs seg, Proper s := by
  unfold resolveSegment
  split_ifs with hskip hup
  · exact hsegs
  · exact fun s hs => hsegs s (List.mem_of_mem_dropLast hs)
  · intro s hs
    rcases List.mem_append.mp hs with hs | hs
    · exact hsegs s hs
    · obtain rfl := List.mem_singleton.mp hs
      exact ⟨fun h => hskip (.inl h), hslash, fun h => hskip (.inr h), hup⟩

theorem proper_foldl_resolveSegment (hsegs : ∀ s ∈ segs, Proper s)
    (hpieces : ∀ s ∈ pieces, slash ∉ s) :
    ∀ s ∈ pieces.foldl resolveSegment segs, Proper s := by
  induction pieces generalizing segs with
  | nil => exact hsegs
  | cons piece rest ih =>
    have hpiece := hpieces piece List.mem_cons_self
    exact ih (proper_resolveSegment hsegs hpiece) fun s hs => hpieces s (List.mem_cons_of_mem _ hs)

/-- Proper segments are all kept. -/
theorem foldl_resolveSegment_of_proper (hpieces : ∀ s ∈ pieces, Proper s) :
    pieces.foldl resolveSegment segs = segs ++ pieces := by
  induction pieces generalizing segs with
  | nil => simp
  | cons piece rest ih =>
    have hpiece := hpieces piece List.mem_cons_self
    have hone : resolveSegment segs piece = segs ++ [piece] := by
      simp [resolveSegment, hpiece.ne_nil, hpiece.ne_dot, hpiece.ne_dotdot]
    rw [List.foldl_cons, hone, ih fun s hs => hpieces s (List.mem_cons_of_mem _ hs),
      List.append_assoc, List.singleton_append]

theorem slash_notMem_of_mem_splitOn (h : seg ∈ path.splitOn slash) :
    slash ∉ seg := by
  induction path generalizing seg with
  | nil => simp_all
  | cons c rest ih =>
    rw [List.splitOn_cons_eq_if_modifyHead] at h
    split_ifs at h with hc
    · rcases List.mem_cons.mp h with rfl | h
      · exact List.not_mem_nil
      · exact ih h
    · obtain ⟨piece, pieces, hpieces⟩ := List.exists_cons_of_ne_nil
        (List.splitOn_ne_nil slash rest)
      rw [hpieces, List.modifyHead_cons] at h
      rw [hpieces] at ih
      rcases List.mem_cons.mp h with rfl | h
      · have hne : slash ≠ c := fun h => hc (beq_iff_eq.mpr h.symm)
        exact fun hmem => (List.mem_cons.mp hmem).elim hne (ih List.mem_cons_self)
      · exact ih (List.mem_cons_of_mem _ h)

/-- The canonical form of a path. -/
def canonicalize (path : CString) : CanonicalPath where
  segs := (path.splitOn slash).foldl resolveSegment []
  proper := proper_foldl_resolveSegment (by simp) fun _ => slash_notMem_of_mem_splitOn

theorem CanonicalPath.splitOn_text (p : CanonicalPath) :
    p.text.splitOn slash = [] :: if p.segs = [] then [[]] else p.segs := by
  rw [text, render, ← List.nil_append (slash :: _), List.splitOn_append_cons_self]
  by_cases hnil : p.segs = []
  · rw [hnil]
    rfl
  · rw [List.splitOn_intercalate slash (fun seg hseg => (p.proper seg hseg).slash_notMem) hnil,
      if_neg hnil]
    rfl

@[simp] theorem canonicalize_text (p : CanonicalPath) : canonicalize p.text = p := by
  obtain ⟨segs, hsegs⟩ := p
  have hroot : resolveSegment [] [] = [] := rfl
  simp only [canonicalize, CanonicalPath.splitOn_text, CanonicalPath.mk.injEq, List.foldl_cons,
    hroot]
  by_cases hnil : segs = []
  · simp [hnil, hroot]
  · rw [if_neg hnil, foldl_resolveSegment_of_proper hsegs, List.nil_append]

/-! ### Inside the bounds of the source -/

/-- The joined path fits the buffers: its length, each of its segments, the stack after
every number of segments, and the result. -/
structure Fits (outSize : Nat) (path : CString) : Prop where
  length : path.length ≤ 255
  segment : ∀ seg ∈ path.splitOn slash, seg.length ≤ 63
  stack : ∀ pieces, pieces <+: path.splitOn slash →
    (pieces.foldl resolveSegment []).length ≤ 32
  result : (canonicalize path).text.length ≤ outSize - 2

theorem combine_absolute (habs : input.head? = some slash) (hlen : input.length ≤ 255) :
    combine cwd input = input := by
  cases input with
  | nil => simp at habs
  | cons c rest =>
    obtain rfl : c = slash := by simpa using habs
    have hrest : rest.take 254 = rest := List.take_of_length_le (Nat.le_of_succ_le_succ hlen)
    simpa [combine, appendBounded] using hrest

/-- The buffer loses nothing but a last slash, where a working directory of 255 bytes
ends in two. -/
theorem combine_cases (hlen : (fullPath cwd input).length ≤ 255) :
    combine cwd input = fullPath cwd input ∨
      fullPath cwd input = combine cwd input ++ [slash] := by
  by_cases habs : input.head? = some slash
  · rw [fullPath, if_pos habs] at hlen ⊢
    exact .inl (combine_absolute habs hlen)
  rw [fullPath, if_neg habs] at hlen ⊢
  have hcombine : combine cwd input = appendBounded 255
      (if (cwd.take 254).getLast? = some slash then cwd.take 254 else cwd.take 254 ++ [slash])
      input := by
    simp [combine, habs, appendBounded]
  rw [hcombine]
  by_cases hcwd : cwd.length ≤ 254
  · left
    rw [List.take_of_length_le hcwd, appendBounded, List.take_of_length_le]
    rw [List.length_append] at hlen
    omega
  · -- the directory ends in a slash, and the argument is empty
    obtain ⟨hlast, hlen', rfl⟩ : cwd.getLast? = some slash ∧ cwd.length = 255 ∧ input = [] := by
      split_ifs at hlen with hlast
      · rw [List.length_append] at hlen
        exact ⟨hlast, by omega, List.length_eq_zero_iff.mp (by omega)⟩
      · simp only [List.length_append, List.length_singleton] at hlen
        omega
    have hsplit : cwd.take 254 ++ [slash] = cwd := by
      obtain ⟨init, rfl⟩ := List.getLast?_eq_some_iff.mp hlast
      have hinit : init.length = 254 := by simpa using hlen'
      rw [List.take_append_of_le_length hinit.ge, List.take_of_length_le hinit.le]
    rw [if_pos hlast, List.append_nil, appendBounded, List.take_nil, List.append_nil]
    split_ifs with hslash
    · exact .inr hsplit.symm
    · exact .inl hsplit

/-- With room for every segment, the stack of the source holds the resolved segments. -/
theorem foldl_pushSegment_eq (hshort : ∀ seg ∈ pieces, seg.length ≤ 63)
    (hstack : ∀ pre, pre <+: pieces → (pre.foldl resolveSegment segs).length ≤ 32) :
    pieces.foldl pushSegment segs = pieces.foldl resolveSegment segs := by
  induction pieces generalizing segs with
  | nil => rfl
  | cons piece rest ih =>
    have hone : pushSegment segs piece = resolveSegment segs piece := by
      have hlen := hstack [piece] (by simp)
      have htake : piece.take 63 = piece :=
        List.take_of_length_le (hshort piece List.mem_cons_self)
      simp only [List.foldl_cons, List.foldl_nil] at hlen
      unfold pushSegment resolveSegment at *
      by_cases hnil : piece = []
      · simp [hnil]
      by_cases hdot : piece = [dot]
      · simp [hdot]
      by_cases hup : piece = [dot, dot]
      · simp [hup]
      · simp only [hnil, hdot, hup, or_self, if_false, List.length_append,
          List.length_singleton] at hlen ⊢
        rw [if_pos (by omega), htake]
    rw [List.foldl_cons, List.foldl_cons, hone]
    refine ih (fun seg hseg => hshort seg (List.mem_cons_of_mem _ hseg)) fun pre hpre => ?_
    exact hstack (piece :: pre) (List.prefix_cons_inj piece |>.mpr hpre)

theorem pathSegments_eq (h : Fits outSize (fullPath cwd input)) :
    pathSegments cwd input = (canonicalize (fullPath cwd input)).segs := by
  have hfold := foldl_pushSegment_eq h.segment h.stack
  rcases combine_cases h.length with heq | heq
  · rw [pathSegments, heq, hfold]
    rfl
  · -- the slash that is lost ends an empty segment
    have hsplit : (fullPath cwd input).splitOn slash = (combine cwd input).splitOn slash ++ [[]] := by
      rw [heq, List.splitOn_append_cons_self, List.splitOn_nil]
    have hlast (segs : List CString) : pushSegment segs [] = segs := rfl
    rw [hsplit, List.foldl_append, List.foldl_cons, List.foldl_nil, hlast] at hfold
    rw [pathSegments, hfold, ← hsplit]
    rfl

namespace OutBuffer

/-- The buffer after a text was put into it from its start. -/
def ofText (s : CString) : OutBuffer := ⟨s.length, s.zipIdx.map Prod.swap⟩

theorem put_ofText (s : CString) (c : UInt8) : (ofText s).put c = ofText (s ++ [c]) := by
  simp [ofText, put, List.zipIdx_append]

theorem putSegment_ofText {limit : Nat} {s seg : CString} (h : s.length + seg.length ≤ limit) :
    (ofText s).putSegment limit seg = ofText (s ++ seg) := by
  induction seg generalizing s with
  | nil => simp [putSegment]
  | cons c rest ih =>
    rw [List.length_cons] at h
    have hlt : (ofText s).oi < limit := by
      change s.length < limit
      omega
    have hrest : (s ++ [c]).length + rest.length ≤ limit := by
      rw [List.length_append, List.length_singleton]
      omega
    rw [putSegment, if_pos hlt, put_ofText, ih hrest, List.append_assoc, List.singleton_append]

theorem putSegments_ofText {limit : Nat} {s : CString} {segs : List CString}
    (h : (s ++ [slash].intercalate segs).length ≤ limit) :
    (ofText s).putSegments limit segs = ofText (s ++ [slash].intercalate segs) := by
  induction segs generalizing s with
  | nil => simp [putSegments]
  | cons seg rest ih =>
    cases rest with
    | nil =>
      rw [List.intercalate_singleton, List.length_append] at h
      rw [putSegments, putSegment_ofText h, List.intercalate_singleton]
    | cons next rest =>
      have hcut : s ++ [slash].intercalate (seg :: next :: rest) =
          s ++ seg ++ [slash] ++ [slash].intercalate (next :: rest) := by
        simp [List.intercalate_cons_cons]
      rw [hcut] at h ⊢
      have hseg : s.length + seg.length ≤ limit := by
        simp only [List.length_append] at h
        omega
      rw [putSegments, putSegment_ofText hseg, put_ofText, ih h]

end OutBuffer

/-- Where everything fits, the stores are the text of the canonical path and a NUL. -/
theorem normalizePath_eq (h : Fits outSize (fullPath cwd input)) :
    normalizePath cwd input outSize =
      (ofText ((canonicalize (fullPath cwd input)).text ++ [0])).stores := by
  have hfits := h.result
  rw [normalizePath, pathSegments_eq h]
  change ((putSegments (outSize - 2) (.ofText [slash]) _).put 0).stores = _
  rw [putSegments_ofText hfits, put_ofText]
  rfl

/-- The string at the start of `mem`, with its NUL. -/
def StringAt (mem : Bytes) (s : CString) : Prop := ∀ i ≤ s.length, mem i = s.getD i 0

theorem storeAll_ofText (mem : Bytes) (s : CString) (i : Nat) :
    storeAll mem (ofText s).stores i = s.getD i (mem i) := by
  induction s using List.reverseRecOn with
  | nil => rfl
  | append_singleton s c ih =>
    have hput : storeAll mem (ofText (s ++ [c])).stores =
        Function.update (storeAll mem (ofText s).stores) s.length c := by
      rw [← put_ofText]
      simp [storeAll, put, ofText, List.foldl_append]
    rw [hput, Function.update_apply]
    split_ifs with hi
    · simp [hi]
    · rw [ih]
      rcases Nat.lt_or_gt_of_ne hi with hlt | hgt
      · rw [List.getD_append _ _ _ _ hlt]
      · rw [List.getD_eq_default _ _ hgt.le, List.getD_eq_default _ _ (by simpa using hgt)]

theorem stringAt_ofText (mem : Bytes) (s : CString) :
    StringAt (storeAll mem (ofText (s ++ [0])).stores) s := by
  intro i hi
  rw [storeAll_ofText]
  rcases hi.lt_or_eq with hlt | rfl
  · rw [List.getD_append _ _ _ _ hlt]
    simp only [List.getD_eq_getElem?_getD, List.getElem?_eq_getElem hlt, Option.getD_some]
  · simp

/-! ### Normalising twice -/

theorem mem_of_mem_foldl_resolveSegment (h : seg ∈ pieces.foldl resolveSegment segs) :
    seg ∈ segs ∨ seg ∈ pieces := by
  induction pieces generalizing segs with
  | nil => exact .inl h
  | cons piece rest ih =>
    rcases ih h with hmem | hmem
    · unfold resolveSegment at hmem
      split_ifs at hmem
      · exact .inl hmem
      · exact .inl (List.mem_of_mem_dropLast hmem)
      · rcases List.mem_append.mp hmem with hmem | hmem
        · exact .inl hmem
        · obtain rfl := List.mem_singleton.mp hmem
          exact .inr List.mem_cons_self
    · exact .inr (List.mem_cons_of_mem _ hmem)

theorem length_render (segs : List CString) :
    (render segs).length = max 1 (width segs) := by
  induction segs with
  | nil => rfl
  | cons seg rest ih =>
    cases rest with
    | nil =>
      simp only [render, List.intercalate_singleton, List.length_cons, width_cons,
        width_nil]
      omega
    | cons next rest =>
      simp only [render, List.intercalate_cons_cons, List.length_cons, List.length_append,
        List.length_nil, width_cons] at ih ⊢
      omega

theorem head?_fullPath (h : cwd.head? = some slash) :
    (fullPath cwd input).head? = some slash := by
  unfold fullPath
  split_ifs with habs
  · exact habs
  · simp [h]
  · simp [h]

/-- The canonical form of an absolute path is not longer than the path. -/
theorem Fits.length_canonicalize (h : Fits outSize path) (habs : path.head? = some slash) :
    (canonicalize path).text.length ≤ path.length := by
  obtain ⟨tail, rfl⟩ : ∃ tail, path = slash :: tail := by
    cases path with
    | nil => simp at habs
    | cons c tail => exact ⟨tail, by simpa using habs⟩
  have hsplit : (slash :: tail).splitOn slash = [] :: tail.splitOn slash := by
    rfl
  have hfold := foldl_pushSegment_eq h.segment h.stack
  have hwidth := width_splitOn tail
  have hle := width_foldl_pushSegment_le [] (tail.splitOn slash)
  have hsegs : (canonicalize (slash :: tail)).segs = (tail.splitOn slash).foldl pushSegment [] := by
    change ((slash :: tail).splitOn slash).foldl resolveSegment [] = _
    rw [← hfold, hsplit]
    rfl
  rw [CanonicalPath.text, length_render, hsegs, List.length_cons]
  rw [width_nil] at hle
  omega

theorem Fits.text_canonicalize (h : Fits outSize path) (habs : path.head? = some slash) :
    Fits outSize (canonicalize path).text where
  length := (h.length_canonicalize habs).trans h.length
  segment := by
    intro seg hseg
    rw [CanonicalPath.splitOn_text] at hseg
    rcases List.mem_cons.mp hseg with rfl | hseg
    · exact Nat.zero_le _
    split_ifs at hseg with hnil
    · obtain rfl := List.mem_singleton.mp hseg
      exact Nat.zero_le _
    · rcases mem_of_mem_foldl_resolveSegment hseg with hmem | hmem
      · exact absurd hmem List.not_mem_nil
      · exact h.segment seg hmem
  stack := by
    intro pieces hpieces
    rw [CanonicalPath.splitOn_text] at hpieces
    -- the segments of the text are proper but for the empty ones at the root
    have hall : (canonicalize path).segs.length ≤ 32 := h.stack _ List.prefix_rfl
    rcases List.prefix_cons_iff.mp hpieces with rfl | ⟨pre, rfl, hpre⟩
    · exact Nat.zero_le _
    have hroot : resolveSegment [] [] = [] := rfl
    rw [List.foldl_cons, hroot]
    split_ifs at hpre with hnil
    · rcases List.prefix_cons_iff.mp hpre with rfl | ⟨pre', rfl, hpre'⟩
      · exact Nat.zero_le _
      · obtain rfl := List.prefix_nil.mp hpre'
        exact Nat.zero_le _
    · have hproper : ∀ seg ∈ pre, Proper seg := fun seg hseg =>
        (canonicalize path).proper seg (hpre.subset hseg)
      rw [foldl_resolveSegment_of_proper hproper, List.nil_append]
      exact hpre.length_le.trans hall
  result := by
    rw [canonicalize_text]
    exact h.result

theorem CanonicalPath.proper_of_mem_text (p : CanonicalPath) :
    p.text = [slash] ∨ ∀ seg ∈ (p.text.drop 1).splitOn slash, Proper seg := by
  by_cases hnil : p.segs = []
  · left
    rw [text, hnil]
    rfl
  · right
    rw [text, render, List.drop_succ_cons, List.drop_zero, List.splitOn_intercalate slash
      (fun seg hseg => (p.proper seg hseg).slash_notMem) hnil]
    exact p.proper

/-- **`normalizePath` computes the canonical path.** For every absolute working directory
and every argument whose joined path fits the buffers, `out` holds the text of the
canonical path. That is the root, or none of its segments is empty, `.` or `..`; and
normalising it against any working directory gives it again. -/
theorem normalizePath_canonical {cwd input : CString} {outSize : Nat}
    (habs : cwd.head? = some slash) (h : Fits outSize (fullPath cwd input)) :
    (∀ mem, StringAt (storeAll mem (normalizePath cwd input outSize))
        (canonicalize (fullPath cwd input)).text) ∧
      ((canonicalize (fullPath cwd input)).text = [slash] ∨
        ∀ seg ∈ ((canonicalize (fullPath cwd input)).text.drop 1).splitOn slash, Proper seg) ∧
      ∀ cwd' mem, StringAt
        (storeAll mem (normalizePath cwd' (canonicalize (fullPath cwd input)).text outSize))
        (canonicalize (fullPath cwd input)).text := by
  refine ⟨fun mem => ?_, CanonicalPath.proper_of_mem_text _, fun cwd' mem => ?_⟩
  · rw [normalizePath_eq h]
    exact stringAt_ofText mem _
  · obtain ⟨p, hp⟩ : ∃ p, canonicalize (fullPath cwd input) = p := ⟨_, rfl⟩
    have hfits := h.text_canonicalize (head?_fullPath habs)
    rw [hp] at hfits ⊢
    have hfull : fullPath cwd' p.text = p.text := if_pos rfl
    rw [normalizePath_eq (hfull.symm ▸ hfits), hfull, canonicalize_text]
    exact stringAt_ofText mem _

/-- `..//c/./d/` below `/a/b`, in a buffer that holds other bytes. -/
theorem normalizePath_canonical_relative :
    StringAt (storeAll (fun _ => 1) (normalizePath [slash, 97, slash, 98]
      [dot, dot, slash, slash, 99, slash, dot, slash, 100, slash] 128))
      [slash, 97, slash, 99, slash, 100] := by
  have hfits : Fits 128 (fullPath [slash, 97, slash, 98]
      [dot, dot, slash, slash, 99, slash, dot, slash, 100, slash]) := by
    refine ⟨by decide, by decide, ?_, by decide⟩
    simp only [← List.mem_inits]
    decide
  exact (normalizePath_canonical rfl hfits).1 _

end WengShiOS.Fs
