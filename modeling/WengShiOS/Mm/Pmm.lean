import WengShiOS.Math.Bitmap
import WengShiOS.Mm.Heap

/-! # The physical memory manager

`src/mm/pmm.cpp`: one bit per 4 KiB frame, set while the frame is in use.
`allocFrame` searches from where it last stopped, once around. The set of frames
that are free determines what it can return, so each operation is described by
what it does to that set and to the counter beside it. -/

namespace WengShiOS.Mm

open Math Finset

def frameSize : Nat := 4096

/-- `UINT64_MAX` -/
def noFrame : Nat := 2 ^ 64 - 1

structure Pmm where
  bitmap : Bytes
  totalFrames : Nat
  usedFrames : Nat
  searchHint : Nat

namespace Pmm

/-- The first clear bit of the search, from its `i`-th position on. -/
def search (p : Pmm) : Nat → Nat → Option Nat
  | 0, _ => none
  | left + 1, i =>
    let frame := (p.searchHint + i) % p.totalFrames
    if testBit p.bitmap frame then p.search left (i + 1) else some frame

/-- The frame is taken, and the next search starts behind it. -/
def take (p : Pmm) (frame : Nat) : Pmm :=
  { p with
    bitmap := setBit p.bitmap frame
    usedFrames := p.usedFrames + 1
    searchHint := frame + 1 }

def allocFrame (p : Pmm) : Nat × Pmm :=
  match p.search p.totalFrames 0 with
  | none => (noFrame, p)
  | some frame => (frame * frameSize, p.take frame)

def bitmapSizeFor (highestAddress : Nat) : Nat := (highestAddress / frameSize + 7) / 8

/-- `init`; `storage` is the memory at `bitmap_storage`. -/
def init (highestAddress : Nat) (storage : Bytes) : Pmm where
  bitmap := overlay storage 0 (bitmapSizeFor highestAddress) fun _ => 0xFF
  totalFrames := highestAddress / frameSize
  usedFrames := highestAddress / frameSize
  searchHint := 0

/-- `if (testBit(frame)) { clearBit(frame); --used_frames_; }` -/
def clearFrame (p : Pmm) (frame : Nat) : Pmm :=
  if testBit p.bitmap frame then
    { p with bitmap := clearBit p.bitmap frame, usedFrames := wrapSub p.usedFrames 1 }
  else p

/-- `if (!testBit(frame)) { setBit(frame); ++used_frames_; }` -/
def setFrame (p : Pmm) (frame : Nat) : Pmm :=
  if testBit p.bitmap frame then p
  else { p with bitmap := setBit p.bitmap frame, usedFrames := wrap (p.usedFrames + 1) }

/-- `for (frame = start; frame < end && frame < total_frames_; ++frame)` -/
def forFrames (p : Pmm) (step : Pmm → Nat → Pmm) (startFrame endFrame : Nat) : Pmm :=
  (List.range' startFrame (min endFrame p.totalFrames - startFrame)).foldl step p

def markRegionFree (p : Pmm) (base length : Nat) : Pmm :=
  p.forFrames clearFrame (base / frameSize) (wrap (base + length) / frameSize)

def markRegionUsed (p : Pmm) (base length : Nat) : Pmm :=
  p.forFrames setFrame (base / frameSize) (wrap (base + length + frameSize - 1) / frameSize)

def freeFrame (p : Pmm) (physAddress : Nat) : Pmm :=
  if physAddress / frameSize < p.totalFrames then p.clearFrame (physAddress / frameSize) else p

/-- `freeFrames()` -/
def freeFrames (p : Pmm) : Nat := wrapSub p.totalFrames p.usedFrames

/-- The frames `allocFrame` may return. -/
def freeSet (p : Pmm) : Finset Nat := clearBits p.bitmap p.totalFrames

variable {p : Pmm} {frame : Nat}

/-- No frame has the address that stands for failure. -/
theorem noFrame_ne (frame : Nat) : noFrame ≠ frame * frameSize := by
  simp only [noFrame, frameSize]
  omega

theorem search_mem {left i : Nat} (h : p.search left i = some frame) (h0 : 0 < p.totalFrames) :
    frame ∈ p.freeSet := by
  induction left generalizing i with
  | zero => cases h
  | succ left ih =>
    rw [search] at h
    split_ifs at h with hbit
    · exact ih h
    · cases h
      exact mem_clearBits.mpr ⟨Nat.mod_lt _ h0, by simpa using hbit⟩

/-- A search that fails has seen only set bits. -/
theorem search_none {left i : Nat} (h : p.search left i = none) :
    ∀ j < left, testBit p.bitmap ((p.searchHint + (i + j)) % p.totalFrames) = true := by
  induction left generalizing i with
  | zero => intro j hj; omega
  | succ left ih =>
    rw [search] at h
    split_ifs at h with hbit
    intro j hj
    cases j with
    | zero => exact hbit
    | succ j =>
      have := ih h j (by omega)
      rwa [Nat.add_assoc, Nat.add_comm 1 j] at this

/-- Starting anywhere, `totalFrames` positions cover every frame. -/
theorem exists_position (hframe : frame < p.totalFrames) :
    ∃ j < p.totalFrames, (p.searchHint + j) % p.totalFrames = frame := by
  have hpos : 0 < p.totalFrames := by omega
  have hmod := Nat.mod_lt p.searchHint hpos
  refine ⟨(frame + p.totalFrames - p.searchHint % p.totalFrames) % p.totalFrames,
    Nat.mod_lt _ hpos, ?_⟩
  rw [Nat.add_mod, Nat.mod_mod, ← Nat.add_mod]
  have hsplit := Nat.div_add_mod p.searchHint p.totalFrames
  have heq : p.searchHint + (frame + p.totalFrames - p.searchHint % p.totalFrames) =
      frame + p.totalFrames * (p.searchHint / p.totalFrames + 1) := by
    rw [Nat.mul_succ]
    omega
  rw [heq, Nat.add_mul_mod_self_left, Nat.mod_eq_of_lt hframe]

/-- `allocFrame` takes a free frame if there is one. -/
theorem allocFrame_eq (h : p.freeSet.Nonempty) :
    ∃ frame ∈ p.freeSet, p.allocFrame = (frame * frameSize, p.take frame) := by
  obtain ⟨free, hfree⟩ := h
  obtain ⟨hlt, hclear⟩ := mem_clearBits.mp hfree
  unfold allocFrame
  cases hsearch : p.search p.totalFrames 0 with
  | none =>
    obtain ⟨j, hj, hpos⟩ := exists_position hlt
    have := search_none hsearch j hj
    rw [Nat.zero_add, hpos, hclear] at this
    cases this
  | some frame => exact ⟨frame, search_mem hsearch (by omega), rfl⟩

theorem allocFrame_of_freeSet_empty (h : p.freeSet = ∅) : p.allocFrame = (noFrame, p) := by
  unfold allocFrame
  cases hsearch : p.search p.totalFrames 0 with
  | none => rfl
  | some frame =>
    have hpos : 0 < p.totalFrames := by
      refine Nat.pos_of_ne_zero fun hzero => ?_
      rw [hzero] at hsearch
      cases hsearch
    have := search_mem hsearch hpos
    rw [h] at this
    cases this

@[simp] theorem freeSet_take : (p.take frame).freeSet = p.freeSet.erase frame := clearBits_setBit

theorem mem_of_mem_take {f : Nat} (h : f ∈ (p.take frame).freeSet) : f ∈ p.freeSet := by
  rw [freeSet_take] at h
  exact mem_of_mem_erase h

theorem testBit_of_not_mem_freeSet (hlt : frame < p.totalFrames) (h : frame ∉ p.freeSet) :
    testBit p.bitmap frame = true := by
  by_contra hclear
  exact h (mem_clearBits.mpr ⟨hlt, by simpa using hclear⟩)

theorem freeSet_init (highestAddress : Nat) (storage : Bytes) :
    (init highestAddress storage).freeSet = ∅ := by
  refine eq_empty_of_forall_notMem fun frame hframe => ?_
  obtain ⟨hlt, hclear⟩ := mem_clearBits.mp hframe
  have hbyte : (init highestAddress storage).bitmap (frame / 8) = 0xFF := by
    have hin : frame / 8 < bitmapSizeFor highestAddress := by
      simp only [init, bitmapSizeFor] at hlt ⊢
      omega
    have := overlay_of_lt (m := storage) (a := 0) (f := fun _ => 0xFF) hin
    rwa [Nat.zero_add] at this
  rw [testBit, hbyte, show (0xFF : UInt8).toNat = 2 ^ 8 - 1 by rfl,
    Nat.testBit_two_pow_sub_one] at hclear
  exact absurd (Nat.mod_lt frame (by omega)) (of_decide_eq_false hclear)

@[simp] theorem totalFrames_clearFrame : (p.clearFrame frame).totalFrames = p.totalFrames := by
  unfold clearFrame
  split <;> rfl

@[simp] theorem totalFrames_setFrame : (p.setFrame frame).totalFrames = p.totalFrames := by
  unfold setFrame
  split <;> rfl

theorem freeSet_clearFrame (hlt : frame < p.totalFrames) :
    (p.clearFrame frame).freeSet = insert frame p.freeSet := by
  unfold clearFrame
  split_ifs with hbit
  · exact clearBits_clearBit hlt
  · exact (insert_eq_of_mem (mem_clearBits.mpr ⟨hlt, by simpa using hbit⟩)).symm

theorem freeSet_setFrame : (p.setFrame frame).freeSet = p.freeSet.erase frame := by
  unfold setFrame
  split_ifs with hbit
  · refine (erase_eq_of_notMem fun hmem => ?_).symm
    rw [(mem_clearBits.mp hmem).2] at hbit
    cases hbit
  · exact clearBits_setBit

/-- The counter is exact, and small enough never to wrap. -/
structure Counted (p : Pmm) : Prop where
  used : p.usedFrames + p.freeSet.card = p.totalFrames
  total : p.totalFrames < 2 ^ 64

theorem Counted.init {highestAddress : Nat} (h : highestAddress < 2 ^ 64) (storage : Bytes) :
    (Pmm.init highestAddress storage).Counted where
  used := by rw [freeSet_init]; rfl
  total := (Nat.div_le_self _ _).trans_lt h

theorem Counted.clearFrame (h : p.Counted) (hlt : frame < p.totalFrames) :
    (p.clearFrame frame).Counted where
  total := by simpa using h.total
  used := by
    have hused := h.used
    have htotal := h.total
    rw [freeSet_clearFrame hlt, totalFrames_clearFrame]
    by_cases hbit : testBit p.bitmap frame = true
    · -- a set bit is one the counter counts, so it is positive
      have hnot : frame ∉ p.freeSet := fun hmem => by
        rw [(mem_clearBits.mp hmem).2] at hbit
        cases hbit
      have hroom : p.freeSet.card + 1 ≤ p.totalFrames := by
        rw [← card_insert_of_notMem hnot]
        refine (card_le_card (t := range p.totalFrames) fun i hi => ?_).trans_eq
          (card_range _)
        rcases mem_insert.mp hi with rfl | hi
        · exact mem_range.mpr hlt
        · exact mem_range.mpr (mem_clearBits.mp hi).1
      rw [card_insert_of_notMem hnot, Pmm.clearFrame, if_pos hbit]
      simp only [wrapSub, wrap]
      omega
    · have hmem : frame ∈ p.freeSet := mem_clearBits.mpr ⟨hlt, by simpa using hbit⟩
      rw [insert_eq_of_mem hmem, Pmm.clearFrame, if_neg hbit, hused]

theorem Counted.of_erase {p' : Pmm} (h : p.Counted) (hframe : frame ∈ p.freeSet)
    (hset : p'.freeSet = p.freeSet.erase frame) (htotal : p'.totalFrames = p.totalFrames)
    (hused : p'.usedFrames = p.usedFrames + 1) : p'.Counted where
  total := by rw [htotal]; exact h.total
  used := by
    have := h.used
    have := card_erase_add_one hframe
    rw [hset, htotal, hused]
    omega

theorem Counted.setFrame (h : p.Counted) (hlt : frame < p.totalFrames) :
    (p.setFrame frame).Counted := by
  by_cases hmem : frame ∈ p.freeSet
  · refine h.of_erase hmem freeSet_setFrame totalFrames_setFrame ?_
    have hused := h.used
    have htotal := h.total
    have hcard := card_pos.mpr ⟨frame, hmem⟩
    rw [Pmm.setFrame, if_neg (by simp [(mem_clearBits.mp hmem).2])]
    exact Nat.mod_eq_of_lt (by omega)
  · rw [Pmm.setFrame, if_pos (testBit_of_not_mem_freeSet hlt hmem)]
    exact h

theorem Counted.take (h : p.Counted) (hframe : frame ∈ p.freeSet) : (p.take frame).Counted :=
  h.of_erase hframe freeSet_take rfl rfl

section ForFrames

variable {step : Pmm → Nat → Pmm} {startFrame endFrame f : Nat} {frames : List Nat}

theorem mem_range'_frames (hf : f ∈ List.range' startFrame (min endFrame p.totalFrames - startFrame)) :
    startFrame ≤ f ∧ f < endFrame ∧ f < p.totalFrames := by
  have := List.mem_range'_1.mp hf
  omega

/-- What one pass of the loop keeps, the loop keeps; no pass changes the number of frames. -/
theorem forFrames_induct {inv : Pmm → Prop}
    (htotal : ∀ p f, (step p f).totalFrames = p.totalFrames)
    (hstep : ∀ p f, inv p → f < p.totalFrames → inv (step p f)) (h : inv p) :
    inv (p.forFrames step startFrame endFrame) := by
  have key : ∀ (frames : List Nat) (p : Pmm), inv p → (∀ f ∈ frames, f < p.totalFrames) →
      inv (frames.foldl step p) := by
    intro frames
    induction frames with
    | nil => exact fun p hp _ => hp
    | cons f rest ih =>
      intro p hp hmem
      refine ih _ (hstep p f hp (hmem f (List.mem_cons_self ..))) fun g hg => ?_
      rw [htotal]
      exact hmem g (List.mem_cons_of_mem _ hg)
  exact key _ p h fun f hf => (mem_range'_frames hf).2.2

theorem totalFrames_forFrames (htotal : ∀ p f, (step p f).totalFrames = p.totalFrames) :
    (p.forFrames step startFrame endFrame).totalFrames = p.totalFrames := by
  have hstep : ∀ q f, q.totalFrames = p.totalFrames → f < q.totalFrames →
      (step q f).totalFrames = p.totalFrames := fun q f hq _ => (htotal q f).trans hq
  exact forFrames_induct htotal hstep rfl

theorem mem_freeSet_foldl_clearFrame (hlt : ∀ f ∈ frames, f < p.totalFrames) :
    f ∈ (frames.foldl clearFrame p).freeSet ↔ f ∈ p.freeSet ∨ f ∈ frames := by
  induction frames generalizing p with
  | nil => simp
  | cons g rest ih =>
    have hg := hlt g (List.mem_cons_self ..)
    rw [List.foldl_cons, ih fun i hi => by simpa using hlt i (List.mem_cons_of_mem _ hi),
      freeSet_clearFrame hg, mem_insert, List.mem_cons]
    tauto

theorem mem_freeSet_foldl_setFrame :
    f ∈ (frames.foldl setFrame p).freeSet ↔ f ∈ p.freeSet ∧ f ∉ frames := by
  induction frames generalizing p with
  | nil => simp
  | cons g rest ih =>
    rw [List.foldl_cons, ih, freeSet_setFrame, mem_erase, List.mem_cons]
    tauto

/-- A frame is free after the loop that clears bits, or in its range. -/
theorem mem_freeSet_forFrames_clearFrame :
    f ∈ (p.forFrames clearFrame startFrame endFrame).freeSet ↔
      f ∈ p.freeSet ∨ startFrame ≤ f ∧ f < endFrame ∧ f < p.totalFrames := by
  rw [forFrames, mem_freeSet_foldl_clearFrame fun g hg => (mem_range'_frames hg).2.2,
    List.mem_range'_1]
  refine or_congr_right ⟨fun h => by omega, fun h => by omega⟩

theorem mem_freeSet_forFrames_setFrame :
    f ∈ (p.forFrames setFrame startFrame endFrame).freeSet ↔
      f ∈ p.freeSet ∧ ¬ (startFrame ≤ f ∧ f < endFrame) := by
  rw [forFrames, mem_freeSet_foldl_setFrame, List.mem_range'_1]
  refine and_congr_right fun hmem => not_congr ?_
  have := (mem_clearBits.mp hmem).1
  omega

end ForFrames

theorem Counted.markRegionFree (h : p.Counted) (base length : Nat) :
    (p.markRegionFree base length).Counted :=
  forFrames_induct (fun _ _ => totalFrames_clearFrame) (fun _ _ hq hlt => hq.clearFrame hlt) h

theorem Counted.markRegionUsed (h : p.Counted) (base length : Nat) :
    (p.markRegionUsed base length).Counted :=
  forFrames_induct (fun _ _ => totalFrames_setFrame) (fun _ _ hq hlt => hq.setFrame hlt) h

theorem Counted.freeFrame (h : p.Counted) (physAddress : Nat) :
    (p.freeFrame physAddress).Counted := by
  unfold Pmm.freeFrame
  split_ifs with hlt
  · exact h.clearFrame hlt
  · exact h

theorem totalFrames_freeFrame (physAddress : Nat) :
    (p.freeFrame physAddress).totalFrames = p.totalFrames := by
  unfold freeFrame
  split_ifs
  · exact totalFrames_clearFrame
  · rfl

theorem mem_freeSet_freeFrame {physAddress : Nat} :
    frame ∈ (p.freeFrame physAddress).freeSet ↔
      frame ∈ p.freeSet ∨ frame = physAddress / frameSize ∧ frame < p.totalFrames := by
  unfold freeFrame
  split_ifs with hlt
  · rw [freeSet_clearFrame hlt, mem_insert]
    constructor
    · rintro (rfl | hmem)
      · exact .inr ⟨rfl, hlt⟩
      · exact .inl hmem
    · rintro (hmem | ⟨rfl, -⟩)
      · exact .inr hmem
      · exact .inl rfl
  · refine ⟨.inl, ?_⟩
    rintro (hmem | ⟨rfl, hin⟩)
    · exact hmem
    · exact absurd hin hlt

end Pmm

end WengShiOS.Mm
