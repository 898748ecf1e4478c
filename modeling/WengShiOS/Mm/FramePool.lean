import WengShiOS.Mm.HeapInvariant
import WengShiOS.Mm.Pmm

/-! # The frame pool over whole histories

Every sequence of calls of the physical memory manager, from the zeroed global
`g_pmm` on. Beside the manager the state keeps which frames are *held*: handed out
by `allocFrame` or part of a region that was marked used, and since then neither
passed to `freeFrame` nor covered by a region that was marked free. The manager
itself does not know this; it has to follow from its bitmap.

Regions are ranges of bytes: a frame belongs to a region that is marked used as
soon as one of its bytes does, and it is covered by a region that is marked free
only if all of its bytes are. -/

namespace WengShiOS.Mm

open Math Finset Pmm

/-- One of the bytes of the frame lies in the region. -/
def InRegion (base length frame : Nat) : Prop :=
  ∃ byte, base ≤ byte ∧ byte < base + length ∧ byte / frameSize = frame

/-- All bytes of the frame lie in the region. -/
def CoveredBy (base length frame : Nat) : Prop :=
  base ≤ frame * frameSize ∧ frame * frameSize + frameSize ≤ base + length

structure FramePool where
  pmm : Pmm
  held : Set Nat

/-- The calls, with arguments of the types they have. -/
inductive PoolAction
  | init (highestAddress : UInt64) (storage : Bytes)
  | markRegionFree (base length : UInt64)
  | markRegionUsed (base length : UInt64)
  | allocFrame
  | freeFrame (physAddress : UInt64)

namespace FramePool

variable {s s' : FramePool} {a : PoolAction}

def next (s : FramePool) : PoolAction → Option FramePool
  | .init highestAddress storage =>
    some { s with pmm := .init highestAddress.toNat storage }
  | .markRegionFree base length =>
    some { pmm := s.pmm.markRegionFree base.toNat length.toNat
           held := { f ∈ s.held | ¬ CoveredBy base.toNat length.toNat f } }
  | .markRegionUsed base length =>
    some { pmm := s.pmm.markRegionUsed base.toNat length.toNat
           held := s.held ∪ { f | InRegion base.toNat length.toNat f } }
  | .allocFrame =>
    some { pmm := s.pmm.allocFrame.2
           held := s.held ∪ { f | s.pmm.allocFrame.1 = f * frameSize } }
  | .freeFrame physAddress =>
    some { pmm := s.pmm.freeFrame physAddress.toNat
           held := s.held \ {physAddress.toNat / frameSize} }

/-- The global object before the first call: all fields are zero. -/
def Zeroed (s : FramePool) : Prop :=
  s.pmm.totalFrames = 0 ∧ s.pmm.usedFrames = 0 ∧ s.pmm.searchHint = 0 ∧ s.held = ∅

def system : System FramePool PoolAction := .ofNext next Zeroed

/-- The frames are counted exactly, and `allocFrame` finds a frame that is free and
that nobody holds unless all of them are in use. -/
structure Exact (s : FramePool) : Prop where
  used : s.pmm.usedFrames =
    ((Finset.range s.pmm.totalFrames).filter fun f => testBit s.pmm.bitmap f = true).card
  free : s.pmm.usedFrames + s.pmm.freeFrames = s.pmm.totalFrames
  exhausted : s.pmm.allocFrame.1 = noFrame ↔
    ∀ f < s.pmm.totalFrames, testBit s.pmm.bitmap f = true
  fresh : s.pmm.allocFrame.1 ≠ noFrame → ∃ f < s.pmm.totalFrames,
    s.pmm.allocFrame.1 = f * frameSize ∧ testBit s.pmm.bitmap f = false ∧ f ∉ s.held

/-- The end of a region that is marked used can be rounded up in 64 bits. -/
def RoundsUp : PoolAction → Prop
  | .markRegionUsed base length => base.toNat + length.toNat + frameSize - 1 < 2 ^ 64
  | _ => True

/-- A region that is marked free starts with a whole frame. -/
def Aligned : PoolAction → Prop
  | .markRegionFree base _ => base.toNat % frameSize = 0
  | _ => True

instance : DecidablePred RoundsUp
  | .markRegionUsed base length => Nat.decLt (base.toNat + length.toNat + frameSize - 1) (2 ^ 64)
  | .init _ _ | .markRegionFree _ _ | .allocFrame | .freeFrame _ => .isTrue trivial

instance : DecidablePred Aligned
  | .markRegionFree base _ => Nat.decEq (base.toNat % frameSize) 0
  | .init _ _ | .markRegionUsed _ _ | .allocFrame | .freeFrame _ => .isTrue trivial

/-! ### What the bitmap knows about the frames that are held -/

structure Inv (s : FramePool) : Prop where
  counted : s.pmm.Counted
  held : ∀ f ∈ s.held, f ∉ s.pmm.freeSet

theorem Inv.of_zeroed (h : s.Zeroed) : s.Inv := by
  obtain ⟨htotal, hused, -, hheld⟩ := h
  have hfree : s.pmm.freeSet = ∅ := by simp [freeSet, clearBits, htotal]
  refine ⟨⟨by rw [hfree, hused, htotal]; rfl, by omega⟩, fun f hf => ?_⟩
  rw [hheld] at hf
  cases hf

/-- The frames that become free are covered by a region that starts with a whole frame. -/
theorem coveredBy_of_mem {base length f : Nat} (haligned : base % frameSize = 0)
    (hstart : base / frameSize ≤ f) (hend : f < wrap (base + length) / frameSize) :
    CoveredBy base length f := by
  have hwrap : wrap (base + length) ≤ base + length := Nat.mod_le _ _
  unfold CoveredBy
  simp only [frameSize] at *
  omega

/-- The frames of a region are in the range that is marked used. -/
theorem mem_range_of_inRegion {base length f : Nat} (h : InRegion base length f)
    (hend : base + length + frameSize - 1 < 2 ^ 64) :
    base / frameSize ≤ f ∧ f < wrap (base + length + frameSize - 1) / frameSize := by
  obtain ⟨byte, hbase, hlt, rfl⟩ := h
  rw [wrap_of_lt hend]
  simp only [frameSize] at *
  omega

theorem Inv.allocFrame (inv : s.Inv) :
    s.pmm.allocFrame.2.Counted ∧ (∀ f ∈ s.held, f ∉ s.pmm.allocFrame.2.freeSet) ∧
      ∀ f, s.pmm.allocFrame.1 = f * frameSize → f ∉ s.pmm.allocFrame.2.freeSet := by
  by_cases hfree : s.pmm.freeSet.Nonempty
  · obtain ⟨frame, hframe, halloc⟩ := allocFrame_eq hfree
    rw [halloc]
    refine ⟨inv.counted.take hframe, fun f hf hmem => ?_, fun f hf hmem => ?_⟩
    · exact inv.held f hf (mem_of_mem_erase (freeSet_take ▸ hmem))
    · have hf : frame = f := Nat.eq_of_mul_eq_mul_right (by decide) hf
      rw [freeSet_take, hf] at hmem
      exact notMem_erase f _ hmem
  · have hempty := not_nonempty_iff_eq_empty.mp hfree
    rw [allocFrame_of_freeSet_empty hempty]
    refine ⟨inv.counted, inv.held, fun f _ => ?_⟩
    rw [hempty]
    exact notMem_empty f

/-- One call keeps the invariant, if it rounds the way it means to. -/
theorem Inv.next (inv : s.Inv) (hround : RoundsUp a) (haligned : Aligned a)
    (h : s.next a = some s') : s'.Inv := by
  cases a with
  | init highestAddress storage =>
    cases h
    refine ⟨.init highestAddress.toNat_lt storage, fun f _ => ?_⟩
    rw [freeSet_init]
    exact notMem_empty f
  | markRegionFree base length =>
    cases h
    refine ⟨inv.counted.markRegionFree _ _, fun f hf hmem => ?_⟩
    rcases mem_freeSet_forFrames_clearFrame.mp hmem with hmem | ⟨hstart, hend, -⟩
    · exact inv.held f hf.1 hmem
    · exact hf.2 (coveredBy_of_mem haligned hstart hend)
  | markRegionUsed base length =>
    cases h
    refine ⟨inv.counted.markRegionUsed _ _, fun f hf hmem => ?_⟩
    obtain ⟨hmem, hout⟩ := mem_freeSet_forFrames_setFrame.mp hmem
    rcases hf with hf | hf
    · exact inv.held f hf hmem
    · exact hout (mem_range_of_inRegion hf hround)
  | allocFrame =>
    cases h
    obtain ⟨hcounted, hheld, hnew⟩ := inv.allocFrame
    refine ⟨hcounted, fun f hf => ?_⟩
    rcases hf with hf | hf
    · exact hheld f hf
    · exact hnew f hf
  | freeFrame physAddress =>
    cases h
    refine ⟨inv.counted.freeFrame _, fun f hf hmem => ?_⟩
    rcases mem_freeSet_freeFrame.mp hmem with hmem | ⟨rfl, -⟩
    · exact inv.held f hf.1 hmem
    · exact hf.2 rfl

theorem Inv.exact (inv : s.Inv) : s.Exact := by
  have hused := inv.counted.used
  have htotal := inv.counted.total
  refine ⟨?_, ?_, ?_, fun hsome => ?_⟩
  · have hsplit := card_filter_add_card_filter_not (s := range s.pmm.totalFrames)
      (fun f => testBit s.pmm.bitmap f = true)
    simp only [Bool.not_eq_true, card_range] at hsplit
    have hfree : s.pmm.freeSet =
      (range s.pmm.totalFrames).filter fun f => testBit s.pmm.bitmap f = false := rfl
    rw [hfree] at hused
    omega
  · rw [freeFrames, wrapSub_of_le (by omega) htotal]
    omega
  · constructor
    · intro hnone f hlt
      refine testBit_of_not_mem_freeSet hlt fun hmem => ?_
      obtain ⟨frame, -, halloc⟩ := allocFrame_eq ⟨f, hmem⟩
      rw [halloc] at hnone
      exact noFrame_ne frame hnone.symm
    · intro hall
      have hempty : s.pmm.freeSet = ∅ := eq_empty_of_forall_notMem fun f hmem => by
        obtain ⟨hlt, hclear⟩ := mem_clearBits.mp hmem
        rw [hall f hlt] at hclear
        cases hclear
      rw [allocFrame_of_freeSet_empty hempty]
  · have hfree : s.pmm.freeSet.Nonempty := nonempty_iff_ne_empty.mpr fun hempty =>
      hsome (by rw [allocFrame_of_freeSet_empty hempty])
    obtain ⟨frame, hframe, halloc⟩ := allocFrame_eq hfree
    obtain ⟨hlt, hclear⟩ := mem_clearBits.mp hframe
    exact ⟨frame, hlt, by rw [halloc], hclear, fun hheld => inv.held frame hheld hframe⟩

/-- In every history whose regions are rounded the way the manager means to, frames are
handed out uniquely and completely. -/
theorem exact_of_rounded (h : (system.restrict fun _ a => RoundsUp a ∧ Aligned a).Reachable s) :
    s.Exact := by
  refine (h.invariant Inv (fun _ => .of_zeroed) ?_).exact
  rintro t a u inv ⟨⟨hround, haligned⟩, hstep⟩
  exact inv.next hround haligned hstep

/-! ### Histories -/

def zeroed : FramePool := ⟨⟨fun _ => 0, 0, 0, 0⟩, ∅⟩

theorem zeroed_zeroed : zeroed.Zeroed := ⟨rfl, rfl, rfl, rfl⟩

/-- Two of three frames are released and one of them is taken. -/
def takenRun : List PoolAction :=
  [.init 12288 fun _ => 0, .markRegionFree 0 10000, .markRegionUsed 0 100, .allocFrame]

theorem takenRun_isSome :
    (runActions (guarded next fun _ a => RoundsUp a ∧ Aligned a) zeroed takenRun).isSome := by
  decide +kernel

def takenState : FramePool :=
  (runActions (guarded next fun _ a => RoundsUp a ∧ Aligned a) zeroed takenRun).get takenRun_isSome

theorem takenState_exact : takenState.pmm.usedFrames = 3 ∧ takenState.Exact :=
  ⟨by decide +kernel, exact_of_rounded (reachable_get_guarded next zeroed_zeroed takenRun_isSome)⟩

/-- The region that is marked used ends less than a frame below `2 ^ 64`. -/
def wrapRun : List PoolAction :=
  [.init 8192 fun _ => 0, .markRegionFree 0 8192, .markRegionUsed 0 0xFFFFFFFFFFFFFFFF]

theorem wrapRun_isSome : (runActions (guarded next fun _ a => Aligned a) zeroed wrapRun).isSome := by
  decide +kernel

def wrapState : FramePool :=
  (runActions (guarded next fun _ a => Aligned a) zeroed wrapRun).get wrapRun_isSome

theorem wrapState_alloc : wrapState.pmm.allocFrame.1 = 0 := by decide +kernel

theorem wrapState_held : 0 ∈ wrapState.held := .inr ⟨0, by decide, by decide, by decide⟩

/-- The region that is marked free starts inside the second frame, which is in use. -/
def partialRun : List PoolAction :=
  [.init 12288 fun _ => 0, .markRegionUsed 0 5000, .markRegionFree 5000 4000]

theorem partialRun_isSome :
    (runActions (guarded next fun _ a => RoundsUp a) zeroed partialRun).isSome := by
  decide +kernel

def partialState : FramePool :=
  (runActions (guarded next fun _ a => RoundsUp a) zeroed partialRun).get partialRun_isSome

theorem partialState_alloc : partialState.pmm.allocFrame.1 = 1 * frameSize := by decide +kernel

theorem partialState_held : 1 ∈ partialState.held :=
  ⟨.inr ⟨4096, by decide, by decide, by decide⟩, fun h => absurd h.1 (by decide)⟩

/-- A frame that is held is handed out, after each of the two kinds of rounding. -/
theorem not_exact :
    (¬ ∀ s, (system.restrict fun _ a => Aligned a).Reachable s → s.Exact) ∧
      ¬ ∀ s, (system.restrict fun _ a => RoundsUp a).Reachable s → s.Exact := by
  refine ⟨fun h => ?_, fun h => ?_⟩
  · have hexact := h wrapState (reachable_get_guarded next zeroed_zeroed wrapRun_isSome)
    obtain ⟨f, -, hf, -, hheld⟩ := hexact.fresh (by rw [wrapState_alloc]; decide)
    rw [wrapState_alloc] at hf
    obtain rfl : f = 0 := by simp only [frameSize] at hf; omega
    exact hheld wrapState_held
  · have hexact := h partialState (reachable_get_guarded next zeroed_zeroed partialRun_isSome)
    obtain ⟨f, -, hf, -, hheld⟩ := hexact.fresh (by rw [partialState_alloc]; decide)
    rw [partialState_alloc] at hf
    obtain rfl : f = 1 := by simp only [frameSize] at hf; omega
    exact hheld partialState_held

end FramePool

end WengShiOS.Mm
