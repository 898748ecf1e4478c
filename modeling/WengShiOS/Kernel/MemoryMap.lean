import WengShiOS.Mm.FramePool

/-! # The frame pool at boot

`kernel_main` (`src/kernel/main.cpp`) builds the frame pool from the memory map of
the boot loader: all frames up to the highest available address are in use, the
available regions are released, and everything up to the end of the bitmap, which
lies behind the kernel image, is marked used again.

`allocFrame` can return a frame at some later time exactly if the frame is free then
(`mayReturn_iff`). Which frames are free depends on the regions only through the
numbers of their first and last frames; the last frame is always a whole one, the
first need not be. -/

namespace WengShiOS.Boot

open Math Mm Pmm Finset

/-- `Multiboot::MmapEntry` -/
structure MmapEntry where
  baseAddr : UInt64
  length : UInt64
  type : UInt32

def memoryAvailable : UInt32 := 1

structure StoredRegion where
  base : Nat
  length : Nat

def maxMmapRegions : Nat := 64

/-- `findHighestAddress`, with the global it updates. -/
def findHighestAddress (highest : Nat) (entry : MmapEntry) : Nat :=
  if entry.type = memoryAvailable then
    let regionEnd := wrap (entry.baseAddr.toNat + entry.length.toNat)
    if regionEnd > highest then regionEnd else highest
  else highest

def collectAvailableRegion (regions : List StoredRegion) (entry : MmapEntry) :
    List StoredRegion :=
  if entry.type = memoryAvailable ∧ regions.length < maxMmapRegions then
    regions ++ [⟨entry.baseAddr.toNat, entry.length.toNat⟩]
  else regions

def highestAddress (entries : List MmapEntry) : Nat := entries.foldl findHighestAddress 0

def availableRegions (entries : List MmapEntry) : List StoredRegion :=
  entries.foldl collectAvailableRegion []

/-- `(kernel_end_addr + 0xFFF) & ~0xFFF` -/
def bitmapAddr (kernelEnd : Nat) : Nat := wrap (kernelEnd + 0xFFF) / 4096 * 4096

/-- The address behind the bitmap. -/
def bitmapEnd (kernelEnd : Nat) (entries : List MmapEntry) : Nat :=
  wrap (bitmapAddr kernelEnd + Pmm.bitmapSizeFor (highestAddress entries))

/-- `g_pmm` after the lines of `kernel_main` that set it up. `storage` is the memory in
which the bitmap is placed. -/
def setupPmm (kernelEnd : Nat) (storage : Bytes) (entries : List MmapEntry) : Pmm :=
  let pmm := Pmm.init (highestAddress entries) storage
  let pmm := (availableRegions entries).foldl
    (fun p region => p.markRegionFree region.base region.length) pmm
  pmm.markRegionUsed 0 (bitmapEnd kernelEnd entries)

/-- After boot: frames are taken, and those that were handed out are given back. -/
def Later (s : FramePool) : PoolAction → Prop
  | .allocFrame => True
  | .freeFrame physAddress => physAddress.toNat / frameSize ∈ s.held
  | .init _ _ | .markRegionFree _ _ | .markRegionUsed _ _ => False

def runtime (boot : Pmm) : System FramePool PoolAction :=
  (System.ofNext FramePool.next fun s => s.pmm = boot ∧ s.held = ∅).restrict Later

/-- `allocFrame` returns the frame at some time after boot. -/
def MayReturn (boot : Pmm) (frame : Nat) : Prop :=
  ∃ s, (runtime boot).Reachable s ∧ s.pmm.allocFrame.1 = frame * frameSize

/-- Every byte of the frame lies in an available region of the map. -/
def InsideAvailable (entries : List MmapEntry) (frame : Nat) : Prop :=
  ∀ byte, byte / frameSize = frame → ∃ e ∈ entries, e.type = memoryAvailable ∧
    e.baseAddr.toNat ≤ byte ∧ byte < e.baseAddr.toNat + e.length.toNat

/-- The frame lies above the kernel image and the bitmap. -/
def AboveBitmap (kernelEnd : Nat) (entries : List MmapEntry) (frame : Nat) : Prop :=
  kernelEnd ≤ frame * frameSize ∧
    bitmapAddr kernelEnd + Pmm.bitmapSizeFor (highestAddress entries) ≤ frame * frameSize

/-- The first frame of a region that is released, unless it is marked used again, lies
in available regions. -/
def FirstFramesAvailable (kernelEnd : Nat) (entries : List MmapEntry) : Prop :=
  ∀ r ∈ availableRegions entries, r.base / frameSize < (r.base + r.length) / frameSize →
    bitmapEnd kernelEnd entries ≤ r.base / frameSize * frameSize →
    InsideAvailable entries (r.base / frameSize)

/-! ### What can be returned after boot -/

variable {boot : Pmm} {s : FramePool} {frame kernelEnd : Nat} {storage : Bytes}
  {entries : List MmapEntry}

theorem mem_freeSet_of_reachable (h : (runtime boot).Reachable s) :
    (∀ f ∈ s.pmm.freeSet, f ∈ boot.freeSet) ∧ ∀ f ∈ s.held, f ∈ boot.freeSet := by
  refine h.invariant
    (fun s => (∀ f ∈ s.pmm.freeSet, f ∈ boot.freeSet) ∧ ∀ f ∈ s.held, f ∈ boot.freeSet) ?_ ?_
  · rintro s ⟨rfl, hheld⟩
    refine ⟨fun _ => id, fun f hf => ?_⟩
    rw [hheld] at hf
    cases hf
  · rintro s a t ⟨hfree, hheld⟩ ⟨hlater, hstep⟩
    cases a with
    | allocFrame =>
      cases hstep
      by_cases hnonempty : s.pmm.freeSet.Nonempty
      · obtain ⟨g, hg, halloc⟩ := allocFrame_eq hnonempty
        simp only [halloc, freeSet_take]
        refine ⟨fun f hf => hfree f (mem_of_mem_erase hf), fun f hf => ?_⟩
        rcases hf with hf | hf
        · exact hheld f hf
        · exact Nat.eq_of_mul_eq_mul_right (by decide) hf ▸ hfree g hg
      · have hempty := not_nonempty_iff_eq_empty.mp hnonempty
        simp only [allocFrame_of_freeSet_empty hempty]
        refine ⟨hfree, fun f hf => ?_⟩
        rcases hf with hf | hf
        · exact hheld f hf
        · exact absurd hf (noFrame_ne f)
    | freeFrame physAddress =>
      cases hstep
      refine ⟨fun f hf => ?_, fun f hf => hheld f hf.1⟩
      rcases mem_freeSet_freeFrame.mp hf with hf | ⟨rfl, -⟩
      · exact hfree f hf
      · exact hheld _ hlater
    | init highestAddress storage => exact hlater.elim
    | markRegionFree base length => exact hlater.elim
    | markRegionUsed base length => exact hlater.elim

/-- Taking frames again and again returns every frame that is free. -/
theorem exists_reachable_alloc (h : (runtime boot).Reachable s) (hframe : frame ∈ s.pmm.freeSet) :
    ∃ t, (runtime boot).Reachable t ∧ t.pmm.allocFrame.1 = frame * frameSize := by
  obtain ⟨n, hn⟩ : ∃ n, n = s.pmm.freeSet.card := ⟨_, rfl⟩
  induction n generalizing s with
  | zero => exact absurd hframe (card_eq_zero.mp hn.symm ▸ notMem_empty _)
  | succ n ih =>
    obtain ⟨g, hg, halloc⟩ := allocFrame_eq ⟨frame, hframe⟩
    by_cases hgf : g = frame
    · exact ⟨s, h, by rw [halloc, hgf]⟩
    · refine ih (.step (a := .allocFrame) h ⟨trivial, rfl⟩) ?_ ?_
      · simpa only [halloc, freeSet_take] using mem_erase.mpr ⟨Ne.symm hgf, hframe⟩
      · have := card_erase_add_one hg
        simp only [halloc, freeSet_take]
        omega

theorem mayReturn_iff : MayReturn boot frame ↔ frame ∈ boot.freeSet := by
  constructor
  · rintro ⟨s, hs, hreturn⟩
    have hnonempty : s.pmm.freeSet.Nonempty := nonempty_iff_ne_empty.mpr fun hempty => by
      rw [allocFrame_of_freeSet_empty hempty] at hreturn
      exact noFrame_ne frame hreturn
    obtain ⟨g, hg, halloc⟩ := allocFrame_eq hnonempty
    rw [halloc] at hreturn
    exact Nat.eq_of_mul_eq_mul_right (by decide) hreturn ▸ (mem_freeSet_of_reachable hs).1 g hg
  · intro hframe
    exact exists_reachable_alloc (s := ⟨boot, ∅⟩) (.init ⟨rfl, rfl⟩) hframe

/-! ### What is free after boot -/

theorem findHighestAddress_lt {highest : Nat} (entry : MmapEntry) (h : highest < 2 ^ 64) :
    findHighestAddress highest entry < 2 ^ 64 := by
  have hwrap : wrap (entry.baseAddr.toNat + entry.length.toNat) < 2 ^ 64 :=
    Nat.mod_lt _ (by decide)
  unfold findHighestAddress
  dsimp only
  split_ifs
  · exact hwrap
  · exact h
  · exact h

theorem le_findHighestAddress (highest : Nat) (entry : MmapEntry) :
    highest ≤ findHighestAddress highest entry := by
  unfold findHighestAddress
  dsimp only
  split_ifs <;> omega

theorem highestAddress_lt : highestAddress entries < 2 ^ 64 :=
  List.foldlRecOn entries findHighestAddress (motive := (· < 2 ^ 64)) (by decide)
    fun _ h entry _ => findHighestAddress_lt entry h

/-- The end of an available region is at most the highest address. -/
theorem regionEnd_le_highestAddress {e : MmapEntry} (he : e ∈ entries)
    (havailable : e.type = memoryAvailable) :
    wrap (e.baseAddr.toNat + e.length.toNat) ≤ highestAddress entries := by
  have hmono : ∀ (l : List MmapEntry) (h : Nat), h ≤ l.foldl findHighestAddress h := by
    intro l h
    exact List.foldlRecOn l findHighestAddress (motive := (h ≤ ·)) le_rfl
      fun b hb entry _ => hb.trans (le_findHighestAddress b entry)
  obtain ⟨before, after, rfl⟩ := List.append_of_mem he
  rw [highestAddress, List.foldl_append, List.foldl_cons]
  refine le_trans ?_ (hmono after _)
  rw [findHighestAddress, if_pos havailable]
  dsimp only
  split_ifs <;> omega

/-- The stored regions are available regions of the map. -/
theorem exists_entry_of_mem_availableRegions {r : StoredRegion}
    (hr : r ∈ availableRegions entries) :
    ∃ e ∈ entries, e.type = memoryAvailable ∧ r = ⟨e.baseAddr.toNat, e.length.toNat⟩ := by
  refine List.foldlRecOn entries collectAvailableRegion
    (motive := fun regions => ∀ r ∈ regions, ∃ e ∈ entries, e.type = memoryAvailable ∧
      r = ⟨e.baseAddr.toNat, e.length.toNat⟩) (by simp) ?_ r hr
  intro regions ih entry hentry r hr
  unfold collectAvailableRegion at hr
  split_ifs at hr with hstore
  · rcases List.mem_append.mp hr with hr | hr
    · exact ih r hr
    · exact ⟨entry, hentry, hstore.1, by simpa using hr⟩
  · exact ih r hr

theorem mem_freeSet_releaseRegions {regions : List StoredRegion} {p : Pmm} :
    frame ∈ (regions.foldl (fun p r => p.markRegionFree r.base r.length) p).freeSet ↔
      frame ∈ p.freeSet ∨ ∃ r ∈ regions, r.base / frameSize ≤ frame ∧
        frame < wrap (r.base + r.length) / frameSize ∧ frame < p.totalFrames := by
  induction regions generalizing p with
  | nil => simp
  | cons r rest ih =>
    have htotal : (p.markRegionFree r.base r.length).totalFrames = p.totalFrames :=
      totalFrames_forFrames fun _ _ => totalFrames_clearFrame
    rw [List.foldl_cons, ih, htotal, markRegionFree, mem_freeSet_forFrames_clearFrame,
      or_assoc, List.exists_mem_cons_iff]

theorem bitmapEnd_eq (entries : List MmapEntry) (hkernel : kernelEnd < 2 ^ 32) :
    bitmapEnd kernelEnd entries =
        bitmapAddr kernelEnd + bitmapSizeFor (highestAddress entries) ∧
      kernelEnd ≤ bitmapAddr kernelEnd ∧ bitmapEnd kernelEnd entries + frameSize < 2 ^ 64 := by
  have hhighest : highestAddress entries < 2 ^ 64 := highestAddress_lt
  have haddr : bitmapAddr kernelEnd = (kernelEnd + 0xFFF) / 4096 * 4096 := by
    rw [bitmapAddr, wrap_of_lt (by omega)]
  have hsize : bitmapSizeFor (highestAddress entries) ≤ 2 ^ 50 := by
    simp only [bitmapSizeFor, frameSize]
    omega
  have hend : bitmapEnd kernelEnd entries =
      bitmapAddr kernelEnd + bitmapSizeFor (highestAddress entries) := by
    rw [bitmapEnd, wrap_of_lt (by omega)]
  refine ⟨hend, by omega, ?_⟩
  simp only [frameSize]
  omega

/-- A frame is free after boot if it is in the range of a stored region and above the
bitmap. -/
theorem mem_freeSet_setupPmm (hkernel : kernelEnd < 2 ^ 32)
    (hwrap : ∀ e ∈ entries, e.baseAddr.toNat + e.length.toNat < 2 ^ 64) :
    frame ∈ (setupPmm kernelEnd storage entries).freeSet ↔
      (∃ r ∈ availableRegions entries, r.base / frameSize ≤ frame ∧
        frame < (r.base + r.length) / frameSize) ∧
      bitmapEnd kernelEnd entries ≤ frame * frameSize := by
  obtain ⟨-, -, hend⟩ := bitmapEnd_eq entries hkernel
  have habove : ¬ (0 / frameSize ≤ frame ∧
      frame < wrap (0 + bitmapEnd kernelEnd entries + frameSize - 1) / frameSize) ↔
      bitmapEnd kernelEnd entries ≤ frame * frameSize := by
    rw [Nat.zero_add, wrap_of_lt (by omega)]
    simp only [frameSize]
    omega
  rw [setupPmm, markRegionUsed, mem_freeSet_forFrames_setFrame,
    mem_freeSet_releaseRegions, freeSet_init, habove]
  refine and_congr_left fun _ => ?_
  simp only [notMem_empty, false_or]
  refine exists_congr fun r => and_congr_right fun hr => and_congr_right fun _ => ?_
  obtain ⟨e, he, havailable, rfl⟩ := exists_entry_of_mem_availableRegions hr
  have hle := regionEnd_le_highestAddress he havailable
  rw [wrap_of_lt (hwrap e he)] at hle ⊢
  -- the number of frames is counted up to the highest end
  exact and_iff_left_of_imp fun hlt => hlt.trans_le (Nat.div_le_div_right hle)

/-- All frames of a region but the first lie inside it. -/
theorem insideAvailable_of_lt {r : StoredRegion} (hr : r ∈ availableRegions entries)
    (hstart : r.base / frameSize < frame) (hend : frame < (r.base + r.length) / frameSize) :
    InsideAvailable entries frame := by
  obtain ⟨e, he, havailable, rfl⟩ := exists_entry_of_mem_availableRegions hr
  intro byte hbyte
  refine ⟨e, he, havailable, ?_⟩
  simp only [frameSize] at *
  omega

/-- Every frame that can be returned after boot is whole available memory above the kernel
and the bitmap, if and only if this holds of the first frames of the regions. -/
theorem mayReturn_safe_iff (hkernel : kernelEnd < 2 ^ 32)
    (hwrap : ∀ e ∈ entries, e.baseAddr.toNat + e.length.toNat < 2 ^ 64) :
    (∀ frame, MayReturn (setupPmm kernelEnd storage entries) frame →
      InsideAvailable entries frame ∧ AboveBitmap kernelEnd entries frame) ↔
    FirstFramesAvailable kernelEnd entries := by
  obtain ⟨hend, hbelow, -⟩ := bitmapEnd_eq entries hkernel
  constructor
  · intro hsafe r hr hwhole habove
    refine (hsafe _ (mayReturn_iff.mpr ?_)).1
    exact (mem_freeSet_setupPmm hkernel hwrap).mpr ⟨⟨r, hr, le_rfl, hwhole⟩, habove⟩
  · intro hfirst frame hreturn
    obtain ⟨⟨r, hr, hstart, hlt⟩, habove⟩ :=
      (mem_freeSet_setupPmm hkernel hwrap).mp (mayReturn_iff.mp hreturn)
    refine ⟨?_, ?_, ?_⟩
    · rcases hstart.eq_or_lt with rfl | hinner
      · exact hfirst r hr hlt habove
      · exact insideAvailable_of_lt hr hinner hlt
    · omega
    · omega

/-- One megabyte of available memory above the kernel, and a reserved hole below it. -/
def alignedMap : List MmapEntry := [⟨0x100000, 0x100000, 2⟩, ⟨0x200000, 0x100000, memoryAvailable⟩]

theorem availableRegions_alignedMap : availableRegions alignedMap = [⟨0x200000, 0x100000⟩] := rfl

/-- The first frame of the available memory is handed out, and all that are handed out are safe. -/
theorem alignedMap_mayReturn_safe :
    MayReturn (setupPmm 0x150000 (fun _ => 0) alignedMap) 0x200 ∧
    ∀ frame, MayReturn (setupPmm 0x150000 (fun _ => 0) alignedMap) frame →
      InsideAvailable alignedMap frame ∧ AboveBitmap 0x150000 alignedMap frame := by
  constructor
  · refine mayReturn_iff.mpr ((mem_freeSet_setupPmm (by decide) (by decide)).mpr ⟨?_, ?_⟩)
    · exact ⟨⟨0x200000, 0x100000⟩, List.mem_singleton.mpr rfl, by decide, by decide⟩
    · decide
  · refine (mayReturn_safe_iff (by decide) (by decide)).mpr fun r hr _ _ byte hbyte => ?_
    rw [availableRegions_alignedMap, List.mem_singleton] at hr
    subst hr
    refine ⟨_, List.mem_cons_of_mem _ (List.mem_cons_self ..), rfl, ?_⟩
    simp only [frameSize, UInt64.reduceToNat] at hbyte ⊢
    omega

/-- The available memory starts in the middle of a frame. -/
def unalignedMap : List MmapEntry := [⟨0x200800, 0x10000, memoryAvailable⟩]

/-- The frame in whose middle the available memory starts can be returned. -/
theorem not_mayReturn_safe : ¬ ∀ frame,
    MayReturn (setupPmm 0x150000 (fun _ => 0) unalignedMap) frame →
      InsideAvailable unalignedMap frame ∧ AboveBitmap 0x150000 unalignedMap frame := by
  intro hsafe
  have hreturn : MayReturn (setupPmm 0x150000 (fun _ => 0) unalignedMap) 0x200 := by
    refine mayReturn_iff.mpr ((mem_freeSet_setupPmm (by decide) (by decide)).mpr ⟨?_, ?_⟩)
    · exact ⟨⟨0x200800, 0x10000⟩, List.mem_singleton.mpr rfl, by decide, by decide⟩
    · decide
  obtain ⟨e, he, -, hbase, -⟩ := (hsafe _ hreturn).1 0x200000 (by decide)
  obtain rfl := List.mem_singleton.mp he
  exact absurd hbase (by decide)

end WengShiOS.Boot
