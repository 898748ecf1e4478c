import WengShiOS.Fs.Ext2.Image
import WengShiOS.Fs.Ext2.WellFormed

/-! # Checking an image

Well-formedness can be computed: the regions, the inodes in use and the blocks of each of
them are finite lists. An image that passes `Volume.check` is well formed. -/

namespace WengShiOS.Fs.Ext2

open Math Math.Prog Ext2.Geometry

/-! ### The geometry -/

namespace Geometry

variable (G : Geometry)

def regions : List Region :=
  .superblock :: ((List.range G.descriptorBlocks).map .descriptors ++
    ((List.range G.groupCount).map .blockBitmap ++ ((List.range G.groupCount).map .inodeBitmap ++
      (List.range G.groupCount).flatMap fun group =>
        (List.range G.tableBlocks).map (.inodeTable group))))

/-- The conditions of a valid geometry, over lists. -/
def check : Bool :=
  ((List.range 7).any fun k => G.blockSize = 1024 * 2 ^ k) &&
  G.firstDataBlock = 1024 / G.blockSize &&
  G.firstDataBlock < G.blocksCount && G.blocksCount < 2 ^ 32 &&
  0 < G.blockPerGroup && G.blockPerGroup ≤ 8 * G.blockSize &&
  0 < G.inodesPerGroup && G.inodesPerGroup ≤ 8 * G.blockSize &&
  128 ≤ G.inodeSize && G.blockSize % G.inodeSize = 0 &&
  0 < G.groupCount && G.firstDataBlock + (G.groupCount - 1) * G.blockPerGroup < G.blocksCount &&
  G.blocksCount ≤ G.firstDataBlock + G.groupCount * G.blockPerGroup &&
  G.groupCount * G.inodesPerGroup < 2 ^ 32 && G.inodesPerGroup * G.inodeSize < 2 ^ 32 &&
  (G.regions.all fun r => G.firstDataBlock ≤ G.regionBlock r && G.regionBlock r < G.blocksCount) &&
  (G.regions.map G.regionBlock).Nodup

variable {G}

theorem mem_regions {r : Region} : r ∈ G.regions ↔ G.HasRegion r := by
  unfold regions
  cases r <;> simp [HasRegion]

theorem valid_of_check (h : G.check = true) : G.Valid := by
  simp only [check, Bool.and_eq_true, decide_eq_true_eq, List.any_eq_true, List.mem_range,
    List.all_eq_true] at h
  obtain ⟨⟨⟨⟨⟨⟨⟨⟨⟨⟨⟨⟨⟨⟨⟨⟨⟨k, hk, hsize⟩, hfirst⟩, hlt⟩, hmax⟩, hbpg⟩, hbpg'⟩, hipg⟩, hipg'⟩, hino⟩,
    hdvd⟩, hgc⟩, hlast⟩, hend⟩, hinodes⟩, htable⟩, hinside⟩, hnodup⟩ := h
  refine ⟨⟨k, by omega, hsize⟩, hfirst, ⟨hlt, hmax⟩, ⟨hbpg, hbpg'⟩, ⟨hipg, hipg'⟩,
    ⟨hino, Nat.dvd_of_mod_eq_zero hdvd⟩, fun group => ?_, hinodes, htable,
    fun r hr => hinside r (mem_regions.mpr hr), fun r r' hr hr' heq => ?_⟩
  · constructor
    · intro hgroup
      have := Nat.mul_le_mul_right G.blockPerGroup (show group ≤ G.groupCount - 1 by omega)
      omega
    · intro hin
      by_contra hge
      have := Nat.mul_le_mul_right G.blockPerGroup (show G.groupCount ≤ group by omega)
      omega
  · exact List.inj_on_of_nodup_map hnodup (mem_regions.mpr hr) (mem_regions.mpr hr') heq

end Geometry

/-! ### The image -/

namespace Volume

variable (v : Volume)

/-- The slots of an inode that can refer to a block. -/
def slots (inode : Inode) : List Slot :=
  .table :: (List.range (if inode.block 12 = 0 then 12 else 12 + v.state.ptrsPerBlock)).map .data

/-- The blocks that an inode refers to. -/
def blocksOf (inode : Inode) : List Nat :=
  ((v.slots inode).filter fun s => v.slot inode s ≠ 0).map (v.slot inode)

/-- The inodes of files and directories. -/
def liveInodes : List Nat :=
  (List.range (v.geo.groupCount * v.geo.inodesPerGroup + 1)).filter fun i =>
    1 ≤ i && (i = rootInode || v.geo.firstIno ≤ i) && v.usedInode i &&
      ((v.inodeAt i).isDir || (v.inodeAt i).isReg)

/-- The inodes that the entries of a directory lead to. -/
def children (dir : Inode) : List Nat :=
  (List.range (v.state.numBlocks dir)).flatMap fun b =>
    if v.mapAt dir b = 0 then []
    else
      (Ext2.entries v.state.blockSize (v.block (v.mapAt dir b))).map
        (DirEntry.inode (v.block (v.mapAt dir b)))

def check : Bool :=
  v.geo.check &&
  (v.geo.regions.all fun r => v.used (v.geo.regionBlock r)) &&
  ((List.range v.geo.groupCount).all fun group => v.state.groupFreeBlocks group =
    ((List.range v.geo.blocksCount).filter fun b => v.geo.firstDataBlock ≤ b && !v.used b &&
      v.geo.groupOf b = group).length) &&
  rootInode ∈ v.liveInodes &&
  (v.liveInodes.all fun i => (v.blocksOf (v.inodeAt i)).all fun b =>
    v.geo.firstDataBlock ≤ b && b < v.geo.blocksCount && v.used b &&
      b ∉ v.geo.regions.map v.geo.regionBlock) &&
  (v.liveInodes.flatMap fun i => v.blocksOf (v.inodeAt i)).Nodup &&
  (v.liveInodes.all fun i => (v.inodeAt i).block 13 = 0 && (v.inodeAt i).block 14 = 0) &&
  (v.liveInodes.all fun i => !(v.inodeAt i).isDir ||
    (v.children (v.inodeAt i)).all fun k => k = 0 || k ∈ v.liveInodes)

variable {v}

theorem mem_liveInodes {i : Nat} : i ∈ v.liveInodes ↔ v.Live i := by
  simp only [liveInodes, List.mem_filter, List.mem_range, Bool.and_eq_true, Bool.or_eq_true,
    decide_eq_true_eq]
  constructor
  · rintro ⟨hlt, ⟨⟨hpos, hres⟩, hused⟩, hkind⟩
    exact ⟨⟨hpos, by omega⟩, hres, hused, hkind⟩
  · rintro ⟨⟨hpos, hle⟩, hres, hused, hkind⟩
    exact ⟨by omega, ⟨⟨hpos, hres⟩, hused⟩, hkind⟩

theorem mem_slots {inode : Inode} {s : Slot} (hs : v.slot inode s ≠ 0) : s ∈ v.slots inode := by
  unfold slots
  cases s with
  | table => exact List.mem_cons_self
  | data index =>
    have hin : index < if inode.block 12 = 0 then 12 else 12 + v.state.ptrsPerBlock := by
      by_contra hout
      refine hs ?_
      split_ifs at hout with h12
      · exact (if_neg hout).trans (if_pos (.inr h12))
      · exact mapAt_of_not_inRange hout
    simp [hin]

theorem mem_blocksOf {inode : Inode} {b : Nat} : b ∈ v.blocksOf inode ↔ v.IsOf inode b := by
  simp only [blocksOf, List.mem_map, List.mem_filter, decide_eq_true_eq]
  constructor
  · rintro ⟨s, ⟨-, hs⟩, rfl⟩
    exact ⟨s, hs, rfl⟩
  · rintro ⟨s, hs, rfl⟩
    exact ⟨s, ⟨mem_slots hs, hs⟩, rfl⟩

theorem slot_inj_of_nodup {inode : Inode} (h : (v.blocksOf inode).Nodup) {s t : Slot}
    (heq : v.slot inode s = v.slot inode t) (hs : v.slot inode s ≠ 0) : s = t := by
  have hmem : ∀ s, v.slot inode s ≠ 0 → s ∈ (v.slots inode).filter fun s => v.slot inode s ≠ 0 :=
    fun s hs => List.mem_filter.mpr ⟨mem_slots hs, by simpa using hs⟩
  exact List.inj_on_of_nodup_map h (hmem s hs) (hmem t (heq ▸ hs)) heq

/-- A name leads to one of the children. -/
theorem lookup_mem_children {dir : Inode} {name : CString} (hne : v.lookup dir name ≠ 0) :
    dir.isDir = true ∧ v.lookup dir name ∈ v.children dir := by
  have hloop : ∀ n b, v.lookupFrom dir name n b ≠ 0 → ∃ b' < b + n, v.mapAt dir b' ≠ 0 ∧
      ∃ offset ∈ Ext2.entries v.state.blockSize (v.block (v.mapAt dir b')),
        v.lookupFrom dir name n b = DirEntry.inode (v.block (v.mapAt dir b')) offset := by
    intro n
    induction n with
    | zero => exact fun _ h => absurd rfl h
    | succ n ih =>
      intro b h
      unfold lookupFrom at h ⊢
      split_ifs at h ⊢ with hzero
      · obtain ⟨b', hb', hrest⟩ := ih (b + 1) h
        exact ⟨b', by omega, hrest⟩
      · cases hfind : (Ext2.entries v.state.blockSize (v.block (v.mapAt dir b))).find?
          (isNamed (v.block (v.mapAt dir b)) name) with
        | none =>
          simp only [hfind] at h ⊢
          obtain ⟨b', hb', hrest⟩ := ih (b + 1) h
          exact ⟨b', by omega, hrest⟩
        | some offset =>
          exact ⟨b, by omega, hzero, offset, List.mem_of_find?_eq_some hfind, by simp only [hfind]⟩
  unfold lookup at hne ⊢
  split_ifs at hne ⊢ with hdir
  · refine ⟨hdir, ?_⟩
    obtain ⟨b, hb, hmap, offset, hoffset, heq⟩ := hloop _ _ hne
    rw [heq]
    refine List.mem_flatMap.mpr ⟨b, List.mem_range.mpr (by omega), ?_⟩
    rw [if_neg hmap]
    exact List.mem_map.mpr ⟨offset, hoffset, rfl⟩
  · exact absurd rfl hne

/-- **The check is sound.** -/
theorem consistent_of_check (h : v.check = true) : v.Consistent := by
  simp only [check, Bool.and_eq_true, decide_eq_true_eq, List.all_eq_true, Bool.or_eq_true,
    Bool.not_eq_true', List.mem_range] at h
  obtain ⟨⟨⟨⟨⟨⟨⟨hgeo, hreserved⟩, hcount⟩, hroot⟩, husable⟩, hnodup⟩, hsingle⟩, hentries⟩ := h
  obtain ⟨hnodup, hdisjoint⟩ := List.nodup_flatMap.mp hnodup
  refine ⟨⟨valid_of_check hgeo, ?_⟩, ?_, mem_liveInodes.mp hroot, ?_, ?_, ?_, ?_⟩
  · rintro b ⟨r, hr, rfl⟩
    exact hreserved r (mem_regions.mpr hr)
  · intro group hgroup
    rw [hcount group hgroup, ← List.toFinset_card_of_nodup (List.nodup_range.filter _)]
    congr 1
    ext b
    simp only [List.mem_toFinset, List.mem_filter, List.mem_range, Bool.and_eq_true,
      decide_eq_true_eq, Bool.not_eq_true', Finset.mem_filter, mem_freeBlocks, InVolume]
    constructor
    · rintro ⟨hlt, ⟨hle, hfree⟩, hgroup⟩
      exact ⟨⟨⟨hle, hlt⟩, hfree⟩, hgroup⟩
    · rintro ⟨⟨⟨hle, hlt⟩, hfree⟩, hgroup⟩
      exact ⟨hlt, ⟨hle, hfree⟩, hgroup⟩
  · intro i hi
    refine ⟨fun s hs => ?_, fun s t heq hs => ?_⟩
    · obtain ⟨⟨⟨hlo, hhi⟩, hused⟩, hmeta⟩ := husable i (mem_liveInodes.mpr hi) _
        (mem_blocksOf.mpr ⟨s, hs, rfl⟩)
      refine ⟨⟨hlo, hhi⟩, ?_, hused⟩
      rintro ⟨r, hr, heq⟩
      exact hmeta (List.mem_map.mpr ⟨r, mem_regions.mpr hr, heq⟩)
    · exact slot_inj_of_nodup (hnodup i (mem_liveInodes.mpr hi)) heq hs
  · intro i j hi hj hne b hb hb'
    have : Std.Symm (Function.onFun List.Disjoint fun i => v.blocksOf (v.inodeAt i)) :=
      ⟨fun _ _ h => h.symm⟩
    exact hdisjoint.forall (mem_liveInodes.mpr hi) (mem_liveInodes.mpr hj) hne
      (mem_blocksOf.mpr hb) (mem_blocksOf.mpr hb')
  · exact fun i hi => hsingle i (mem_liveInodes.mpr hi)
  · intro i hi name hne
    obtain ⟨hdir, hmem⟩ := lookup_mem_children hne
    rcases hentries i (mem_liveInodes.mpr hi) with hfile | hall
    · rw [hdir] at hfile
      cases hfile
    · exact mem_liveInodes.mp ((hall _ hmem).resolve_left hne)

end Volume

/-! ### A file in the small image -/

/-- The small image with a file `a` of ten bytes. -/
def fileVolume : Volume := mounted (fileDisk 10 [8] 8)

theorem fileVolume_consistent : fileVolume.Consistent :=
  Volume.consistent_of_check (by decide +kernel)

theorem fileVolume_live : fileVolume.Live 11 := Volume.mem_liveInodes.mp (by decide +kernel)

/-- The file `a`, opened. -/
def fileHandle : Handle := ⟨⟨11, fileVolume.inodeAt 11⟩, 10, false⟩

end WengShiOS.Fs.Ext2
