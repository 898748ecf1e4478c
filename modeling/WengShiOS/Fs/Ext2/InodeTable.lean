import WengShiOS.Fs.Ext2.Ownership

/-! # The inode table

Where an inode lies, and what reading and writing one does. In a valid geometry an inode
lies inside one block of the table of its group, and no two of them overlap, so writing
one changes no other. -/

namespace WengShiOS.Fs.Ext2

open Math Math.Prog Ext2.Geometry

namespace Geometry

variable (G : Geometry)

/-- The number belongs to an inode of the table. -/
def HasInode (i : Nat) : Prop := 1 ≤ i ∧ i ≤ G.groupCount * G.inodesPerGroup

def inodeGroup (i : Nat) : Nat := (i - 1) / G.inodesPerGroup

/-- The place of an inode in the table of its group, in bytes. -/
def inodeByte (i : Nat) : Nat := (i - 1) % G.inodesPerGroup * G.inodeSize

/-- The part of the table that the inode lies in. -/
def inodeRegion (i : Nat) : Region := .inodeTable (G.inodeGroup i) (G.inodeByte i / G.blockSize)

def inodeBlock (i : Nat) : Nat := G.regionBlock (G.inodeRegion i)

def inodeOffset (i : Nat) : Nat := G.inodeByte i % G.blockSize

end Geometry

section Location

variable {G : Geometry} (hG : G.Valid) {i j : Nat}
include hG

omit hG in
theorem Geometry.HasInode.inodeGroup_lt (hi : G.HasInode i) : G.inodeGroup i < G.groupCount := by
  refine Nat.div_lt_of_lt_mul ?_
  have := hi.1
  have := hi.2
  rw [Nat.mul_comm]
  omega

theorem Geometry.Valid.inodeByte_lt : G.inodeByte i + G.inodeSize ≤ G.inodesPerGroup * G.inodeSize := by
  have hlt : (i - 1) % G.inodesPerGroup < G.inodesPerGroup := Nat.mod_lt _ hG.inodesPerGroup.1
  calc G.inodeByte i + G.inodeSize = ((i - 1) % G.inodesPerGroup + 1) * G.inodeSize := by
        rw [Nat.add_mul, Nat.one_mul]
        rfl
    _ ≤ G.inodesPerGroup * G.inodeSize := Nat.mul_le_mul_right _ hlt

theorem Geometry.Valid.hasRegion_inode (hi : G.HasInode i) : G.HasRegion (G.inodeRegion i) := by
  refine ⟨hi.inodeGroup_lt, ?_⟩
  have hlt : G.inodeByte i + G.inodeSize ≤ G.inodesPerGroup * G.inodeSize := hG.inodeByte_lt
  have hsize := hG.inodeSize.1
  have hpos := hG.blockSize_pos
  unfold tableBlocks
  rw [Nat.div_lt_iff_lt_mul hpos]
  have := Nat.div_add_mod (G.inodesPerGroup * G.inodeSize + G.blockSize - 1) G.blockSize
  have := Nat.mod_lt (G.inodesPerGroup * G.inodeSize + G.blockSize - 1) hpos
  rw [Nat.mul_comm]
  omega

/-- An inode does not cross the end of its block. -/
theorem Geometry.Valid.inodeOffset_add : G.inodeOffset i + G.inodeSize ≤ G.blockSize := by
  obtain ⟨m, hm⟩ := hG.inodeSize.2
  have hpos := hG.blockSize_pos
  have hm0 : 0 < m := by
    rcases Nat.eq_zero_or_pos m with rfl | h
    · omega
    · exact h
  unfold inodeOffset inodeByte
  rw [hm, Nat.mul_comm _ G.inodeSize, Nat.mul_mod_mul_left]
  have hlt := Nat.mod_lt ((i - 1) % G.inodesPerGroup) hm0
  calc G.inodeSize * ((i - 1) % G.inodesPerGroup % m) + G.inodeSize
      = G.inodeSize * ((i - 1) % G.inodesPerGroup % m + 1) := by ring
    _ ≤ G.inodeSize * m := Nat.mul_le_mul_left _ hlt

/-- Two inodes in one block do not overlap. -/
theorem Geometry.Valid.inodes_apart (hi : G.HasInode i) (hj : G.HasInode j) (hne : i ≠ j)
    (hblock : G.inodeBlock i = G.inodeBlock j) :
    Apart (G.inodeOffset i) G.inodeSize (G.inodeOffset j) G.inodeSize := by
  have hregion := hG.apart _ _ (hG.hasRegion_inode hi) (hG.hasRegion_inode hj) hblock
  obtain ⟨hgroup, hdiv⟩ := Region.inodeTable.inj hregion
  -- in the same group the places in the table differ
  have hplace : (i - 1) % G.inodesPerGroup ≠ (j - 1) % G.inodesPerGroup := by
    intro hmod
    have h1 := Nat.div_add_mod (i - 1) G.inodesPerGroup
    have h2 := Nat.div_add_mod (j - 1) G.inodesPerGroup
    rw [show (i - 1) / G.inodesPerGroup = (j - 1) / G.inodesPerGroup from hgroup, hmod] at h1
    have := hi.1
    have := hj.1
    omega
  have hbyte : G.inodeByte i + G.inodeSize ≤ G.inodeByte j ∨
      G.inodeByte j + G.inodeSize ≤ G.inodeByte i := by
    rcases Nat.lt_or_gt_of_ne hplace with h | h
    · left
      have := Nat.mul_le_mul_right G.inodeSize h
      rwa [Nat.succ_mul] at this
    · right
      have := Nat.mul_le_mul_right G.inodeSize h
      rwa [Nat.succ_mul] at this
  have h1 := Nat.div_add_mod (G.inodeByte i) G.blockSize
  have h2 := Nat.div_add_mod (G.inodeByte j) G.blockSize
  rw [hdiv] at h1
  unfold Apart inodeOffset
  omega

end Location

/-! ### Reading and writing an inode -/

/-- The inode with a number, as it is on the disk. -/
def Volume.inodeAt (v : Volume) (i : Nat) : Inode :=
  window (v.block (v.geo.inodeBlock i)) (v.geo.inodeOffset i) inodeStructSize

section Inode

variable {v u : Volume} {i j : Nat} {inode : Inode} {trace : List Event}

theorem Volume.Ok.locateInode (hv : v.Ok) (hi : v.geo.HasInode i) :
    v.state.locateInode i = some (v.geo.inodeBlock i, v.geo.inodeOffset i) := by
  have hpos := hi.1
  have hgroup := hi.inodeGroup_lt
  have htable := hv.valid.tableSize
  have hbyte : v.geo.inodeByte i + v.geo.inodeSize ≤ _ := hv.valid.inodeByte_lt
  have hu32 : u32 (v.geo.inodeByte i) = v.geo.inodeByte i := Nat.mod_eq_of_lt (by omega)
  have hin := (hv.valid.inside _ (hv.valid.hasRegion_inode hi)).2
  have hmax := hv.valid.blocksCount.2
  have hblock : u32 (v.geo.inodeTable (v.geo.inodeGroup i) + v.geo.inodeByte i / v.geo.blockSize) =
      v.geo.inodeBlock i :=
    Nat.mod_eq_of_lt (show v.geo.regionBlock (v.geo.inodeRegion i) < 2 ^ 32 by omega)
  unfold FsInstance.locateInode
  rw [if_neg (by omega)]
  change (if v.geo.groupCount ≤ v.geo.inodeGroup i then none else
    some (u32 (v.geo.inodeTable (v.geo.inodeGroup i) + u32 (v.geo.inodeByte i) / v.geo.blockSize),
      u32 (v.geo.inodeByte i) % v.geo.blockSize)) = _
  rw [if_neg (by omega), hu32, hblock]
  rfl

/-- `inode_size` is at least the size of the structure. -/
theorem Volume.Ok.min_inodeSize (hv : v.Ok) :
    min inodeStructSize v.state.inodeSizeOr128 = inodeStructSize :=
  Nat.min_eq_left hv.valid.inodeSize.1

theorem runs_readInode (hv : v.Ok) (hi : v.geo.HasInode i) {r : Option Inode}
    (h : (readInode i).Runs v trace r u) :
    u = v ∧ (r = some (v.inodeAt i) ∨ r = none ∧ ¬ AllOk trace) := by
  refine ⟨(readInode_inherits readOnly_inherited i h).1, ?_⟩
  have hbody := runs_getState_bind.mp h
  rw [hv.locateInode hi] at hbody
  rcases runs_withBuffer.mp hbody with ⟨rfl, rfl, -⟩ | ⟨rest, rfl, hread⟩
  · exact .inr ⟨rfl, by simp⟩
  rcases runs_readBlock_bind.mp hread with ⟨last, rfl, hlast⟩ | ⟨last, rfl, hlast⟩
  · obtain ⟨-, rfl, -⟩ := runs_pure.mp hlast
    exact .inr ⟨rfl, by simp⟩
  · obtain ⟨-, rfl, -⟩ := runs_pure.mp hlast
    rw [hv.min_inodeSize]
    exact .inl rfl

/-- The volume after an inode was written. -/
def Volume.setInode (v : Volume) (i : Nat) (inode : Inode) : Volume :=
  v.setBlock (v.geo.inodeBlock i)
    (overlay (v.block (v.geo.inodeBlock i)) (v.geo.inodeOffset i) inodeStructSize inode)

theorem runs_writeInode (hv : v.Ok) (hi : v.geo.HasInode i) {ok : Bool}
    (h : (writeInode i inode).Runs v trace ok u) :
    (ok = true ∧ u = v.setInode i inode) ∨ (ok = false ∧ u = v ∧ ¬ AllOk trace) := by
  have hbody := runs_getState_bind.mp h
  rw [hv.locateInode hi] at hbody
  rcases runs_withBuffer.mp hbody with ⟨rfl, rfl, rfl⟩ | ⟨rest, rfl, hread⟩
  · exact .inr ⟨rfl, rfl, by simp⟩
  rcases runs_readBlock_bind.mp hread with ⟨last, rfl, hlast⟩ | ⟨last, rfl, hlast⟩
  · obtain ⟨-, rfl, rfl⟩ := runs_pure.mp hlast
    exact .inr ⟨rfl, rfl, by simp⟩
  · obtain ⟨rfl, rfl⟩ := runs_writeBlock.mp hlast
    cases ok with
    | false => exact .inr ⟨rfl, rfl, by simp⟩
    | true => exact .inl ⟨rfl, rfl⟩

theorem frame_setInode : Frame (· = v.geo.inodeBlock i) v (v.setInode i inode) := .setBlock rfl

section

variable (hv : v.Ok) (hi : v.geo.HasInode i)
include hv hi

/-- The inode table holds no accounting. -/
theorem Volume.Ok.inodeBlock_not_isAccounting :
    ¬ v.geo.IsAccounting (v.geo.inodeBlock i) := by
  have hregion := hv.valid.hasRegion_inode hi
  rintro ((h | ⟨k, hk, h⟩) | ⟨group, hgroup, h⟩)
  · cases hv.valid.apart _ .superblock hregion trivial h
  · cases hv.valid.apart _ (.descriptors k) hregion hk h
  · cases hv.valid.apart _ (.blockBitmap group) hregion hgroup h

theorem Volume.Ok.inodeBlock_isMetadata :
    v.geo.IsMetadata (v.geo.inodeBlock i) :=
  ⟨_, hv.valid.hasRegion_inode hi, rfl⟩

theorem Volume.Ok.inodeBlock_ne_bitmap {group : Nat} (hgroup : group < v.geo.groupCount) :
    v.geo.blockBitmap group ≠ v.geo.inodeBlock i := by
  intro h
  exact hv.inodeBlock_not_isAccounting hi (.inr ⟨group, hgroup, h.symm⟩)

/-- The inode that was written is on the disk, and the others are what they were. -/
theorem inodeAt_setInode (hj : v.geo.HasInode j) :
    (v.setInode i inode).inodeAt j =
      if j = i then window inode 0 inodeStructSize else v.inodeAt j := by
  have hend : ∀ k, v.geo.inodeOffset k + inodeStructSize ≤ v.blockBytes := by
    intro k
    have hlt : v.geo.inodeOffset k + v.geo.inodeSize ≤ v.geo.blockSize := hv.valid.inodeOffset_add
    have hsize := hv.valid.inodeSize.1
    rw [hv.blockBytes]
    change _ + 128 ≤ v.geo.blockSize
    omega
  change window ((v.setInode i inode).block (v.geo.inodeBlock j)) (v.geo.inodeOffset j) _ = _
  unfold Volume.setInode
  by_cases hblock : v.geo.inodeBlock j = v.geo.inodeBlock i
  · rw [hblock, Volume.block_setBlock_self, window_window (hend j), Nat.zero_add]
    split_ifs with heq
    · rw [heq, window_overlay_self]
    · have hapart := hv.valid.inodes_apart hi hj (Ne.symm heq) hblock.symm
      have hsize := hv.valid.inodeSize.1
      rw [window_overlay_of_apart (by unfold Apart inodeStructSize at *; omega), ← hblock]
      rfl
  · have hne : j ≠ i := fun h => hblock (h ▸ rfl)
    rw [Volume.block_setBlock_of_ne hblock, if_neg hne]
    rfl

end

end Inode

end WengShiOS.Fs.Ext2
