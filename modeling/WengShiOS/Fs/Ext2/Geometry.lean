import WengShiOS.Fs.Ext2.BlockMap

/-! # Well-formed volumes

What never changes while a volume is mounted is its geometry: the sizes, and where each
group has its bitmaps and its part of the inode table. The blocks that hold them, the
superblock and the group descriptors are the regions of the volume. In a valid geometry
no two of them share a block, and in a well-formed volume all of them are marked as used.

An allocation then finds a block that is neither part of a region nor in use, and it
changes nothing but the accounting: the bit, the descriptors and the superblock. -/

namespace WengShiOS.Fs.Ext2

open Math Math.Prog Volume FsInstance Finset

/-! ### Blocks -/

section Blocks

variable {v u w : Volume} {b b' : Nat} {data : Bytes}

theorem Volume.block_setBlock_of_ne (h : b' ≠ b) : (v.setBlock b data).block b' = v.block b' := by
  refine window_overlay_of_apart ?_
  rcases Nat.lt_or_gt_of_ne h with hlt | hgt
  · right
    calc sectorSize * (b' * v.sectorsPerBlock) + sectorSize * v.sectorsPerBlock
        = sectorSize * ((b' + 1) * v.sectorsPerBlock) := by ring
      _ ≤ sectorSize * (b * v.sectorsPerBlock) :=
        Nat.mul_le_mul_left _ (Nat.mul_le_mul_right _ hlt)
  · left
    calc sectorSize * (b * v.sectorsPerBlock) + sectorSize * v.sectorsPerBlock
        = sectorSize * ((b + 1) * v.sectorsPerBlock) := by ring
      _ ≤ sectorSize * (b' * v.sectorsPerBlock) :=
        Nat.mul_le_mul_left _ (Nat.mul_le_mul_right _ hgt)

theorem Volume.block_setBlock_self : (v.setBlock b data).block b = window data 0 v.blockBytes :=
  window_overlay_self

end Blocks

/-! ### Geometry -/

/-- What does not change while a volume is mounted. -/
@[ext] structure Geometry where
  blockSize : Nat
  groupCount : Nat
  blocksCount : Nat
  firstDataBlock : Nat
  blockPerGroup : Nat
  inodesPerGroup : Nat
  inodeSize : Nat
  firstIno : Nat
  blockBitmap : Nat → Nat
  inodeBitmap : Nat → Nat
  inodeTable : Nat → Nat

def FsInstance.geometry (fs : FsInstance) : Geometry where
  blockSize := fs.blockSize
  groupCount := fs.groupCount
  blocksCount := fs.blocksCount
  firstDataBlock := fs.firstDataBlock
  blockPerGroup := fs.blockPerGroup
  inodesPerGroup := fs.inodesPerGroup
  inodeSize := fs.inodeSizeOr128
  firstIno := fs.firstIno
  blockBitmap := fs.blockBitmap
  inodeBitmap := fs.inodeBitmap
  inodeTable := fs.inodeTable

/-- The parts of the volume that hold the file system's own data. -/
inductive Region
  | superblock
  | descriptors (i : Nat)
  | blockBitmap (group : Nat)
  | inodeBitmap (group : Nat)
  | inodeTable (group i : Nat)
  deriving DecidableEq

namespace Geometry

variable (G : Geometry)

/-- The blocks of the descriptor table. -/
def descriptorBlocks : Nat := (groupDescSize * G.groupCount + G.blockSize - 1) / G.blockSize

/-- The blocks of a group's part of the inode table. -/
def tableBlocks : Nat := (G.inodesPerGroup * G.inodeSize + G.blockSize - 1) / G.blockSize

def HasRegion : Region → Prop
  | .superblock => True
  | .descriptors i => i < G.descriptorBlocks
  | .blockBitmap group => group < G.groupCount
  | .inodeBitmap group => group < G.groupCount
  | .inodeTable group i => group < G.groupCount ∧ i < G.tableBlocks

def regionBlock : Region → Nat
  | .superblock => G.firstDataBlock
  | .descriptors i => G.firstDataBlock + 1 + i
  | .blockBitmap group => G.blockBitmap group
  | .inodeBitmap group => G.inodeBitmap group
  | .inodeTable group i => G.inodeTable group + i

/-- The block belongs to the file system itself. -/
def IsMetadata (b : Nat) : Prop := ∃ r, G.HasRegion r ∧ G.regionBlock r = b

/-- The block holds counters: it is the superblock or part of the descriptor table. -/
def IsCounters (b : Nat) : Prop :=
  b = G.firstDataBlock ∨ ∃ i < G.descriptorBlocks, b = G.firstDataBlock + 1 + i

/-- The sizes fit together, and the regions lie inside the volume and apart. -/
structure Valid : Prop where
  blockSize : ∃ k ≤ 6, G.blockSize = 1024 * 2 ^ k
  /-- the superblock, at byte 1024, lies in the first data block -/
  firstDataBlock : G.firstDataBlock = 1024 / G.blockSize
  blocksCount : G.firstDataBlock < G.blocksCount ∧ G.blocksCount < 2 ^ 32
  blockPerGroup : 0 < G.blockPerGroup ∧ G.blockPerGroup ≤ 8 * G.blockSize
  inodesPerGroup : 0 < G.inodesPerGroup ∧ G.inodesPerGroup ≤ 8 * G.blockSize
  inodeSize : 128 ≤ G.inodeSize ∧ G.inodeSize ∣ G.blockSize
  /-- every group has a block, and every block a group -/
  groupCount : ∀ group, group < G.groupCount ↔
    G.firstDataBlock + group * G.blockPerGroup < G.blocksCount
  inodesCount : G.groupCount * G.inodesPerGroup < 2 ^ 32
  tableSize : G.inodesPerGroup * G.inodeSize < 2 ^ 32
  inside : ∀ r, G.HasRegion r → G.firstDataBlock ≤ G.regionBlock r ∧ G.regionBlock r < G.blocksCount
  apart : ∀ r r', G.HasRegion r → G.HasRegion r' → G.regionBlock r = G.regionBlock r' → r = r'

/-- The group of a block and its bit there. -/
def groupOf (b : Nat) : Nat := (b - G.firstDataBlock) / G.blockPerGroup

def bitOf (b : Nat) : Nat := (b - G.firstDataBlock) % G.blockPerGroup

/-- A block of the volume. -/
def InVolume (b : Nat) : Prop := G.firstDataBlock ≤ b ∧ b < G.blocksCount

end Geometry

/-- The geometry of the volume. -/
abbrev Volume.geo (v : Volume) : Geometry := v.state.geometry

/-- The block is marked as used. -/
def Volume.used (v : Volume) (b : Nat) : Bool :=
  testBit (v.block (v.geo.blockBitmap (v.geo.groupOf b))) (v.geo.bitOf b)

/-- A volume that is laid out properly and whose metadata is marked as used. -/
structure Volume.Ok (v : Volume) : Prop where
  valid : v.geo.Valid
  reserved : ∀ b, v.geo.IsMetadata b → v.used b = true

section Valid

variable {G : Geometry} (hG : G.Valid)
include hG

theorem Geometry.Valid.blockSize_pos : 0 < G.blockSize := by
  obtain ⟨k, -, hk⟩ := hG.blockSize
  rw [hk]
  positivity

theorem Geometry.Valid.blockSize_le : G.blockSize ≤ 65536 := by
  obtain ⟨k, hle, hk⟩ := hG.blockSize
  have := Nat.pow_le_pow_right (show 0 < 2 by norm_num) hle
  omega

theorem Geometry.Valid.dvd_blockSize : 1024 ∣ G.blockSize := by
  obtain ⟨k, -, hk⟩ := hG.blockSize
  exact ⟨_, hk⟩

theorem Geometry.Valid.blockSize_dvd : G.blockSize ∣ 2 ^ 64 := by
  obtain ⟨k, hle, hk⟩ := hG.blockSize
  rw [hk, show (1024 : Nat) = 2 ^ 10 by norm_num, ← pow_add]
  exact pow_dvd_pow 2 (by omega)

theorem Geometry.Valid.inVolume_of_isMetadata {b : Nat} (hb : G.IsMetadata b) : G.InVolume b := by
  obtain ⟨r, hr, rfl⟩ := hb
  exact hG.inside r hr

/-- The blocks of a group are numbered by the group and the bit. -/
theorem Geometry.Valid.groupOf_add (group : Nat) {bit : Nat} (hbit : bit < G.blockPerGroup) :
    G.groupOf (G.firstDataBlock + group * G.blockPerGroup + bit) = group ∧
      G.bitOf (G.firstDataBlock + group * G.blockPerGroup + bit) = bit := by
  have hsub : G.firstDataBlock + group * G.blockPerGroup + bit - G.firstDataBlock =
      bit + group * G.blockPerGroup := by omega
  unfold Geometry.groupOf Geometry.bitOf
  rw [hsub, Nat.add_mul_div_right _ _ hG.blockPerGroup.1, Nat.add_mul_mod_self_right,
    Nat.div_eq_of_lt hbit, Nat.mod_eq_of_lt hbit, Nat.zero_add]
  exact ⟨rfl, rfl⟩

omit hG in
theorem Geometry.eq_groupOf_bitOf (G : Geometry) {b : Nat} (hb : G.InVolume b) :
    b = G.firstDataBlock + G.groupOf b * G.blockPerGroup + G.bitOf b := by
  have := Nat.div_add_mod (b - G.firstDataBlock) G.blockPerGroup
  have hle := hb.1
  unfold Geometry.groupOf Geometry.bitOf
  rw [Nat.mul_comm]
  omega

theorem Geometry.Valid.bitOf_lt (b : Nat) : G.bitOf b < G.blockPerGroup :=
  Nat.mod_lt _ hG.blockPerGroup.1

theorem Geometry.Valid.groupOf_lt {b : Nat} (hb : G.InVolume b) : G.groupOf b < G.groupCount := by
  have heq := G.eq_groupOf_bitOf hb
  have hlt := hb.2
  exact (hG.groupCount _).mpr (by omega)

end Valid

/-! ### Frames -/

/-- From `v` to `u` the geometry is kept, and nothing but the blocks of `S` changed. -/
structure Frame (S : Nat → Prop) (v u : Volume) : Prop where
  geo : u.geo = v.geo
  block : ∀ b, ¬ S b → u.block b = v.block b

namespace Frame

variable {S T : Nat → Prop} {v u w : Volume} {b : Nat} {data : Bytes}

theorem refl : Frame S v v := ⟨rfl, fun _ _ => rfl⟩

theorem trans (h : Frame S v u) (h' : Frame S u w) : Frame S v w where
  geo := h'.geo.trans h.geo
  block b hb := (h'.block b hb).trans (h.block b hb)

theorem mono (h : Frame S v u) (hST : ∀ b, S b → T b) : Frame T v u where
  geo := h.geo
  block b hb := h.block b fun hS => hb (hST b hS)

theorem setBlock (hb : S b) : Frame S v (v.setBlock b data) where
  geo := rfl
  block _ hb' := block_setBlock_of_ne fun h => hb' (h ▸ hb)

theorem blockSize (h : Frame S v u) : u.state.blockSize = v.state.blockSize :=
  congrArg Geometry.blockSize h.geo

end Frame

/-- The program, started on a volume of geometry `G`, changes nothing but the blocks of `S`. -/
def Framed {α : Type} (G : Geometry) (S : Nat → Prop) (p : Ext2M α) : Prop :=
  ∀ ⦃v trace r u⦄, Volume.geo v = G → p.Runs v trace r u → Frame S v u

namespace Framed

variable {α β : Type} {G : Geometry} {S : Nat → Prop} {p q : Ext2M α} {k : α → Ext2M β}

theorem of_readOnly (hp : ReadOnly p) : Framed G S p := by
  intro v trace r u _ h
  rw [(hp h).1]
  exact .refl

theorem pure (a : α) : Framed G S (pure a : Ext2M α) := .of_readOnly (.pure a)

theorem bind (hp : Framed G S p) (hk : ∀ a, Framed G S (k a)) : Framed G S (p >>= k) := by
  intro v trace r u hv h
  obtain ⟨first, rest, a, w, -, hfirst, hrest⟩ := runs_bind.mp h
  have hvw := hp hv hfirst
  exact hvw.trans (hk a (hvw.geo.trans hv) hrest)

theorem getState_bind {k : FsInstance → Ext2M β}
    (hk : ∀ fs : FsInstance, fs.geometry = G → Framed G S (k fs)) : Framed G S (getState >>= k) := by
  intro v trace r u hv h
  exact hk v.state hv hv (runs_getState_bind.mp h)

theorem putState {fs : FsInstance} (hfs : fs.geometry = G) : Framed G S (putState fs) := by
  intro v trace r u hv h
  obtain ⟨-, rfl⟩ := runs_putState.mp h
  have hsize : fs.blockSize = v.state.blockSize :=
    congrArg Geometry.blockSize (hfs.trans hv.symm)
  refine ⟨hfs.trans hv.symm, fun b _ => ?_⟩
  unfold block blockBytes sectorsPerBlock
  rw [hsize]

theorem ite {c : Prop} [Decidable c] (hp : Framed G S p) (hq : Framed G S q) :
    Framed G S (if c then p else q) := by
  split_ifs
  · exact hp
  · exact hq

theorem withBuffer {size : Nat} {failed : α} (hp : Framed G S p) :
    Framed G S (withBuffer size failed p) := by
  intro v trace r u hv h
  rcases runs_withBuffer.mp h with ⟨-, -, rfl⟩ | ⟨rest, -, hrun⟩
  · exact .refl
  · exact hp hv hrun

theorem writeBlock {b : Nat} {data : Bytes} (hb : S b) : Framed G S (writeBlock b data) := by
  intro v trace r u _ h
  obtain ⟨-, rfl⟩ := runs_writeBlock.mp h
  split_ifs
  · exact .setBlock hb
  · exact .refl

end Framed

/-! ### The accounting

The counters are not part of the geometry, and writing them back changes the superblock
and the descriptors only. -/

/-- Bytes 12 to 15 of a descriptor are its counters. -/
theorem FsInstance.geometry_setGroups (fs : FsInstance) (group : Nat) {at' value : Nat}
    (hlo : groupDescSize * group + 12 ≤ at') (hhi : at' + 2 ≤ groupDescSize * group + 16) :
    geometry { fs with groups := writeLE 2 fs.groups at' value } = fs.geometry := by
  simp only [groupDescSize] at hlo hhi
  ext1 <;> try rfl
  all_goals
    funext g
    refine readLE_writeLE_of_apart ?_
    simp only [Apart, groupDescSize]
    omega

/-- Bytes 12 to 19 of the superblock are its counters. -/
theorem FsInstance.geometry_setSb (fs : FsInstance) {at' value : Nat} (hlo : 12 ≤ at')
    (hhi : at' + 4 ≤ 20) :
    geometry { fs with sb := writeLE 4 fs.sb at' value } = fs.geometry := by
  have hread : ∀ k b, Apart at' 4 b k → readLE k (writeLE 4 fs.sb at' value) b = readLE k fs.sb b :=
    fun k b h => readLE_writeLE_of_apart h
  have hsize : inodeSize { fs with sb := writeLE 4 fs.sb at' value } = fs.inodeSize :=
    hread _ _ (by simp only [Apart]; omega)
  ext1 <;> try rfl
  case inodeSize =>
    change (if _ then _ else _) = inodeSizeOr128 fs
    rw [hsize]
    rfl
  all_goals
    refine hread _ _ ?_
    simp only [Apart]
    omega

theorem FsInstance.geometry_takeBlock (fs : FsInstance) (group : Nat) :
    (fs.takeBlock group).geometry = fs.geometry :=
  (geometry_setSb _ (by norm_num) (by norm_num)).trans (geometry_setGroups fs group le_rfl (by omega))

section Counters

variable {G : Geometry} (hG : G.Valid)
include hG

/-- The sectors of the superblock are part of the first data block. -/
theorem writeSuperblock_framed : Framed G G.IsCounters writeSuperblock := by
  refine .getState_bind fun fs _ => ?_
  intro v trace r u hv h
  obtain ⟨-, rfl⟩ := runs_writeSectors.mp h
  cases r with
  | false => exact .refl
  | true =>
    refine ⟨rfl, fun b hb => window_overlay_of_apart ?_⟩
    have hne : b ≠ G.firstDataBlock := fun h => hb (.inl h)
    have hsize : v.state.blockSize = G.blockSize := congrArg Geometry.blockSize hv
    obtain ⟨k, -, hk⟩ := hG.blockSize
    have hfirst := hG.firstDataBlock
    -- the block begins at `2 ^ k` times 1024 bytes
    have hstart : sectorSize * (b * v.sectorsPerBlock) = 1024 * (b * 2 ^ k) ∧
        v.blockBytes = 1024 * 2 ^ k := by
      have hspb : v.sectorsPerBlock = 2 * 2 ^ k := by
        unfold sectorsPerBlock
        rw [hsize, hk, sectorSize]
        omega
      unfold blockBytes
      rw [hspb, sectorSize]
      constructor <;> ring
    obtain ⟨hstart, hbytes⟩ := hstart
    change Apart (sectorSize * 2) (sectorSize * (superblockSize / sectorSize))
      (sectorSize * (b * v.sectorsPerBlock)) v.blockBytes
    rw [hstart, hbytes]
    simp only [Apart, sectorSize, superblockSize]
    rw [hk] at hfirst
    rcases Nat.eq_zero_or_pos k with rfl | hpos
    · omega
    · have htwo : 2 ≤ 2 ^ k := by
        calc 2 = 2 ^ 1 := rfl
          _ ≤ 2 ^ k := Nat.pow_le_pow_right (by norm_num) hpos
      rw [Nat.div_eq_of_lt (by omega)] at hfirst
      have hb1 : 1 ≤ b := by omega
      have := Nat.mul_le_mul hb1 htwo
      omega

theorem writeDescriptorBlocks_framed {fs : FsInstance} (hfs : fs.geometry = G) (buf : Bytes)
    (n i : Nat) (hn : i + n ≤ G.descriptorBlocks) :
    Framed G G.IsCounters (writeDescriptorBlocks fs.bgdtBlock buf fs.blockSize n i) := by
  induction n generalizing i with
  | zero => exact .pure _
  | succ n ih =>
    refine .bind (.writeBlock (.inr ⟨i, by omega, ?_⟩)) fun ok => .ite (ih (i + 1) (by omega)) (.pure _)
    have hfirst : fs.firstDataBlock = G.firstDataBlock := congrArg Geometry.firstDataBlock hfs
    have hin : G.firstDataBlock + 1 + i < G.blocksCount :=
      (hG.inside (.descriptors i) (show i < _ by omega)).2
    have hmax := hG.blocksCount.2
    unfold bgdtBlock u32
    rw [hfirst]
    omega

theorem writeGroupDescriptors_framed : Framed G G.IsCounters writeGroupDescriptors := by
  refine .getState_bind fun fs hfs => .withBuffer (writeDescriptorBlocks_framed hG hfs _ _ 0 ?_)
  have hsize : fs.blockSize = G.blockSize := congrArg Geometry.blockSize hfs
  have hcount : fs.groupCount = G.groupCount := congrArg Geometry.groupCount hfs
  rw [Nat.zero_add]
  unfold bgdtBlocksNeeded bgdtBytes Geometry.descriptorBlocks u32
  rw [hsize, hcount]
  refine Nat.div_le_div_right ((Nat.mod_le _ _).trans ?_)
  have := Nat.mod_le (groupDescSize * G.groupCount) (2 ^ 32)
  omega

theorem updateCounters_framed {update : FsInstance → FsInstance}
    (hupdate : ∀ fs, (update fs).geometry = fs.geometry) :
    Framed G G.IsCounters (updateCounters update) :=
  .getState_bind fun _ hfs => .bind (.putState ((hupdate _).trans hfs)) fun _ =>
    .bind (writeGroupDescriptors_framed hG) fun _ =>
      .bind (writeSuperblock_framed hG) fun _ => .pure _

end Counters

/-! ### Taking and giving back a block -/

/-- The first clear bit is clear and among those that were searched. -/
theorem findClear_some {bitmap : Bytes} {n i bit : Nat} (h : findClear bitmap n i = some bit) :
    i ≤ bit ∧ bit < i + n ∧ testBit bitmap bit = false := by
  induction n generalizing i with
  | zero => cases h
  | succ n ih =>
    rw [findClear] at h
    split_ifs at h with hbit
    · obtain ⟨hlo, hhi, hclear⟩ := ih h
      exact ⟨by omega, by omega, hclear⟩
    · cases h
      exact ⟨le_rfl, by omega, by simpa using hbit⟩

/-- If none is found, all of them are set. -/
theorem findClear_none {bitmap : Bytes} {n i bit : Nat} (h : findClear bitmap n i = none)
    (hlo : i ≤ bit) (hhi : bit < i + n) : testBit bitmap bit = true := by
  induction n generalizing i with
  | zero => omega
  | succ n ih =>
    rw [findClear] at h
    split_ifs at h with hbit
    rcases Nat.eq_or_lt_of_le hlo with rfl | hlt
    · exact hbit
    · exact ih h hlt (by omega)

/-- The block holds counters or a bitmap of blocks. -/
def Geometry.IsAccounting (G : Geometry) (b : Nat) : Prop :=
  G.IsCounters b ∨ ∃ group < G.groupCount, b = G.blockBitmap group

theorem Geometry.IsAccounting.isMetadata {G : Geometry} {b : Nat} (h : G.IsAccounting b) :
    G.IsMetadata b := by
  rcases h with (rfl | ⟨i, hi, rfl⟩) | ⟨group, hgroup, rfl⟩
  · exact ⟨.superblock, trivial, rfl⟩
  · exact ⟨.descriptors i, hi, rfl⟩
  · exact ⟨.blockBitmap group, hgroup, rfl⟩

section Bitmaps

variable {v u w : Volume} {G : Geometry} {group bit b : Nat}

/-- The bitmap of a group holds no counters. -/
theorem Geometry.Valid.bitmap_not_isCounters (hG : G.Valid) (hgroup : group < G.groupCount) :
    ¬ G.IsCounters (G.blockBitmap group) := by
  rintro (h | ⟨i, hi, h⟩)
  · cases hG.apart (.blockBitmap group) .superblock hgroup trivial h
  · cases hG.apart (.blockBitmap group) (.descriptors i) hgroup hi h

theorem Geometry.Valid.bitmap_inj (hG : G.Valid) {group' : Nat} (hgroup : group < G.groupCount)
    (hgroup' : group' < G.groupCount) (h : G.blockBitmap group = G.blockBitmap group') :
    group = group' := by
  cases hG.apart (.blockBitmap group) (.blockBitmap group') hgroup hgroup' h
  rfl

/-- The bytes of a block are those the device transfers. -/
theorem Volume.Ok.blockBytes (hv : v.Ok) : v.blockBytes = v.state.blockSize := by
  obtain ⟨m, hm⟩ := hv.valid.dvd_blockSize
  change v.state.blockSize = 1024 * m at hm
  unfold Volume.blockBytes Volume.sectorsPerBlock sectorSize
  omega

/-- A bitmap that is written back is read as it was written, as far as it has bits. -/
theorem testBit_block_setBlock (hv : v.Ok) {bitmap : Bytes} (hbit : bit < v.geo.blockPerGroup) :
    testBit ((v.setBlock b bitmap).block b) bit = testBit bitmap bit := by
  have hle : v.geo.blockPerGroup ≤ 8 * v.state.blockSize := hv.valid.blockPerGroup.2
  have hlt : bit / 8 < v.blockBytes := by
    rw [hv.blockBytes]
    omega
  rw [block_setBlock_self]
  unfold testBit
  rw [window_of_lt hlt, Nat.zero_add]

variable {S : Nat → Prop}

/-- Whether a block is used depends on the bitmap of its group only. -/
theorem Frame.used (h : Frame S v u) (hb : ¬ S (v.geo.blockBitmap (v.geo.groupOf b))) :
    u.used b = v.used b := by
  unfold Volume.used
  rw [h.geo, h.block _ hb]

section

variable (h : Frame S v u) (hv : v.Ok)
  (hS : ∀ group < v.geo.groupCount, ¬ S (v.geo.blockBitmap group))
include h hv hS

/-- If no bitmap of blocks changes, the same blocks are used. -/
theorem Frame.used_eq (hb : v.geo.InVolume b) :
    u.used b = v.used b :=
  h.used (hS _ (hv.valid.groupOf_lt hb))

theorem Frame.ok : u.Ok where
  valid := h.geo ▸ hv.valid
  reserved b hb := by
    rw [h.geo] at hb
    rw [h.used_eq hv hS (hv.valid.inVolume_of_isMetadata hb)]
    exact hv.reserved b hb

end

/-- The bitmap of a group has been changed to `bitmap`, and the counters to anything. -/
theorem used_of_setBlock (hv : v.Ok) (hgroup : group < v.geo.groupCount) {bitmap : Bytes}
    (h : Frame v.geo.IsCounters (v.setBlock (v.geo.blockBitmap group) bitmap) u)
    (hb : v.geo.InVolume b) :
    u.used b = if v.geo.groupOf b = group then testBit bitmap (v.geo.bitOf b) else v.used b := by
  have hlt := hv.valid.groupOf_lt hb
  rw [h.used (hv.valid.bitmap_not_isCounters hlt)]
  unfold used
  change testBit ((v.setBlock (v.geo.blockBitmap group) bitmap).block
    (v.geo.blockBitmap (v.geo.groupOf b))) (v.geo.bitOf b) = _
  split_ifs with hg
  · rw [hg]
    exact testBit_block_setBlock hv (hv.valid.bitOf_lt b)
  · rw [block_setBlock_of_ne fun h => hg (hv.valid.bitmap_inj hlt hgroup h)]

end Bitmaps

/-- The blocks that are not used. -/
def Volume.freeBlocks (v : Volume) : Finset Nat :=
  (Finset.range v.geo.blocksCount).filter fun b => v.geo.firstDataBlock ≤ b ∧ v.used b = false

/-- The counter of every group is the number of its free blocks. -/
def Volume.Counted (v : Volume) : Prop :=
  ∀ group < v.geo.groupCount, v.state.groupFreeBlocks group =
    (v.freeBlocks.filter fun b => v.geo.groupOf b = group).card

/-- From `v` to `u` the block `b`, which was free, has been taken. -/
structure Took (v : Volume) (b : Nat) (u : Volume) : Prop where
  frame : Frame v.geo.IsAccounting v u
  inVolume : v.geo.InVolume b
  free : v.used b = false
  used : ∀ b', v.geo.InVolume b' → u.used b' = (decide (b' = b) || v.used b')
  count : ∀ group, u.state.groupFreeBlocks group =
    if group = v.geo.groupOf b then v.state.groupFreeBlocks group - 1
    else v.state.groupFreeBlocks group

section Took

variable {v u w : Volume} {b : Nat} {trace : List Event}

theorem Volume.mem_freeBlocks : b ∈ v.freeBlocks ↔ v.geo.InVolume b ∧ v.used b = false := by
  rw [freeBlocks, mem_filter, mem_range]
  unfold Geometry.InVolume
  tauto

section

variable (h : Took v b u)
include h

theorem Took.ok (hv : v.Ok) : u.Ok where
  valid := h.frame.geo ▸ hv.valid
  reserved b' hb' := by
    rw [h.frame.geo] at hb'
    rw [h.used _ (hv.valid.inVolume_of_isMetadata hb'), hv.reserved _ hb', Bool.or_true]

theorem Took.not_isMetadata (hv : v.Ok) : ¬ v.geo.IsMetadata b := by
  intro hb
  have := h.free
  rw [hv.reserved b hb] at this
  cases this

theorem Took.mono {b' : Nat} (hb' : v.geo.InVolume b') (hused : v.used b' = true) :
    u.used b' = true := by
  rw [h.used b' hb', hused, Bool.or_true]

/-- Block 0 is never free: it is outside the volume, or the superblock lies in it. -/
theorem Took.ne_zero (hv : v.Ok) : b ≠ 0 := by
  rintro rfl
  have hfirst : v.geo.firstDataBlock = 0 := Nat.le_zero.mp h.inVolume.1
  exact h.not_isMetadata hv ⟨.superblock, trivial, hfirst⟩

theorem Took.mem_freeBlocks : b ∈ v.freeBlocks :=
  Volume.mem_freeBlocks.mpr ⟨h.inVolume, h.free⟩

theorem Took.freeBlocks : u.freeBlocks = v.freeBlocks.erase b := by
  ext b'
  rw [Finset.mem_erase, Volume.mem_freeBlocks, Volume.mem_freeBlocks, h.frame.geo]
  constructor
  · rintro ⟨hin, hfree⟩
    rw [h.used b' hin, Bool.or_eq_false_iff, decide_eq_false_iff_not] at hfree
    exact ⟨hfree.1, hin, hfree.2⟩
  · rintro ⟨hne, hin, hfree⟩
    rw [h.used b' hin, hfree, decide_eq_false hne]
    exact ⟨hin, rfl⟩

theorem Took.card_freeBlocks : u.freeBlocks.card + 1 = v.freeBlocks.card := by
  rw [h.freeBlocks]
  exact card_erase_add_one h.mem_freeBlocks

theorem Took.counted (hcount : v.Counted) : u.Counted := by
  intro group hgroup
  rw [h.frame.geo] at hgroup ⊢
  rw [h.count group, h.freeBlocks, hcount group hgroup, filter_erase]
  split_ifs with hg
  · rw [card_erase_of_mem (mem_filter.mpr ⟨h.mem_freeBlocks, hg.symm⟩)]
  · rw [erase_eq_of_notMem fun hmem => hg (mem_filter.mp hmem).2.symm]

end

/-- `blocks_in_group` is the number of blocks that the group has. -/
theorem Volume.Ok.blocksInGroup (hv : v.Ok) {group : Nat} (hgroup : group < v.geo.groupCount) :
    v.state.blocksInGroup group =
      min (v.geo.blocksCount - v.geo.firstDataBlock - group * v.geo.blockPerGroup)
        v.geo.blockPerGroup := by
  have hlt := (hv.valid.groupCount group).mp hgroup
  have hmax := hv.valid.blocksCount.2
  change (if u32Sub (u32Sub v.geo.blocksCount v.geo.firstDataBlock)
      (u32 (group * v.geo.blockPerGroup)) < v.geo.blockPerGroup
    then u32Sub (u32Sub v.geo.blocksCount v.geo.firstDataBlock) (u32 (group * v.geo.blockPerGroup))
    else v.geo.blockPerGroup) = _
  have htotal : u32Sub v.geo.blocksCount v.geo.firstDataBlock =
      v.geo.blocksCount - v.geo.firstDataBlock := by
    unfold u32Sub u32
    omega
  have hrest : u32Sub (v.geo.blocksCount - v.geo.firstDataBlock)
      (u32 (group * v.geo.blockPerGroup)) =
        v.geo.blocksCount - v.geo.firstDataBlock - group * v.geo.blockPerGroup := by
    unfold u32Sub u32
    omega
  rw [htotal, hrest]
  split_ifs <;> omega

/-- The block that the allocator has claimed. -/
theorem took_of_claims (hv : v.Ok) {group bit : Nat} {rest : List Event}
    (h : blockAllocator.Claims v group bit rest u) :
    Took v (blockAllocator.number v.state group bit) u := by
  have hgroup : group < v.geo.groupCount := h.group
  obtain ⟨-, hlimit, hclear⟩ := findClear_some h.found
  change bit < 0 + v.state.blocksInGroup group at hlimit
  rw [hv.blocksInGroup hgroup] at hlimit
  have hmax := hv.valid.blocksCount.2
  have hbit : bit < v.geo.blockPerGroup := by omega
  have hnumber : blockAllocator.number v.state group bit =
      v.geo.firstDataBlock + group * v.geo.blockPerGroup + bit :=
    Nat.mod_eq_of_lt (show v.geo.firstDataBlock + group * v.geo.blockPerGroup + bit < 2 ^ 32 by omega)
  have hin : v.geo.InVolume (v.geo.firstDataBlock + group * v.geo.blockPerGroup + bit) :=
    ⟨by omega, by omega⟩
  obtain ⟨hgroupOf, hbitOf⟩ := hv.valid.groupOf_add group hbit
  have hframe : Frame v.geo.IsCounters
      (v.setBlock (v.geo.blockBitmap group) (setBit (v.block (v.geo.blockBitmap group)) bit)) u :=
    updateCounters_framed hv.valid (fun fs => fs.geometry_takeBlock group) rfl h.update
  rw [hnumber]
  refine ⟨?_, hin, ?_, fun b' hb' => ?_, fun g => ?_⟩
  · exact (Frame.setBlock (.inr ⟨group, hgroup, rfl⟩)).trans (hframe.mono fun _ => .inl)
  · unfold used
    rw [hgroupOf, hbitOf]
    exact hclear
  · rw [used_of_setBlock hv hgroup hframe hb']
    split_ifs with hg
    · -- in the group the bit tells the blocks apart
      rw [testBit_setBit]
      congr 1
      · refine decide_eq_decide.mpr ⟨?_, ?_⟩
        · intro hbit'
          rw [v.geo.eq_groupOf_bitOf hb', hg, hbit']
        · rintro rfl
          exact hbitOf.symm
      · unfold used
        rw [hg]
    · have hne : b' ≠ v.geo.firstDataBlock + group * v.geo.blockPerGroup + bit := by
        rintro rfl
        exact hg hgroupOf
      rw [decide_eq_false hne, Bool.false_or]
  · rw [hgroupOf, h.state]
    have hcounts := blockAllocator_counts.take v.state group g h.count
    change (takeBlock v.state group).groupFreeBlocks g = _ at hcounts
    rw [show blockAllocator.take v.state group = v.state.takeBlock group from rfl, hcounts]
    split_ifs with hg
    · rw [hg]
      rfl
    · rfl

theorem runs_allocLoop_block (hv : v.Ok) {n group r : Nat}
    (h : (blockAllocator.allocLoop n group).Runs v trace r u) :
    (r = 0 ∧ u = v ∧
        (AllOk trace → ∀ g, group ≤ g → g < group + n → blockAllocator.NoRoom v g)) ∨
      (r ≠ 0 ∧ Took v r u) := by
  induction n generalizing group trace with
  | zero =>
    obtain ⟨rfl, rfl, rfl⟩ := runs_pure.mp h
    exact .inl ⟨rfl, rfl, fun _ g hle hlt => by omega⟩
  | succ n ih =>
    obtain ⟨first, rest, found, w, rfl, hfirst, hrest⟩ := runs_bind.mp h
    rcases runs_allocInGroup hfirst with ⟨rfl, rfl, hroom⟩ | ⟨bit, a, b, rfl, rfl, hclaim⟩
    · rcases ih hrest with ⟨rfl, rfl, hroom'⟩ | htook
      · refine .inl ⟨rfl, rfl, fun hok g hle hlt => ?_⟩
        obtain ⟨hok, hok'⟩ := allOk_append.mp hok
        rcases Nat.eq_or_lt_of_le hle with rfl | hlt'
        · exact hroom hok
        · exact hroom' hok' g hlt' (by omega)
      · exact .inr htook
    · have htook := took_of_claims hv hclaim
      rw [if_pos (htook.ne_zero hv)] at hrest
      obtain ⟨-, rfl, rfl⟩ := runs_pure.mp hrest
      exact .inr ⟨htook.ne_zero hv, htook⟩

/-- **Allocation.** On a well-formed volume `allocBlock` changes nothing and returns 0, or
it takes a free block. -/
theorem runs_allocBlock (hv : v.Ok) {r : Nat} (h : allocBlock.Runs v trace r u) :
    (r = 0 ∧ u = v ∧ (AllOk trace → blockAllocator.Full v)) ∨ (r ≠ 0 ∧ Took v r u) := by
  rcases runs_allocLoop_block hv (runs_getState_bind.mp h) with ⟨hr, hu, hroom⟩ | htook
  · exact .inl ⟨hr, hu, fun hok g hg => hroom hok g (Nat.zero_le g) (by omega)⟩
  · exact .inr htook

/-- If the counters are right, the allocator finds nothing only if nothing is free. -/
theorem freeBlocks_of_full (hv : v.Ok) (hcount : v.Counted) (hfull : blockAllocator.Full v) :
    v.freeBlocks = ∅ := by
  refine eq_empty_of_forall_notMem fun b hb => ?_
  obtain ⟨hin, hfree⟩ := mem_freeBlocks.mp hb
  have hgroup := hv.valid.groupOf_lt hin
  rcases hfull _ hgroup with hge | hzero | hnone
  · exact absurd hgroup (Nat.not_lt.mpr hge)
  · have hcard := hcount _ hgroup
    rw [show v.state.groupFreeBlocks (v.geo.groupOf b) = 0 from hzero] at hcard
    have hmem : b ∈ v.freeBlocks.filter fun b' => v.geo.groupOf b' = v.geo.groupOf b :=
      mem_filter.mpr ⟨hb, rfl⟩
    rw [card_eq_zero.mp hcard.symm] at hmem
    exact absurd hmem (notMem_empty b)
  · have hbit := hv.valid.bitOf_lt b
    have heq := v.geo.eq_groupOf_bitOf hin
    have hlt := hin.2
    have hset := findClear_none hnone (Nat.zero_le (v.geo.bitOf b)) (by
      change _ < 0 + v.state.blocksInGroup (v.geo.groupOf b)
      rw [hv.blocksInGroup hgroup]
      omega)
    have hused : v.used b = true := hset
    rw [hused] at hfree
    cases hfree

end Took

end WengShiOS.Fs.Ext2
