import WengShiOS.Fs.Ext2.Image
import WengShiOS.Fs.Ext2.WellFormed
import WengShiOS.Mm.Heap

/-! # What `mount` makes of a superblock

`mount` compares the magic number and takes every other field of the superblock as it
finds it. The number of groups and the size of the descriptor table are computed from
there, and every later function divides by the fields.

Divisions and shifts are checked here: the functions that compute with fields of the
superblock are given once more with a result for the cases that C++ leaves undefined.

A program leaves the answers of the heap open. Here it matters which of them the heap can give
(`HeapHolds`): a superblock whose group table no heap has room for is never mounted. -/

namespace WengShiOS.Fs.Ext2

open Math Math.Prog FsInstance
open Mm (alignUp alignment headerSize heapMaxSize)

variable {v u : Volume} {trace : List Event} {fs : FsInstance} {sb : Bytes}

/-! ### Runs of `mount` -/

/-- The superblock on the disk, whatever is mounted. -/
def Volume.superblock (v : Volume) : Bytes := window v.disk 1024 superblockSize

theorem exec_readDescriptorBlocks (bgdtBlock blockSize n i : Nat) (buf : Bytes) :
    ∃ buf', (readDescriptorBlocks bgdtBlock blockSize n i buf).exec v = (some buf', v) := by
  induction n generalizing i buf with
  | zero => exact ⟨buf, rfl⟩
  | succ n ih =>
    simp only [readDescriptorBlocks, exec_bind, exec_readBlock]
    exact ih (i + 1) _

/-- The sizes of the blocks that the heap gave out in a run. -/
def allocated (trace : List Event) : List Nat :=
  trace.filterMap fun e =>
    match e with
    | ⟨.kmalloc size, true⟩ => some size
    | _ => none

theorem allocated_readDescriptorBlocks {bgdtBlock blockSize n i : Nat} {buf : Bytes}
    {r : Option Bytes}
    (h : (readDescriptorBlocks bgdtBlock blockSize n i buf).Runs v trace r u) :
    allocated trace = [] := by
  induction n generalizing i buf trace v with
  | zero =>
    obtain ⟨rfl, -, -⟩ := runs_pure.mp h
    rfl
  | succ n ih =>
    rcases runs_readBlock_bind.mp h with ⟨rest, rfl, hrest⟩ | ⟨rest, rfl, hrest⟩
    · obtain ⟨rfl, -, -⟩ := runs_pure.mp hrest
      rfl
    · have hlater : allocated rest = [] := ih hrest
      exact hlater

/-- The blocks that `mount` asks for: the instance, the group table and the buffer that the
table is read through. -/
def FsInstance.requests (fs : FsInstance) : List Nat :=
  [fsInstanceSize, groupDescSize * fs.groupCount, u32 (fs.bgdtBlocksNeeded * fs.blockSize)]

/-- The instance that a successful `mount` returns is the one of the superblock, with some
group descriptors. -/
theorem runs_mount (h : mount.Runs v trace true u) :
    allocated trace = (fromSuperblock v.superblock).requests ∧ u.disk = v.disk ∧
      ∃ groups, u.state = { fromSuperblock v.superblock with groups } := by
  obtain ⟨first, rest, buf, w, rfl, hread, h⟩ := runs_bind.mp h
  obtain ⟨ok, rfl, rfl, rfl⟩ := runs_readSectors.mp hread
  cases ok with
  | false => exact absurd (runs_pure.mp h).2.1 (by simp)
  | true =>
    have hsb : window w.disk (sectorSize * 2) (sectorSize * (superblockSize / sectorSize)) =
        Volume.superblock w := rfl
    simp only [if_true, hsb] at h
    split_ifs at h
    · exact absurd (runs_pure.mp h).2.1 (by simp)
    obtain ⟨first, rest, fsPtr, w₁, rfl, halloc, h⟩ := runs_bind.mp h
    obtain ⟨ok, rfl, rfl, rfl⟩ := runs_alloc.mp halloc
    cases ok with
    | false => exact absurd (runs_pure.mp h).2.1 (by simp)
    | true =>
      obtain ⟨first, rest, done, w₂, rfl, hput, h⟩ := runs_bind.mp h
      obtain ⟨rfl, rfl⟩ := runs_putState.mp hput
      obtain ⟨first, rest, groupsPtr, w₃, rfl, halloc, h⟩ := runs_bind.mp h
      obtain ⟨ok, rfl, rfl, rfl⟩ := runs_alloc.mp halloc
      cases ok with
      | false =>
        obtain ⟨first, rest, done, w₄, rfl, -, h⟩ := runs_bind.mp h
        exact absurd (runs_pure.mp h).2.1 (by simp)
      | true =>
        obtain ⟨first, rest, descriptors, w₄, rfl, hbuf, h⟩ := runs_bind.mp h
        obtain ⟨rfl, -⟩ := readOnly_inherited.withBuffer
          (readDescriptorBlocks_inherits readOnly_inherited ..) hbuf
        cases descriptors with
        | none =>
          obtain ⟨first, rest, done, w₅, rfl, -, h⟩ := runs_bind.mp h
          obtain ⟨first, rest, done, w₆, rfl, -, h⟩ := runs_bind.mp h
          exact absurd (runs_pure.mp h).2.1 (by simp)
        | some buf =>
          obtain ⟨first, rest, done, w₅, rfl, hput, h⟩ := runs_bind.mp h
          obtain ⟨rfl, rfl⟩ := runs_putState.mp hput
          obtain ⟨rfl, -, rfl⟩ := runs_pure.mp h
          rcases runs_withBuffer.mp hbuf with ⟨-, hnone, -⟩ | ⟨reads, rfl, hreads⟩
          · cases hnone
          · have hlater := allocated_readDescriptorBlocks hreads
            refine ⟨?_, rfl, _, rfl⟩
            unfold allocated at hlater ⊢
            simp [hlater, requests]

/-- With the magic number in place, `mount` succeeds if no access fails. -/
theorem exec_mount (hmagic : readLE 2 v.superblock 56 = ext2Magic) :
    ∃ u, mount.exec v = (true, u) := by
  have hsb : window v.disk (sectorSize * 2) (sectorSize * (superblockSize / sectorSize)) =
      v.superblock := rfl
  obtain ⟨buf, hbuf⟩ := exec_readDescriptorBlocks (v := { v with
      state := fromSuperblock v.superblock }) (fromSuperblock v.superblock).bgdtBlock
    (fromSuperblock v.superblock).blockSize (fromSuperblock v.superblock).bgdtBlocksNeeded 0
    fun _ => 0
  simp only [mount, exec_bind, exec_readSectors, hsb, hmagic, ne_eq, not_true_eq_false,
    if_false, exec_alloc, exec_putState, exec_withBuffer, hbuf, exec_pure]
  exact ⟨_, rfl⟩

/-! ### The fields -/

/-- Only the inode size and the first inode are ever replaced. -/
theorem readLE_fromSuperblock {n a : Nat} (h : a + n ≤ 84) :
    readLE n (fromSuperblock sb).sb a = readLE n sb a := by
  unfold fromSuperblock
  dsimp only
  split_ifs
  · simp only [setFirstIno, setInodeSize]
    rw [readLE_writeLE_of_apart (.inr (by omega)), readLE_writeLE_of_apart (.inr (by omega))]
  · rfl

@[simp] theorem fromSuperblock_blocksCount :
    (fromSuperblock sb).blocksCount = readLE 4 sb 4 := readLE_fromSuperblock (by norm_num)

@[simp] theorem fromSuperblock_blockPerGroup :
    (fromSuperblock sb).blockPerGroup = readLE 4 sb 32 := readLE_fromSuperblock (by norm_num)

@[simp] theorem fromSuperblock_inodesPerGroup :
    (fromSuperblock sb).inodesPerGroup = readLE 4 sb 40 := readLE_fromSuperblock (by norm_num)

@[simp] theorem fromSuperblock_blockSize :
    (fromSuperblock sb).blockSize = u32 (1024 * 2 ^ readLE 4 sb 24) := by
  unfold fromSuperblock
  dsimp only
  split_ifs <;> rfl

theorem fromSuperblock_inodeSize :
    (fromSuperblock sb).inodeSize = if readLE 4 sb 76 = 0 then 128 else readLE 2 sb 88 := by
  unfold fromSuperblock
  dsimp only
  split_ifs with hrev hrev' hrev'
  · change readLE 2 (writeLE 4 (writeLE 2 sb 88 128) 84 11) 88 = 128
    rw [readLE_writeLE_of_apart (.inl (by norm_num)), readLE_writeLE_of_lt (by norm_num)]
  · exact absurd hrev hrev'
  · exact absurd hrev' hrev
  · rfl

/-- The number of groups that is computed from the other fields. -/
def FsInstance.CountsGroups (fs : FsInstance) : Prop :=
  fs.groupCount = u32 (fs.blocksCount + fs.blockPerGroup - 1) / fs.blockPerGroup

theorem fromSuperblock_countsGroups : (fromSuperblock sb).CountsGroups := rfl

@[simp] theorem fromSuperblock_groupCount :
    (fromSuperblock sb).groupCount =
      u32 (readLE 4 sb 4 + readLE 4 sb 32 - 1) / readLE 4 sb 32 := by
  have hcount : (fromSuperblock sb).CountsGroups := fromSuperblock_countsGroups
  rw [CountsGroups, fromSuperblock_blocksCount, fromSuperblock_blockPerGroup] at hcount
  exact hcount

theorem FsInstance.CountsGroups.setGroups (h : fs.CountsGroups) (groups : Bytes) :
    CountsGroups { fs with groups } := h

/-! ### The number of groups -/

namespace FsInstance

variable (fs)

/-- The groups of the layout: the blocks from the first data block on, rounded up. -/
def layoutGroups : Nat :=
  (fs.blocksCount - fs.firstDataBlock + fs.blockPerGroup - 1) / fs.blockPerGroup

/-- The block holds descriptors of groups of the layout. -/
def IsDescriptorBlock (b : Nat) : Prop :=
  ∃ i < (groupDescSize * fs.layoutGroups + fs.blockSize - 1) / fs.blockSize,
    b = fs.firstDataBlock + 1 + i

/-- The sizes that an ext2 file system can have. -/
structure ValidLayout : Prop where
  blockSize : ∃ k ≤ 6, fs.blockSize = 1024 * 2 ^ k
  firstDataBlock : fs.firstDataBlock ≤ 1
  blocksCount : fs.firstDataBlock < fs.blocksCount
  blockPerGroup : 0 < fs.blockPerGroup

end FsInstance

/-- Every write of the trace is to one of the blocks. -/
def Volume.WritesOnly (v : Volume) (S : Nat → Prop) (trace : List Event) : Prop :=
  ∀ e ∈ trace, e.access.isWrite = true → ∃ b ok, S b ∧ e = v.writeEvent b ok

/-- The number of groups is that of the layout, and as long as the volume is mounted the
table of descriptors is written to its own blocks. -/
structure GroupsMatch (v : Volume) : Prop where
  count : v.state.groupCount = v.state.layoutGroups
  writes : ∀ w : Volume, w.geo = v.geo → ∀ trace r w', writeGroupDescriptors.Runs w trace r w' →
    w.WritesOnly v.state.IsDescriptorBlock trace

theorem runs_writeDescriptorBlocks {S : Nat → Prop} {bgdtBlock blockSize n i : Nat} {buf : Bytes}
    {r : Bool} (hS : ∀ j, i ≤ j → j < i + n → S (u32 (bgdtBlock + j)))
    (h : (writeDescriptorBlocks bgdtBlock buf blockSize n i).Runs v trace r u) :
    v.WritesOnly S trace := by
  induction n generalizing i trace v with
  | zero =>
    obtain ⟨rfl, -, -⟩ := runs_pure.mp h
    simp [Volume.WritesOnly]
  | succ n ih =>
    have hone : S (u32 (bgdtBlock + i)) := hS i le_rfl (by omega)
    rcases runs_writeBlock_bind.mp h with ⟨rest, rfl, hnext⟩ | ⟨rest, rfl, hnext⟩
    · obtain ⟨rfl, -, -⟩ := runs_pure.mp hnext
      intro e he _
      obtain rfl := List.mem_singleton.mp he
      exact ⟨_, _, hone, rfl⟩
    · have hrest := ih (fun j hj hlt => hS j (by omega) (by omega)) hnext
      intro e he hwrite
      rcases List.mem_cons.mp he with rfl | he
      · exact ⟨_, _, hone, rfl⟩
      · exact hrest e he hwrite

/-- The descriptors fill the blocks behind the superblock and no others, if the number of
groups is right. -/
theorem writesOnly_of_count (hvalid : fs.ValidLayout) (hcount : fs.groupCount = fs.layoutGroups)
    {r : Bool} (hgeo : v.geo = fs.geometry) (h : writeGroupDescriptors.Runs v trace r u) :
    v.WritesOnly fs.IsDescriptorBlock trace := by
  have hsize : v.state.blockSize = fs.blockSize := congrArg Geometry.blockSize hgeo
  have hgroups : v.state.groupCount = fs.groupCount := congrArg Geometry.groupCount hgeo
  have hfirst : v.state.firstDataBlock = fs.firstDataBlock := congrArg Geometry.firstDataBlock hgeo
  rcases runs_withBuffer.mp (runs_getState_bind.mp h) with ⟨rfl, -, -⟩ | ⟨rest, rfl, hbody⟩
  · intro e he hwrite
    obtain rfl := List.mem_singleton.mp he
    simp at hwrite
  · have hrest : v.WritesOnly fs.IsDescriptorBlock rest := by
      refine runs_writeDescriptorBlocks (fun j _ hj => ⟨j, ?_, ?_⟩) hbody
      · refine lt_of_lt_of_le (by omega : j < v.state.bgdtBlocksNeeded) ?_
        unfold bgdtBlocksNeeded bgdtBytes u32
        rw [hsize, hgroups, hcount]
        refine Nat.div_le_div_right ((Nat.mod_le _ _).trans ?_)
        have := Nat.mod_le (groupDescSize * fs.layoutGroups) (2 ^ 32)
        omega
      · have hlt : j < 2 ^ 23 := by
          refine lt_of_lt_of_le (by omega : j < v.state.bgdtBlocksNeeded) ?_
          obtain ⟨k, -, hk⟩ := hvalid.blockSize
          have hmod : u32 (v.state.bgdtBytes + v.state.blockSize - 1) < 2 ^ 32 :=
            Nat.mod_lt _ (by norm_num)
          have h1024 : 1024 ≤ v.state.blockSize := by
            rw [hsize, hk]
            exact Nat.le_mul_of_pos_right _ (by positivity)
          exact (Nat.div_le_div hmod.le h1024 (by norm_num)).trans (by norm_num)
        have hle := hvalid.firstDataBlock
        unfold bgdtBlock u32
        rw [hfirst]
        omega
    intro e he hwrite
    rcases List.mem_cons.mp he with rfl | he
    · simp at hwrite
    · exact hrest e he hwrite

/-- Rounding up `n + 1` and `n` gives the same, unless `n` needs no rounding. -/
theorem ceilDiv_succ_eq_iff {n d : Nat} (hd : 0 < d) :
    (n + 1 + d - 1) / d = (n + d - 1) / d ↔ ¬ d ∣ n := by
  have hsum : n + d - 1 + 1 = n + d := by omega
  have hsucc : (n + d) / d = (n + d - 1) / d + if d ∣ n then 1 else 0 := by
    rw [← hsum, Nat.succ_div, hsum]
    simp only [Nat.dvd_add_self_right]
  rw [show n + 1 + d - 1 = n + d by omega, hsucc]
  split_ifs with hdvd <;> simp [hdvd]

theorem groupCount_eq_iff (hvalid : fs.ValidLayout) (hcount : fs.CountsGroups) :
    fs.groupCount = fs.layoutGroups ↔
      fs.blocksCount + fs.blockPerGroup - 1 < 2 ^ 32 ∧
        ¬ (fs.firstDataBlock = 1 ∧ fs.blockPerGroup ∣ fs.blocksCount - 1) := by
  have hpos := hvalid.blockPerGroup
  have hblocks := hvalid.blocksCount
  have hfirst := hvalid.firstDataBlock
  have hmax : fs.blocksCount < 2 ^ 32 := readLE_lt
  rw [hcount, layoutGroups]
  by_cases hlt : fs.blocksCount + fs.blockPerGroup - 1 < 2 ^ 32
  · rw [u32, Nat.mod_eq_of_lt hlt]
    simp only [hlt, true_and]
    rcases Nat.le_one_iff_eq_zero_or_eq_one.mp hfirst with h0 | h1
    · simp [h0]
    · obtain ⟨n, hn⟩ : ∃ n, fs.blocksCount = n + 1 := ⟨fs.blocksCount - 1, by omega⟩
      rw [h1, hn]
      simpa using ceilDiv_succ_eq_iff hpos
  · -- the sum wraps, and what is left of it is less than one group
    have hmod : u32 (fs.blocksCount + fs.blockPerGroup - 1) < fs.blockPerGroup := by
      have hle : fs.blockPerGroup < 2 ^ 32 := readLE_lt
      unfold u32
      omega
    have hne : 0 < (fs.blocksCount - fs.firstDataBlock + fs.blockPerGroup - 1) / fs.blockPerGroup :=
      Nat.div_pos (by omega) hpos
    rw [Nat.div_eq_of_lt hmod]
    omega

/-- **The number of groups.** After `mount` the number of groups is that of the layout, and
the descriptors are written to their own blocks only, exactly if the sum that is rounded
up does not wrap and the blocks do not fill their groups behind a first block 1. -/
theorem groupsMatch_iff (h : mount.Runs v trace true u) (hvalid : u.state.ValidLayout) :
    GroupsMatch u ↔
      u.state.blocksCount + u.state.blockPerGroup - 1 < 2 ^ 32 ∧
        ¬ (u.state.firstDataBlock = 1 ∧ u.state.blockPerGroup ∣ u.state.blocksCount - 1) := by
  obtain ⟨-, -, groups, hstate⟩ := runs_mount h
  have hcount : u.state.CountsGroups := by
    rw [hstate]
    exact fromSuperblock_countsGroups.setGroups groups
  rw [← groupCount_eq_iff hvalid hcount]
  constructor
  · intro hmatch
    exact hmatch.count
  · intro hmatch
    exact ⟨hmatch, fun w hgeo trace r w' hrun => writesOnly_of_count hvalid hmatch hgeo hrun⟩

/-- A disk before anything is mounted from it. -/
def unmounted (disk : Bytes) : Volume := ⟨⟨fun _ => 0, fun _ => 0, 0, 0⟩, disk⟩

theorem runs_mount_mounted (disk : Bytes)
    (hmagic : readLE 2 (unmounted disk).superblock 56 = ext2Magic) :
    ∃ trace, mount.Runs (unmounted disk) trace true (mounted disk) := by
  obtain ⟨u, hu⟩ := exec_mount hmagic
  obtain ⟨trace, -, hrun⟩ := exists_runs_exec mount (unmounted disk)
  have hmounted : mounted disk = (mount.exec (unmounted disk)).2 := rfl
  have hok : (mount.exec (unmounted disk)).1 = true := by rw [hu]
  rw [hok, ← hmounted] at hrun
  exact ⟨trace, hrun⟩

theorem smallVolume_groupsMatch :
    (∃ trace, mount.Runs (unmounted smallDisk) trace true smallVolume) ∧
      smallVolume.state.ValidLayout ∧ GroupsMatch smallVolume := by
  obtain ⟨trace, hrun⟩ := runs_mount_mounted smallDisk (by decide +kernel)
  have hvalid : smallVolume.state.ValidLayout :=
    ⟨⟨0, by norm_num, by decide +kernel⟩, by decide +kernel, by decide +kernel, by decide +kernel⟩
  exact ⟨⟨trace, hrun⟩, hvalid, (groupsMatch_iff hrun hvalid).mpr (by decide +kernel)⟩

/-- The small image with 32 full groups of 8192 blocks behind block 0. -/
def fullGroupsDisk : Bytes := stores [⟨4, 1028, 32 * 8192 + 1⟩] smallDisk

/-- A descriptor too many makes the table one block longer, and block 3, which belongs to
group 0, is overwritten. -/
theorem not_groupsMatch : ∃ v trace u, mount.Runs v trace true u ∧ u.state.ValidLayout ∧
    ¬ GroupsMatch u ∧ ∃ trace' w, writeGroupDescriptors.Runs u trace' true w ∧
      Volume.writeEvent u 3 true ∈ trace' ∧ ¬ u.state.IsDescriptorBlock 3 := by
  obtain ⟨trace, hrun⟩ := runs_mount_mounted fullGroupsDisk (by decide +kernel)
  obtain ⟨u, hu⟩ : ∃ u, u = mounted fullGroupsDisk := ⟨_, rfl⟩
  have hvalid : u.state.ValidLayout := by
    rw [hu]
    exact ⟨⟨0, by norm_num, by decide +kernel⟩, by decide +kernel, by decide +kernel,
      by decide +kernel⟩
  have hlayout : u.state.layoutGroups = 32 ∧ u.state.groupCount = 33 ∧ u.state.blockSize = 1024 ∧
      u.state.firstDataBlock = 1 := by
    rw [hu]
    decide +kernel
  have hwrite := runs_run (v := u) writeGroupDescriptors fun _ => true
  have htrace : (writeGroupDescriptors.run (fun _ => true) u).1 = true ∧
      Volume.writeEvent u 3 true ∈ (writeGroupDescriptors.run (fun _ => true) u).2.2 := by
    rw [hu]
    decide +kernel
  rw [htrace.1] at hwrite
  obtain ⟨hgroups, hcount, hsize, hfirst⟩ := hlayout
  refine ⟨_, trace, u, hu ▸ hrun, hvalid, fun hmatch => ?_, _, _, hwrite, htrace.2, ?_⟩
  · have := hmatch.count
    omega
  · rintro ⟨i, hi, hb⟩
    rw [hgroups, hsize] at hi
    simp only [groupDescSize] at hi
    omega

/-! ### Checked arithmetic -/

/-- `m / n`, unless `n` is 0. -/
def checkedDiv (m n : Nat) : Option Nat := if n = 0 then none else some (m / n)

/-- `m % n`, unless `n` is 0. -/
def checkedMod (m n : Nat) : Option Nat := if n = 0 then none else some (m % n)

/-- `m << n`, unless `n` is the width of the type or more. -/
def checkedShift (m n : Nat) : Option Nat := if n < 32 then some (u32 (m * 2 ^ n)) else none

/-- `fromSuperblock`, or none if an operation is undefined. -/
def fromSuperblockChecked (sb : Bytes) : Option FsInstance := do
  let fs : FsInstance := ⟨sb, fun _ => 0, 0, 0⟩
  let blockSize ← checkedShift 1024 fs.logBlockSize
  let fs := { fs with blockSize }
  let fs := if fs.revLevel = 0 then (fs.setInodeSize 128).setFirstIno 11 else fs
  let groupCount ← checkedDiv (u32 (fs.blocksCount + fs.blockPerGroup - 1)) fs.blockPerGroup
  pure { fs with groupCount }

namespace FsInstance

variable (fs)

/-- `bgdtBlocksNeeded`, for `mount` and `writeGroupDescriptors`. -/
def bgdtBlocksNeededChecked : Option Nat :=
  checkedDiv (u32 (fs.bgdtBytes + fs.blockSize - 1)) fs.blockSize

/-- `locateInode`, for `readInode`. -/
def locateInodeChecked (inodeNum : Nat) : Option (Option (Nat × Nat)) :=
  if inodeNum = 0 then some none
  else do
    let group ← checkedDiv (inodeNum - 1) fs.inodesPerGroup
    let indexInGroup ← checkedMod (inodeNum - 1) fs.inodesPerGroup
    if fs.groupCount ≤ group then some none
    else do
      let byteOffsetInTable := u32 (indexInGroup * fs.inodeSizeOr128)
      let blockOffset ← checkedDiv byteOffsetInTable fs.blockSize
      let offsetInBlock ← checkedMod byteOffsetInTable fs.blockSize
      some (some (u32 (fs.inodeTable group + blockOffset), offsetInBlock))

/-- The group and the bit of a block, for `freeBlock`. -/
def locateBlockChecked (blockNum : Nat) : Option (Nat × Nat) := do
  let relative := u32Sub blockNum fs.firstDataBlock
  let group ← checkedDiv relative fs.blockPerGroup
  let indexInGroup ← checkedMod relative fs.blockPerGroup
  pure (group, indexInGroup)

/-! Where the operations are defined, the results are those of the model. -/

theorem bgdtBlocksNeededChecked_eq (h : fs.blockSize ≠ 0) :
    fs.bgdtBlocksNeededChecked = some fs.bgdtBlocksNeeded := if_neg h

theorem locateInodeChecked_eq (hinodes : fs.inodesPerGroup ≠ 0) (hsize : fs.blockSize ≠ 0)
    (inodeNum : Nat) : fs.locateInodeChecked inodeNum = some (fs.locateInode inodeNum) := by
  unfold locateInodeChecked locateInode
  by_cases h0 : inodeNum = 0
  · simp [h0]
  · simp only [if_neg h0, checkedDiv, checkedMod, if_neg hinodes, if_neg hsize, Option.bind_eq_bind,
      Option.bind_some]
    split_ifs <;> rfl

theorem locateBlockChecked_eq (h : fs.blockPerGroup ≠ 0) (blockNum : Nat) :
    fs.locateBlockChecked blockNum = some (blockAllocator.locate fs blockNum) := by
  simp only [locateBlockChecked, checkedDiv, checkedMod, if_neg h]
  rfl

/-- No later call divides by zero: not `readInode`, not `freeBlock`, and not
`writeGroupDescriptors`, which `allocBlock` and `freeBlock` end with. What `allocBlock`
computes modulo the number of groups it computes inside a loop over the groups. -/
structure CallsDefined : Prop where
  readInode : ∀ inodeNum, fs.locateInodeChecked inodeNum ≠ none
  freeBlock : ∀ blockNum, blockNum ≠ 0 → fs.locateBlockChecked blockNum ≠ none
  descriptors : fs.bgdtBlocksNeededChecked ≠ none

/-- The sizes of an instance are those the driver counts on. -/
structure WellSized : Prop where
  blockSize : ∃ k ≤ 2, fs.blockSize = 1024 * 2 ^ k
  blockPerGroup : 0 < fs.blockPerGroup ∧ fs.blockPerGroup ≤ 8 * fs.blockSize
  inodesPerGroup : 0 < fs.inodesPerGroup ∧ fs.inodesPerGroup ≤ 8 * fs.blockSize
  inodeSize : 128 ≤ fs.inodeSize ∧ fs.inodeSize ∣ fs.blockSize
  /-- `bgdt_bytes` did not wrap -/
  descriptors : groupDescSize * fs.groupCount < 2 ^ 32
  /-- neither did the size of the buffer for the table -/
  buffer : fs.bgdtBytes + fs.blockSize - 1 < 2 ^ 32 ∧ fs.bgdtBlocksNeeded * fs.blockSize < 2 ^ 32

end FsInstance

theorem FsInstance.WellSized.setGroups (w : fs.WellSized) (groups : Bytes) :
    WellSized { fs with groups } :=
  ⟨w.blockSize, w.blockPerGroup, w.inodesPerGroup, w.inodeSize, w.descriptors, w.buffer⟩

theorem FsInstance.WellSized.of_setGroups {groups : Bytes}
    (w : WellSized { fs with groups }) : fs.WellSized :=
  ⟨w.blockSize, w.blockPerGroup, w.inodesPerGroup, w.inodeSize, w.descriptors, w.buffer⟩

theorem fromSuperblockChecked_eq (hshift : readLE 4 sb 24 < 32) (hgroup : readLE 4 sb 32 ≠ 0) :
    fromSuperblockChecked sb = some (fromSuperblock sb) := by
  have hgroup' : (fromSuperblock sb).blockPerGroup ≠ 0 := by
    rwa [fromSuperblock_blockPerGroup]
  have hlog : logBlockSize ⟨sb, fun _ => 0, 0, 0⟩ < 32 := hshift
  simp only [fromSuperblockChecked, checkedShift, if_pos hlog, Option.bind_eq_bind,
    Option.bind_some]
  exact congrArg (Option.bind · _) (if_neg hgroup')

theorem fromSuperblockChecked_some_iff :
    fromSuperblockChecked sb = some fs ↔
      readLE 4 sb 24 < 32 ∧ readLE 4 sb 32 ≠ 0 ∧ fs = fromSuperblock sb := by
  constructor
  · intro h
    have hshift : readLE 4 sb 24 < 32 := by
      by_contra hlog
      have hlog' : ¬ logBlockSize ⟨sb, fun _ => 0, 0, 0⟩ < 32 := hlog
      simp only [fromSuperblockChecked, checkedShift, if_neg hlog', Option.bind_eq_bind,
        Option.bind_none] at h
      cases h
    have hgroup : readLE 4 sb 32 ≠ 0 := by
      intro hzero
      have hgroup' : (fromSuperblock sb).blockPerGroup = 0 := by
        rwa [fromSuperblock_blockPerGroup]
      have hlog : logBlockSize ⟨sb, fun _ => 0, 0, 0⟩ < 32 := hshift
      simp only [fromSuperblockChecked, checkedShift, if_pos hlog, Option.bind_eq_bind,
        Option.bind_some] at h
      exact absurd ((congrArg (Option.bind · _) (if_pos hgroup')).symm.trans h) nofun
    refine ⟨hshift, hgroup, ?_⟩
    rw [fromSuperblockChecked_eq hshift hgroup] at h
    exact (Option.some.inj h).symm
  · rintro ⟨hshift, hgroup, rfl⟩
    exact fromSuperblockChecked_eq hshift hgroup

/-! ### Superblocks that the driver can use -/

/-- The heap can give out blocks of these sizes together: it has none for 0 bytes, and a block
takes its size, rounded up, and a header. -/
def HeapHolds (sizes : List Nat) : Prop :=
  0 ∉ sizes ∧ (sizes.map fun size => alignUp size alignment + headerSize).sum ≤ heapMaxSize

instance (sizes : List Nat) : Decidable (HeapHolds sizes) := inferInstanceAs (Decidable (_ ∧ _))

/-- What `mount` computes is defined; it only gets to the size of the descriptors if there can be
a group table. -/
def MountDefined (sb : Bytes) : Prop :=
  ∃ fs, fromSuperblockChecked sb = some fs ∧
    (HeapHolds (fs.requests.take 2) → fs.bgdtBlocksNeededChecked ≠ none)

/-- Mounting the disk is safe: nothing undefined is computed, and if an instance is
returned, its sizes are right and later calls compute nothing undefined either. -/
structure MountSound (v : Volume) : Prop where
  defined : MountDefined v.superblock
  result : ∀ trace u, mount.Runs v trace true u → HeapHolds (allocated trace) →
    u.state.WellSized ∧ ∀ fs : FsInstance, fs.geometry = u.state.geometry → fs.CallsDefined

/-- The sizes that the driver counts on, in fields of the superblock. -/
def Acceptable (sb : Bytes) : Prop :=
  readLE 4 sb 24 ≤ 2 ∧
    (0 < readLE 4 sb 32 ∧ readLE 4 sb 32 ≤ 8 * (1024 * 2 ^ readLE 4 sb 24)) ∧
    (0 < readLE 4 sb 40 ∧ readLE 4 sb 40 ≤ 8 * (1024 * 2 ^ readLE 4 sb 24)) ∧
    (readLE 4 sb 76 = 0 ∨ 128 ≤ readLE 2 sb 88 ∧ readLE 2 sb 88 ∣ 1024 * 2 ^ readLE 4 sb 24) ∧
    groupDescSize * (u32 (readLE 4 sb 4 + readLE 4 sb 32 - 1) / readLE 4 sb 32) +
      1024 * 2 ^ readLE 4 sb 24 - 1 < 2 ^ 32

instance (sb : Bytes) : Decidable (Acceptable sb) := inferInstanceAs (Decidable (_ ∧ _))

/-- What `mount` would have to check: that it can compute at all, and the sizes if the heap has
room for the tables. -/
def Mountable (sb : Bytes) : Prop :=
  readLE 4 sb 24 < 32 ∧ readLE 4 sb 32 ≠ 0 ∧
    (HeapHolds ((fromSuperblock sb).requests.take 2) → readLE 4 sb 24 < 22) ∧
    (HeapHolds (fromSuperblock sb).requests → Acceptable sb)

/-- Nothing is left of a block size of 2^32 or more. -/
theorem shift_eq_zero_iff {n : Nat} : u32 (1024 * 2 ^ n) = 0 ↔ 22 ≤ n := by
  rw [u32, ← Nat.dvd_iff_mod_eq_zero, show 1024 = 2 ^ 10 by norm_num, ← Nat.pow_add,
    Nat.pow_dvd_pow_iff_le_right (by norm_num)]
  omega

/-- Larger shifts give larger blocks, until nothing is left of them. -/
theorem shift_le_two {n k : Nat} (hk : k ≤ 2) (h : u32 (1024 * 2 ^ n) = 1024 * 2 ^ k) : n ≤ 2 := by
  have hle : 1024 * 2 ^ k ≤ 4096 := by
    calc 1024 * 2 ^ k ≤ 1024 * 2 ^ 2 := Nat.mul_le_mul_left _ (Nat.pow_le_pow_right (by norm_num) hk)
      _ = 4096 := by norm_num
  have hpos : 0 < 1024 * 2 ^ k := by positivity
  by_contra hlt
  rcases Nat.lt_or_ge n 22 with hn | hn
  · have hsmall : 1024 * 2 ^ n < 2 ^ 32 := by
      calc 1024 * 2 ^ n ≤ 1024 * 2 ^ 21 :=
            Nat.mul_le_mul_left _ (Nat.pow_le_pow_right (by norm_num) (by omega))
        _ < 2 ^ 32 := by norm_num
    have hlarge : 1024 * 2 ^ 3 ≤ 1024 * 2 ^ n :=
      Nat.mul_le_mul_left _ (Nat.pow_le_pow_right (by norm_num) (by omega))
    rw [u32, Nat.mod_eq_of_lt hsmall] at h
    omega
  · have hzero : u32 (1024 * 2 ^ n) = 0 := shift_eq_zero_iff.mpr hn
    omega

theorem fromSuperblock_blockSize_of_le (hshift : readLE 4 sb 24 ≤ 2) :
    (fromSuperblock sb).blockSize = 1024 * 2 ^ readLE 4 sb 24 := by
  rw [fromSuperblock_blockSize]
  refine Nat.mod_eq_of_lt ?_
  calc 1024 * 2 ^ readLE 4 sb 24 ≤ 1024 * 2 ^ 2 :=
        Nat.mul_le_mul_left _ (Nat.pow_le_pow_right (by norm_num) hshift)
    _ < 2 ^ 32 := by norm_num

/-- The two sizes of the descriptor table do not wrap together. -/
theorem table_sizes_iff (hpos : 0 < fs.blockSize) :
    (groupDescSize * fs.groupCount < 2 ^ 32 ∧ fs.bgdtBytes + fs.blockSize - 1 < 2 ^ 32 ∧
        fs.bgdtBlocksNeeded * fs.blockSize < 2 ^ 32) ↔
      groupDescSize * fs.groupCount + fs.blockSize - 1 < 2 ^ 32 := by
  constructor
  · rintro ⟨hbytes, hsum, -⟩
    rwa [bgdtBytes, u32, Nat.mod_eq_of_lt hbytes] at hsum
  · intro hsum
    have hbytes : groupDescSize * fs.groupCount < 2 ^ 32 := by omega
    have heq : fs.bgdtBytes = groupDescSize * fs.groupCount := Nat.mod_eq_of_lt hbytes
    have hmul := Nat.div_mul_le_self (u32 (fs.bgdtBytes + fs.blockSize - 1)) fs.blockSize
    refine ⟨hbytes, by rwa [heq], lt_of_le_of_lt hmul (Nat.mod_lt _ (by norm_num))⟩

theorem wellSized_iff_acceptable : (fromSuperblock sb).WellSized ↔ Acceptable sb := by
  constructor
  · intro w
    obtain ⟨k, hk, hsize⟩ := w.blockSize
    have hshift : readLE 4 sb 24 ≤ 2 :=
      shift_le_two hk (fromSuperblock_blockSize.symm.trans hsize)
    have hblock := fromSuperblock_blockSize_of_le hshift
    have hgroup : 0 < readLE 4 sb 32 ∧ readLE 4 sb 32 ≤ 8 * (1024 * 2 ^ readLE 4 sb 24) := by
      rw [← fromSuperblock_blockPerGroup, ← hblock]
      exact w.blockPerGroup
    have hinodes : 0 < readLE 4 sb 40 ∧ readLE 4 sb 40 ≤ 8 * (1024 * 2 ^ readLE 4 sb 24) := by
      rw [← fromSuperblock_inodesPerGroup, ← hblock]
      exact w.inodesPerGroup
    refine ⟨hshift, hgroup, hinodes, ?_, ?_⟩
    · have hinode := w.inodeSize
      rw [fromSuperblock_inodeSize, hblock] at hinode
      by_cases hrev : readLE 4 sb 76 = 0
      · exact .inl hrev
      · rw [if_neg hrev] at hinode
        exact .inr hinode
    · have hpos : 0 < (fromSuperblock sb).blockSize := by
        rw [hblock]
        positivity
      have hsum := (table_sizes_iff hpos).mp ⟨w.descriptors, w.buffer⟩
      rwa [fromSuperblock_groupCount, hblock] at hsum
  · rintro ⟨hshift, hgroup, hinodes, hinode, hsum⟩
    have hblock := fromSuperblock_blockSize_of_le hshift
    have hpos : 0 < (fromSuperblock sb).blockSize := by
      rw [hblock]
      positivity
    rw [← fromSuperblock_groupCount, ← hblock] at hsum
    obtain ⟨hbytes, hbuffer⟩ := (table_sizes_iff hpos).mpr hsum
    rw [← fromSuperblock_blockPerGroup, ← hblock] at hgroup
    rw [← fromSuperblock_inodesPerGroup, ← hblock] at hinodes
    refine ⟨⟨_, hshift, hblock⟩, hgroup, hinodes, ?_, hbytes, hbuffer⟩
    rw [fromSuperblock_inodeSize, hblock]
    by_cases hrev : readLE 4 sb 76 = 0
    · rw [if_pos hrev]
      exact ⟨le_rfl, Nat.dvd_mul_right_of_dvd (by norm_num) _⟩
    · rw [if_neg hrev]
      exact hinode.resolve_left hrev

/-- With the right sizes no call divides by zero, whatever the counters are by then. -/
theorem FsInstance.WellSized.callsDefined (w : fs.WellSized) {fs' : FsInstance}
    (hgeo : fs'.geometry = fs.geometry) : fs'.CallsDefined := by
  have hsize : fs'.blockSize ≠ 0 := by
    obtain ⟨k, -, hk⟩ := w.blockSize
    have heq : fs'.blockSize = fs.blockSize := congrArg Geometry.blockSize hgeo
    rw [heq, hk]
    positivity
  have hgroup : fs'.blockPerGroup ≠ 0 := by
    have heq : fs'.blockPerGroup = fs.blockPerGroup := congrArg Geometry.blockPerGroup hgeo
    rw [heq]
    exact w.blockPerGroup.1.ne'
  have hinodes : fs'.inodesPerGroup ≠ 0 := by
    have heq : fs'.inodesPerGroup = fs.inodesPerGroup := congrArg Geometry.inodesPerGroup hgeo
    rw [heq]
    exact w.inodesPerGroup.1.ne'
  constructor
  · intro inodeNum
    rw [fs'.locateInodeChecked_eq hinodes hsize]
    exact Option.some_ne_none _
  · intro blockNum _
    rw [fs'.locateBlockChecked_eq hgroup]
    exact Option.some_ne_none _
  · rw [fs'.bgdtBlocksNeededChecked_eq hsize]
    exact Option.some_ne_none _

theorem bgdtBlocksNeededChecked_ne_none_iff :
    fs.bgdtBlocksNeededChecked ≠ none ↔ fs.blockSize ≠ 0 := by
  unfold bgdtBlocksNeededChecked checkedDiv
  split_ifs with h <;> simp [h]

theorem mountDefined_iff :
    MountDefined sb ↔ readLE 4 sb 24 < 32 ∧ readLE 4 sb 32 ≠ 0 ∧
      (HeapHolds ((fromSuperblock sb).requests.take 2) → readLE 4 sb 24 < 22) := by
  have hsize : (fromSuperblock sb).blockSize ≠ 0 ↔ readLE 4 sb 24 < 22 := by
    rw [fromSuperblock_blockSize, Ne, shift_eq_zero_iff, not_le]
  simp only [MountDefined, fromSuperblockChecked_some_iff, bgdtBlocksNeededChecked_ne_none_iff]
  constructor
  · rintro ⟨fs, ⟨hshift, hgroup, rfl⟩, hdefined⟩
    exact ⟨hshift, hgroup, fun hholds => hsize.mp (hdefined hholds)⟩
  · rintro ⟨hshift, hgroup, hdefined⟩
    exact ⟨_, ⟨hshift, hgroup, rfl⟩, fun hholds => hsize.mpr (hdefined hholds)⟩

/-- **Mounting any superblock.** On a disk with the ext2 magic, mounting is safe exactly if what
`mount` computes is defined and, as far as the heap has room for its tables, the superblock has
the sizes that it never looks at. -/
theorem mount_sound_iff (hmagic : readLE 2 v.superblock 56 = ext2Magic) :
    MountSound v ↔ Mountable v.superblock := by
  constructor
  · intro sound
    obtain ⟨hshift, hgroup, htable⟩ := mountDefined_iff.mp sound.defined
    refine ⟨hshift, hgroup, htable, fun hholds => ?_⟩
    -- the run without failures returns an instance, and its sizes are right
    obtain ⟨w, hexec⟩ := exec_mount hmagic
    obtain ⟨trace, -, hrun⟩ := exec_eq_iff.mp hexec
    obtain ⟨hallocated, -, groups, hstate⟩ := runs_mount hrun
    have hsized := (sound.result trace w hrun (hallocated ▸ hholds)).1
    rw [hstate] at hsized
    exact wellSized_iff_acceptable.mp hsized.of_setGroups
  · rintro ⟨hshift, hgroup, htable, hsizes⟩
    refine ⟨mountDefined_iff.mpr ⟨hshift, hgroup, htable⟩, fun trace w hrun hholds => ?_⟩
    obtain ⟨hallocated, -, groups, hstate⟩ := runs_mount hrun
    rw [hallocated] at hholds
    have hmounted : w.state.WellSized := by
      rw [hstate]
      exact (wellSized_iff_acceptable.mpr (hsizes hholds)).setGroups groups
    exact ⟨hmounted, fun fs' hgeo => hmounted.callsDefined hgeo⟩

theorem smallDisk_sound :
    readLE 2 (unmounted smallDisk).superblock 56 = ext2Magic ∧ MountSound (unmounted smallDisk) := by
  have hmagic : readLE 2 (unmounted smallDisk).superblock 56 = ext2Magic := by decide +kernel
  refine ⟨hmagic, (mount_sound_iff hmagic).mpr ⟨?_, ?_, fun _ => ?_, fun _ => ?_⟩⟩ <;>
    decide +kernel

/-- A superblock of zeros except for the magic number: `mount` divides by
`block_per_group`. -/
theorem not_mount_sound : ∃ v : Volume, readLE 2 v.superblock 56 = ext2Magic ∧ ¬ MountSound v := by
  refine ⟨unmounted (stores [⟨2, 1080, ext2Magic⟩] fun _ => 0), by decide +kernel, fun sound => ?_⟩
  obtain ⟨-, hgroup, -⟩ := mountDefined_iff.mp sound.defined
  exact hgroup (by decide +kernel)

end WengShiOS.Fs.Ext2
