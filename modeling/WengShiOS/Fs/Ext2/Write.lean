import WengShiOS.Fs.Ext2.WellFormed
import WengShiOS.Fs.Ext2.WriteLoop

/-! # Writes to a well-formed image

A call of `write` is a run of its loop, a new size and the inode written back. On a
well-formed image it keeps the image well formed: the file owns the blocks it got, every
other file and directory is what it was, and every path leads where it led. -/

namespace WengShiOS.Fs.Ext2

open Math Math.Prog Inode Volume

variable {v u w : Volume} {inode inode' : Inode} {trace : List Event} {i j b n offset : Nat}
  {data : List UInt8} {handle handle' : Handle} {patch : Nat → Option UInt8}

/-! ### The parts of a call -/

/-- The inode with a size of at least `newSize`. -/
def Inode.grown (inode : Inode) (newSize : Nat) : Inode :=
  if inode.size < newSize then inode.setSize newSize else inode

theorem grow_inode (handle : Handle) (inode : Inode) (newSize : Nat) :
    (grow handle inode newSize).fsPrivate = ⟨handle.fsPrivate.inodeNum, inode.grown newSize⟩ := by
  unfold grow grown
  split_ifs <;> rfl

/-- A call ends without having done anything, or it is a run of the loop followed by
writing the inode. -/
theorem runs_write {res : Int} (h : (write handle offset data).Runs v trace (res, handle') u) :
    (res = -1 ∧ handle' = handle ∧ u = v ∧ ¬ AllOk trace) ∨
      ∃ n inode' first rest w ok, trace = ⟨.kmalloc v.state.blockSize, true⟩ :: (first ++ rest) ∧
        (writeLoop offset data data.length handle.fsPrivate.inode 0).Runs v first (n, inode') w ∧
        handle' = grow handle inode' (u64 (offset + n)) ∧ res = toInt64 n ∧
        (writeInode handle.fsPrivate.inodeNum (inode'.grown (u64 (offset + n)))).Runs w rest ok u := by
  obtain ⟨begin', end', stored, w, rfl, hloop, hrest⟩ := runs_bind.mp (runs_getState_bind.mp h)
  rcases runs_withBuffer.mp hloop with ⟨rfl, rfl, rfl⟩ | ⟨tail, rfl, hbody⟩
  · obtain ⟨rfl, hr, rfl⟩ := runs_pure.mp hrest
    cases hr
    exact .inl ⟨rfl, rfl, rfl, by simp⟩
  · obtain ⟨first, last, ⟨n, inode'⟩, w', rfl, hwrite, hlast⟩ := runs_bind.mp hbody
    obtain ⟨rfl, rfl, rfl⟩ := runs_pure.mp hlast
    obtain ⟨rest, last, ok, u', rfl, hinode, hend⟩ := runs_bind.mp hrest
    obtain ⟨rfl, hr, rfl⟩ := runs_pure.mp hend
    obtain ⟨hres, hhandle⟩ := Prod.mk.inj hr
    rw [grow_inode] at hinode
    exact .inr ⟨n, inode', first, rest, w, ok, by simp, hwrite, hhandle, hres, hinode⟩

/-! ### Writing the inode back -/

@[simp] theorem Inode.block_grown (inode : Inode) (newSize k : Nat) :
    (inode.grown newSize).block k = inode.block k := by
  unfold grown
  split_ifs
  · refine readLE_writeLE_of_apart ?_
    simp only [Apart]
    omega
  · rfl

theorem Inode.size_grown (inode : Inode) {newSize : Nat} (hsize : newSize < 2 ^ 32) :
    (inode.grown newSize).size = max inode.size newSize := by
  unfold grown
  split_ifs with hlt
  · rw [size, setSize, readLE_writeLE_of_lt (by norm_num; omega)]
    omega
  · omega

theorem Inode.mode_grown (inode : Inode) (newSize : Nat) :
    (inode.grown newSize).mode = inode.mode := by
  unfold grown
  split_ifs
  · exact readLE_writeLE_of_apart (by simp only [Apart]; omega)
  · rfl

theorem SameFields.size (h : SameFields inode inode') : inode'.size = inode.size :=
  readLE_congr fun k hk => h _ (by omega) (by omega)

theorem SameFields.mode (h : SameFields inode inode') : inode'.mode = inode.mode :=
  readLE_congr fun k hk => h _ (by omega) (by omega)

theorem SameFields.block (h : SameFields inode inode') {k : Nat} (hk : 13 ≤ k) :
    inode'.block k = inode.block k :=
  readLE_congr fun i hi => h _ (by omega) (by omega)

/-- An inode in memory is as long as the structure. -/
def Inode.Fits (inode : Inode) : Prop := window inode 0 inodeStructSize = inode

theorem inodeAt_fits : (v.inodeAt i).Fits := window_window_self

theorem SameFields.fits (h : SameFields inode inode') (hfits : inode.Fits) : inode'.Fits := by
  funext k
  unfold window
  split_ifs with hk
  · rw [Nat.zero_add]
  · simp only [inodeStructSize] at hk
    rw [h k (by omega) (by omega), ← hfits]
    exact (if_neg hk).symm

theorem Inode.Fits.grown (hfits : inode.Fits) (newSize : Nat) : (inode.grown newSize).Fits := by
  funext k
  unfold window
  split_ifs with hk
  · rw [Nat.zero_add]
  · simp only [inodeStructSize] at hk
    have hzero : inode k = 0 := by
      rw [← hfits]
      exact if_neg hk
    unfold Inode.grown
    split_ifs
    · exact (hzero.symm.trans (overlay_of_not_mem (by omega)).symm)
    · exact hzero.symm

/-! ### The image afterwards -/

/-- From `v` to `u` the file `i` has got the bytes of the patch, and its inode, with a new
size, has been written back. -/
structure Saved (v : Volume) (i : Nat) (patch : Nat → Option UInt8) (newSize : Nat) (w : Volume)
    (inode' : Inode) (u : Volume) : Prop where
  splice : Splice v (v.inodeAt i) patch w inode'
  counted : v.Counted → w.Counted
  written : u = w.setInode i (inode'.grown newSize)

namespace Saved

variable {newSize : Nat} (h : Saved v i patch newSize w inode' u) (hc : v.Consistent) (hi : v.Live i)
include h hc hi

omit hc hi in
theorem frame : Frame (· = v.geo.inodeBlock i) w u := by
  rw [h.written, ← h.splice.frame.geo]
  exact frame_setInode

omit hi in
/-- The inode table is no part of a file. -/
theorem inodeBlock_not_isOf (hj : v.geo.HasInode j) : ¬ w.IsOf inode' (v.geo.inodeBlock j) := by
  rintro ⟨s, hs, heq⟩
  have hmeta := (h.splice.owns.usable s hs).not_isMetadata
  rw [← heq, h.splice.frame.geo] at hmeta
  exact hmeta (hc.ok.inodeBlock_isMetadata hj)

omit hi in
/-- The loop leaves the inode table alone. -/
theorem inodeAt_loop (hj : v.geo.HasInode j) : w.inodeAt j = v.inodeAt j := by
  have hblock : w.block (v.geo.inodeBlock j) = v.block (v.geo.inodeBlock j) := by
    refine h.splice.frame.block _ ?_
    rintro (hacc | hof)
    · exact hc.ok.inodeBlock_not_isAccounting hj hacc
    · exact h.inodeBlock_not_isOf hc hj hof
  unfold inodeAt
  rw [h.splice.frame.geo, hblock]

theorem inodeAt (hj : v.geo.HasInode j) :
    u.inodeAt j = if j = i then inode'.grown newSize else v.inodeAt j := by
  have hgeo := h.splice.frame.geo
  rw [h.written, inodeAt_setInode h.splice.ok (hgeo ▸ hi.hasInode) (hgeo ▸ hj),
    h.inodeAt_loop hc hj]
  rw [(h.splice.fields.fits inodeAt_fits).grown newSize]

theorem inodeAt_self : u.inodeAt i = inode'.grown newSize := by
  rw [h.inodeAt hc hi hi.hasInode, if_pos rfl]

theorem inodeAt_of_ne (hj : v.geo.HasInode j) (hne : j ≠ i) : u.inodeAt j = v.inodeAt j := by
  rw [h.inodeAt hc hi hj, if_neg hne]

/-- Blocks of files are not in the inode table. -/
theorem block_of_usable (hb : w.Usable b) : u.block b = w.block b := by
  refine h.frame.block b ?_
  rintro rfl
  have hmeta := hb.not_isMetadata
  rw [h.splice.frame.geo] at hmeta
  exact hmeta (hc.ok.inodeBlock_isMetadata hi.hasInode)

theorem slot (s : Slot) : u.slot (inode'.grown newSize) s = w.slot inode' s := by
  have htable : inode'.block 12 ≠ 0 → u.block (inode'.block 12) = w.block (inode'.block 12) :=
    fun h12 => h.block_of_usable hc hi (h.splice.owns.usable .table h12)
  cases s with
  | data index =>
    exact mapAt_congr h.frame.blockSize (fun _ => block_grown ..) (block_grown ..)
      htable
  | table => exact block_grown ..

theorem bitmap_ne {group : Nat} (hgroup : group < w.geo.groupCount) :
    w.geo.blockBitmap group ≠ v.geo.inodeBlock i := by
  have hgeo := h.splice.frame.geo
  rw [hgeo] at hgroup ⊢
  exact hc.ok.inodeBlock_ne_bitmap hi.hasInode hgroup

theorem used (hb : v.geo.InVolume b) : u.used b = w.used b :=
  h.frame.used_eq h.splice.ok (fun _ hgroup => h.bitmap_ne hc hi hgroup) (h.splice.frame.geo ▸ hb)

theorem ok : u.Ok := h.frame.ok h.splice.ok fun _ hgroup => h.bitmap_ne hc hi hgroup

omit hc hi in
theorem volume_geo : u.geo = v.geo := h.frame.geo.trans h.splice.frame.geo

theorem volume_counted : u.Counted := by
  refine (h.counted hc.counted).congr h.frame.geo (fun b hb => ?_) ?_
  · exact h.used hc hi (h.splice.frame.geo ▸ hb)
  · rw [h.written]
    rfl

/-- The file owns its blocks, old and new. -/
theorem owns_self : u.Owns (inode'.grown newSize) where
  usable s hs := by
    rw [h.slot hc hi s] at hs ⊢
    obtain ⟨hin, hmeta, hused⟩ := h.splice.owns.usable s hs
    have hgeo := h.frame.geo
    refine ⟨hgeo ▸ hin, hgeo ▸ hmeta, ?_⟩
    rw [h.used hc hi (h.splice.frame.geo ▸ hin)]
    exact hused
  inj s t heq hs := by
    rw [h.slot hc hi s, h.slot hc hi t] at heq
    rw [h.slot hc hi s] at hs
    exact h.splice.owns.inj s t heq hs

/-- A block of the file was one of its blocks before, or it was free. -/
theorem isOf_self (hb : u.IsOf (inode'.grown newSize) b) :
    v.IsOf (v.inodeAt i) b ∨ v.used b = false := by
  obtain ⟨s, hs, rfl⟩ := hb
  rw [h.slot hc hi s] at hs ⊢
  by_cases hold : v.slot (v.inodeAt i) s = 0
  · exact .inr (h.splice.fresh s hold hs)
  · exact .inl ⟨s, hold, h.splice.kept s hold⟩

section Other

variable (hj : v.Live j) (hne : j ≠ i)
include hj hne

/-- **Other files.** A block of another file or directory has its old contents. -/
theorem block_other (hb : v.IsOf (v.inodeAt j) b) : u.block b = v.block b := by
  have husable : v.Usable b := by
    obtain ⟨s, hs, rfl⟩ := hb
    exact (hc.owns j hj).usable s hs
  have hgeo := h.splice.frame.geo
  have hwblock : w.block b = v.block b := by
    refine h.splice.frame.block b ?_
    rintro (hacc | hof)
    · exact husable.not_isMetadata hacc.isMetadata
    · -- the file's blocks were its own or free before
      obtain ⟨s, hs, rfl⟩ := hof
      by_cases hold : v.slot (v.inodeAt i) s = 0
      · have hfree := h.splice.fresh s hold hs
        rw [husable.used] at hfree
        cases hfree
      · exact hc.apart i j hi hj (Ne.symm hne) _ ⟨s, hold, h.splice.kept s hold⟩ hb
  rw [← hwblock]
  refine h.frame.block b ?_
  rintro rfl
  exact husable.not_isMetadata (hc.ok.inodeBlock_isMetadata hi.hasInode)

theorem slot_other (s : Slot) : u.slot (v.inodeAt j) s = v.slot (v.inodeAt j) s := by
  refine slot_congr (h.frame.blockSize.trans h.splice.frame.blockSize) (fun h12 => ?_) s
  exact h.block_other hc hi hj hne ⟨.table, h12, rfl⟩

theorem mapAt_other (index : Nat) : u.mapAt (v.inodeAt j) index = v.mapAt (v.inodeAt j) index :=
  h.slot_other hc hi hj hne (.data index)

theorem lookup_other (name : CString) :
    u.lookup (v.inodeAt j) name = v.lookup (v.inodeAt j) name := by
  refine lookup_congr (h.frame.blockSize.trans h.splice.frame.blockSize)
    (h.mapAt_other hc hi hj hne) fun b hb => ?_
  exact h.block_other hc hi hj hne ⟨.data b, hb, rfl⟩

theorem owns_other : u.Owns (v.inodeAt j) where
  usable s hs := by
    rw [h.slot_other hc hi hj hne s] at hs ⊢
    obtain ⟨hin, hmeta, hused⟩ := (hc.owns j hj).usable s hs
    have hgeo := h.volume_geo
    refine ⟨hgeo ▸ hin, hgeo ▸ hmeta, ?_⟩
    rw [h.used hc hi hin]
    exact h.splice.used _ hin hused
  inj s t heq hs := by
    rw [h.slot_other hc hi hj hne s, h.slot_other hc hi hj hne t] at heq
    rw [h.slot_other hc hi hj hne s] at hs
    exact (hc.owns j hj).inj s t heq hs

theorem isOf_other (hb : u.IsOf (v.inodeAt j) b) : v.IsOf (v.inodeAt j) b := by
  obtain ⟨s, hs, rfl⟩ := hb
  rw [h.slot_other hc hi hj hne s] at hs ⊢
  exact ⟨s, hs, rfl⟩

end Other

/-! The image stays well formed. -/

theorem mode_self : (u.inodeAt i).mode = (v.inodeAt i).mode := by
  rw [h.inodeAt_self hc hi, mode_grown, h.splice.fields.mode]

theorem usedInode (hj : v.geo.HasInode j) : u.usedInode j = v.usedInode j := by
  have hgroup := hj.inodeGroup_lt
  have hregion : v.geo.HasRegion (.inodeBitmap (v.geo.inodeGroup j)) := hgroup
  have hblock : u.block (v.geo.inodeBitmap (v.geo.inodeGroup j)) =
      v.block (v.geo.inodeBitmap (v.geo.inodeGroup j)) := by
    have hloop : w.block (v.geo.inodeBitmap (v.geo.inodeGroup j)) =
        v.block (v.geo.inodeBitmap (v.geo.inodeGroup j)) := by
      refine h.splice.frame.block _ ?_
      rintro (((heq | ⟨k, hk, heq⟩) | ⟨group, hgroup', heq⟩) | ⟨s, hs, heq⟩)
      · cases hc.ok.valid.apart _ .superblock hregion trivial heq
      · cases hc.ok.valid.apart _ (.descriptors k) hregion hk heq
      · cases hc.ok.valid.apart _ (.blockBitmap group) hregion hgroup' heq
      · have hmeta := (h.splice.owns.usable s hs).not_isMetadata
        rw [← heq, h.splice.frame.geo] at hmeta
        exact hmeta ⟨_, hregion, rfl⟩
    rw [← hloop]
    refine h.frame.block _ fun heq => ?_
    cases hc.ok.valid.apart _ _ hregion (hc.ok.valid.hasRegion_inode hi.hasInode) heq
  unfold Volume.usedInode
  rw [h.volume_geo, hblock]

theorem mode (hj : v.geo.HasInode j) : (u.inodeAt j).mode = (v.inodeAt j).mode := by
  by_cases hne : j = i
  · rw [hne]
    exact h.mode_self hc hi
  · rw [h.inodeAt_of_ne hc hi hj hne]

theorem isDir (hj : v.geo.HasInode j) : (u.inodeAt j).isDir = (v.inodeAt j).isDir := by
  unfold Inode.isDir
  rw [h.mode hc hi hj]

theorem live_iff : u.Live j ↔ v.Live j := by
  have hgeo := h.volume_geo
  have hkind : v.geo.HasInode j → ((u.inodeAt j).isDir = true ∨ (u.inodeAt j).isReg = true ↔
      (v.inodeAt j).isDir = true ∨ (v.inodeAt j).isReg = true) := by
    intro hj
    unfold Inode.isDir Inode.isReg
    rw [h.mode hc hi hj]
  constructor
  · rintro ⟨hhas, hres, hused, hk⟩
    rw [hgeo] at hhas hres
    exact ⟨hhas, hres, (h.usedInode hc hi hhas).symm.trans hused, (hkind hhas).mp hk⟩
  · rintro ⟨hhas, hres, hused, hk⟩
    refine ⟨hgeo ▸ hhas, hgeo ▸ hres, (h.usedInode hc hi hhas).trans hused, (hkind hhas).mpr hk⟩

/-- Writing to a file that is not a directory leaves the directories alone. -/
theorem sameDirectories (hfile : (v.inodeAt i).isDir = false) : SameDirectories v u where
  ok := h.ok hc hi
  geo := h.volume_geo
  dir j hj hdir := by
    have hne : j ≠ i := by
      rintro rfl
      rw [hfile] at hdir
      cases hdir
    exact ⟨h.inodeAt_of_ne hc hi hj.hasInode hne, h.lookup_other hc hi hj hne⟩
  file j hj hdir := by rwa [h.isDir hc hi hj.hasInode]

/-- **Well-formedness.** A write to a regular file keeps the image well formed. -/
theorem consistent (hfile : (v.inodeAt i).isDir = false) : u.Consistent where
  ok := h.ok hc hi
  counted := h.volume_counted hc hi
  root := (h.live_iff hc hi).mpr hc.root
  owns j hj := by
    have hj' := (h.live_iff hc hi).mp hj
    by_cases hne : j = i
    · rw [hne, h.inodeAt_self hc hi]
      exact h.owns_self hc hi
    · rw [h.inodeAt_of_ne hc hi hj'.hasInode hne]
      exact h.owns_other hc hi hj' hne
  apart j k hj hk hne b hb hb' := by
    have hj' := (h.live_iff hc hi).mp hj
    have hk' := (h.live_iff hc hi).mp hk
    -- a block of another file was used before, so it is not one that `i` has got
    have hold : ∀ {m}, v.Live m → m ≠ i → u.IsOf (u.inodeAt m) b → v.IsOf (v.inodeAt m) b := by
      intro m hm hmi hof
      rw [h.inodeAt_of_ne hc hi hm.hasInode hmi] at hof
      exact h.isOf_other hc hi hm hmi hof
    have hself : ∀ {m}, v.Live m → m ≠ i → v.IsOf (v.inodeAt m) b →
        ¬ u.IsOf (inode'.grown newSize) b := by
      intro m hm hmi hof hself
      rcases h.isOf_self hc hi hself with hown | hfree
      · exact hc.apart m i hm hi hmi b hof hown
      · exact (hc.owns m hm).not_isOf_of_free hfree hof
    by_cases hji : j = i
    · rw [hji, h.inodeAt_self hc hi] at hb
      have hki : k ≠ i := fun hki => hne (hji.trans hki.symm)
      exact hself hk' hki (hold hk' hki hb') hb
    · have hbj := hold hj' hji hb
      by_cases hki : k = i
      · rw [hki, h.inodeAt_self hc hi] at hb'
        exact hself hj' hji hbj hb'
      · exact hc.apart j k hj' hk' hne b hbj (hold hk' hki hb')
  single j hj := by
    have hj' := (h.live_iff hc hi).mp hj
    by_cases hne : j = i
    · rw [hne, h.inodeAt_self hc hi, block_grown, block_grown,
        h.splice.fields.block le_rfl, h.splice.fields.block (by norm_num)]
      exact hc.single i hi
    · rw [h.inodeAt_of_ne hc hi hj'.hasInode hne]
      exact hc.single j hj'
  entries j hj name hne := by
    have hj' := (h.live_iff hc hi).mp hj
    rw [(h.sameDirectories hc hi hfile).lookup hj'] at hne ⊢
    exact (h.live_iff hc hi).mpr (hc.entries j hj' name hne)

end Saved

/-- The blocks of a file that a write touches end before this one. -/
def Volume.endBlock (v : Volume) (pos : Nat) : Nat :=
  (pos + v.state.blockSize - 1) / v.state.blockSize

theorem Volume.Ok.le_endBlock (hv : v.Ok) (pos : Nat) :
    pos ≤ v.endBlock pos * v.state.blockSize := by
  have hbs : 0 < v.state.blockSize := hv.valid.blockSize_pos
  have hdiv := Nat.div_add_mod (pos + v.state.blockSize - 1) v.state.blockSize
  have hmod := Nat.mod_lt (pos + v.state.blockSize - 1) hbs
  unfold endBlock
  rw [Nat.mul_comm]
  omega

/-- **A call of `write` without failures** on an open file of a well-formed image. -/
theorem exec_write (hc : v.Consistent) (hi : v.Live i) (hhandle : handle.fsPrivate = ⟨i, v.inodeAt i⟩)
    (hreach : v.Reaches offset) (data : List UInt8) :
    ∃ n w inode', n ≤ data.length ∧
      ((write handle offset data).exec v).1 =
        (toInt64 n, grow handle inode' (u64 (offset + n))) ∧
      Saved v i (slicePatch offset data 0 n) (u64 (offset + n)) w inode'
        ((write handle offset data).exec v).2 ∧
      (offset + data.length ≤ (12 + v.state.blockSize / 4) * v.state.blockSize →
        v.needed (v.inodeAt i) (offset / v.state.blockSize) (v.endBlock (offset + data.length)) ≤
          v.freeBlocks.card → n = data.length) := by
  obtain ⟨trace, hok, h⟩ := exists_runs_exec (write handle offset data) v
  rcases runs_write h with ⟨-, -, -, hfailed⟩ | ⟨n, inode', first, rest, w, ok, rfl, hloop, hhandle', hres, hinode⟩
  · exact absurd hok hfailed
  obtain ⟨-, hok⟩ := allOk_cons.mp hok
  obtain ⟨hokfirst, hokrest⟩ := allOk_append.mp hok
  rw [hhandle] at hloop hinode
  have hwrote := runs_writeLoop hc.ok (hc.owns i hi) (show v.Reaches (offset + 0) from hreach)
    (Nat.zero_le _) hloop (.of_allOk hokfirst)
  have hgeo := hwrote.splice.frame.geo
  refine ⟨n, w, inode', hwrote.le_length, ?_, ⟨hwrote.splice, hwrote.counted, ?_⟩, ?_⟩
  · rw [← hres, ← hhandle']
  · rcases runs_writeInode hwrote.splice.ok (hgeo ▸ hi.hasInode) hinode with ⟨-, hu⟩ | ⟨-, -, hfailed⟩
    · exact hu
    · exact absurd hokrest hfailed
  · intro hmax hspace
    refine writeLoop_all hc.ok (hc.owns i hi) hc.counted hokfirst (by omega) (Nat.zero_le _)
      (hc.ok.le_endBlock _) ?_ hspace hloop
    -- the last block is one that can be mapped
    have hbs : 0 < v.state.blockSize := hc.ok.valid.blockSize_pos
    refine Nat.le_of_lt_succ (Nat.div_lt_of_lt_mul ?_)
    rw [Nat.mul_succ, Nat.mul_comm]
    omega

end WengShiOS.Fs.Ext2
