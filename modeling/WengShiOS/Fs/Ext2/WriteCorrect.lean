import WengShiOS.Fs.Ext2.Check
import WengShiOS.Fs.Ext2.Write

/-! # What a write stores

The contents of a file are a list of bytes. A write to a file without holes, at an offset
that is not behind its end, splices the data into that list, and reads return the result,
through the handle that wrote and through one that is opened afterwards. -/

namespace WengShiOS.Fs.Ext2

open Math Math.Prog Volume Inode

variable {v u w : Volume} {inode inode' : Inode} {trace : List Event} {i j n offset : Nat}
  {data : List UInt8} {handle handle' : Handle} {patch : Nat → Option UInt8}

/-- The contents of a file. -/
def Volume.contents (v : Volume) (inode : Inode) : List UInt8 :=
  (List.range inode.size).map (v.contentAt inode)

/-- `old` with `new` in the place of what lies at `offset`. -/
def spliced (old : List UInt8) (offset : Nat) (new : List UInt8) : List UInt8 :=
  old.take offset ++ new ++ old.drop (offset + new.length)

/-- All blocks below the size are there. -/
def Volume.NoHoles (v : Volume) (inode : Inode) : Prop :=
  ∀ index, index * v.state.blockSize < inode.size → v.mapAt inode index ≠ 0

variable {pos p : Nat}

theorem Volume.NoHoles.mapAt_ne_zero (hnone : v.NoHoles inode) (hpos : pos < inode.size) :
    v.mapAt inode (pos / v.state.blockSize) ≠ 0 := by
  have := Nat.div_mul_le_self pos v.state.blockSize
  exact hnone _ (by omega)

@[simp] theorem Volume.length_contents : (v.contents inode).length = inode.size := by
  simp [contents]

theorem Volume.getElem?_contents (hpos : pos < inode.size) :
    (v.contents inode)[pos]? = some (v.contentAt inode pos) := by
  simp [contents, hpos]

theorem getElem?_spliced {old new : List UInt8} (hoffset : offset ≤ old.length) (pos : Nat) :
    (spliced old offset new)[pos]? =
      if offset ≤ pos ∧ pos < offset + new.length then new[pos - offset]? else old[pos]? := by
  have htake : (old.take offset).length = offset := by
    rw [List.length_take]
    omega
  unfold spliced
  rcases Nat.lt_or_ge pos offset with hlow | hge
  · rw [if_neg (by omega), List.append_assoc, List.getElem?_append_left (by omega),
      List.getElem?_take_of_lt hlow]
  · rcases Nat.lt_or_ge pos (offset + new.length) with hmid | hhigh
    · rw [if_pos ⟨hge, hmid⟩, List.getElem?_append_left (by rw [List.length_append]; omega),
        List.getElem?_append_right (by omega), htake]
    · rw [if_neg (by omega), List.getElem?_append_right (by rw [List.length_append]; omega),
        List.length_append, htake, List.getElem?_drop]
      congr 1
      omega

/-! ### Reading a file without holes -/

/-- What `read(p, n)` returns and stores if the file has these contents. -/
def readOf (contents : List UInt8) (p n : Nat) (handle : Handle) : Int × List UInt8 × Handle :=
  let part := (contents.drop p).take n
  (part.length, part, handle)

/-- Below 4 GiB a block number is not cut off. -/
theorem logicalBlock_eq {k : Nat} (hlt : p + k < 2 ^ 32) :
    v.logicalBlock p k = (p + k) / v.state.blockSize := by
  have hpos : u64 (p + k) = p + k := Nat.mod_eq_of_lt (hlt.trans (by norm_num))
  unfold logicalBlock
  rw [hpos]
  exact Nat.mod_eq_of_lt ((Nat.div_le_self ..).trans_lt hlt)

/-- The bytes that a read collects are those of the contents. -/
theorem bytesFrom_eq_contents (h13 : inode.block 13 = 0) (h14 : inode.block 14 = 0) :
    v.bytesFrom inode p 0 (min n (inode.size - p)) = ((v.contents inode).drop p).take n := by
  have hlt := inode.size_lt
  refine List.ext_getElem? fun k => ?_
  rcases Nat.lt_or_ge k (min n (inode.size - p)) with hk | hk
  · have hpos : u64 (p + k) = p + k := Nat.mod_eq_of_lt (by omega)
    have hbyte : v.byteAt inode (p + k) = v.contentAt inode (p + k) := by
      refine (byteAt_eq_contentAt_iff (by omega)).mpr fun hnot => ?_
      unfold contentAt
      rw [formatMap_eq_mapAt h13 h14, mapAt_of_not_inRange hnot, if_pos rfl]
    rw [List.getElem?_take_of_lt (by omega), List.getElem?_drop,
      getElem?_contents (by omega), bytesFrom, List.getElem?_map,
      List.getElem?_range' (by omega)]
    simp [hpos, hbyte]
  · rw [List.getElem?_eq_none (by simpa [bytesFrom] using hk),
      List.getElem?_eq_none (by simp; omega)]

theorem toInt64_of_lt {k : Nat} (hk : k < 2 ^ 63) : toInt64 k = k := by
  unfold toInt64
  rw [Int.bmod_eq_of_le] <;> omega

/-- The result of a read that got all its blocks. -/
theorem ReadState.result_complete : ReadState.result ⟨true, data, inode⟩ = toInt64 data.length :=
  if_pos (.inl rfl)

/-- A read that does not overflow returns the part of the contents that it asks for. -/
theorem exec_read_contents (hv : v.Ok)
    (hmapped : ∀ pos, p ≤ pos → pos < p + n → pos < handle.fsPrivate.inode.size →
      v.mapAt handle.fsPrivate.inode (pos / v.state.blockSize) ≠ 0)
    (h13 : handle.fsPrivate.inode.block 13 = 0) (h14 : handle.fsPrivate.inode.block 14 = 0)
    (hover : p + n < 2 ^ 64) :
    (read handle p n).exec v = (readOf (v.contents handle.fsPrivate.inode) p n handle, v) := by
  obtain ⟨⟨inodeNum, inode⟩, size, isDirectory⟩ := handle
  dsimp only at hmapped h13 h14 ⊢
  have hlt := inode.size_lt
  have hbs : v.state.blockSize ∣ 2 ^ 64 := hv.valid.blockSize_dvd
  rcases Nat.lt_or_ge p inode.size with hp | hp
  swap
  · rw [exec_read_past hp, readOf, List.drop_eq_nil_of_le (by simpa using hp)]
    simp
  have hclamp := clampCount_of_lt hp hover
  have hp' : p < (FileHandle.mk ⟨inodeNum, inode⟩ size isDirectory : Handle).fsPrivate.inode.size := hp
  obtain ⟨r, hout, hres⟩ := exec_read n hbs hp'
  rw [hclamp] at hout
  rcases hout with ⟨hu, rfl, -⟩ | ⟨-, k, -, hk, hnot⟩
  · refine Prod.ext ?_ hu
    rw [hres]
    simp only [List.nil_append, List.length_nil, Nat.sub_zero, bytesFrom_eq_contents h13 h14]
    have hlen : (((v.contents inode).drop p).take n).length ≤ inode.size := by simp
    rw [ReadState.result_complete, toInt64_of_lt (by omega)]
    rfl
  · -- no block of the read is a hole, so none is allocated
    refine absurd (fun _ hzero => ?_) hnot
    rw [logicalBlock_eq (by omega)] at hzero
    exact absurd hzero (hmapped (p + k) (by omega) (by omega) (by omega))

/-- If `p + n` overflows, the size of the file is not looked at. -/
theorem exec_read_overflow (hbs : 0 < v.state.blockSize) (hp : p < handle.fsPrivate.inode.size)
    (hn : n < 2 ^ 64) (hover : 2 ^ 64 ≤ p + n) :
    ((read handle p n).exec v).1.2.1.length = n ∧ ((read handle p n).exec v).1.1 = toInt64 n := by
  have hlt := handle.fsPrivate.inode.size_lt
  obtain ⟨trace, hok, h⟩ := exists_runs_exec (read handle p n) v
  have hbody := runs_getState_bind.mp h
  rw [if_neg (by omega), clampCount_overflow hp hn hover] at hbody
  rcases runs_withBuffer.mp hbody with ⟨rfl, -, -⟩ | ⟨rest, rfl, hrun⟩
  · simp at hok
  obtain ⟨first, last, r, w, rfl, hloop, hlast⟩ := runs_bind.mp hrun
  obtain ⟨rfl, hr, -⟩ := runs_pure.mp hlast
  rw [List.append_nil, allOk_cons] at hok
  obtain ⟨hle, hall⟩ := readLoop_length (Nat.zero_le _) hloop
  have hlen : r.data.length = n := le_antisymm hle (hall hbs (by simp) hok.2)
  rw [hr]
  refine ⟨hlen, ?_⟩
  unfold ReadState.result
  rw [hlen, if_pos (.inr (by omega))]

/-! ### Writing to a file without holes -/

/-- **The bytes of the file.** A byte of the patch is what the patch says; any other byte
of a block that the file had already, or still does not have, is what it was. -/
theorem Splice.contentAt (h : Splice v inode patch w inode') (hv : v.Ok)
    (hsize : u.state.blockSize = w.state.blockSize)
    (hblock : ∀ b, w.Usable b → u.block b = w.block b) (h13 : inode.block 13 = 0)
    (h14 : inode.block 14 = 0) (newSize : Nat)
    (hpos : patch pos ≠ none ∨ v.mapAt inode (pos / v.state.blockSize) ≠ 0 ∨
      w.mapAt inode' (pos / v.state.blockSize) = 0) :
    u.contentAt (inode'.grown newSize) pos = (patch pos).getD (v.contentAt inode pos) := by
  have hbs : 0 < v.state.blockSize := hv.valid.blockSize_pos
  have h13' : (inode'.grown newSize).block 13 = 0 := by
    rw [block_grown, h.fields.block le_rfl, h13]
  have h14' : (inode'.grown newSize).block 14 = 0 := by
    rw [block_grown, h.fields.block (by norm_num), h14]
  have hmapAt : ∀ index, u.mapAt (inode'.grown newSize) index = w.mapAt inode' index := fun _ =>
    mapAt_congr hsize (fun _ => block_grown ..) (block_grown ..)
      fun h12 => hblock _ (h.owns.usable .table h12)
  unfold Volume.contentAt
  rw [formatMap_eq_mapAt h13' h14', formatMap_eq_mapAt h13 h14, hsize,
    h.frame.blockSize, hmapAt]
  by_cases hmap : w.mapAt inode' (pos / v.state.blockSize) = 0
  · -- a block that is still missing was missing before, and the patch has no byte there
    have hnone : patch pos = none := by
      by_contra hsome
      exact h.covered pos hsome hmap
    have hold : v.mapAt inode (pos / v.state.blockSize) = 0 := by
      by_contra hne
      exact hne ((h.mapAt_kept hne).symm.trans hmap)
    rw [if_pos hmap, if_pos hold, hnone]
    rfl
  · have hcontent := h.content (pos / v.state.blockSize) (pos % v.state.blockSize)
      (Nat.mod_lt _ hbs) hmap
    rw [Nat.div_add_mod'] at hcontent
    rw [if_neg hmap, hblock _ (h.owns.usable_data hmap), hcontent]
    cases hpatch : patch pos with
    | some byte => rfl
    | none =>
      have hold : v.mapAt inode (pos / v.state.blockSize) ≠ 0 := by
        rcases hpos with hne | hold | hzero
        · exact absurd hpatch hne
        · exact hold
        · exact absurd hzero hmap
      rw [if_neg hold, h.mapAt_kept hold]

namespace Saved

variable {newSize : Nat} (h : Saved v i patch newSize w inode' u) (hc : v.Consistent) (hi : v.Live i)
include h hc hi

theorem mapAt_self (index : Nat) : u.mapAt (u.inodeAt i) index = w.mapAt inode' index := by
  rw [h.inodeAt_self hc hi]
  exact h.slot hc hi (.data index)

theorem contentAt_self {pos : Nat}
    (hpos : patch pos ≠ none ∨ v.mapAt (v.inodeAt i) (pos / v.state.blockSize) ≠ 0) :
    u.contentAt (u.inodeAt i) pos = (patch pos).getD (v.contentAt (v.inodeAt i) pos) := by
  obtain ⟨h13, h14⟩ := hc.single i hi
  rw [h.inodeAt_self hc hi]
  exact h.splice.contentAt hc.ok h.frame.blockSize (fun _ => h.block_of_usable hc hi) h13 h14 newSize
    (hpos.imp_right .inl)

/-- The contents of other files and directories are what they were. -/
theorem contents_other (hj : v.Live j) (hne : j ≠ i) :
    u.contents (u.inodeAt j) = v.contents (v.inodeAt j) := by
  obtain ⟨h13, h14⟩ := hc.single j hj
  rw [h.inodeAt_of_ne hc hi hj.hasInode hne]
  refine List.map_congr_left fun pos _ => ?_
  unfold contentAt
  rw [formatMap_eq_mapAt h13 h14, formatMap_eq_mapAt h13 h14,
    h.frame.blockSize.trans h.splice.frame.blockSize, h.mapAt_other hc hi hj hne]
  split_ifs with hzero
  · rfl
  · rw [h.block_other hc hi hj hne (isOf_data hzero)]

end Saved

/-- What a write of `data` at `offset` to file `i` has to do: it returns the number of
bytes, they are spliced into the contents, which handles on the file then read and opening
the file again finds; and nothing else in the image changes. A read is right unless it
starts inside the file and `p + n` overflows. -/
structure WriteCorrect (v : Volume) (i offset : Nat) (data : List UInt8) (res : Int)
    (handle' : Handle) (u : Volume) : Prop where
  result : res = data.length
  size : handle'.fsPrivate.inode.size = max (v.inodeAt i).size (offset + data.length)
  read : ∀ handle : Handle, handle.fsPrivate = handle'.fsPrivate → ∀ p n, n < 2 ^ 64 →
    (((read handle p n).exec u).1 = readOf (spliced (v.contents (v.inodeAt i)) offset data) p n handle ↔
      handle'.fsPrivate.inode.size ≤ p ∨ p + n < 2 ^ 64)
  reopened : ∀ path, v.resolve path = i →
    ∃ handle, (openFile path).exec u = (some handle, u) ∧ handle.fsPrivate = handle'.fsPrivate
  others : ∀ j, v.Live j → j ≠ i →
    u.inodeAt j = v.inodeAt j ∧ u.contents (u.inodeAt j) = v.contents (v.inodeAt j)
  consistent : u.Consistent

theorem Inode.not_isDir_of_isReg (hreg : inode.isReg = true) : inode.isDir = false := by
  unfold isReg at hreg
  unfold isDir
  rw [decide_eq_true_eq] at hreg
  rw [hreg]
  rfl

namespace Saved

variable {newSize : Nat} (h : Saved v i (slicePatch offset data 0 data.length) newSize w inode' u)
  (hc : v.Consistent) (hi : v.Live i) (hoffset : offset ≤ (v.inodeAt i).size)
  (hsize : (u.inodeAt i).size = max (v.inodeAt i).size (offset + data.length))
  (hnone : v.NoHoles (v.inodeAt i))
include h hc hi hoffset hsize hnone

/-- A byte of the file afterwards. -/
theorem contentAt_splice {pos : Nat} (hpos : pos < (u.inodeAt i).size) :
    u.contentAt (u.inodeAt i) pos = if offset ≤ pos ∧ pos < offset + data.length
      then data.getD (pos - offset) 0 else v.contentAt (v.inodeAt i) pos := by
  have hmapped : slicePatch offset data 0 data.length pos ≠ none ∨
      v.mapAt (v.inodeAt i) (pos / v.state.blockSize) ≠ 0 := by
    by_cases hin : offset ≤ pos ∧ pos < offset + data.length
    · exact .inl (by simp [slicePatch_zero, hin])
    · exact .inr (hnone.mapAt_ne_zero (by omega))
  rw [h.contentAt_self hc hi hmapped, slicePatch_zero]
  split_ifs <;> rfl

theorem contents_splice :
    u.contents (u.inodeAt i) = spliced (v.contents (v.inodeAt i)) offset data := by
  have hlength : offset ≤ (v.contents (v.inodeAt i)).length := by simpa using hoffset
  refine List.ext_getElem? fun pos => ?_
  rw [getElem?_spliced hlength]
  rcases Nat.lt_or_ge pos (u.inodeAt i).size with hpos | hpos
  · rw [getElem?_contents hpos, h.contentAt_splice hc hi hoffset hsize hnone hpos]
    split_ifs with hin
    · rw [List.getD_eq_getElem?_getD, List.getElem?_eq_getElem (by omega)]
      rfl
    · rw [getElem?_contents (by omega)]
  · rw [List.getElem?_eq_none (by simpa using hpos), if_neg (by omega),
      List.getElem?_eq_none (by simp; omega)]

/-- The blocks between the old end and the new one have all been written to. -/
theorem noHoles_splice : u.NoHoles (u.inodeAt i) := by
  have hbs : 0 < v.state.blockSize := hc.ok.valid.blockSize_pos
  intro index hindex
  rw [h.frame.blockSize.trans h.splice.frame.blockSize, hsize] at hindex
  rw [h.mapAt_self hc hi]
  rcases Nat.lt_or_ge (index * v.state.blockSize) (v.inodeAt i).size with hlt | hge
  · rw [h.splice.mapAt_kept (hnone index hlt)]
    exact hnone index hlt
  · have hcovered := h.splice.covered (index * v.state.blockSize) (by
      rw [slicePatch_zero, if_pos (by omega)]
      nofun)
    rwa [Nat.mul_div_cancel _ hbs] at hcovered

end Saved

/-- A write without failures that has enough blocks stores everything, and the handle has the
inode that is on the disk then. -/
theorem exec_write_complete (hc : v.Consistent) (hi : v.Live i)
    (hhandle : handle.fsPrivate = ⟨i, v.inodeAt i⟩)
    (hmax : offset + data.length ≤ (12 + v.state.blockSize / 4) * v.state.blockSize)
    (hspace : v.needed (v.inodeAt i) (offset / v.state.blockSize)
      (v.endBlock (offset + data.length)) ≤ v.freeBlocks.card) :
    ∃ (w : Volume) (inode' : Inode) (u : Volume) (handle' : Handle),
      (write handle offset data).exec v = (((data.length : Int), handle'), u) ∧
      Saved v i (slicePatch offset data 0 data.length) (offset + data.length) w inode' u ∧
      handle'.fsPrivate = ⟨i, u.inodeAt i⟩ ∧
      (u.inodeAt i).size = max (v.inodeAt i).size (offset + data.length) := by
  obtain ⟨hmapped, hreach⟩ := hc.ok.mapped_lt
  obtain ⟨n, w, inode', -, hres, h, hall⟩ := exec_write hc hi hhandle
    (show offset < _ by omega) data
  obtain rfl := hall hmax hspace
  have hu64 : u64 (offset + data.length) = offset + data.length := Nat.mod_eq_of_lt (by omega)
  rw [hu64] at h hres
  refine ⟨w, inode', _, grow handle inode' (offset + data.length), ?_, h, ?_, ?_⟩
  · rw [← toInt64_of_lt (show data.length < 2 ^ 63 by omega)]
    exact Prod.ext hres rfl
  · rw [grow_inode, hhandle, h.inodeAt_self hc hi]
  · rw [h.inodeAt_self hc hi, size_grown _ (by omega), h.splice.fields.size]

/-- **Writes splice.** A write without failures to a regular file without holes of a
well-formed image, at an offset not behind its end and with enough blocks for it, is
correct. -/
theorem write_splices (hc : v.Consistent) (hi : v.Live i) (hreg : (v.inodeAt i).isReg = true)
    (hhandle : handle.fsPrivate = ⟨i, v.inodeAt i⟩) (hnone : v.NoHoles (v.inodeAt i))
    (hoffset : offset ≤ (v.inodeAt i).size)
    (hmax : offset + data.length ≤ (12 + v.state.blockSize / 4) * v.state.blockSize)
    (hspace : v.needed (v.inodeAt i) (offset / v.state.blockSize)
      (v.endBlock (offset + data.length)) ≤ v.freeBlocks.card) :
    WriteCorrect v i offset data ((write handle offset data).exec v).1.1
      ((write handle offset data).exec v).1.2 ((write handle offset data).exec v).2 := by
  have hfile := not_isDir_of_isReg hreg
  obtain ⟨w, inode', u, handle', hexec, h, hprivate, hsize⟩ :=
    exec_write_complete hc hi hhandle hmax hspace
  have hcons := h.consistent hc hi hfile
  have hlive := (h.live_iff hc hi).mpr hi
  rw [hexec]
  refine ⟨rfl, ?_, ?_, ?_, ?_, hcons⟩
  · rw [hprivate]
    exact hsize
  · intro handle' hhandle' p n hn
    rw [hprivate] at hhandle' ⊢
    rw [← h.contents_splice hc hi hoffset hsize hnone]
    dsimp only
    obtain ⟨h13, h14⟩ := hcons.single i hlive
    by_cases hover : p + n < 2 ^ 64
    · refine iff_of_true ?_ (.inr hover)
      rw [exec_read_contents hcons.ok ?_ (by rw [hhandle']; exact h13) (by rw [hhandle']; exact h14)
        hover, hhandle']
      rw [hhandle']
      exact fun pos _ _ hpos => (h.noHoles_splice hc hi hoffset hsize hnone).mapAt_ne_zero hpos
    · rcases Nat.lt_or_ge p (u.inodeAt i).size with hp | hp
      · -- the read stores `n` bytes, more than the file has
        refine iff_of_false (fun heq => ?_) (by omega)
        have hlen := (exec_read_overflow hcons.ok.valid.blockSize_pos
          (by rw [hhandle']; exact hp) hn (by omega)).1
        rw [heq] at hlen
        have hlt := (u.inodeAt i).size_lt
        simp [readOf] at hlen
        omega
      · refine iff_of_true ?_ (.inl hp)
        rw [exec_read_past (by rw [hhandle']; exact hp), readOf,
          List.drop_eq_nil_of_le (by simpa using hp)]
        simp
  · intro path hpath
    have hpath' : u.resolve path = i := ((h.sameDirectories hc hi hfile).resolve hc path).trans hpath
    refine ⟨_, exec_openFile hcons.ok path (by rw [hpath']; exact hlive.hasInode), ?_⟩
    rw [hpath', hprivate]
  · intro j hj hne
    exact ⟨h.inodeAt_of_ne hc hi hj.hasInode hne, h.contents_other hc hi hj hne⟩

/-- Four bytes over the end of a file of ten. -/
theorem write_over_end_splices :
    WriteCorrect fileVolume 11 8 [1, 2, 3, 4] ((write fileHandle 8 [1, 2, 3, 4]).exec fileVolume).1.1
      ((write fileHandle 8 [1, 2, 3, 4]).exec fileVolume).1.2
      ((write fileHandle 8 [1, 2, 3, 4]).exec fileVolume).2 := by
  have hsize : (fileVolume.inodeAt 11).size = 10 := by decide +kernel
  have hbs : fileVolume.state.blockSize = 1024 := by decide +kernel
  refine write_splices fileVolume_consistent fileVolume_live (by decide +kernel) rfl ?_ ?_ ?_ ?_
  · intro index hindex
    obtain rfl : index = 0 := by
      rw [hsize, hbs] at hindex
      omega
    decide +kernel
  · rw [hsize]
    norm_num
  · rw [hbs]
    norm_num
  · exact Nat.zero_le _

/-- Afterwards the file has twelve bytes, and `read(1, 2^64 - 1)` stores all the bytes it
was asked for. -/
theorem not_write_splices :
    ((write fileHandle 8 [1, 2, 3, 4]).exec fileVolume).1.1 = 4 ∧
      ((write fileHandle 8 [1, 2, 3, 4]).exec fileVolume).1.2.fsPrivate.inode.size = 12 ∧
      ((read ((write fileHandle 8 [1, 2, 3, 4]).exec fileVolume).1.2 1 (2 ^ 64 - 1)).exec
        ((write fileHandle 8 [1, 2, 3, 4]).exec fileVolume).2).1.2.1.length = 2 ^ 64 - 1 := by
  have hsize : ((write fileHandle 8 [1, 2, 3, 4]).exec fileVolume).1.2.fsPrivate.inode.size = 12 := by
    decide +kernel
  have hbs : ((write fileHandle 8 [1, 2, 3, 4]).exec fileVolume).2.state.blockSize = 1024 := by
    decide +kernel
  refine ⟨by decide +kernel, hsize, (exec_read_overflow ?_ ?_ (by norm_num) (by norm_num)).1⟩
  · rw [hbs]
    norm_num
  · rw [hsize]
    norm_num

end WengShiOS.Fs.Ext2
