import WengShiOS.FileFormats.Elf
import WengShiOS.Fs.Ext2.World
import WengShiOS.Fs.Ext2.WriteCorrect

/-! # Reading in pieces

The VFS and the driver both keep track of where a file ends: `VFS::read` moves the offset of
the descriptor by the number of bytes that the driver reports, and the driver cuts the count
at the size of the inode. On a file without holes a read changes nothing but the offset, so
a list of reads gives the bytes of one read of their sum, and `readFully` succeeds if the
bytes are there. -/

namespace WengShiOS.Fs.Ext2

open Math Math.Prog FileFormats.Elf Volume Vfs World

variable {v u : Volume} {inode : Inode} {handle : Handle} {offset count : Nat}

/-- Every block below the end of the file is allocated. -/
def Volume.HoleFree (v : Volume) (inode : Inode) : Prop :=
  ∀ index, index * v.state.blockSize < inode.size → v.formatMap inode index ≠ 0

/-! ### One call of the driver -/

/-- A read of a file without holes asks only for blocks that are there or that the driver
cannot reach. -/
theorem Volume.HoleFree.settled (hfree : v.HoleFree inode) {pos : Nat} (hpos : pos < inode.size)
    (k : Nat) (hk : u64 (offset + k) = pos) : v.Settled inode (v.logicalBlock offset k) := by
  intro hin hzero
  have hlt := inode.size_lt
  have hblock : v.logicalBlock offset k = pos / v.state.blockSize := by
    unfold logicalBlock
    rw [hk]
    exact Nat.mod_eq_of_lt ((Nat.div_le_self ..).trans_lt (hpos.trans hlt))
  rw [hblock] at hin hzero
  rw [mapAt_eq_formatMap hin] at hzero
  exact absurd hzero (hfree _ ((Nat.div_mul_le_self ..).trans_lt hpos))

/-- The bytes behind the first `m` are those of a read that starts there. -/
theorem bytesFrom_append (v : Volume) (inode : Inode) (offset m n : Nat) :
    v.bytesFrom inode offset 0 (m + n) =
      v.bytesFrom inode offset 0 m ++ v.bytesFrom inode (offset + m) 0 n := by
  rw [bytesFrom_add, Nat.zero_add]
  congr 1
  unfold bytesFrom
  rw [List.range'_eq_map_range, ← List.range_eq_range', List.map_map]
  refine List.map_congr_left fun k _ => ?_
  simp only [Function.comp_apply, Nat.add_assoc]

/-- The number of bytes that a read of `count` bytes gets. -/
def available (inode : Inode) (offset count : Nat) : Nat := min count (inode.size - offset)

/-- A read of a file without holes, as long as the end of the range is a 64-bit number. -/
theorem exec_read_holeFree (hbs : v.state.blockSize ∣ 2 ^ 64)
    (hfree : v.HoleFree handle.fsPrivate.inode)
    (hover : offset < handle.fsPrivate.inode.size → offset + count < 2 ^ 64) :
    (read handle offset count).exec v =
      ((((available handle.fsPrivate.inode offset count : Nat) : Int),
        v.bytesFrom handle.fsPrivate.inode offset 0
          (available handle.fsPrivate.inode offset count), handle), v) := by
  have hlt := handle.fsPrivate.inode.size_lt
  by_cases hsize : offset < handle.fsPrivate.inode.size
  swap
  · have hnone : available handle.fsPrivate.inode offset count = 0 := by
      unfold available
      omega
    rw [exec_read_past (Nat.not_lt.mp hsize), hnone]
    simp [bytesFrom]
  obtain ⟨r, hout, hres⟩ := exec_read (v := v) count hbs hsize
  rw [clampCount_of_lt hsize (hover hsize), ← available] at hout
  have hle : available handle.fsPrivate.inode offset count ≤
      handle.fsPrivate.inode.size - offset := Nat.min_le_right ..
  rcases hout with ⟨hu, rfl, -⟩ | ⟨-, k, -, hk, hnot⟩
  · refine Prod.ext ?_ hu
    rw [hres, ReadState.result_complete]
    simp only [List.nil_append, List.length_nil, Nat.sub_zero]
    have hlen : (v.bytesFrom handle.fsPrivate.inode offset 0
        (available handle.fsPrivate.inode offset count)).length =
          available handle.fsPrivate.inode offset count := by simp [bytesFrom]
    rw [hlen, toInt64_of_lt (by omega)]
  · have hpos : u64 (offset + k) = offset + k := Nat.mod_eq_of_lt (by omega)
    exact absurd (hfree.settled (by omega) k hpos) hnot

/-- A call that fails nowhere and changes nothing on its volume leaves the world as it was. -/
theorem World.call_eq_of_exec {α : Type} {w : World} {fs : Nat} {f : Ext2M α} {a : α}
    (hpattern : w.pattern = fun _ => true) (h : f.exec (w.volume fs) = (a, w.volume fs)) :
    w.call fs f = (a, w) := by
  obtain ⟨disks, instances, fresh, pattern⟩ := w
  subst hpattern
  rw [exec_eq_run] at h
  obtain ⟨hres, hvolume⟩ := Prod.mk.inj h
  refine Prod.ext hres ?_
  unfold call runOn after
  simp only [hvolume]
  simp [volume]

/-! ### Calls through a descriptor -/

section Descriptor

variable {D : Type*} {drivers : D → FilesystemDriver World Nat PrivateData}
  {s : Vfs D Nat PrivateData World} {fd : Int} {k : Fin maxOpenFiles}

/-- The descriptor is open on a file without holes, and no access fails from now on. -/
structure ReadsSafely (drivers : D → FilesystemDriver World Nat PrivateData)
    (s : Vfs D Nat PrivateData World) (fd : Int) (k : Fin maxOpenFiles) : Prop where
  file : OnExt2 drivers s fd k
  pattern : s.world.pattern = fun _ => true
  blockSize : (volumeOf s k).state.blockSize ∣ 2 ^ 64
  holeFree : (volumeOf s k).HoleFree (privateOf s k).inode

/-- The VFS with the descriptor at another offset. -/
def atOffset (s : Vfs D Nat PrivateData World) (k : Fin maxOpenFiles) (offset : Nat) :
    Vfs D Nat PrivateData World :=
  s.setFile k { s.openFiles k with offset }

@[simp] theorem openFiles_atOffset (s : Vfs D Nat PrivateData World) (k : Fin maxOpenFiles)
    (offset : Nat) : (atOffset s k offset).openFiles k = { s.openFiles k with offset } := by
  simp [atOffset, setFile]

@[simp] theorem atOffset_atOffset (s : Vfs D Nat PrivateData World) (k : Fin maxOpenFiles)
    (m n : Nat) : atOffset (atOffset s k m) k n = atOffset s k n := by
  unfold atOffset setFile
  simp

theorem atOffset_self (s : Vfs D Nat PrivateData World) (k : Fin maxOpenFiles) :
    atOffset s k (s.openFiles k).offset = s := by
  unfold atOffset setFile
  rw [Function.update_eq_self]

theorem slotOf_atOffset (s : Vfs D Nat PrivateData World) (fd : Int) (k : Fin maxOpenFiles)
    (offset : Nat) : (atOffset s k offset).slotOf fd = s.slotOf fd := by
  have huse : ∀ i, ((atOffset s k offset).openFiles i).inUse = (s.openFiles i).inUse := by
    intro i
    by_cases hi : i = k
    · subst hi
      simp
    · simp [atOffset, setFile, Function.update_of_ne hi]
  unfold slotOf
  simp only [huse]

theorem target_atOffset (s : Vfs D Nat PrivateData World) (k : Fin maxOpenFiles) (offset : Nat) :
    (atOffset s k offset).target k = s.target k := by
  unfold target
  rw [openFiles_atOffset]
  rfl

theorem volumeOf_atOffset (s : Vfs D Nat PrivateData World) (k : Fin maxOpenFiles) (offset : Nat) :
    volumeOf (atOffset s k offset) k = volumeOf s k := by
  unfold volumeOf
  rw [target_atOffset]
  rfl

theorem privateOf_atOffset (s : Vfs D Nat PrivateData World) (k : Fin maxOpenFiles)
    (offset : Nat) : privateOf (atOffset s k offset) k = privateOf s k := by
  unfold privateOf
  rw [openFiles_atOffset]

/-- Moving the offset changes nothing else about the descriptor. -/
theorem ReadsSafely.atOffset (h : ReadsSafely drivers s fd k) (offset : Nat) :
    ReadsSafely drivers (atOffset s k offset) fd k where
  file := ⟨(slotOf_atOffset s fd k offset).trans h.file.slot, by
    rw [target_atOffset]
    exact h.file.driver⟩
  pattern := h.pattern
  blockSize := by
    rw [volumeOf_atOffset]
    exact h.blockSize
  holeFree := by
    rw [volumeOf_atOffset, privateOf_atOffset]
    exact h.holeFree

/-- A read whose run on the volume changes neither the volume nor the handle moves the offset
and does nothing else. -/
theorem ReadsSafely.read_eq (h : ReadsSafely drivers s fd k) {n : Int} {data : List UInt8}
    (hexec : (Ext2.read (s.openFiles k).handle (s.openFiles k).offset count).exec
      (volumeOf s k) = ((n, data, (s.openFiles k).handle), volumeOf s k)) :
    s.read drivers fd count = (n, data, s.setFile k (advance (s.openFiles k) n)) := by
  have hcall := call_eq_of_exec h.pattern hexec
  have hread : (drivers (s.target k).1).read (s.target k).2 (s.openFiles k).handle
      (s.openFiles k).offset count s.world = (n, data, (s.openFiles k).handle, s.world) := by
    rw [h.file.driver]
    simp only [driver, hcall]
  rw [Vfs.read, h.file.slot]
  simp only [hread]
  rfl

/-- **One read.** It returns the bytes up to the end of the file and moves the offset behind
them. -/
theorem ReadsSafely.read (h : ReadsSafely drivers s fd k) (count : Nat)
    (hover : (s.openFiles k).offset < (privateOf s k).inode.size →
      (s.openFiles k).offset + count < 2 ^ 64) :
    s.read drivers fd count =
      (((available (privateOf s k).inode (s.openFiles k).offset count : Nat) : Int),
        (volumeOf s k).bytesFrom (privateOf s k).inode (s.openFiles k).offset 0
          (available (privateOf s k).inode (s.openFiles k).offset count),
        Ext2.atOffset s k ((s.openFiles k).offset +
          available (privateOf s k).inode (s.openFiles k).offset count)) := by
  have hlt := (privateOf s k).inode.size_lt
  have hle : available (privateOf s k).inode (s.openFiles k).offset count ≤
    (privateOf s k).inode.size - (s.openFiles k).offset := Nat.min_le_right ..
  rw [h.read_eq (exec_read_holeFree h.blockSize h.holeFree hover)]
  refine Prod.ext rfl (Prod.ext rfl ?_)
  show s.setFile k (advance (s.openFiles k)
    (available (privateOf s k).inode (s.openFiles k).offset count : Nat)) = _
  unfold advance Ext2.atOffset
  split_ifs with hpos
  · have hcut : toUInt64 ((s.openFiles k).offset +
        (available (privateOf s k).inode (s.openFiles k).offset count : Nat)) =
      (s.openFiles k).offset + available (privateOf s k).inode (s.openFiles k).offset count := by
      unfold toUInt64
      omega
    rw [hcut]
  · rw [show available (privateOf s k).inode (s.openFiles k).offset count = 0 by omega, Nat.add_zero]

/-- Read again and again: what each call returned and stored, and the VFS afterwards. -/
def readAll (drivers : D → FilesystemDriver World Nat PrivateData) (fd : Int) :
    List Nat → Vfs D Nat PrivateData World → List (Int × List UInt8) × Vfs D Nat PrivateData World
  | [], s => ([], s)
  | count :: counts, s =>
    let (n, data, s) := s.read drivers fd count
    let (results, s) := readAll drivers fd counts s
    ((n, data) :: results, s)

theorem available_add (inode : Inode) (offset m n : Nat) :
    available inode offset (m + n) = available inode offset m +
      available inode (offset + available inode offset m) n := by
  unfold available
  omega

/-- By induction on the list: every call goes on where the one before it stopped. -/
theorem ReadsSafely.readAll (h : ReadsSafely drivers s fd k) {counts : List Nat}
    (hsum : counts.sum < 2 ^ 63) :
    ((readAll drivers fd counts s).1.map Prod.fst).sum =
        ((available (privateOf s k).inode (s.openFiles k).offset counts.sum : Nat) : Int) ∧
      ((readAll drivers fd counts s).1.map Prod.snd).flatten =
        (volumeOf s k).bytesFrom (privateOf s k).inode (s.openFiles k).offset 0
          (available (privateOf s k).inode (s.openFiles k).offset counts.sum) ∧
      (readAll drivers fd counts s).2 = Ext2.atOffset s k ((s.openFiles k).offset +
          available (privateOf s k).inode (s.openFiles k).offset counts.sum) := by
  induction counts generalizing s with
  | nil =>
    have hnone : available (privateOf s k).inode (s.openFiles k).offset 0 = 0 := Nat.zero_min _
    simp [Ext2.readAll, hnone, bytesFrom, atOffset_self]
  | cons count counts ih =>
    rw [List.sum_cons] at hsum ⊢
    have hlt := (privateOf s k).inode.size_lt
    obtain ⟨hres, hdata, hstate⟩ := ih (h.atOffset ((s.openFiles k).offset +
      available (privateOf s k).inode (s.openFiles k).offset count)) (by omega)
    rw [privateOf_atOffset, openFiles_atOffset] at hres hdata hstate
    rw [volumeOf_atOffset] at hdata
    rw [atOffset_atOffset] at hstate
    unfold Ext2.readAll
    rw [h.read count (by omega)]
    simp only [List.map_cons, List.sum_cons, List.flatten_cons, hres, hdata, hstate, available_add,
      bytesFrom_append, Nat.cast_add, Nat.add_assoc, and_self]

/-- If the end of the range is no 64-bit number, the driver does not see the end of the file
and reports a negative number. -/
theorem ReadsSafely.read_overflow (h : ReadsSafely drivers s fd k) (hcount : count < 2 ^ 64)
    (hsize : (s.openFiles k).offset < (privateOf s k).inode.size)
    (hover : 2 ^ 64 ≤ (s.openFiles k).offset + count) : (s.read drivers fd count).1 < 0 := by
  have hlt := (privateOf s k).inode.size_lt
  have hres := (exec_read_overflow (v := volumeOf s k)
    (Nat.pos_of_dvd_of_pos h.blockSize (by norm_num)) hsize hcount hover).2
  have hread : (s.read drivers fd count).1 =
      (((Ext2.read (s.openFiles k).handle (s.openFiles k).offset count).exec (volumeOf s k)).1).1 := by
    rw [exec_eq_run, Vfs.read, h.file.slot]
    simp only [h.file.driver]
    rw [← h.pattern]
    rfl
  rw [hread, hres, toInt64, Int.bmod_def]
  omega

/-- The loop asks at most twice: the first read gets all that is left, and the second one, if
there is one, nothing. -/
theorem ReadsSafely.readFully (h : ReadsSafely drivers s fd k) {n : Nat} (hn : n < 2 ^ 64) :
    (readFully drivers s fd n).map Prod.fst =
      some (decide (n ≤ (privateOf s k).inode.size - (s.openFiles k).offset)) := by
  have hlt := (privateOf s k).inode.size_lt
  unfold FileFormats.Elf.readFully
  rcases Nat.eq_zero_or_pos n with rfl | hpos
  · rw [readFullyLoop_done le_rfl]
    simp
  by_cases hover : (s.openFiles k).offset < (privateOf s k).inode.size →
      (s.openFiles k).offset + n < 2 ^ 64
  swap
  · obtain ⟨hsize, hover⟩ := Classical.not_imp.mp hover
    rw [readFullyLoop_stop hpos rfl (h.read_overflow (by omega) hsize (by omega)).le]
    simp only [Option.map_some, Option.some.injEq, Bool.false_eq, decide_eq_false_iff_not]
    omega
  have hread := h.read n hover
  set m := available (privateOf s k).inode (s.openFiles k).offset n with hm
  have hmin : m = min n ((privateOf s k).inode.size - (s.openFiles k).offset) := hm
  rcases Nat.eq_zero_or_pos m with hzero | hsome
  · rw [readFullyLoop_stop hpos hread (by omega)]
    simp only [Option.map_some, Option.some.injEq, Bool.false_eq, decide_eq_false_iff_not]
    omega
  · obtain ⟨fuel, rfl⟩ : ∃ fuel, n = fuel + 1 := ⟨n - 1, by omega⟩
    rw [readFullyLoop_next hpos hread (by omega), Int.toNat_natCast, Nat.zero_add,
      Nat.mod_eq_of_lt (by omega)]
    by_cases hall : fuel + 1 ≤ m
    · rw [readFullyLoop_done hall]
      simp only [Option.map_some, Option.some.injEq, Bool.true_eq, decide_eq_true_eq]
      omega
    · -- the first read stopped at the end of the file
      have hagain := (h.atOffset ((s.openFiles k).offset + m)).read (fuel + 1 - m) (by
        rw [openFiles_atOffset, privateOf_atOffset]
        intro hsize
        omega)
      rw [readFullyLoop_stop (by omega) hagain]
      · simp only [Option.map_some, Option.some.injEq, Bool.false_eq, decide_eq_false_iff_not]
        omega
      · rw [openFiles_atOffset, privateOf_atOffset]
        unfold available
        dsimp only
        omega

/-- Reading in pieces of the given sizes is one read: the bytes, the sum of the results, and
where the descriptor is afterwards. -/
structure ChunkedAsOne (drivers : D → FilesystemDriver World Nat PrivateData)
    (s : Vfs D Nat PrivateData World) (fd : Int) (counts : List Nat) : Prop where
  data : ((readAll drivers fd counts s).1.map Prod.snd).flatten =
    (s.read drivers fd counts.sum).2.1
  result : ((readAll drivers fd counts s).1.map Prod.fst).sum = (s.read drivers fd counts.sum).1
  tell : (readAll drivers fd counts s).2.tell fd = (s.read drivers fd counts.sum).2.2.tell fd

/-- **Reading in pieces.** On a file without holes, if nothing fails, reading in pieces is
one read of their sum, and `readFully` succeeds if and only if enough bytes are left. -/
theorem read_in_pieces (h : ReadsSafely drivers s fd k) :
    (∀ counts : List Nat, counts.sum < 2 ^ 63 → ChunkedAsOne drivers s fd counts) ∧
      ∀ n < 2 ^ 64, (readFully drivers s fd n).map Prod.fst =
        some (decide (n ≤ (privateOf s k).inode.size - (s.openFiles k).offset)) := by
  refine ⟨fun counts hsum => ?_, fun n hn => h.readFully hn⟩
  have hlt := (privateOf s k).inode.size_lt
  obtain ⟨hres, hdata, hstate⟩ := h.readAll hsum
  have hread := h.read counts.sum (by omega)
  refine ⟨?_, ?_, ?_⟩
  · rw [hdata, hread]
  · rw [hres, hread]
  · rw [hstate, hread]

end Descriptor

/-- The small volume with the file `a`, which is open with descriptor 0. -/
def fileVfs (offset : Nat) : Vfs Unit Nat PrivateData World where
  blockDevices := []
  mounts _ := ⟨true, [slash], [], ⟨[], 0, 126, 512, fun _ _ _ w => (none, w),
    fun _ _ _ _ w => (false, w)⟩, (), 0⟩
  openFiles _ := ⟨true, 0, fileHandle, offset⟩
  world := ⟨fun _ => fileVolume.disk, fun _ => (0, fileVolume.state), 1, fun _ => true⟩

/-- The file of ten bytes is read from its third byte on, in pieces of which one is empty and
the last goes over the end. -/
theorem file_read_in_pieces :
    ChunkedAsOne (fun _ => driver) (fileVfs 2) 0 [3, 0, 4, 9] ∧
      (readFully (fun _ => driver) (fileVfs 2) 0 8).map Prod.fst = some true ∧
      (readFully (fun _ => driver) (fileVfs 2) 0 9).map Prod.fst = some false := by
  have hsafe : ReadsSafely (fun _ => driver) (fileVfs 2) 0 0 := by
    refine ⟨⟨rfl, rfl⟩, rfl, ?_, ?_⟩
    · decide +kernel
    · show fileVolume.HoleFree (fileVolume.inodeAt 11)
      have hbs : fileVolume.state.blockSize = 1024 := by decide +kernel
      have hsize : (fileVolume.inodeAt 11).size = 10 := by decide +kernel
      intro index hindex
      rw [hbs, hsize] at hindex
      obtain rfl : index = 0 := by omega
      decide +kernel
  have hsize : (privateOf (fileVfs 2) 0).inode.size = 10 := by
    decide +kernel
  obtain ⟨hpieces, hfull⟩ := read_in_pieces hsafe
  refine ⟨hpieces _ (by norm_num), ?_, ?_⟩
  · rw [hfull 8 (by norm_num), hsize]
    rfl
  · rfl

end WengShiOS.Fs.Ext2
