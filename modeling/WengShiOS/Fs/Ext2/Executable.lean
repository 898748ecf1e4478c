import WengShiOS.Fs.Ext2.ChunkedRead

/-! # Executables on an ext2 volume

The driver keeps to what the loader relies on: a read reports the bytes that it stores, for
any volume and whatever fails (`honest_driver`), and on a file without holes that it can map
the reads give the bytes of the file, one after the other (`ReadsSafely.delivers`). -/

namespace WengShiOS.Fs.Ext2

open Math Math.Prog FileFormats.Elf Volume

variable {v u : Volume} {handle : Handle} {offset count : Nat} {trace : List Event}
  {data : List UInt8}

theorem clampCount_le (size offset count : Nat) (hsize : size < 2 ^ 64) :
    clampCount size offset count ≤ count := by
  unfold clampCount u64
  split_ifs with hlt
  · omega
  · exact le_rfl

theorem result_eq_length {r : ReadState} (hlt : r.data.length < 2 ^ 64) (hpos : 0 < r.result) :
    (r.data.length : Int) = r.result := by
  unfold ReadState.result at hpos ⊢
  split_ifs at hpos ⊢
  · rw [toInt64, Int.bmod_def] at hpos ⊢
    omega
  · exact absurd hpos (by decide)

theorem runs_read_length {n : Int} {handle' : Handle} (hcount : count < 2 ^ 64)
    (h : (read handle offset count).Runs v trace (n, data, handle') u) :
    data.length ≤ count ∧ (0 < n → (data.length : Int) = n) := by
  have hbody := runs_getState_bind.mp h
  dsimp only at hbody
  split_ifs at hbody with hsize
  · obtain ⟨-, hres, -⟩ := runs_pure.mp hbody
    obtain ⟨rfl, hrest⟩ := Prod.mk.inj hres
    obtain ⟨rfl, -⟩ := Prod.mk.inj hrest
    exact ⟨Nat.zero_le _, fun hn => absurd hn (by decide)⟩
  rcases runs_withBuffer.mp hbody with ⟨-, hres, -⟩ | ⟨rest, rfl, hrun⟩
  · obtain ⟨rfl, hrest⟩ := Prod.mk.inj hres
    obtain ⟨rfl, -⟩ := Prod.mk.inj hrest
    exact ⟨Nat.zero_le _, fun hn => absurd hn (by decide)⟩
  · obtain ⟨first, last, r, w, rfl, hloop, hlast⟩ := runs_bind.mp hrun
    obtain ⟨-, hres, -⟩ := runs_pure.mp hlast
    obtain ⟨rfl, hrest⟩ := Prod.mk.inj hres
    obtain ⟨rfl, -⟩ := Prod.mk.inj hrest
    have hle := (readLoop_length (Nat.zero_le _) hloop).1.trans
      (clampCount_le _ offset count (handle.fsPrivate.inode.size_lt.trans (by norm_num)))
    exact ⟨hle, result_eq_length (by omega)⟩

theorem honest_driver {D : Type*} : Honest fun _ : D => driver := by
  intro d fs handle offset count w hcount
  exact runs_read_length hcount (w.runs_runOn fs (read handle offset count))

/-! ### Reads give the file -/

/-- Every block below the end of the file is a direct or a single indirect one. -/
def Volume.InReach (v : Volume) (inode : Inode) : Prop :=
  ∀ index, index * v.state.blockSize < inode.size → v.InRange index

/-- What the driver reads of such a file is what the format says it holds. -/
theorem Volume.InReach.contents_part {inode : Inode} (h : v.InReach inode) (p count : Nat) :
    ((v.contents inode).drop p).take count =
      v.bytesFrom inode p 0 (available inode p count) := by
  have hlt := inode.size_lt
  refine List.ext_getElem (by simp [bytesFrom, available]) fun i hi _ => ?_
  rw [List.length_take, List.length_drop, length_contents] at hi
  have hbyte : v.byteAt inode (p + i) = v.contentAt inode (p + i) :=
    (byteAt_eq_contentAt_iff (by omega)).mpr fun hnot =>
      absurd (h _ ((Nat.div_mul_le_self ..).trans_lt (by omega))) hnot
  have hpos : u64 (p + i) = p + i := Nat.mod_eq_of_lt (by omega)
  simp [contents, bytesFrom, hpos, hbyte]

section Descriptor

variable {D : Type*} {drivers : D → FilesystemDriver World Nat PrivateData}
  {s : Vfs D Nat PrivateData World} {fd : Int} {k : Fin maxOpenFiles}
  (h : ReadsSafely drivers s fd k) (hreach : (volumeOf s k).InReach (privateOf s k).inode)
include h hreach

/-- A read from position `p` on. -/
theorem ReadsSafely.read_contents {p count : Nat}
    (hover : p < (privateOf s k).inode.size → p + count < 2 ^ 64) :
    (Ext2.atOffset s k p).read drivers fd count =
      ((((((volumeOf s k).contents (privateOf s k).inode).drop p).take count).length : Int),
        (((volumeOf s k).contents (privateOf s k).inode).drop p).take count,
        Ext2.atOffset s k
          (p + ((((volumeOf s k).contents (privateOf s k).inode).drop p).take count).length)) := by
  have hlen : ((((volumeOf s k).contents (privateOf s k).inode).drop p).take count).length =
      available (privateOf s k).inode p count := by
    rw [List.length_take, List.length_drop, length_contents]
    rfl
  rw [(h.atOffset p).read count (by rwa [openFiles_atOffset, privateOf_atOffset]), hlen,
    hreach.contents_part, openFiles_atOffset, privateOf_atOffset, volumeOf_atOffset,
    atOffset_atOffset]

theorem ReadsSafely.reads :
    Reads drivers fd ((volumeOf s k).contents (privateOf s k).inode)
      fun p u => u = Ext2.atOffset s k p := by
  rintro p u count rfl hcount
  have hlt := (privateOf s k).inode.size_lt
  rw [h.read_contents hreach (by omega)]
  exact ⟨rfl, rfl⟩

/-- **An ext2 file is served.** -/
theorem ReadsSafely.delivers :
    Delivers drivers fd ((volumeOf s k).contents (privateOf s k).inode)
      fun p u => u = Ext2.atOffset s k p where
  seek := by
    rintro p u offset rfl hoff
    have hset : toInt64 offset = offset := toInt64_of_lt hoff
    have hback : toUInt64 offset = offset := by
      unfold toUInt64
      omega
    rw [Vfs.seek, slotOf_atOffset, h.file.slot, hset]
    dsimp only [Vfs.seekTo]
    rw [if_neg (by omega), hback, ← atOffset_atOffset s k p offset]
    rfl
  read := by
    rintro p u count n data u' rfl hcount hread hn
    by_cases hover : p < (privateOf s k).inode.size → p + count < 2 ^ 64
    · rw [h.read_contents hreach hover] at hread
      obtain ⟨-, hrest⟩ := Prod.mk.inj hread
      cases hrest
      refine ⟨?_, rfl⟩
      rw [List.take_eq_take_iff, List.length_take]
      omega
    · obtain ⟨hsize, hover⟩ := Classical.not_imp.mp hover
      have hneg := (h.atOffset p).read_overflow hcount (by
        rwa [openFiles_atOffset, privateOf_atOffset]) (by
        rw [openFiles_atOffset]
        dsimp only
        omega)
      rw [hread] at hneg
      dsimp only at hneg
      omega
  nothing := by
    rintro p u count n data u' rfl hover hread hn
    rw [length_contents] at hover
    rw [h.read_contents hreach hover] at hread
    obtain ⟨rfl, hrest⟩ := Prod.mk.inj hread
    cases hrest
    exact List.length_eq_zero_iff.mp (by omega)
  more := by
    rintro p u count rfl hcount hle
    have hlt := (privateOf s k).inode.size_lt
    rw [length_contents] at hle
    rw [h.read_contents hreach (by omega), List.length_take, List.length_drop, length_contents]
    omega

end Descriptor

theorem fileVfs_delivers :
    Delivers (fun _ => driver) 0 (fileVolume.contents (fileVolume.inodeAt 11))
      fun p u => u = Ext2.atOffset (fileVfs 2) 0 p := by
  have hend : fileVolume.state.blockSize = 1024 ∧ (fileVolume.inodeAt 11).size = 10 := by
    decide +kernel
  have hfirst : ∀ index, index * fileVolume.state.blockSize < (fileVolume.inodeAt 11).size →
      index = 0 := by
    intro index hindex
    rw [hend.1, hend.2] at hindex
    omega
  have hfree : fileVolume.HoleFree (fileVolume.inodeAt 11) := by
    intro index hindex
    rw [hfirst index hindex]
    decide +kernel
  have hreach : fileVolume.InReach (fileVolume.inodeAt 11) := by
    intro index hindex
    rw [hfirst index hindex]
    decide +kernel
  have hsafe : ReadsSafely (fun _ => driver) (fileVfs 2) 0 0 :=
    ⟨⟨rfl, rfl⟩, rfl, by decide +kernel, hfree⟩
  exact hsafe.delivers hreach

end WengShiOS.Fs.Ext2
