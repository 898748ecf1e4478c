import WengShiOS.Fs.Ext2.BlockMap
import WengShiOS.Fs.Ext2.Image

/-! # Reading files

`read` asks for its blocks with `inodeBlockAtOrAlloc`, so it allocates a block for every
hole that it meets. As long as it meets none, or there is no block to be had, a read
changes nothing and gives the bytes that the direct pointers and the indirect block lead
to; this is one statement about the loop (`runs_readLoop`), and what a read changes and
what it returns both follow from it. -/

namespace WengShiOS.Fs.Ext2

open Math Math.Prog Volume

variable {v u : Volume} {trace : List Event} {inode : Inode} {offset count fuel : Nat}

/-- The block of the file that holds byte `k` of a read from `offset`. -/
def Volume.logicalBlock (v : Volume) (offset k : Nat) : Nat :=
  u32 (u64 (offset + k) / v.state.blockSize)

/-- The byte at a position of the file, as far as the driver can map it. -/
def Volume.byteAt (v : Volume) (inode : Inode) (pos : Nat) : UInt8 :=
  if v.mapAt inode (u32 (pos / v.state.blockSize)) = 0 then 0
  else v.block (v.mapAt inode (u32 (pos / v.state.blockSize))) (pos % v.state.blockSize)

/-- Asking for the block does not allocate one: it is there, out of reach, or no block is
free. -/
def Volume.Settled (v : Volume) (inode : Inode) (index : Nat) : Prop :=
  v.InRange index → v.mapAt inode index = 0 → blockAllocator.Full v

/-- A chunk stays inside its block. -/
theorem chunk_pos {bs pos j : Nat} (hbs : bs ∣ 2 ^ 64) (hpos : pos < 2 ^ 64)
    (hj : j < bs - pos % bs) :
    pos + j < 2 ^ 64 ∧ (pos + j) / bs = pos / bs ∧ (pos + j) % bs = pos % bs + j := by
  have hbs0 : 0 < bs := by omega
  have hsplit : pos + j = bs * (pos / bs) + (pos % bs + j) := by
    have := Nat.div_add_mod pos bs
    omega
  have hlt : pos % bs + j < bs := by omega
  refine ⟨?_, ?_, ?_⟩
  · -- the end of the block is not beyond the last multiple of the block size
    obtain ⟨m, hm⟩ := hbs
    have hq : pos / bs < m := Nat.div_lt_of_lt_mul (by omega)
    have hmul : bs * (pos / bs + 1) ≤ bs * m := Nat.mul_le_mul_left bs hq
    rw [Nat.mul_succ] at hmul
    omega
  · rw [hsplit, Nat.mul_add_div hbs0, Nat.div_eq_of_lt hlt, Nat.add_zero]
  · rw [hsplit, Nat.mul_add_mod, Nat.mod_eq_of_lt hlt]

theorem u64_lt (n : Nat) : u64 n < 2 ^ 64 := Nat.mod_lt _ (by norm_num)

/-- Byte `k + j` of a read is `j` bytes behind byte `k`, within the block. -/
theorem u64_add_chunk {bs k j : Nat} (hbs : bs ∣ 2 ^ 64) (hj : j < bs - u64 (offset + k) % bs) :
    u64 (offset + (k + j)) = u64 (offset + k) + j := by
  have hlt := (chunk_pos hbs (u64_lt (offset + k)) hj).1
  have hadd : u64 (offset + (k + j)) = (u64 (offset + k) + j) % 2 ^ 64 := by
    unfold u64
    rw [Nat.mod_add_mod, Nat.add_assoc]
  rw [hadd, Nat.mod_eq_of_lt hlt]

/-! ### The loop -/

/-- The bytes from byte `start` of a read on. -/
def Volume.bytesFrom (v : Volume) (inode : Inode) (offset start n : Nat) : List UInt8 :=
  (List.range' start n).map fun k => v.byteAt inode (u64 (offset + k))

theorem Volume.bytesFrom_add (v : Volume) (inode : Inode) (offset start m n : Nat) :
    v.bytesFrom inode offset start (m + n) =
      v.bytesFrom inode offset start m ++ v.bytesFrom inode offset (start + m) n := by
  rw [bytesFrom, ← List.range'_append_1, List.map_append]
  rfl

section Chunk

variable {done chunk : Nat} (hbs : v.state.blockSize ∣ 2 ^ 64)
  (hchunk : chunk ≤ v.state.blockSize - u64 (offset + done) % v.state.blockSize)
include hbs hchunk

/-- All bytes of a chunk lie in one block of the file. -/
theorem logicalBlock_chunk {k : Nat} (hlo : done ≤ k) (hhi : k < done + chunk) :
    v.logicalBlock offset k = v.logicalBlock offset done := by
  obtain ⟨j, rfl⟩ := Nat.exists_eq_add_of_le hlo
  have hj : j < v.state.blockSize - u64 (offset + done) % v.state.blockSize := by omega
  unfold logicalBlock
  rw [u64_add_chunk hbs hj, (chunk_pos hbs (u64_lt _) hj).2.1]

theorem bytesFrom_chunk (f : Nat → UInt8)
    (hbyte : ∀ j < chunk, v.byteAt inode (u64 (offset + done) + j) = f j) :
    v.bytesFrom inode offset done chunk = (List.range chunk).map f := by
  rw [bytesFrom, List.range'_eq_map_range, List.map_map]
  refine List.map_congr_left fun j hj => ?_
  have hlt : j < chunk := List.mem_range.mp hj
  rw [Function.comp_apply, u64_add_chunk hbs (by omega), hbyte j hlt]

/-- A chunk of a block that is mapped is a slice of that block. -/
theorem bytesFrom_mapped (hmap : v.mapAt inode (v.logicalBlock offset done) ≠ 0) :
    v.bytesFrom inode offset done chunk =
      slice (v.block (v.mapAt inode (v.logicalBlock offset done)))
        (u64 (offset + done) % v.state.blockSize) chunk := by
  refine bytesFrom_chunk hbs hchunk _ fun j hj => ?_
  obtain ⟨-, hdiv, hmod⟩ := chunk_pos hbs (u64_lt (offset + done)) (show j < _ by omega)
  unfold byteAt
  rw [hdiv, hmod]
  exact if_neg hmap

/-- A chunk of a block that is not mapped reads as zeros. -/
theorem bytesFrom_hole (hmap : v.mapAt inode (v.logicalBlock offset done) = 0) :
    v.bytesFrom inode offset done chunk = List.replicate chunk 0 := by
  rw [bytesFrom_chunk hbs hchunk (fun _ => 0) fun j hj => ?_]
  · simp
  · obtain ⟨-, hdiv, -⟩ := chunk_pos hbs (u64_lt (offset + done)) (show j < _ by omega)
    unfold byteAt
    rw [hdiv]
    exact if_pos hmap

end Chunk

variable {r : ReadState} {data : List UInt8}

theorem readLoop_noMore (h : (readLoop offset count fuel inode data).Runs v trace r u) :
    NoMore v u := by
  induction fuel generalizing inode data v trace with
  | zero =>
    obtain ⟨-, -, rfl⟩ := runs_pure.mp h
    exact fun _ => le_rfl
  | succ fuel ih =>
    rw [readLoop] at h
    split_ifs at h with hlt
    · obtain ⟨first, rest, ⟨b, inode'⟩, w, -, hmap, hrest⟩ := runs_bind.mp (runs_getState_bind.mp h)
      have hfirst : NoMore v w := by
        rcases runs_inodeBlockAtOrAlloc hmap with ⟨rfl, -⟩ | ⟨hfewer, -⟩
        · exact fun _ => le_rfl
        · exact hfewer.le
      have hsecond : NoMore w u := by
        dsimp only at hrest
        split_ifs at hrest
        · exact ih hrest
        · rcases runs_readBlock_bind.mp hrest with ⟨last, -, hlast⟩ | ⟨last, -, hlast⟩
          · obtain ⟨-, -, rfl⟩ := runs_pure.mp hlast
            exact fun _ => le_rfl
          · exact ih hlast
      exact fun group => (hsecond group).trans (hfirst group)
    · obtain ⟨-, -, rfl⟩ := runs_pure.mp h
      exact fun _ => le_rfl

/-- How the loop ends that has `data` already: it changed nothing and appended the bytes
of the file, or it met a hole and allocated a block for it. -/
def ReadOutcome (v : Volume) (inode : Inode) (offset count : Nat) (data : List UInt8)
    (r : ReadState) (u : Volume) : Prop :=
  (u = v ∧ r = ⟨true, data ++ v.bytesFrom inode offset data.length (count - data.length), inode⟩ ∧
      ∀ k, data.length ≤ k → k < count → v.Settled inode (v.logicalBlock offset k)) ∨
    (Fewer v.state.groupFreeBlocks u.state.groupFreeBlocks ∧
      ∃ k, data.length ≤ k ∧ k < count ∧ ¬ v.Settled inode (v.logicalBlock offset k))

theorem ReadOutcome.nothing_left (hdone : count ≤ data.length) :
    ReadOutcome v inode offset count data ⟨true, data, inode⟩ v := by
  refine .inl ⟨rfl, ?_, fun k hlo hhi => by omega⟩
  rw [show count - data.length = 0 by omega]
  simp [bytesFrom]

/-- One more chunk in front of a run of the loop. -/
theorem ReadOutcome.chunk {bytes : List UInt8} {chunk : Nat} (hbs : v.state.blockSize ∣ 2 ^ 64)
    (hchunk : chunk ≤ v.state.blockSize - u64 (offset + data.length) % v.state.blockSize)
    (hcount : chunk ≤ count - data.length) (hlt : data.length < count)
    (hbytes : bytes = v.bytesFrom inode offset data.length chunk)
    (hsettled : v.Settled inode (v.logicalBlock offset data.length))
    (h : ReadOutcome v inode offset count (data ++ bytes) r u) :
    ReadOutcome v inode offset count data r u := by
  have hlen : (data ++ bytes).length = data.length + chunk := by
    simp [hbytes, bytesFrom]
  unfold ReadOutcome at h
  rw [hlen] at h
  rcases h with ⟨rfl, rfl, hall⟩ | ⟨hfewer, k, hlo, hhi, hnot⟩
  · refine .inl ⟨rfl, ?_, fun k hlo hhi => ?_⟩
    · rw [hbytes, List.append_assoc, ← bytesFrom_add,
        show chunk + (count - (data.length + chunk)) = count - data.length by omega]
    · rcases Nat.lt_or_ge k (data.length + chunk) with hk | hk
      · rw [logicalBlock_chunk hbs hchunk hlo hk]
        exact hsettled
      · exact hall k hk hhi
  · exact .inr ⟨hfewer, k, by omega, hhi, hnot⟩

theorem runs_readLoop (hbs : v.state.blockSize ∣ 2 ^ 64) (hfuel : count ≤ data.length + fuel)
    (hok : AllOk trace) (h : (readLoop offset count fuel inode data).Runs v trace r u) :
    ReadOutcome v inode offset count data r u := by
  induction fuel generalizing data trace with
  | zero =>
    obtain ⟨-, rfl, rfl⟩ := runs_pure.mp h
    exact .nothing_left hfuel
  | succ fuel ih =>
    rw [readLoop] at h
    by_cases hlt : data.length < count
    swap
    · rw [if_neg hlt] at h
      obtain ⟨-, rfl, rfl⟩ := runs_pure.mp h
      exact .nothing_left (by omega)
    rw [if_pos hlt] at h
    obtain ⟨first, rest, ⟨b, inode'⟩, w, rfl, hmap, hrest⟩ := runs_bind.mp (runs_getState_bind.mp h)
    obtain ⟨hokfirst, hokrest⟩ := allOk_append.mp hok
    dsimp only at hrest
    have hchunk := Nat.min_le_left (v.state.blockSize - u64 (offset + data.length) %
      v.state.blockSize) (count - data.length)
    have hcount := Nat.min_le_right (v.state.blockSize - u64 (offset + data.length) %
      v.state.blockSize) (count - data.length)
    have hpos : 0 < min (v.state.blockSize - u64 (offset + data.length) % v.state.blockSize)
        (count - data.length) := by
      have hbs0 : 0 < v.state.blockSize := Nat.pos_of_dvd_of_pos hbs (by norm_num)
      have := Nat.mod_lt (u64 (offset + data.length)) hbs0
      omega
    rcases runs_inodeBlockAtOrAlloc hmap with ⟨rfl, rfl, hres⟩ | ⟨hfewer, hin, hzero, hroom⟩
    · obtain ⟨rfl, hfull⟩ := hres hokfirst
      -- the block is settled, so the chunk is that of the file and the loop goes on from it
      have hsettled : Settled w inode' (logicalBlock w offset data.length) :=
        fun hin hzero => hfull hzero hin
      split_ifs at hrest with hb
      · refine .chunk hbs hchunk hcount hlt (bytesFrom_hole hbs hchunk hb).symm hsettled
          (ih ?_ hokrest hrest)
        rw [List.length_append, List.length_replicate]
        omega
      · rcases runs_readBlock_bind.mp hrest with ⟨last, rfl, -⟩ | ⟨last, rfl, hlast⟩
        · simp at hokrest
        · refine .chunk hbs hchunk hcount hlt (bytesFrom_mapped hbs hchunk hb).symm hsettled
            (ih ?_ (allOk_cons.mp hokrest).2 hlast)
          rw [List.length_append, slice, List.length_map, List.length_range]
          omega
    · refine .inr ⟨?_, data.length, le_rfl, hlt, fun hsettled => hroom (hsettled hin hzero)⟩
      refine hfewer.trans_noMore ?_
      split_ifs at hrest with hb
      · exact readLoop_noMore hrest
      · rcases runs_readBlock_bind.mp hrest with ⟨last, rfl, hlast⟩ | ⟨last, rfl, hlast⟩
        · obtain ⟨-, -, rfl⟩ := runs_pure.mp hlast
          exact fun _ => le_rfl
        · exact readLoop_noMore hlast

/-- Whatever fails, the buffer is not overrun, and if nothing fails, it is filled. -/
theorem readLoop_length (hle : data.length ≤ count)
    (h : (readLoop offset count fuel inode data).Runs v trace r u) :
    r.data.length ≤ count ∧ (0 < v.state.blockSize → count ≤ data.length + fuel → AllOk trace →
      count ≤ r.data.length) := by
  induction fuel generalizing v inode data trace with
  | zero =>
    obtain ⟨-, rfl, -⟩ := runs_pure.mp h
    exact ⟨hle, fun _ hfuel _ => hfuel⟩
  | succ fuel ih =>
    rw [readLoop] at h
    by_cases hlt : data.length < count
    swap
    · rw [if_neg hlt] at h
      obtain ⟨-, rfl, -⟩ := runs_pure.mp h
      exact ⟨hle, fun _ _ _ => Nat.not_lt.mp hlt⟩
    rw [if_pos hlt] at h
    obtain ⟨first, rest, ⟨b, inode'⟩, w, rfl, hmap, hrest⟩ := runs_bind.mp (runs_getState_bind.mp h)
    dsimp only at hrest
    have hsize : w.state.blockSize = v.state.blockSize :=
      inodeBlockAtOrAlloc_inherits (keeps_inherited (f := FsInstance.blockSize))
        (fun _ => updateCounters_keeps fun _ => rfl) _ _ hmap
    -- a pass stores at most what is missing, and at least one byte
    have hpass : ∀ {bytes : List UInt8} {last}, bytes.length =
        min (v.state.blockSize - u64 (offset + data.length) % v.state.blockSize)
          (count - data.length) →
        (readLoop offset count fuel inode' (data ++ bytes)).Runs w last r u →
        r.data.length ≤ count ∧ (0 < v.state.blockSize → count ≤ data.length + (fuel + 1) →
          AllOk last → count ≤ r.data.length) := by
      intro bytes last hbytes hlast
      obtain ⟨hle, hall⟩ := ih (by rw [List.length_append]; omega) hlast
      refine ⟨hle, fun hbs hfuel hok => hall (hsize ▸ hbs) ?_ hok⟩
      have hmod := Nat.mod_lt (u64 (offset + data.length)) hbs
      rw [List.length_append]
      omega
    split_ifs at hrest with hb
    · obtain ⟨hle, hall⟩ := hpass List.length_replicate hrest
      exact ⟨hle, fun hbs hfuel hok => hall hbs hfuel (allOk_append.mp hok).2⟩
    · rcases runs_readBlock_bind.mp hrest with ⟨last, rfl, hlast⟩ | ⟨last, rfl, hlast⟩
      · obtain ⟨-, rfl, -⟩ := runs_pure.mp hlast
        exact ⟨hle, fun _ _ hok => absurd hok (by simp)⟩
      · obtain ⟨hle, hall⟩ := hpass (by simp [slice]) hlast
        exact ⟨hle, fun hbs hfuel hok => hall hbs hfuel (allOk_cons.mp (allOk_append.mp hok).2).2⟩

/-! ### What a read changes -/

theorem clampCount_of_lt {size : Nat} (hsize : offset < size) (hover : offset + count < 2 ^ 64) :
    clampCount size offset count = min count (size - offset) := by
  unfold clampCount u64
  split_ifs <;> omega

/-- If the sum overflows, it is small, so nothing is clamped. -/
theorem clampCount_overflow {size : Nat} (hsize : offset < size) (hcount : count < 2 ^ 64)
    (hover : 2 ^ 64 ≤ offset + count) : clampCount size offset count = count := by
  unfold clampCount u64
  refine if_neg ?_
  omega

/-- The run of `read` without failures, in terms of the loop. -/
theorem exec_read (count : Nat) {handle : Handle} (hbs : v.state.blockSize ∣ 2 ^ 64)
    (hsize : offset < handle.fsPrivate.inode.size) :
    ∃ r, ReadOutcome v handle.fsPrivate.inode offset
        (clampCount handle.fsPrivate.inode.size offset count) [] r
        ((read handle offset count).exec v).2 ∧
      ((read handle offset count).exec v).1 = (r.result, r.data,
        { handle with fsPrivate := { handle.fsPrivate with inode := r.inode } }) := by
  obtain ⟨trace, hok, h⟩ := exists_runs_exec (read handle offset count) v
  have hbody := runs_getState_bind.mp h
  dsimp only at hbody
  rw [if_neg (by omega)] at hbody
  rcases runs_withBuffer.mp hbody with ⟨rfl, -, -⟩ | ⟨rest, rfl, hrun⟩
  · simp at hok
  obtain ⟨first, last, r, w, rfl, hloop, hlast⟩ := runs_bind.mp hrun
  obtain ⟨rfl, hr, hw⟩ := runs_pure.mp hlast
  simp only [List.append_nil, allOk_cons] at hok
  refine ⟨r, ?_, hr⟩
  rw [hw]
  exact runs_readLoop hbs (by simp) hok.2 hloop

theorem exec_read_past {handle : Handle} (hsize : handle.fsPrivate.inode.size ≤ offset) :
    (read handle offset count).exec v = ((0, [], handle), v) := by
  rw [read, exec_bind]
  simp [hsize]

/-- **What a read changes.** A read without failures leaves the disk, the state in memory
and the inode of the handle as they were exactly if every block it asks for is mapped or
out of reach of the block map, or no block is free. -/
theorem read_unchanged_iff (hbs : v.state.blockSize ∣ 2 ^ 64) (handle : Handle)
    (offset count : Nat) :
    (((read handle offset count).exec v).2 = v ∧
        ((read handle offset count).exec v).1.2.2 = handle) ↔
      (offset < handle.fsPrivate.inode.size →
        ∀ k < clampCount handle.fsPrivate.inode.size offset count,
          v.Settled handle.fsPrivate.inode (v.logicalBlock offset k)) := by
  by_cases hsize : offset < handle.fsPrivate.inode.size
  · obtain ⟨r, hout, hres⟩ := exec_read count hbs hsize
    rcases hout with ⟨hu, rfl, hall⟩ | ⟨hfewer, k, -, hk, hnot⟩
    · refine ⟨fun _ _ k hk => hall k (Nat.zero_le k) hk, fun _ => ⟨hu, ?_⟩⟩
      rw [hres]
    · constructor
      · rintro ⟨hu, -⟩
        rw [hu] at hfewer
        exact absurd rfl hfewer.ne
      · intro hall
        exact absurd (hall hsize k hk) hnot
  · rw [exec_read_past (by omega)]
    exact ⟨fun _ h => absurd h hsize, fun _ => ⟨rfl, rfl⟩⟩

/-- A file of two blocks; the second is a hole. -/
def holeVolume : Volume := mounted (fileDisk 2048 [8] 8)

def holeHandle : Handle := (openA holeVolume).get (by decide +kernel)

theorem read_mapped_unchanged :
    ((read holeHandle 0 4).exec holeVolume).2 = holeVolume ∧
      ((read holeHandle 0 4).exec holeVolume).1.2.2 = holeHandle := by
  refine (read_unchanged_iff (by decide +kernel) holeHandle 0 4).mpr fun _ k hk _ hzero => ?_
  have hmapped : ∀ k < clampCount holeHandle.fsPrivate.inode.size 0 4,
      holeVolume.mapAt holeHandle.fsPrivate.inode (holeVolume.logicalBlock 0 k) ≠ 0 := by
    decide +kernel
  exact absurd hzero (hmapped k hk)

/-- Reading one byte of the hole takes a free block and puts it into the handle's inode. -/
theorem not_read_unchanged :
    holeVolume.state.groupFreeBlocks 0 = 55 ∧
      ((read holeHandle 1024 1).exec holeVolume).2.state.groupFreeBlocks 0 = 54 ∧
      holeHandle.fsPrivate.inode.block 1 = 0 ∧
      ((read holeHandle 1024 1).exec holeVolume).1.2.2.fsPrivate.inode.block 1 = 9 := by
  refine ⟨?_, ?_, ?_, ?_⟩ <;> decide +kernel

/-! ### What a read returns -/

/-- A pointer in a block of pointers; a missing block has none. -/
def Volume.pointer (v : Volume) (b i : Nat) : Nat :=
  if b = 0 then 0 else readLE 4 (v.block b) (4 * i)

/-- The block map of the ext2 format: twelve direct pointers and one indirect, one double
indirect and one triple indirect block. -/
def Volume.formatMap (v : Volume) (inode : Inode) (index : Nat) : Nat :=
  let p := v.state.ptrsPerBlock
  if index < 12 then inode.block index
  else if index < 12 + p then v.pointer (inode.block 12) (index - 12)
  else if index < 12 + p + p ^ 2 then
    let i := index - (12 + p)
    v.pointer (v.pointer (inode.block 13) (i / p)) (i % p)
  else if index < 12 + p + p ^ 2 + p ^ 3 then
    let i := index - (12 + p + p ^ 2)
    v.pointer (v.pointer (v.pointer (inode.block 14) (i / p ^ 2)) (i / p % p)) (i % p)
  else 0

/-- The byte that the inode has at a position; holes are zeros. -/
def Volume.contentAt (v : Volume) (inode : Inode) (pos : Nat) : UInt8 :=
  if v.formatMap inode (pos / v.state.blockSize) = 0 then 0
  else v.block (v.formatMap inode (pos / v.state.blockSize)) (pos % v.state.blockSize)

/-- What `read` has to do: not more bytes than the file has, each of them right, and
their number as its result. -/
structure ReadCorrect (v : Volume) (inode : Inode) (offset : Nat) (result : Int)
    (data : List UInt8) : Prop where
  result : result = data.length
  length : data.length ≤ inode.size - offset
  bytes : ∀ k < data.length, data[k]? = some (v.contentAt inode (offset + k))

theorem Volume.mapAt_eq_formatMap {index : Nat} (hin : v.InRange index) :
    v.mapAt inode index = v.formatMap inode index := by
  have hlt : index < 12 + v.state.ptrsPerBlock := hin
  unfold mapAt formatMap pointer
  by_cases hdirect : index < 12
  · simp [hdirect]
  · rw [if_neg hdirect, if_neg hdirect, if_pos hlt]
    by_cases h12 : inode.block 12 = 0
    · rw [if_pos (.inr h12), if_pos h12]
    · rw [if_neg (by rintro (h | h); exacts [absurd h (by omega), h12 h]), if_neg h12]

/-- Without double and triple indirect blocks the driver's map is that of the format. -/
theorem Volume.formatMap_eq_mapAt (h13 : inode.block 13 = 0) (h14 : inode.block 14 = 0)
    (index : Nat) : v.formatMap inode index = v.mapAt inode index := by
  by_cases hin : v.InRange index
  · exact (mapAt_eq_formatMap hin).symm
  · have hout : ¬ index < 12 + v.state.ptrsPerBlock := hin
    rw [mapAt_of_not_inRange hin]
    unfold formatMap pointer
    simp [show ¬ index < 12 by omega, hout, h13, h14]

theorem Inode.size_lt (inode : Inode) : inode.size < 2 ^ 32 := by
  have h : inode.size < 256 ^ 4 := readLE_lt
  norm_num at h ⊢
  exact h

/-- Below 4 GiB a position and its block are not cut off. -/
theorem byteAt_eq_contentAt_iff {pos : Nat} (hpos : pos < 2 ^ 32) :
    v.byteAt inode pos = v.contentAt inode pos ↔
      (¬ v.InRange (pos / v.state.blockSize) → v.contentAt inode pos = 0) := by
  have hblock : u32 (pos / v.state.blockSize) = pos / v.state.blockSize :=
    Nat.mod_eq_of_lt ((Nat.div_le_self ..).trans_lt hpos)
  unfold byteAt
  rw [hblock]
  by_cases hin : v.InRange (pos / v.state.blockSize)
  · rw [mapAt_eq_formatMap hin]
    exact ⟨fun _ hnot => absurd hin hnot, fun _ => rfl⟩
  · rw [mapAt_of_not_inRange hin, if_pos rfl]
    exact ⟨fun h _ => h.symm, fun h => (h hin).symm⟩

/-- A read inside the file. -/
theorem read_inside_correct_iff (hbs : v.state.blockSize ∣ 2 ^ 64) (handle : Handle)
    {offset count : Nat} (hsize : offset < handle.fsPrivate.inode.size) (hcount : count < 2 ^ 64)
    (hsettled : ∀ k < clampCount handle.fsPrivate.inode.size offset count,
      v.Settled handle.fsPrivate.inode (v.logicalBlock offset k)) :
    ReadCorrect v handle.fsPrivate.inode offset ((read handle offset count).exec v).1.1
        ((read handle offset count).exec v).1.2.1 ↔
      offset + count < 2 ^ 64 ∧ ∀ k < min count (handle.fsPrivate.inode.size - offset),
        ¬ v.InRange ((offset + k) / v.state.blockSize) →
          v.contentAt handle.fsPrivate.inode (offset + k) = 0 := by
  set inode := handle.fsPrivate.inode
  have hlt := inode.size_lt
  obtain ⟨r, hout, hres⟩ := exec_read count hbs hsize
  rw [hres]
  rcases hout with ⟨-, rfl, -⟩ | ⟨-, k, -, hk, hnot⟩
  swap
  · exact absurd (hsettled k hk) hnot
  simp only [List.nil_append, List.length_nil, Nat.sub_zero]
  have hlen : (v.bytesFrom inode offset 0 (clampCount inode.size offset count)).length =
      clampCount inode.size offset count := by simp [bytesFrom]
  by_cases hover : offset + count < 2 ^ 64
  · -- the clamp works, and every position is below 4 GiB
    have hclamp := clampCount_of_lt hsize hover
    have hbytes : ∀ k < min count (inode.size - offset),
        (v.bytesFrom inode offset 0 (clampCount inode.size offset count))[k]? =
          some (v.byteAt inode (offset + k)) := by
      intro k hk
      have hpos : u64 (offset + k) = offset + k := Nat.mod_eq_of_lt (by omega)
      rw [bytesFrom, List.getElem?_map, List.getElem?_range' (by omega)]
      simp [hpos]
    constructor
    · rintro ⟨-, -, hdata⟩
      refine ⟨hover, fun k hk => (byteAt_eq_contentAt_iff (by omega)).mp ?_⟩
      have := hdata k (by rw [hlen, hclamp]; exact hk)
      rw [hbytes k hk] at this
      exact Option.some.inj this
    · rintro ⟨-, hzero⟩
      refine ⟨?_, by rw [hlen, hclamp]; omega, fun k hk => ?_⟩
      · unfold ReadState.result
        rw [if_pos (.inl rfl), hlen, hclamp]
        unfold toInt64
        rw [Int.bmod_eq_of_le] <;> omega
      · rw [hlen, hclamp] at hk
        rw [hbytes k hk, (byteAt_eq_contentAt_iff (by omega)).mpr (hzero k hk)]
  · refine ⟨fun hcorrect => ?_, fun h => absurd h.1 hover⟩
    have hclamp := clampCount_overflow hsize hcount (Nat.not_lt.mp hover)
    have := hcorrect.length
    rw [hlen, hclamp] at this
    omega

/-- **What a read returns.** As long as a read without failures meets no hole that it
fills, it is right exactly if it starts behind the end of the file, or `offset + count`
does not overflow and the file has nothing but zeros where the driver's block map does
not reach. -/
theorem read_correct_iff (hbs : v.state.blockSize ∣ 2 ^ 64) (handle : Handle)
    {offset count : Nat} (hcount : count < 2 ^ 64)
    (hsettled : offset < handle.fsPrivate.inode.size →
      ∀ k < clampCount handle.fsPrivate.inode.size offset count,
        v.Settled handle.fsPrivate.inode (v.logicalBlock offset k)) :
    ReadCorrect v handle.fsPrivate.inode offset ((read handle offset count).exec v).1.1
        ((read handle offset count).exec v).1.2.1 ↔
      handle.fsPrivate.inode.size ≤ offset ∨
        (offset + count < 2 ^ 64 ∧ ∀ k < min count (handle.fsPrivate.inode.size - offset),
          ¬ v.InRange ((offset + k) / v.state.blockSize) →
            v.contentAt handle.fsPrivate.inode (offset + k) = 0) := by
  rcases Nat.lt_or_ge offset handle.fsPrivate.inode.size with hsize | hsize
  · rw [read_inside_correct_iff hbs handle hsize hcount (hsettled hsize), or_iff_right (by omega)]
  · rw [exec_read_past hsize]
    exact ⟨fun _ => .inl hsize, fun _ => ⟨by simp, by simp, by simp⟩⟩

theorem read_mapped_correct :
    ReadCorrect holeVolume holeHandle.fsPrivate.inode 0 ((read holeHandle 0 4).exec holeVolume).1.1
      ((read holeHandle 0 4).exec holeVolume).1.2.1 := by
  have hmapped : ∀ k < clampCount holeHandle.fsPrivate.inode.size 0 4,
      holeVolume.mapAt holeHandle.fsPrivate.inode (holeVolume.logicalBlock 0 k) ≠ 0 := by
    decide +kernel
  have hin : ∀ k < min 4 (holeHandle.fsPrivate.inode.size - 0),
      holeVolume.InRange ((0 + k) / holeVolume.state.blockSize) := by
    decide +kernel
  exact (read_correct_iff (by decide +kernel) holeHandle (by norm_num)
    fun _ k hk _ hzero => absurd hzero (hmapped k hk)).mpr
      (.inr ⟨by norm_num, fun k hk hnot => absurd (hin k hk) hnot⟩)

/-- A file whose last byte, an `A`, is reached through the double indirect block. -/
def doubleDisk : Bytes :=
  stores [⟨4, 8192, 9⟩, ⟨4, 9216, 10⟩, ⟨1, 10240, 0x41⟩]
    (fileDisk (268 * 1024 + 1) (List.replicate 13 0 ++ [8]) 10)

def doubleHandle : Handle := (openA (mounted doubleDisk)).get (by decide +kernel)

/-- The `A` is read as a zero, and the read is reported as complete. -/
theorem not_read_correct :
    (mounted doubleDisk).contentAt doubleHandle.fsPrivate.inode (268 * 1024) = 0x41 ∧
      ((read doubleHandle (268 * 1024) 1).exec (mounted doubleDisk)).1.1 = 1 ∧
      ((read doubleHandle (268 * 1024) 1).exec (mounted doubleDisk)).1.2.1 = [0] := by
  refine ⟨?_, ?_, ?_⟩ <;> decide +kernel

end WengShiOS.Fs.Ext2
