import WengShiOS.Fs.Ext2.Ownership
import WengShiOS.Fs.Ext2.Read

/-! # Writing to a file

The loop of `write`, on a well-formed volume and a file that owns its blocks. A pass asks
for a block and stores a chunk into it. Whatever accesses fail, as long as none of them is
a write to the indirect block, a run of the loop is a splice of the bytes that it counts
as written. If nothing fails and there are blocks enough, it writes all of them. -/

namespace WengShiOS.Fs.Ext2

open Math Math.Prog Volume Finset

variable {v u w : Volume} {inode inode' inode'' : Inode} {trace : List Event}
  {b index offset written n : Nat} {data chunk : List UInt8}

/-! ### A chunk -/

/-- The bytes `lo` to `hi` of `data`, at their places in the file from `offset` on. -/
def slicePatch (offset : Nat) (data : List UInt8) (lo hi : Nat) : Nat → Option UInt8 := fun pos =>
  if offset + lo ≤ pos ∧ pos < offset + hi then some (data.getD (pos - offset) 0) else none

theorem slicePatch_zero (offset : Nat) (data : List UInt8) (hi pos : Nat) :
    slicePatch offset data 0 hi pos =
      if offset ≤ pos ∧ pos < offset + hi then some (data.getD (pos - offset) 0) else none := rfl

@[simp] theorem slicePatch_self : slicePatch offset data n n = fun _ => none := by
  funext pos
  exact if_neg (by omega)

theorem slicePatch_append {lo mid hi : Nat} (hlo : lo ≤ mid) (hhi : mid ≤ hi) :
    (fun pos => slicePatch offset data mid hi pos <|> slicePatch offset data lo mid pos) =
      slicePatch offset data lo hi := by
  funext pos
  unfold slicePatch
  by_cases hmid : offset + mid ≤ pos ∧ pos < offset + hi
  · have hall : offset + lo ≤ pos ∧ pos < offset + hi := by omega
    rw [if_pos hmid, if_pos hall]
    rfl
  · rw [if_neg hmid]
    by_cases hlow : offset + lo ≤ pos ∧ pos < offset + mid
    · have hall : offset + lo ≤ pos ∧ pos < offset + hi := by omega
      rw [if_pos hlow, if_pos hall]
      rfl
    · rw [if_neg hlow, if_neg (by omega)]
      rfl

/-- What a block holds once a chunk has been stored into it. -/
def stored (old : Bytes) (at' : Nat) (chunk : List UInt8) (i : Nat) : UInt8 :=
  if at' ≤ i ∧ i < at' + chunk.length then chunk.getD (i - at') 0 else old i

theorem runs_writeChunk {at' : Nat} {ok : Bool}
    (h : (writeChunk b at' chunk).Runs v trace ok u) :
    (ok = false ∧ u = v ∧ ¬ AllOk trace) ∨
      (ok = true ∧ ∃ data, u = v.setBlock b data ∧
        ∀ i < v.state.blockSize, data i = stored (v.block b) at' chunk i) := by
  have hbody := runs_getState_bind.mp h
  by_cases hpart : at' ≠ 0 ∨ chunk.length ≠ v.state.blockSize
  · rw [if_pos hpart] at hbody
    rcases runs_readBlock_bind.mp hbody with ⟨rest, rfl, hrest⟩ | ⟨rest, rfl, hrest⟩
    · obtain ⟨-, rfl, rfl⟩ := runs_pure.mp hrest
      exact .inl ⟨rfl, rfl, by simp⟩
    · obtain ⟨rfl, rfl⟩ := runs_writeBlock.mp hrest
      cases ok with
      | false => exact .inl ⟨rfl, rfl, by simp⟩
      | true => exact .inr ⟨rfl, _, rfl, fun i _ => rfl⟩
  · -- the chunk is the whole block, so nothing of the old contents is left
    rw [if_neg hpart] at hbody
    rw [not_or, not_not, not_not] at hpart
    obtain ⟨rfl, hlen⟩ := hpart
    obtain ⟨rfl, rfl⟩ := runs_writeBlock.mp hbody
    cases ok with
    | false => exact .inl ⟨rfl, rfl, by simp⟩
    | true =>
      refine .inr ⟨rfl, _, rfl, fun i hi => ?_⟩
      unfold stored overlay
      rw [if_pos (by omega), if_pos (by omega)]

/-- A data block of a file is not its indirect block, so the map does not depend on it. -/
theorem slot_setBlock_data (ho : v.Owns inode) (hmap : v.mapAt inode index ≠ 0) {new : Bytes}
    (s : Slot) : (v.setBlock (v.mapAt inode index) new).slot inode s = v.slot inode s := by
  have hne12 : inode.block 12 ≠ v.mapAt inode index := by
    intro h12
    cases ho.inj .table (.data index) h12 (by simpa [h12] using hmap)
  have hframe : Frame (· = v.mapAt inode index) v (v.setBlock (v.mapAt inode index) new) :=
    .setBlock rfl
  exact slot_congr hframe.blockSize (fun _ => hframe.block _ hne12) s

/-- A chunk that is stored into a data block of the file. -/
theorem splice_chunk (hv : v.Ok) (ho : v.Owns inode) (hmap : v.mapAt inode index ≠ 0)
    {patch : Nat → Option UInt8} {new : Bytes}
    (hcovered : ∀ pos, patch pos ≠ none → pos / v.state.blockSize = index)
    (hnew : ∀ i < v.state.blockSize, new i = (patch (index * v.state.blockSize + i)).getD
      (v.block (v.mapAt inode index) i)) :
    Splice v inode patch (v.setBlock (v.mapAt inode index) new) inode := by
  set b := v.mapAt inode index with hb
  have husable : v.Usable b := ho.usable (.data index) hmap
  have hslot : ∀ s, (v.setBlock b new).slot inode s = v.slot inode s := slot_setBlock_data ho hmap
  have hused : ∀ b', v.geo.InVolume b' → (v.setBlock b new).used b' = v.used b' :=
    fun b' hb' => hv.used_setBlock husable.not_isMetadata hb'
  have hmapAt : ∀ i, (v.setBlock b new).mapAt inode i = v.mapAt inode i := fun i => hslot (.data i)
  refine ⟨hv.setBlock husable.not_isMetadata, ⟨fun s hs => ?_, fun s t => ?_⟩, ?_, ?_, fun s _ => hslot s,
    fun s hs hs' => ?_, .refl, ?_, ?_⟩
  · rw [hslot s] at hs ⊢
    obtain ⟨hin, hmeta, husd⟩ := ho.usable s hs
    exact ⟨hin, hmeta, (hused _ hin).trans husd⟩
  · rw [hslot s, hslot t]
    exact ho.inj s t
  · refine .setBlock (.inr ⟨.data index, ?_, ?_⟩)
    · rw [hslot]
      exact hmap
    · rw [hslot]
      rfl
  · intro b' hb' h
    exact (hused b' hb').trans h
  · rw [hslot s] at hs'
    exact absurd hs hs'
  · intro index' i hi hmap'
    rw [hmapAt] at hmap' ⊢
    by_cases heq : index' = index
    · rw [heq, ← hb, block_setBlock_self, window_of_lt (by rwa [hv.blockBytes]), Nat.zero_add,
        hnew i hi]
    · have hne : v.mapAt inode index' ≠ b := by
        intro h
        exact heq (Slot.data.inj (ho.inj (.data index') (.data index) h hmap'))
      have hnone : patch (index' * v.state.blockSize + i) = none := by
        by_contra hsome
        exact heq ((blockPos_div hi).symm.trans (hcovered _ hsome))
      rw [block_setBlock_of_ne hne, hnone]
      rfl
  · intro pos hpos
    rw [hmapAt, hcovered pos hpos]
    exact hmap

/-! ### The loop -/

/-- The file position where the loop goes on is not cut to 32 or 64 bits. -/
def Volume.Reaches (v : Volume) (pos : Nat) : Prop := pos < v.state.blockSize * 2 ^ 32

variable {pos len : Nat}

theorem Volume.Reaches.eq (hv : v.Ok) (h : v.Reaches pos) :
    u64 pos = pos ∧ u32 (pos / v.state.blockSize) = pos / v.state.blockSize := by
  have hle : v.state.blockSize ≤ 65536 := hv.valid.blockSize_le
  have hlt : pos < v.state.blockSize * 2 ^ 32 := h
  constructor
  · refine Nat.mod_eq_of_lt (hlt.trans_le ?_)
    calc v.state.blockSize * 2 ^ 32 ≤ 65536 * 2 ^ 32 := Nat.mul_le_mul_right _ hle
      _ ≤ 2 ^ 64 := by norm_num
  · exact Nat.mod_eq_of_lt (Nat.div_lt_of_lt_mul hlt)

/-- The blocks that can be mapped are far from the end of the range of block numbers. -/
theorem Volume.InRange.reaches (hv : v.Ok) (hin : v.InRange index)
    (hpos : pos ≤ (index + 1) * v.state.blockSize) : v.Reaches pos := by
  have hle : v.state.blockSize ≤ 65536 := hv.valid.blockSize_le
  have h0 : 0 < v.state.blockSize := hv.valid.blockSize_pos
  have hlt : index < 12 + v.state.blockSize / 4 := hin
  calc pos ≤ (index + 1) * v.state.blockSize := hpos
    _ < 2 ^ 32 * v.state.blockSize := Nat.mul_lt_mul_of_pos_right (by omega) h0
    _ = v.state.blockSize * 2 ^ 32 := Nat.mul_comm ..

/-- The largest file that the driver can map has less than 4 GiB. -/
theorem Volume.Ok.mapped_lt (hv : v.Ok) :
    (12 + v.state.blockSize / 4) * v.state.blockSize < 2 ^ 32 ∧
      (12 + v.state.blockSize / 4) * v.state.blockSize < v.state.blockSize * 2 ^ 32 := by
  have hle : v.state.blockSize ≤ 65536 := hv.valid.blockSize_le
  have hpos : 0 < v.state.blockSize := hv.valid.blockSize_pos
  constructor
  · calc (12 + v.state.blockSize / 4) * v.state.blockSize ≤ (12 + 65536 / 4) * 65536 :=
        Nat.mul_le_mul (by omega) hle
      _ < 2 ^ 32 := by norm_num
  · rw [Nat.mul_comm]
    exact Nat.mul_lt_mul_of_pos_left (by omega) hpos

theorem Volume.inRange_of_mapAt (h : v.mapAt inode index ≠ 0) : v.InRange index := by
  by_contra hout
  exact h (mapAt_of_not_inRange hout)

/-- The part of `data` that a pass stores, where the block has it. -/
theorem stored_chunk {bs : Nat} (old : Bytes) {at' : Nat} {i : Nat}
    (hstart : offset + written = index * bs + at') (hlen : len ≤ data.length - written) :
    stored old at' ((data.drop written).take len) i =
      (slicePatch offset data written (written + len) (index * bs + i)).getD (old i) := by
  have htake : ((data.drop written).take len).length = len := by
    rw [List.length_take, List.length_drop]
    omega
  unfold stored slicePatch
  rw [htake]
  by_cases hin : at' ≤ i ∧ i < at' + len
  · rw [if_pos hin, if_pos (by omega), Option.getD_some, List.getD_eq_getElem?_getD,
      List.getD_eq_getElem?_getD, List.getElem?_take_of_lt (by omega), List.getElem?_drop,
      show written + (i - at') = index * bs + i - offset by omega]
  · rw [if_neg hin, if_neg (by omega), Option.getD_none]

/-- Block `index` of the file has none of the bytes that are left to write. -/
def Volume.Untouched (v : Volume) (offset : Nat) (data : List UInt8) (written index : Nat) : Prop :=
  ∀ pos, offset + written ≤ pos → pos < offset + data.length → pos / v.state.blockSize ≠ index

/-- What a run of the loop does from `written` bytes on. -/
structure Wrote (v : Volume) (inode : Inode) (offset : Nat) (data : List UInt8) (written n : Nat)
    (inode' : Inode) (u : Volume) : Prop where
  le : written ≤ n
  le_length : n ≤ data.length
  splice : Splice v inode (slicePatch offset data written n) u inode'
  counted : v.Counted → u.Counted
  others : ∀ i, v.Untouched offset data written i → u.mapAt inode' i = v.mapAt inode i

/-- Nothing more is written. -/
theorem Wrote.refl (hle : written ≤ data.length) (hv : v.Ok) (ho : v.Owns inode) :
    Wrote v inode offset data written written inode v where
  le := le_rfl
  le_length := hle
  splice := by simpa using Splice.refl hv ho
  counted := id
  others _ _ := rfl

/-- Nothing more is written, but a block may have been allocated. -/
theorem Wrote.stop (hlt : written < data.length) {r : Nat}
    (h : Asked v inode ((offset + written) / v.state.blockSize) trace r inode' u) :
    Wrote v inode offset data written written inode' u where
  le := le_rfl
  le_length := hlt.le
  splice := by simpa using h.filled.splice
  counted := h.filled.counted
  others i hi := h.others i (hi _ le_rfl (by omega)).symm

/-- A pass of the loop in front of the rest of it. -/
theorem Wrote.step {chunk r : Nat} (hlt : written < data.length)
    (hasked : Asked v inode ((offset + written) / v.state.blockSize) trace r inode' w)
    (hsplice : Splice w inode' (slicePatch offset data written (written + chunk)) u inode')
    (hcounted : w.Counted → u.Counted) (hmap : ∀ i, u.mapAt inode' i = w.mapAt inode' i) {u' : Volume}
    (h : Wrote u inode' offset data (written + chunk) n inode'' u') :
    Wrote v inode offset data written n inode'' u' where
  le := by
    have := h.le
    omega
  le_length := h.le_length
  splice := by
    have hall := (hasked.filled.splice.trans hsplice).trans h.splice
    have hnone : ∀ x : Option UInt8, (x <|> none) = x := fun x => by cases x <;> rfl
    simp only [hnone] at hall
    rwa [slicePatch_append (Nat.le_add_right written chunk) h.le] at hall
  counted hcount := h.counted (hcounted (hasked.filled.counted hcount))
  others i hi := by
    have hsize : u.state.blockSize = v.state.blockSize :=
      hsplice.frame.blockSize.trans hasked.filled.splice.frame.blockSize
    have hchunk : u.mapAt inode' i = w.mapAt inode' i := hmap i
    rw [h.others i ?_, hchunk, hasked.others i (hi _ le_rfl (by omega)).symm]
    intro pos hlo hhi
    rw [hsize]
    exact hi pos (by omega) hhi

/-- The loop never replaces the indirect block of the file. -/
theorem writeLoop_returns (offset : Nat) (data : List UInt8) (fuel : Nat) (inode : Inode)
    (written : Nat) : Returns
    (fun r : Nat × Inode => inode.block 12 ≠ 0 → r.2.block 12 = inode.block 12)
    (writeLoop offset data fuel inode written) := by
  induction fuel generalizing inode written with
  | zero => exact .pure fun _ => rfl
  | succ fuel ih =>
    refine .ite (.bind_any fun fs => .bind (inodeBlockAtOrAlloc_returns ..) fun r hr => ?_)
      (.pure fun _ => rfl)
    refine .ite (.pure hr) (.bind_any fun ok => .ite ?_ (.pure hr))
    intro v trace r' u h h12
    have hr := hr h12
    rw [ih _ _ h (by rwa [hr]), hr]

theorem Frame.reaches {S : Nat → Prop} (h : Frame S v u) (hpos : v.Reaches pos) :
    u.Reaches pos := by
  unfold Reaches
  rw [h.blockSize]
  exact hpos

/-- The next pass begins inside the block of this one or right behind it. -/
theorem reaches_pass (hw : w.Ok) (hin : w.InRange ((offset + written) / w.state.blockSize))
    (hchunk : len ≤ w.state.blockSize - (offset + written) % w.state.blockSize) :
    w.Reaches (offset + (written + len)) := by
  refine hin.reaches hw ?_
  have hdiv := Nat.div_add_mod (offset + written) w.state.blockSize
  have hmod := Nat.mod_lt (offset + written) hw.valid.blockSize_pos
  rw [Nat.add_mul, Nat.one_mul, Nat.mul_comm]
  change (offset + written) % w.state.blockSize < w.state.blockSize at hmod
  omega

/-- What a pass of the loop stores, once it has its block. -/
theorem splice_pass (hw : w.Ok) (ho : w.Owns inode) {trace : List Event}
    (hmap : w.mapAt inode ((offset + written) / w.state.blockSize) ≠ 0)
    (hchunk : len ≤ w.state.blockSize - (offset + written) % w.state.blockSize)
    (hlen : len ≤ data.length - written)
    (h : (writeChunk (w.mapAt inode ((offset + written) / w.state.blockSize))
      ((offset + written) % w.state.blockSize) ((data.drop written).take len)).Runs w trace true u) :
    Splice w inode (slicePatch offset data written (written + len)) u inode ∧
      (w.Counted → u.Counted) ∧ u.freeBlocks = w.freeBlocks ∧
      ∀ i, u.mapAt inode i = w.mapAt inode i := by
  set bs := w.state.blockSize with hbs
  have hstart : offset + written = (offset + written) / bs * bs + (offset + written) % bs := by
    rw [Nat.mul_comm]
    exact (Nat.div_add_mod _ _).symm
  rcases runs_writeChunk h with ⟨hfalse, -⟩ | ⟨-, new, rfl, hnew⟩
  · cases hfalse
  have hmeta := (ho.usable (.data _) hmap).not_isMetadata
  refine ⟨splice_chunk hw ho hmap ?_ fun i hi => ?_, fun hcount => hcount.setBlock hw hmeta,
    hw.freeBlocks_setBlock hmeta, fun i => ?_⟩
  · -- the chunk does not go beyond its block
    intro pos hpos
    unfold slicePatch at hpos
    split_ifs at hpos with hin
    · obtain ⟨j, rfl⟩ := Nat.exists_eq_add_of_le hin.1
      have hj : offset + written + j =
          (offset + written) / bs * bs + ((offset + written) % bs + j) := by omega
      rw [← hbs, hj]
      exact blockPos_div (by omega)
    · exact absurd rfl hpos
  · rw [hnew i hi, stored_chunk _ hstart hlen]
  · exact slot_setBlock_data ho hmap (.data i)

/-- **The loop of `write`.** Unless a write to the indirect block fails, a run of the loop
is a splice of the bytes that it counts. -/
theorem runs_writeLoop {fuel : Nat} (hv : v.Ok) (ho : v.Owns inode)
    (hreach : v.Reaches (offset + written)) (hle : written ≤ data.length)
    (h : (writeLoop offset data fuel inode written).Runs v trace (n, inode') u)
    (htab : TableWritten v inode' trace) : Wrote v inode offset data written n inode' u := by
  induction fuel generalizing v inode written trace with
  | zero =>
    obtain ⟨-, hr, rfl⟩ := runs_pure.mp h
    cases hr
    exact .refl hle hv ho
  | succ fuel ih =>
    rw [writeLoop] at h
    by_cases hlt : written < data.length
    swap
    · rw [if_neg hlt] at h
      obtain ⟨-, hr, rfl⟩ := runs_pure.mp h
      cases hr
      exact .refl hle hv ho
    rw [if_pos hlt] at h
    obtain ⟨first, rest, ⟨b, inode₁⟩, w, rfl, hask, hrest⟩ := runs_bind.mp (runs_getState_bind.mp h)
    dsimp only at hrest
    obtain ⟨hpos, hblock⟩ := hreach.eq hv
    rw [hpos, hblock] at hask
    rw [hpos] at hrest
    -- the indirect block of this pass is that of the whole run
    have hasked : (inode₁.block 12 ≠ 0 → inode'.block 12 = inode₁.block 12) →
        Asked v inode ((offset + written) / v.state.blockSize) first b inode₁ w := fun hkept =>
      asked_of_runs hv ho hask (htab.mono (List.subset_append_left ..) hkept fun _ => rfl)
    by_cases hb : b = 0
    · rw [if_pos hb] at hrest
      obtain ⟨-, hr, rfl⟩ := runs_pure.mp hrest
      cases hr
      exact .stop hlt (hasked fun _ => rfl)
    rw [if_neg hb] at hrest
    obtain ⟨mid, last, ok, w', rfl, hchunk, hlast⟩ := runs_bind.mp hrest
    cases ok with
    | false =>
      obtain ⟨-, hr, rfl⟩ := runs_pure.mp hlast
      cases hr
      rcases runs_writeChunk hchunk with ⟨-, rfl, -⟩ | ⟨htrue, -⟩
      · exact .stop hlt (hasked fun _ => rfl)
      · cases htrue
    | true =>
      have hkept := writeLoop_returns _ _ _ _ _ hlast
      have hfilled := (hasked hkept).filled
      have hsize : w.state.blockSize = v.state.blockSize := hfilled.splice.frame.blockSize
      have hresult := (hasked hkept).result hb
      subst hresult
      rw [← hsize] at hb hchunk hlast
      obtain ⟨hsplice, hcounted, -, hmap⟩ := splice_pass hfilled.splice.ok hfilled.splice.owns hb
        (Nat.min_le_left ..) (Nat.min_le_right ..) hchunk
      refine .step hlt (hasked hkept) hsplice hcounted hmap (ih hsplice.ok hsplice.owns ?_ ?_ hlast ?_)
      · exact hsplice.frame.reaches (reaches_pass hfilled.splice.ok (inRange_of_mapAt hb)
          (Nat.min_le_left ..))
      · omega
      · exact htab.mono (fun _ he => by simp [he]) (fun _ => rfl) fun b' => by
          rw [hsplice.frame.writeEvent, hfilled.splice.frame.writeEvent]

/-! ### Enough blocks -/

/-- The number of blocks that have to be allocated for blocks `lo` to `hi` of a file. -/
def Volume.needed (v : Volume) (inode : Inode) (lo hi : Nat) : Nat :=
  ((Finset.Ico lo hi).filter fun i => v.mapAt inode i = 0).card +
    (if lo < hi ∧ 12 < hi ∧ inode.block 12 = 0 then 1 else 0)

section Needed

variable {lo lo' hi : Nat}

/-- Less is needed if more slots are filled and fewer blocks are asked for. -/
theorem Volume.needed_mono (hlo : lo ≤ lo')
    (hkept : ∀ s, v.slot inode s ≠ 0 → u.slot inode' s ≠ 0) :
    u.needed inode' lo' hi ≤ v.needed inode lo hi := by
  refine Nat.add_le_add (card_le_card fun i hi' => ?_) ?_
  · rw [mem_filter, mem_Ico] at hi' ⊢
    refine ⟨by omega, ?_⟩
    by_contra hne
    exact hkept (.data i) hne hi'.2
  · split_ifs with h h' h'
    · exact le_rfl
    · refine absurd ⟨by omega, h.2.1, ?_⟩ h'
      by_contra hne
      exact hkept .table hne h.2.2
    · exact Nat.zero_le _
    · exact le_rfl

/-- Once a block has been asked for, its cost is no longer needed. -/
theorem Volume.needed_of_mapAt (hmem : index ∈ Ico lo hi) (hmap : u.mapAt inode' index ≠ 0)
    (hkept : ∀ s, v.slot inode s ≠ 0 → u.slot inode' s ≠ 0) :
    u.needed inode' lo hi + v.cost inode index ≤ v.needed inode lo hi := by
  rw [mem_Ico] at hmem
  have hblocks : ((Ico lo hi).filter fun i => u.mapAt inode' i = 0).card +
      (if v.mapAt inode index = 0 then 1 else 0) ≤
        ((Ico lo hi).filter fun i => v.mapAt inode i = 0).card := by
    have hsub : ((Ico lo hi).filter fun i => u.mapAt inode' i = 0) ⊆
        ((Ico lo hi).filter fun i => v.mapAt inode i = 0).erase index := by
      intro i hi'
      rw [mem_filter] at hi'
      rw [mem_erase, mem_filter]
      refine ⟨?_, hi'.1, ?_⟩
      · rintro rfl
        exact hmap hi'.2
      · by_contra hne
        exact hkept (.data i) hne hi'.2
    have hcard := card_le_card hsub
    split_ifs with hzero
    · have hin : index ∈ (Ico lo hi).filter fun i => v.mapAt inode i = 0 :=
        mem_filter.mpr ⟨mem_Ico.mpr hmem, hzero⟩
      have := card_erase_add_one hin
      omega
    · exact hcard.trans (card_le_card (erase_subset ..))
  have htable : (if lo < hi ∧ 12 < hi ∧ inode'.block 12 = 0 then 1 else 0) +
      (if 12 ≤ index ∧ inode.block 12 = 0 then 1 else 0) ≤
        if lo < hi ∧ 12 < hi ∧ inode.block 12 = 0 then 1 else 0 := by
    by_cases hneed : 12 ≤ index ∧ inode.block 12 = 0
    · -- the block is reached through the indirect block, so the file has it now
      have h12 : inode'.block 12 ≠ 0 := by
        intro h12
        refine hmap ?_
        rw [mapAt, if_neg (by omega), if_pos (.inr h12)]
      rw [if_neg fun h => h12 h.2.2, if_pos hneed, if_pos ⟨by omega, by omega, hneed.2⟩]
    · split_ifs with h h' h'
      · exact le_rfl
      · refine absurd ⟨h.1, h.2.1, ?_⟩ h'
        by_contra hne
        exact hkept .table hne h.2.2
      · exact Nat.zero_le _
      · exact le_rfl
  unfold needed cost
  omega

/-- A single block costs no more than the range it is in. -/
theorem Volume.cost_le_needed (hmem : index ∈ Ico lo hi) :
    v.cost inode index ≤ v.needed inode lo hi := by
  have hlohi := mem_Ico.mp hmem
  refine Nat.add_le_add ?_ ?_
  · split_ifs with hzero
    · exact card_pos.mpr ⟨index, mem_filter.mpr ⟨hmem, hzero⟩⟩
    · exact Nat.zero_le _
  · split_ifs with h h' h'
    · exact le_rfl
    · exact absurd ⟨by omega, by omega, h.2⟩ h'
    · exact Nat.zero_le _
    · exact le_rfl

end Needed

/-- If nothing fails, the blocks can be mapped and there are enough free ones, then the
loop writes all of `data`. -/
theorem writeLoop_all {fuel hi : Nat} (hv : v.Ok) (ho : v.Owns inode) (hcount : v.Counted)
    (hok : AllOk trace) (hfuel : data.length ≤ written + fuel) (hle : written ≤ data.length)
    (hhi : offset + data.length ≤ hi * v.state.blockSize) (hrange : hi ≤ 12 + v.state.blockSize / 4)
    (hspace : v.needed inode ((offset + written) / v.state.blockSize) hi ≤ v.freeBlocks.card)
    (h : (writeLoop offset data fuel inode written).Runs v trace (n, inode') u) :
    n = data.length := by
  induction fuel generalizing v inode written trace with
  | zero =>
    obtain ⟨-, hr, rfl⟩ := runs_pure.mp h
    cases hr
    omega
  | succ fuel ih =>
    rw [writeLoop] at h
    by_cases hlt : written < data.length
    swap
    · rw [if_neg hlt] at h
      obtain ⟨-, hr, rfl⟩ := runs_pure.mp h
      cases hr
      omega
    rw [if_pos hlt] at h
    obtain ⟨first, rest, ⟨b, inode₁⟩, w, rfl, hask, hrest⟩ := runs_bind.mp (runs_getState_bind.mp h)
    dsimp only at hrest
    have hbs : 0 < v.state.blockSize := hv.valid.blockSize_pos
    have hlthi : (offset + written) / v.state.blockSize < hi :=
      Nat.div_lt_of_lt_mul (by rw [Nat.mul_comm]; omega)
    have hin : v.InRange ((offset + written) / v.state.blockSize) := by
      change (offset + written) / v.state.blockSize < 12 + v.state.blockSize / 4
      omega
    have hmem := mem_Ico.mpr ⟨le_refl ((offset + written) / v.state.blockSize), hlthi⟩
    obtain ⟨hpos, hblock⟩ := (hin.reaches hv (Nat.le_of_lt (Nat.lt_mul_of_div_lt
      (Nat.lt_succ_self _) hbs))).eq hv
    rw [hpos, hblock] at hask
    rw [hpos] at hrest
    obtain ⟨hokfirst, hokrest⟩ := allOk_append.mp hok
    have hasked := asked_of_runs hv ho hask (.of_allOk hokfirst)
    have hb : b ≠ 0 := by
      intro hzero
      have hshort := hasked.short hokfirst hcount hin hzero
      have hcost : v.cost inode _ ≤ v.needed inode _ hi := cost_le_needed hmem
      omega
    have hspent := hasked.spent hokfirst hb
    rw [if_neg hb] at hrest
    have hresult := hasked.result hb
    subst hresult
    have hfilled := hasked.filled
    have hsize : w.state.blockSize = v.state.blockSize := hfilled.splice.frame.blockSize
    have hneeded : needed w inode₁ ((offset + written) / v.state.blockSize) hi + _ ≤ _ :=
      needed_of_mapAt hmem hb fun s hs => by rwa [hfilled.splice.kept s hs]
    obtain ⟨mid, last, ok, w', rfl, hchunk, hlast⟩ := runs_bind.mp hrest
    obtain ⟨hokmid, hoklast⟩ := allOk_append.mp hokrest
    cases ok with
    | false =>
      rcases runs_writeChunk hchunk with ⟨-, -, hfailed⟩ | ⟨htrue, -⟩
      · exact absurd hokmid hfailed
      · cases htrue
    | true =>
      rw [← hsize] at hb hchunk hlast
      obtain ⟨hsplice, hcounted, hfree, -⟩ := splice_pass hfilled.splice.ok hfilled.splice.owns hb
        (Nat.min_le_left ..) (Nat.min_le_right ..) hchunk
      have hsize' : w'.state.blockSize = v.state.blockSize := hsplice.frame.blockSize.trans hsize
      have hmod : (offset + written) % w.state.blockSize < w.state.blockSize :=
        Nat.mod_lt _ (by rw [hsize]; exact hbs)
      refine ih hsplice.ok hsplice.owns (hcounted (hfilled.counted hcount)) hoklast ?_ ?_ ?_ ?_ ?_
        hlast
      · omega
      · omega
      · rw [hsize']
        exact hhi
      · rw [hsize']
        exact hrange
      · rw [hfree, hsize']
        refine (needed_mono (Nat.div_le_div_right (Nat.add_le_add_left
          (Nat.le_add_right ..) _)) fun s hs => ?_).trans (show needed w inode₁
            ((offset + written) / v.state.blockSize) hi ≤ _ by omega)
        rwa [hsplice.kept s hs]

end WengShiOS.Fs.Ext2
