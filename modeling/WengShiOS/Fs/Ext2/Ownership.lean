import WengShiOS.Fs.Ext2.Geometry

/-! # The blocks that a file owns

A file refers to blocks from its slots: one for each of its data blocks and one for its
indirect block. It owns them if they are used, are not part of the file system's own
regions, and no two slots refer to the same block.

`Splice` says what the functions that write to a file do between two moments: slots are
filled with blocks that were free and never emptied, the bytes of a patch are stored into
the data blocks, and besides the accounting nothing but the file's blocks changes. It is
transitive, so that what one pass of a loop does carries over to the loop. -/

namespace WengShiOS.Fs.Ext2

open Math Math.Prog Inode Volume

/-- A place that refers to a block of a file. -/
inductive Slot
  | data (index : Nat)
  | table
  deriving DecidableEq

/-- The block a slot refers to; 0 if there is none. -/
def Volume.slot (v : Volume) (inode : Inode) : Slot → Nat
  | .data index => v.mapAt inode index
  | .table => inode.block 12

@[simp] theorem Volume.slot_data (v : Volume) (inode : Inode) (index : Nat) :
    v.slot inode (.data index) = v.mapAt inode index := rfl

@[simp] theorem Volume.slot_table (v : Volume) (inode : Inode) :
    v.slot inode .table = inode.block 12 := rfl

/-- A block that can belong to a file. -/
structure Volume.Usable (v : Volume) (b : Nat) : Prop where
  inVolume : v.geo.InVolume b
  not_isMetadata : ¬ v.geo.IsMetadata b
  used : v.used b = true

structure Volume.Owns (v : Volume) (inode : Inode) : Prop where
  usable : ∀ s, v.slot inode s ≠ 0 → v.Usable (v.slot inode s)
  inj : ∀ s t, v.slot inode s = v.slot inode t → v.slot inode s ≠ 0 → s = t

/-- The block is one of the file. -/
def Volume.IsOf (v : Volume) (inode : Inode) (b : Nat) : Prop :=
  ∃ s, v.slot inode s ≠ 0 ∧ b = v.slot inode s

/-- Two inodes differ at most in the pointers and in `blocks`. -/
def SameFields (inode inode' : Inode) : Prop :=
  ∀ i, ¬ (28 ≤ i ∧ i < 32) → ¬ (40 ≤ i ∧ i < 92) → inode' i = inode i

/-- From `v` to `u` the file has got the bytes of the patch, where it has some. -/
structure Splice (v : Volume) (inode : Inode) (patch : Nat → Option UInt8) (u : Volume)
    (inode' : Inode) : Prop where
  ok : u.Ok
  owns : u.Owns inode'
  frame : Frame (fun b => v.geo.IsAccounting b ∨ u.IsOf inode' b) v u
  used : ∀ b, v.geo.InVolume b → v.used b = true → u.used b = true
  kept : ∀ s, v.slot inode s ≠ 0 → u.slot inode' s = v.slot inode s
  fresh : ∀ s, v.slot inode s = 0 → u.slot inode' s ≠ 0 → v.used (u.slot inode' s) = false
  fields : SameFields inode inode'
  content : ∀ index i, i < v.state.blockSize → u.mapAt inode' index ≠ 0 →
    u.block (u.mapAt inode' index) i =
      (patch (index * v.state.blockSize + i)).getD (v.block (u.mapAt inode' index) i)
  covered : ∀ pos, patch pos ≠ none → u.mapAt inode' (pos / v.state.blockSize) ≠ 0

variable {v u w : Volume} {inode inode' inode'' : Inode} {patch patch' : Nat → Option UInt8}
  {b index : Nat} {trace : List Event}

theorem SameFields.refl : SameFields inode inode := fun _ _ _ => rfl

theorem SameFields.trans (h : SameFields inode inode') (h' : SameFields inode' inode'') :
    SameFields inode inode'' :=
  fun i hs hb => (h' i hs hb).trans (h i hs hb)

/-- Byte `i` of block `index` of a file lies in that block. -/
theorem blockPos_div {bs i : Nat} (hi : i < bs) : (index * bs + i) / bs = index := by
  rw [Nat.mul_comm, Nat.mul_add_div (by omega), Nat.div_eq_of_lt hi, Nat.add_zero]

theorem Splice.refl (hv : v.Ok) (ho : v.Owns inode) : Splice v inode (fun _ => none) v inode where
  ok := hv
  owns := ho
  frame := .refl
  used _ _ h := h
  kept _ _ := rfl
  fresh _ h h' := absurd h h'
  fields := .refl
  content _ _ _ _ := rfl
  covered _ h := absurd rfl h

theorem Volume.Owns.usable_data (ho : v.Owns inode) (hmap : v.mapAt inode index ≠ 0) :
    v.Usable (v.mapAt inode index) :=
  ho.usable (.data index) hmap

theorem Volume.isOf_data (hmap : v.mapAt inode index ≠ 0) : v.IsOf inode (v.mapAt inode index) :=
  ⟨.data index, hmap, rfl⟩

theorem Splice.mapAt_kept (h : Splice v inode patch u inode') (hmap : v.mapAt inode index ≠ 0) :
    u.mapAt inode' index = v.mapAt inode index :=
  h.kept (.data index) hmap

/-- A block that a file gets later was not one of its blocks before. -/
theorem Volume.Owns.not_isOf_of_free (ho : v.Owns inode) (hb : v.used b = false) :
    ¬ v.IsOf inode b := by
  rintro ⟨s, hs, rfl⟩
  rw [(ho.usable s hs).used] at hb
  cases hb

/-- A file keeps its blocks. -/
theorem Splice.isOf (h : Splice v inode patch u inode') (hb : v.IsOf inode b) :
    u.IsOf inode' b := by
  obtain ⟨s, hs, rfl⟩ := hb
  have hkept := h.kept s hs
  exact ⟨s, by rwa [hkept], hkept.symm⟩

/-- **Splices compose**: the later patch lies over the earlier one. -/
theorem Splice.trans (h : Splice v inode patch u inode') (h' : Splice u inode' patch' w inode'') :
    Splice v inode (fun pos => patch' pos <|> patch pos) w inode'' := by
  have hsize : u.state.blockSize = v.state.blockSize := h.frame.blockSize
  have hgeo := h.frame.geo
  refine ⟨h'.ok, h'.owns, ?_, ?_, ?_, ?_, h.fields.trans h'.fields, ?_, ?_⟩
  · refine (h.frame.mono ?_).trans (h'.frame.mono ?_)
    · rintro b (hb | hb)
      · exact .inl hb
      · exact .inr (h'.isOf hb)
    · rintro b (hb | hb)
      · exact .inl (hgeo ▸ hb)
      · exact .inr hb
  · intro b hb hused
    exact h'.used b (hgeo ▸ hb) (h.used b hb hused)
  · intro s hs
    have hkept := h.kept s hs
    rw [h'.kept s (by rwa [hkept]), hkept]
  · intro s hs hs'
    by_cases hmid : u.slot inode' s = 0
    · -- the slot was filled in the second part, with a block that was free even then
      have hfree := h'.fresh s hmid hs'
      have hin : v.geo.InVolume (w.slot inode'' s) := by
        have := (h'.owns.usable s hs').inVolume
        rwa [h'.frame.geo, hgeo] at this
      by_contra hused
      rw [h.used _ hin (by simpa using hused)] at hfree
      cases hfree
    · rw [h'.kept s hmid]
      exact h.fresh s hs hmid
  · intro index i hi hmap
    rw [h'.content index i (by rwa [hsize]) hmap, hsize]
    by_cases hmid : u.mapAt inode' index = 0
    · -- before the second part the block was free, and the first did not touch it
      have hfree := h'.fresh (.data index) hmid hmap
      have hnot := (h'.owns.usable (.data index) hmap).not_isMetadata
      rw [h'.frame.geo, hgeo] at hnot
      have hblock : u.block (w.mapAt inode'' index) = v.block (w.mapAt inode'' index) := by
        refine h.frame.block _ ?_
        rintro (hacc | hof)
        · exact hnot hacc.isMetadata
        · exact h.owns.not_isOf_of_free hfree hof
      have hnone : patch (index * v.state.blockSize + i) = none := by
        by_contra hsome
        have hcov := h.covered _ hsome
        rw [blockPos_div hi] at hcov
        exact hcov hmid
      rw [hblock, hnone]
      cases patch' (index * v.state.blockSize + i) <;> rfl
    · rw [h'.mapAt_kept hmid, h.content index i hi hmid]
      cases patch' (index * v.state.blockSize + i) <;> rfl
  · intro pos hpos
    cases hp : patch' pos with
    | some byte =>
      have := h'.covered pos (by simp [hp])
      rwa [hsize] at this
    | none =>
      have hcov := h.covered pos (by simpa [hp] using hpos)
      rwa [h'.mapAt_kept hcov]

/-! ### Filling a slot -/

theorem Inode.block_setBlock (i j value : Nat) :
    (inode.setBlock i value).block j = if j = i then value % 2 ^ 32 else inode.block j := by
  unfold block setBlock
  split_ifs with h
  · rw [h, readLE_writeLE]
    norm_num
  · refine readLE_writeLE_of_apart ?_
    simp only [Apart]
    omega

@[simp] theorem Inode.block_addSectors (i blockSize : Nat) :
    (inode.addSectors blockSize).block i = inode.block i := by
  refine readLE_writeLE_of_apart ?_
  simp only [Apart]
  omega

theorem Inode.addSectors_sameFields (blockSize : Nat) :
    SameFields inode (inode.addSectors blockSize) :=
  fun _ hs _ => overlay_of_not_mem (by omega)

theorem Inode.setBlock_sameFields {i value : Nat} (hi : i ≤ 12) :
    SameFields inode (inode.setBlock i value) :=
  fun _ _ hb => overlay_of_not_mem (by omega)

/-- The map of a file depends on its pointers and on its indirect block. -/
theorem Volume.mapAt_congr (hsize : u.state.blockSize = v.state.blockSize)
    (hpointer : index < 12 → inode'.block index = inode.block index)
    (htable : inode'.block 12 = inode.block 12)
    (hblock : inode.block 12 ≠ 0 → u.block (inode.block 12) = v.block (inode.block 12)) :
    u.mapAt inode' index = v.mapAt inode index := by
  unfold mapAt FsInstance.ptrsPerBlock
  rw [htable, hsize]
  split_ifs with hdirect hnone
  · exact hpointer hdirect
  · rfl
  · rw [not_or] at hnone
    rw [hblock hnone.2]

/-- A block that is written changes the file's map only if it is the indirect block. -/
theorem Volume.slot_congr (hsize : u.state.blockSize = v.state.blockSize)
    (hblock : inode.block 12 ≠ 0 → u.block (inode.block 12) = v.block (inode.block 12)) (s : Slot) :
    u.slot inode s = v.slot inode s := by
  cases s with
  | data index => exact mapAt_congr hsize (fun _ => rfl) rfl hblock
  | table => rfl

/-- A free block has been taken and put into an empty slot `s₀`. -/
theorem Splice.insert (hv : v.Ok) (ho : v.Owns inode) (s₀ : Slot) (hempty : v.slot inode s₀ = 0)
    (htook : Took v b w)
    (hslot : ∀ s, u.slot inode' s = if s = s₀ then b else v.slot inode s)
    (hframe : Frame (fun b' => v.geo.IsAccounting b' ∨ inode'.block 12 ≠ 0 ∧ b' = inode'.block 12) v u)
    (hused : ∀ b', v.geo.InVolume b' → u.used b' = w.used b') (hfields : SameFields inode inode') :
    Splice v inode (fun _ => none) u inode' := by
  have hgeo := hframe.geo
  have hin : ∀ b', u.geo.InVolume b' ↔ v.geo.InVolume b' := fun b' => by rw [hgeo]
  have hmono : ∀ b', v.geo.InVolume b' → v.used b' = true → u.used b' = true := by
    intro b' hb' h
    rw [hused b' hb']
    exact htook.mono hb' h
  -- the new block is not one of the blocks that the file had
  have hnew : ∀ s, v.slot inode s ≠ 0 → v.slot inode s ≠ b := by
    intro s hs heq
    exact ho.not_isOf_of_free htook.free ⟨s, hs, heq.symm⟩
  have howns : u.Owns inode' := by
    constructor
    · intro s hs
      rw [hslot s] at hs ⊢
      split_ifs at hs ⊢ with h
      · refine ⟨(hin b).mpr htook.inVolume, hgeo ▸ htook.not_isMetadata hv, ?_⟩
        rw [hused b htook.inVolume, htook.used b htook.inVolume, decide_eq_true rfl, Bool.true_or]
      · obtain ⟨hvol, hmeta, husd⟩ := ho.usable s hs
        exact ⟨(hin _).mpr hvol, hgeo ▸ hmeta, hmono _ hvol husd⟩
    · intro s t heq hs
      rw [hslot s, hslot t] at heq
      rw [hslot s] at hs
      split_ifs at heq hs with h h' h'
      · exact h.trans h'.symm
      · exact absurd heq.symm (hnew t (heq ▸ hs))
      · exact absurd heq (hnew s hs)
      · exact ho.inj s t heq hs
  refine ⟨⟨hgeo ▸ hv.valid, ?_⟩, howns, hframe.mono ?_, hmono, ?_, ?_, hfields, ?_, ?_⟩
  · intro b' hb'
    rw [hgeo] at hb'
    exact hmono _ (hv.valid.inVolume_of_isMetadata hb') (hv.reserved _ hb')
  · rintro b' (hb' | ⟨h12, rfl⟩)
    · exact .inl hb'
    · exact .inr ⟨.table, h12, rfl⟩
  · intro s hs
    have hne : s ≠ s₀ := by
      rintro rfl
      exact hs hempty
    rw [hslot s, if_neg hne]
  · intro s hs hs'
    rw [hslot s] at hs' ⊢
    split_ifs at hs' ⊢ with h
    · exact htook.free
    · exact absurd hs hs'
  · -- a data block is neither accounting nor the indirect block
    intro index i _ hmap
    have hblock : u.block (u.mapAt inode' index) = v.block (u.mapAt inode' index) := by
      refine hframe.block _ ?_
      rintro (hacc | ⟨h12, heq⟩)
      · exact (howns.usable (.data index) hmap).not_isMetadata (hgeo ▸ hacc.isMetadata)
      · cases howns.inj (.data index) .table heq hmap
    rw [hblock]
    rfl
  · exact fun _ h => absurd rfl h

/-- A free block has been taken and is not referred to. -/
theorem Splice.leak (hv : v.Ok) (ho : v.Owns inode) (htook : Took v b u) :
    Splice v inode (fun _ => none) u inode := by
  have hslot : ∀ s, u.slot inode s = v.slot inode s := by
    refine slot_congr htook.frame.blockSize fun h12 => htook.frame.block _ fun hacc => ?_
    exact (ho.usable .table h12).not_isMetadata hacc.isMetadata
  have hgeo := htook.frame.geo
  refine ⟨htook.ok hv, ⟨fun s hs => ?_, fun s t => ?_⟩, htook.frame.mono fun _ => .inl,
    fun b' hb' h => htook.mono hb' h, fun s _ => hslot s, fun s hs hs' => ?_, .refl, ?_,
    fun _ h => absurd rfl h⟩
  · rw [hslot s] at hs ⊢
    obtain ⟨hvol, hmeta, husd⟩ := ho.usable s hs
    exact ⟨hgeo ▸ hvol, hgeo ▸ hmeta, htook.mono hvol husd⟩
  · rw [hslot s, hslot t]
    exact ho.inj s t
  · rw [hslot s] at hs'
    exact absurd hs hs'
  · intro index i _ hmap
    have heq : u.mapAt inode index = v.mapAt inode index := hslot (.data index)
    rw [heq] at hmap ⊢
    have hnot : ¬ v.geo.IsAccounting (v.mapAt inode index) := fun hacc =>
      (ho.usable (.data index) hmap).not_isMetadata hacc.isMetadata
    rw [htook.frame.block _ hnot]
    rfl

/-! ### Asking for a block -/

/-- No write to the file's indirect block, if it has one, failed. -/
def TableWritten (v : Volume) (inode : Inode) (trace : List Event) : Prop :=
  inode.block 12 ≠ 0 → v.writeEvent (inode.block 12) false ∉ trace

theorem TableWritten.of_allOk (hok : AllOk trace) : TableWritten v inode trace :=
  fun _ hmem => by cases hok _ hmem

/-- The part of the trace of an earlier moment, when the file may not have had its
indirect block yet. -/
theorem TableWritten.mono {first : List Event} (htab : TableWritten v inode' trace)
    (hsub : first ⊆ trace) (hkept : inode.block 12 ≠ 0 → inode'.block 12 = inode.block 12)
    (hevent : ∀ b, u.writeEvent b false = v.writeEvent b false) : TableWritten u inode first := by
  intro h12 hmem
  have hkept := hkept h12
  rw [← hkept] at h12 hmem
  rw [hevent] at hmem
  exact htab h12 (hsub hmem)

/-- What asking for a block costs: the block itself if the file does not have it, and the
indirect block if it is needed and not there. -/
def Volume.cost (v : Volume) (inode : Inode) (index : Nat) : Nat :=
  (if v.mapAt inode index = 0 then 1 else 0) +
    (if 12 ≤ index ∧ inode.block 12 = 0 then 1 else 0)

variable {data : Bytes} {r : Nat}

/-- A block that is no metadata can be written without changing what is used. -/
theorem Volume.Ok.used_setBlock (hv : v.Ok) (hb : ¬ v.geo.IsMetadata b) {b' : Nat}
    (hb' : v.geo.InVolume b') : (v.setBlock b data).used b' = v.used b' := by
  have hframe : Frame (· = b) v (v.setBlock b data) := .setBlock rfl
  exact hframe.used_eq hv (fun group hgroup heq => hb ⟨.blockBitmap group, hgroup, heq⟩) hb'

theorem Volume.Ok.setBlock (hv : v.Ok) (hb : ¬ v.geo.IsMetadata b) :
    (v.setBlock b data).Ok := by
  have hframe : Frame (· = b) v (v.setBlock b data) := .setBlock rfl
  exact hframe.ok hv fun group hgroup heq => hb ⟨.blockBitmap group, hgroup, heq⟩

theorem Volume.freeBlocks_congr (hgeo : u.geo = v.geo)
    (hused : ∀ b, v.geo.InVolume b → u.used b = v.used b) : u.freeBlocks = v.freeBlocks := by
  ext b
  rw [mem_freeBlocks, mem_freeBlocks, hgeo]
  refine and_congr_right fun hin => ?_
  rw [hused b hin]

theorem Volume.Ok.freeBlocks_setBlock (hv : v.Ok) (hb : ¬ v.geo.IsMetadata b) :
    (v.setBlock b data).freeBlocks = v.freeBlocks :=
  freeBlocks_congr rfl fun _ hb' => hv.used_setBlock hb hb'

theorem Volume.Counted.congr (hcount : v.Counted) (hgeo : u.geo = v.geo)
    (hused : ∀ b, v.geo.InVolume b → u.used b = v.used b)
    (hfree : u.state.groupFreeBlocks = v.state.groupFreeBlocks) : u.Counted := by
  intro group hgroup
  rw [hgeo] at hgroup ⊢
  rw [hfree, freeBlocks_congr hgeo hused]
  exact hcount group hgroup

theorem Volume.Counted.setBlock (hcount : v.Counted) (hv : v.Ok) (hb : ¬ v.geo.IsMetadata b) :
    (v.setBlock b data).Counted :=
  hcount.congr rfl (fun _ hb' => hv.used_setBlock hb hb') rfl

/-- From `v` to `u` slots have been filled, and the counters have been kept right. -/
structure Filled (v : Volume) (inode : Inode) (u : Volume) (inode' : Inode) : Prop where
  splice : Splice v inode (fun _ => none) u inode'
  counted : v.Counted → u.Counted

theorem Filled.refl (hv : v.Ok) (ho : v.Owns inode) : Filled v inode v inode :=
  ⟨.refl hv ho, id⟩

theorem Filled.trans (h : Filled v inode u inode') (h' : Filled u inode' w inode'') :
    Filled v inode w inode'' :=
  ⟨h.splice.trans h'.splice, fun hcount => h'.counted (h.counted hcount)⟩

section Fill

variable (blockSize : Nat) (hv : v.Ok) (ho : v.Owns inode) (htook : Took v b w)
include hv ho htook

omit ho in
theorem Took.mod_two_pow : b % 2 ^ 32 = b := by
  have := htook.inVolume.2
  have := hv.valid.blocksCount.2
  exact Nat.mod_eq_of_lt (by omega)

/-- A direct pointer gets the block. -/
theorem filled_direct (hindex : index < 12) (hempty : inode.block index = 0) :
    Filled v inode w (addSectors (inode.setBlock index b) blockSize) ∧
      ∀ i, w.mapAt (addSectors (inode.setBlock index b) blockSize) i =
        if i = index then b else v.mapAt inode i := by
  set inode' := addSectors (inode.setBlock index b) blockSize with hinode'
  have hb := htook.mod_two_pow hv
  have hpointer : ∀ i, inode'.block i = if i = index then b else inode.block i := by
    intro i
    rw [hinode', block_addSectors, block_setBlock, hb]
  have h12 : inode'.block 12 = inode.block 12 := by rw [hpointer, if_neg (by omega)]
  have hblock : inode.block 12 ≠ 0 → w.block (inode.block 12) = v.block (inode.block 12) :=
    fun hne => htook.frame.block _ fun hacc =>
      (ho.usable .table hne).not_isMetadata hacc.isMetadata
  have hmap : ∀ i, w.mapAt inode' i = if i = index then b else v.mapAt inode i := by
    intro i
    split_ifs with hi
    · rw [hi, mapAt, if_pos hindex, hpointer, if_pos rfl]
    · exact mapAt_congr htook.frame.blockSize (fun _ => by rw [hpointer, if_neg hi]) h12 hblock
  refine ⟨⟨?_, htook.counted⟩, hmap⟩
  refine .insert hv ho (.data index) ?_ htook ?_ (htook.frame.mono fun _ => .inl)
    (fun _ _ => rfl) ?_
  · exact (if_pos hindex).trans hempty
  · intro s
    cases s with
    | data i => simpa using hmap i
    | table => simpa using h12
  · exact (setBlock_sameFields (by omega)).trans (addSectors_sameFields _)

omit ho in
/-- The new indirect block is the one that was taken. -/
theorem block_setBlock_table :
    block (addSectors (inode.setBlock 12 b) blockSize) 12 = b := by
  rw [block_addSectors, block_setBlock, if_pos rfl, htook.mod_two_pow hv]

omit ho in
/-- An indirect block of zeros maps nothing. -/
theorem mapAt_zeroed (hempty : inode.block 12 = 0) (i : Nat) :
    (w.setBlock b fun _ => 0).mapAt (addSectors (inode.setBlock 12 b) blockSize) i =
      v.mapAt inode i := by
  have hzero : ∀ a, readLE 4 ((w.setBlock b fun _ => 0).block b) a = 0 := by
    intro a
    rw [block_setBlock_self]
    simp [readLE, window]
  unfold mapAt
  split_ifs with hi h₁ h₂ h₂
  · rw [block_addSectors, block_setBlock, if_neg (by omega)]
  · rfl
  · exact absurd (.inr hempty) h₂
  · rw [block_setBlock_table blockSize hv htook]
    exact hzero _
  · exact absurd (.inr hempty) h₂

/-- The file gets an indirect block of zeros. -/
theorem filled_table (hempty : inode.block 12 = 0) :
    Filled v inode (w.setBlock b fun _ => 0) (addSectors (inode.setBlock 12 b) blockSize) := by
  have hw := htook.ok hv
  have hmeta : ¬ w.geo.IsMetadata b := htook.frame.geo ▸ htook.not_isMetadata hv
  have h12 : block (addSectors (inode.setBlock 12 b) blockSize) 12 = b :=
    block_setBlock_table blockSize hv htook
  have hmap := mapAt_zeroed blockSize hv htook hempty
  refine ⟨?_, fun hcount => (htook.counted hcount).setBlock hw hmeta⟩
  refine .insert hv ho .table hempty htook ?_ ?_ ?_ ?_
  · intro s
    cases s with
    | data i => simpa using hmap i
    | table => simpa using h12
  · refine (htook.frame.mono fun _ => .inl).trans (.setBlock (.inr ?_))
    rw [h12]
    exact ⟨htook.ne_zero hv, rfl⟩
  · intro b' hb'
    exact hw.used_setBlock hmeta (htook.frame.geo ▸ hb')
  · exact (setBlock_sameFields le_rfl).trans (addSectors_sameFields _)

/-- An entry of the indirect block gets the block. -/
theorem filled_entry (hindex : 12 ≤ index) (hin : v.InRange index) (h12 : inode.block 12 ≠ 0)
    (hempty : v.mapAt inode index = 0) :
    Filled v inode (w.setBlock (inode.block 12)
        (writeLE 4 (v.block (inode.block 12)) (4 * (index - 12)) b)) (inode.addSectors blockSize) ∧
      ∀ i, (w.setBlock (inode.block 12)
        (writeLE 4 (v.block (inode.block 12)) (4 * (index - 12)) b)).mapAt
          (inode.addSectors blockSize) i = if i = index then b else v.mapAt inode i := by
  set table := inode.block 12 with htable
  set u := w.setBlock table (writeLE 4 (v.block table) (4 * (index - 12)) b) with hu
  have hw := htook.ok hv
  have hgeo := htook.frame.geo
  have hsize : w.state.blockSize = v.state.blockSize := htook.frame.blockSize
  have hmeta : ¬ w.geo.IsMetadata table := hgeo ▸ (ho.usable .table h12).not_isMetadata
  have hlt : index < 12 + v.state.blockSize / 4 := hin
  have hptrs : ∀ i, i < v.state.blockSize / 4 → 4 * i + 4 ≤ w.blockBytes := by
    intro i hi
    rw [hw.blockBytes, hsize]
    omega
  -- an entry of the new indirect block
  have hentry : ∀ i, i < v.state.blockSize / 4 → readLE 4 (u.block table) (4 * i) =
      if i = index - 12 then b else readLE 4 (v.block table) (4 * i) := by
    intro i hi
    rw [hu, block_setBlock_self, readLE_window (by have := hptrs i hi; omega), Nat.zero_add]
    split_ifs with heq
    · rw [heq, readLE_writeLE, show (256 : Nat) ^ 4 = 2 ^ 32 by norm_num, htook.mod_two_pow hv]
    · refine readLE_writeLE_of_apart ?_
      simp only [Apart]
      omega
  have hmap : ∀ i, u.mapAt (inode.addSectors blockSize) i =
      if i = index then b else v.mapAt inode i := by
    intro i
    unfold mapAt
    rw [block_addSectors, block_addSectors, ← htable,
      show u.state.ptrsPerBlock = v.state.blockSize / 4 from congrArg (· / 4) hsize,
      show v.state.ptrsPerBlock = v.state.blockSize / 4 from rfl]
    by_cases hdirect : i < 12
    · rw [if_pos hdirect, if_pos hdirect, if_neg (by omega)]
    · rw [if_neg hdirect, if_neg hdirect]
      by_cases hout : v.state.blockSize / 4 ≤ i - 12
      · have hor : v.state.blockSize / 4 ≤ i - 12 ∨ table = 0 := .inl hout
        rw [if_pos hor, if_pos hor, if_neg (by omega)]
      · have hnot : ¬ (v.state.blockSize / 4 ≤ i - 12 ∨ table = 0) := by
          rintro (h | h)
          exacts [hout h, h12 h]
        rw [if_neg hnot, if_neg hnot, hentry _ (by omega)]
        have hiff : i - 12 = index - 12 ↔ i = index := by omega
        simp only [hiff]
  refine ⟨⟨?_, fun hcount => (htook.counted hcount).setBlock hw hmeta⟩, hmap⟩
  refine .insert hv ho (.data index) hempty htook ?_ ?_ ?_ (addSectors_sameFields _)
  · intro s
    cases s with
    | data i => simpa using hmap i
    | table => simp [slot]
  · refine (htook.frame.mono fun _ => .inl).trans (.setBlock (.inr ?_))
    exact ⟨h12, rfl⟩
  · intro b' hb'
    exact hw.used_setBlock hmeta (hgeo ▸ hb')

end Fill

/-- The indirect block of a file is never replaced, whatever fails. -/
theorem ensureIndirect_returns (inode : Inode) : Returns
    (fun r : Bool × Inode => inode.block 12 ≠ 0 → r.2.block 12 = inode.block 12)
    (ensureIndirect inode) := by
  intro v trace r u h h12
  have hbody := runs_getState_bind.mp h
  rw [if_pos h12] at hbody
  obtain ⟨-, rfl, -⟩ := runs_pure.mp hbody
  rfl

theorem indirectOrAlloc_returns (inode : Inode) (index : Nat) : Returns
    (fun r : Nat × Inode => r.2.block 12 = inode.block 12) (indirectOrAlloc inode index) := by
  refine .bind_any fun fs => ?_
  refine .bind_any fun p => ?_
  cases p with
  | none => exact .pure rfl
  | some ptr =>
    refine .bind (Q := fun r : Nat × Inode => r.2.block 12 = inode.block 12) ?_
      fun r hr => .bind_any fun _ => .pure hr
    refine .bind_any fun buf => ?_
    cases buf with
    | none => exact .pure rfl
    | some indirect =>
      refine .ite (.pure rfl) (.bind_any fun _ => .ite (.pure rfl) (.bind_any fun _ => .pure ?_))
      exact block_addSectors ..

theorem inodeBlockAtOrAlloc_returns (inode : Inode) (index : Nat) : Returns
    (fun r : Nat × Inode => inode.block 12 ≠ 0 → r.2.block 12 = inode.block 12)
    (inodeBlockAtOrAlloc inode index) := by
  refine .bind_any fun fs => ?_
  by_cases hdirect : index < 12
  · rw [if_pos hdirect]
    refine .ite (.pure fun _ => rfl) (.bind_any fun newBlock => .ite (.pure fun _ => rfl) (.pure ?_))
    intro _
    rw [block_addSectors, block_setBlock, if_neg (by omega)]
  rw [if_neg hdirect]
  refine .ite (.pure fun _ => rfl) (.bind (ensureIndirect_returns inode) fun r hr => ?_)
  obtain ⟨ok, inode₁⟩ := r
  cases ok with
  | false => exact .pure hr
  | true =>
    intro v trace r u h h12
    rw [indirectOrAlloc_returns _ _ h, hr h12]

/-- How `ensureIndirect` can end. -/
inductive Ensured (v : Volume) (inode : Inode) (trace : List Event) : Bool → Inode → Volume → Prop
  | present (h12 : inode.block 12 ≠ 0) : Ensured v inode trace true inode v
  | full (h12 : inode.block 12 = 0) (hfull : AllOk trace → blockAllocator.Full v) :
    Ensured v inode trace false inode v
  /-- there was no memory for the zeros, and the block is lost -/
  | leaked {b : Nat} {u : Volume} (h12 : inode.block 12 = 0) (htook : Took v b u)
    (hfailed : ¬ AllOk trace) : Ensured v inode trace false inode u
  | zeroed {b : Nat} {w : Volume} (h12 : inode.block 12 = 0) (htook : Took v b w) :
    Ensured v inode trace true (Inode.addSectors (inode.setBlock 12 b) v.state.blockSize)
      (w.setBlock b fun _ => 0)
  /-- the zeros were not written, and the old contents are taken for pointers -/
  | stale {b : Nat} {u : Volume} (h12 : inode.block 12 = 0) (htook : Took v b u)
    (hlost : v.writeEvent b false ∈ trace) :
    Ensured v inode trace true (Inode.addSectors (inode.setBlock 12 b) v.state.blockSize) u

/-- How `indirectOrAlloc` can end. -/
inductive Entered (v : Volume) (inode : Inode) (index : Nat) (trace : List Event) :
    Nat → Inode → Volume → Prop
  | failed (hfailed : ¬ AllOk trace) : Entered v inode index trace 0 inode v
  | present (hentry : readLE 4 (v.block (inode.block 12)) (4 * index) ≠ 0) :
    Entered v inode index trace (readLE 4 (v.block (inode.block 12)) (4 * index)) inode v
  | full (hentry : readLE 4 (v.block (inode.block 12)) (4 * index) = 0)
    (hfull : AllOk trace → blockAllocator.Full v) : Entered v inode index trace 0 inode v
  | stored {b : Nat} {w : Volume} (hentry : readLE 4 (v.block (inode.block 12)) (4 * index) = 0)
    (htook : Took v b w) :
    Entered v inode index trace b (inode.addSectors v.state.blockSize)
      (w.setBlock (inode.block 12) (writeLE 4 (v.block (inode.block 12)) (4 * index) b))
  /-- the pointer was not written, but the block is used all the same -/
  | lost {b : Nat} {u : Volume} (htook : Took v b u)
    (hlost : v.writeEvent (inode.block 12) false ∈ trace) :
    Entered v inode index trace b (inode.addSectors v.state.blockSize) u

/-- The events of a block are the same as long as the geometry is. -/
theorem Frame.writeEvent {S : Nat → Prop} (h : Frame S v u) (b : Nat) (ok : Bool) :
    u.writeEvent b ok = v.writeEvent b ok := by
  unfold Volume.writeEvent Volume.sectorsPerBlock
  rw [h.blockSize]

theorem ensured_of_runs (hv : v.Ok) {ok : Bool}
    (h : (ensureIndirect inode).Runs v trace (ok, inode') u) :
    Ensured v inode trace ok inode' u := by
  have hbody := runs_getState_bind.mp h
  by_cases h12 : inode.block 12 ≠ 0
  · rw [if_pos h12] at hbody
    obtain ⟨-, hr, rfl⟩ := runs_pure.mp hbody
    cases hr
    exact .present h12
  rw [if_neg h12] at hbody
  rw [not_not] at h12
  obtain ⟨first, rest, newIndirect, w, rfl, halloc, hrest⟩ := runs_bind.mp hbody
  rcases runs_allocBlock hv halloc with ⟨rfl, rfl, hfull⟩ | ⟨hne, htook⟩
  · obtain ⟨rfl, hr, rfl⟩ := runs_pure.mp hrest
    cases hr
    exact .full h12 fun hok => hfull (allOk_append.mp hok).1
  · rw [if_neg hne] at hrest
    rcases runs_withBuffer.mp hrest with ⟨rfl, hr, rfl⟩ | ⟨tail, rfl, hwrite⟩
    · cases hr
      exact .leaked h12 htook (by simp)
    rcases runs_writeBlock_bind.mp hwrite with ⟨last, rfl, hlast⟩ | ⟨last, rfl, hlast⟩
    · obtain ⟨-, hr, rfl⟩ := runs_pure.mp hlast
      cases hr
      refine .stale h12 htook ?_
      rw [← htook.frame.writeEvent]
      simp
    · obtain ⟨-, hr, rfl⟩ := runs_pure.mp hlast
      cases hr
      exact .zeroed h12 htook

theorem entered_of_runs (hv : v.Ok) (h : (indirectOrAlloc inode index).Runs v trace (r, inode') u) :
    Entered v inode index trace r inode' u := by
  rcases runs_withBuffer.mp (runs_getState_bind.mp h) with ⟨rfl, hr, rfl⟩ | ⟨tail, rfl, hbody⟩
  · cases hr
    exact .failed (by simp)
  rcases runs_readBlock_bind.mp hbody with ⟨rest, rfl, hrest⟩ | ⟨rest, rfl, hrest⟩
  · obtain ⟨-, hr, rfl⟩ := runs_pure.mp hrest
    cases hr
    exact .failed (by simp)
  dsimp only at hrest
  by_cases hentry : readLE 4 (v.block (inode.block 12)) (4 * index) ≠ 0
  · rw [if_pos hentry] at hrest
    obtain ⟨-, hr, rfl⟩ := runs_pure.mp hrest
    cases hr
    exact .present hentry
  rw [if_neg hentry] at hrest
  rw [not_not] at hentry
  obtain ⟨first, last, result, w, rfl, halloc, hlast⟩ := runs_bind.mp hrest
  rcases runs_allocBlock hv halloc with ⟨rfl, rfl, hfull⟩ | ⟨hne, htook⟩
  · obtain ⟨rfl, hr, rfl⟩ := runs_pure.mp hlast
    cases hr
    refine .full hentry fun hok => hfull ?_
    simp only [allOk_cons, allOk_append] at hok
    exact hok.2.2.1
  · rw [if_neg hne] at hlast
    rcases runs_writeBlock_bind.mp hlast with ⟨end', rfl, hend⟩ | ⟨end', rfl, hend⟩
    · obtain ⟨-, hr, rfl⟩ := runs_pure.mp hend
      cases hr
      refine .lost htook ?_
      rw [← htook.frame.writeEvent]
      simp
    · obtain ⟨-, hr, rfl⟩ := runs_pure.mp hend
      cases hr
      exact .stored hentry htook

section Ensured

variable {ok : Bool} {r : Nat}

section

variable (h : Ensured v inode trace ok inode' u) (hv : v.Ok)
include h hv

theorem Ensured.volume_ok : u.Ok := by
  cases h with
  | present => exact hv
  | full => exact hv
  | leaked h12 htook => exact htook.ok hv
  | zeroed h12 htook => exact (htook.ok hv).setBlock (htook.frame.geo ▸ htook.not_isMetadata hv)
  | stale h12 htook => exact htook.ok hv

theorem Ensured.filled (ho : v.Owns inode) (htab : TableWritten v inode' trace) :
    Filled v inode u inode' := by
  cases h with
  | present => exact .refl hv ho
  | full => exact .refl hv ho
  | leaked h12 htook => exact ⟨.leak hv ho htook, htook.counted⟩
  | zeroed h12 htook => exact filled_table _ hv ho htook h12
  | stale h12 htook hlost =>
    rw [TableWritten, block_setBlock_table _ hv htook] at htab
    exact absurd hlost (htab (htook.ne_zero hv))

/-- A new indirect block maps nothing, so the data blocks stay where they are. -/
theorem Ensured.mapAt (htab : TableWritten v inode' trace) (i : Nat) :
    u.mapAt inode' i = v.mapAt inode i := by
  cases h with
  | present => rfl
  | full => rfl
  | leaked h12 htook =>
    refine mapAt_congr htook.frame.blockSize (fun _ => rfl) rfl fun hne => ?_
    exact absurd h12 hne
  | zeroed h12 htook => exact mapAt_zeroed _ hv htook h12 i
  | stale h12 htook hlost =>
    rw [TableWritten, block_setBlock_table _ hv htook] at htab
    exact absurd hlost (htab (htook.ne_zero hv))

end

theorem Ensured.table_ne_zero (h : Ensured v inode trace true inode' u) (hv : v.Ok) :
    inode'.block 12 ≠ 0 := by
  cases h with
  | present h12 => exact h12
  | zeroed h12 htook =>
    rw [block_setBlock_table _ hv htook]
    exact htook.ne_zero hv
  | stale h12 htook hlost =>
    rw [block_setBlock_table _ hv htook]
    exact htook.ne_zero hv

/-- Once there is an indirect block, only the block itself is still to be paid. -/
theorem Ensured.spent (h : Ensured v inode trace true inode' u) (hv : v.Ok) (hok : AllOk trace)
    (hindex : 12 ≤ index) :
    u.freeBlocks.card + v.cost inode index = v.freeBlocks.card + u.cost inode' index := by
  cases h with
  | present => rfl
  | zeroed h12 htook =>
    rw [(htook.ok hv).freeBlocks_setBlock (htook.frame.geo ▸ htook.not_isMetadata hv),
      ← htook.card_freeBlocks]
    unfold cost
    rw [mapAt_zeroed _ hv htook h12, block_setBlock_table _ hv htook, if_pos (And.intro hindex h12),
      if_neg (mt And.right (htook.ne_zero hv))]
    omega
  | stale h12 htook hlost => cases hok _ hlost

theorem Ensured.short (h : Ensured v inode trace false inode' u) (hv : v.Ok) (hok : AllOk trace)
    (hcount : v.Counted) (hindex : 12 ≤ index) : v.freeBlocks.card < v.cost inode index := by
  cases h with
  | full h12 hfull =>
    rw [freeBlocks_of_full hv hcount (hfull hok), Finset.card_empty]
    unfold cost
    rw [if_pos (show 12 ≤ index ∧ inode.block 12 = 0 from ⟨hindex, h12⟩)]
    omega
  | leaked h12 htook hfailed => exact absurd hok hfailed

/-- The entry of the indirect block that the map uses. -/
theorem Volume.mapAt_entry (hindex : 12 ≤ index) (hin : v.InRange index)
    (h12 : inode.block 12 ≠ 0) :
    v.mapAt inode index = readLE 4 (v.block (inode.block 12)) (4 * (index - 12)) := by
  have hlt : index < 12 + v.state.ptrsPerBlock := hin
  rw [mapAt, if_neg (by omega), if_neg]
  rintro (h | h)
  · omega
  · exact h12 h

theorem Entered.block_table (h : Entered v inode index trace r inode' u) :
    inode'.block 12 = inode.block 12 := by
  cases h <;> simp

/-- What a block costs if there is an indirect block. -/
theorem Volume.cost_of_table (h12 : inode.block 12 ≠ 0) :
    v.cost inode index = if v.mapAt inode index = 0 then 1 else 0 := by
  unfold cost
  rw [if_neg (mt And.right h12), Nat.add_zero]

variable (h : Entered v inode (index - 12) trace r inode' u) (hv : v.Ok) (ho : v.Owns inode)
  (hindex : 12 ≤ index) (hin : v.InRange index) (h12 : inode.block 12 ≠ 0)
include h hv ho hindex hin h12

theorem Entered.filled (htab : TableWritten v inode' trace) :
    Filled v inode u inode' ∧ (r ≠ 0 → r = u.mapAt inode' index) ∧
      ∀ i, i ≠ index → u.mapAt inode' i = v.mapAt inode i := by
  have hmap := mapAt_entry hindex hin h12
  cases h with
  | failed => exact ⟨.refl hv ho, fun h => absurd rfl h, fun _ _ => rfl⟩
  | present => exact ⟨.refl hv ho, fun _ => hmap.symm, fun _ _ => rfl⟩
  | full => exact ⟨.refl hv ho, fun h => absurd rfl h, fun _ _ => rfl⟩
  | stored hentry htook =>
    obtain ⟨hfilled, hb⟩ := filled_entry v.state.blockSize hv ho htook hindex hin h12
      (hmap.trans hentry)
    exact ⟨hfilled, fun _ => by rw [hb, if_pos rfl], fun i hi => by rw [hb, if_neg hi]⟩
  | lost htook hlost =>
    rw [TableWritten, block_addSectors] at htab
    exact absurd hlost (htab h12)

theorem Entered.spent (hok : AllOk trace) (hr : r ≠ 0) :
    u.freeBlocks.card + v.cost inode index = v.freeBlocks.card := by
  have hmap := mapAt_entry hindex hin h12
  rw [cost_of_table h12, hmap]
  cases h with
  | failed => exact absurd rfl hr
  | present hentry => rw [if_neg hentry, Nat.add_zero]
  | full => exact absurd rfl hr
  | stored hentry htook =>
    have hmeta := htook.frame.geo ▸ (ho.usable .table h12).not_isMetadata
    rw [if_pos hentry, ← htook.card_freeBlocks]
    congr 2
    exact (htook.ok hv).freeBlocks_setBlock hmeta
  | lost htook hlost => cases hok _ hlost

omit ho in
theorem Entered.short (hok : AllOk trace) (hcount : v.Counted) (hr : r = 0) :
    v.freeBlocks.card < v.cost inode index := by
  have hmap := mapAt_entry hindex hin h12
  rw [cost_of_table h12, hmap]
  cases h with
  | failed hfailed => exact absurd hok hfailed
  | present hentry => exact absurd hr hentry
  | full hentry hfull =>
    rw [freeBlocks_of_full hv hcount (hfull hok), Finset.card_empty, if_pos hentry]
    exact Nat.one_pos
  | stored hentry htook => exact absurd hr (htook.ne_zero hv)
  | lost htook hlost => cases hok _ hlost

end Ensured

/-- What asking for a block of a file does, if no write to the indirect block fails; what
it costs, if nothing fails. -/
structure Asked (v : Volume) (inode : Inode) (index : Nat) (trace : List Event) (r : Nat)
    (inode' : Inode) (u : Volume) : Prop where
  filled : Filled v inode u inode'
  result : r ≠ 0 → r = u.mapAt inode' index
  others : ∀ i, i ≠ index → u.mapAt inode' i = v.mapAt inode i
  spent : AllOk trace → r ≠ 0 → u.freeBlocks.card + v.cost inode index = v.freeBlocks.card
  short : AllOk trace → v.Counted → v.InRange index → r = 0 →
    v.freeBlocks.card < v.cost inode index

theorem asked_direct (hv : v.Ok) (ho : v.Owns inode) (hdirect : index < 12)
    (h : Prog.Runs (if inode.block index ≠ 0 then pure (inode.block index, inode)
      else do
        let newBlock ← allocBlock
        if newBlock = 0 then pure (0, inode)
        else pure (newBlock, addSectors (inode.setBlock index newBlock) v.state.blockSize))
      v trace (r, inode') u) : Asked v inode index trace r inode' u := by
  have hmap : v.mapAt inode index = inode.block index := if_pos hdirect
  have hcost : v.cost inode index = if inode.block index = 0 then 1 else 0 := by
    unfold cost
    rw [hmap, if_neg (show ¬ (12 ≤ index ∧ inode.block 12 = 0) by omega), Nat.add_zero]
  by_cases hblock : inode.block index ≠ 0
  · rw [if_pos hblock] at h
    obtain ⟨-, hr, rfl⟩ := runs_pure.mp h
    cases hr
    refine ⟨.refl hv ho, fun _ => hmap.symm, fun _ _ => rfl, fun _ _ => ?_,
      fun _ _ _ hr => absurd hr hblock⟩
    rw [hcost, if_neg hblock, Nat.add_zero]
  rw [if_neg hblock] at h
  rw [not_not] at hblock
  rw [if_pos hblock] at hcost
  obtain ⟨first, rest, newBlock, w, rfl, halloc, hrest⟩ := runs_bind.mp h
  rcases runs_allocBlock hv halloc with ⟨rfl, rfl, hfull⟩ | ⟨hne, htook⟩
  · obtain ⟨rfl, hr, rfl⟩ := runs_pure.mp hrest
    cases hr
    refine ⟨.refl hv ho, fun h => absurd rfl h, fun _ _ => rfl, fun _ h => absurd rfl h,
      fun hok hcount _ _ => ?_⟩
    rw [freeBlocks_of_full hv hcount (hfull (allOk_append.mp hok).1), Finset.card_empty, hcost]
    exact Nat.one_pos
  · rw [if_neg hne] at hrest
    obtain ⟨rfl, hr, rfl⟩ := runs_pure.mp hrest
    cases hr
    obtain ⟨hfilled, hb⟩ := filled_direct v.state.blockSize hv ho htook hdirect hblock
    refine ⟨hfilled, fun _ => by rw [hb, if_pos rfl], fun i hi => by rw [hb, if_neg hi],
      fun _ _ => ?_, fun _ _ _ hr => absurd hr hne⟩
    rw [hcost, htook.card_freeBlocks]

theorem asked_of_runs (hv : v.Ok) (ho : v.Owns inode)
    (h : (inodeBlockAtOrAlloc inode index).Runs v trace (r, inode') u)
    (htab : TableWritten v inode' trace) : Asked v inode index trace r inode' u := by
  have hbody := runs_getState_bind.mp h
  by_cases hdirect : index < 12
  · rw [if_pos hdirect] at hbody
    exact asked_direct hv ho hdirect hbody
  rw [if_neg hdirect] at hbody
  by_cases hrange : v.state.ptrsPerBlock ≤ index - 12
  · rw [if_pos hrange] at hbody
    obtain ⟨-, hr, rfl⟩ := runs_pure.mp hbody
    cases hr
    refine ⟨.refl hv ho, fun h => absurd rfl h, fun _ _ => rfl, fun _ h => absurd rfl h,
      fun _ _ hin _ => ?_⟩
    have hlt : index < 12 + u.state.ptrsPerBlock := hin
    omega
  rw [if_neg hrange] at hbody
  have hindex : 12 ≤ index := by omega
  obtain ⟨first, rest, ⟨ok, inode₁⟩, w, rfl, hensure, hrest⟩ := runs_bind.mp hbody
  have hens := ensured_of_runs hv hensure
  cases ok with
  | false =>
    obtain ⟨rfl, hr, rfl⟩ := runs_pure.mp hrest
    cases hr
    rw [List.append_nil] at htab ⊢
    exact ⟨hens.filled hv ho htab, fun h => absurd rfl h, fun i _ => hens.mapAt hv htab i,
      fun _ h => absurd rfl h,
      fun hok hcount _ _ => hens.short hv hok hcount hindex⟩
  | true =>
    have h12 := hens.table_ne_zero hv
    have hw := hens.volume_ok hv
    have hent := entered_of_runs hw hrest
    have htab₁ : TableWritten v inode₁ first :=
      htab.mono (List.subset_append_left ..) (fun _ => hent.block_table) fun _ => rfl
    have hfirst : Filled v inode w inode₁ := hens.filled hv ho htab₁
    have hinw : InRange w index := by
      change index < 12 + w.state.blockSize / 4
      rw [hfirst.splice.frame.blockSize]
      have : ¬ v.state.blockSize / 4 ≤ index - 12 := hrange
      omega
    obtain ⟨hsecond, hresult, hothers⟩ := hent.filled hw hfirst.splice.owns hindex hinw h12
      (htab.mono (List.subset_append_right ..) (fun _ => rfl) fun b =>
        hfirst.splice.frame.writeEvent b false)
    refine ⟨hfirst.trans hsecond, hresult,
      fun i hi => (hothers i hi).trans (hens.mapAt hv htab₁ i), fun hok hr => ?_,
      fun hok hcount _ hr => ?_⟩
    · have hspent := hens.spent hv (allOk_append.mp hok).1 hindex
      have hspent' := hent.spent hw hfirst.splice.owns hindex hinw h12 (allOk_append.mp hok).2 hr
      omega
    · have hspent := hens.spent hv (allOk_append.mp hok).1 hindex
      have hshort := hent.short hw hindex hinw h12 (allOk_append.mp hok).2
        (hfirst.counted hcount) hr
      omega

end WengShiOS.Fs.Ext2
