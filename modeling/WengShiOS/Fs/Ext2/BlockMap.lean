import WengShiOS.Fs.Ext2.Allocation

/-! # The blocks of a file

The map from the blocks of a file to the blocks of the volume, as far as the driver
follows it: twelve direct pointers and one indirect block. `inodeBlockAt` computes it.
`inodeBlockAtOrAlloc` computes it too where it is defined, and allocates where it is not. -/

namespace WengShiOS.Fs.Ext2

open Math Math.Prog Volume

variable {v u v' : Volume} {trace : List Event} {inode inode' : Inode} {index r : Nat}

/-- The block of the volume for block `index` of a file; 0 if there is none. -/
def Volume.mapAt (v : Volume) (inode : Inode) (index : Nat) : Nat :=
  if index < 12 then inode.block index
  else if v.state.ptrsPerBlock ≤ index - 12 ∨ inode.block 12 = 0 then 0
  else readLE 4 (v.block (inode.block 12)) (4 * (index - 12))

/-- The driver can map the block: it is direct or has an entry in the indirect block. -/
def Volume.InRange (v : Volume) (index : Nat) : Prop := index < 12 + v.state.ptrsPerBlock

instance : Decidable (v.InRange index) := inferInstanceAs (Decidable (_ < _))

theorem Volume.mapAt_of_not_inRange (h : ¬ v.InRange index) : v.mapAt inode index = 0 := by
  have h' : ¬ index < 12 + v.state.ptrsPerBlock := h
  rw [mapAt, if_neg (by omega), if_pos (.inl (by omega))]

/-- The block is the one of the map; 0 may also mean that an access failed. -/
theorem runs_inodeBlockAt (h : (inodeBlockAt inode index).Runs v trace r u) :
    u = v ∧ (r = v.mapAt inode index ∨ r = 0 ∧ ¬ AllOk trace) := by
  refine ⟨(inodeBlockAt_inherits readOnly_inherited inode index h).1, ?_⟩
  have hbody := runs_getState_bind.mp h
  unfold mapAt
  split_ifs at hbody ⊢ with hdirect hnone
  · exact .inl (runs_pure.mp hbody).2.1
  · exact .inl (runs_pure.mp hbody).2.1
  · rcases runs_withBuffer.mp hbody with ⟨rfl, hr, -⟩ | ⟨rest, rfl, hread⟩
    · exact .inr ⟨hr, by simp⟩
    rcases runs_readBlock_bind.mp hread with ⟨last, rfl, hlast⟩ | ⟨last, rfl, hlast⟩
    · exact .inr ⟨(runs_pure.mp hlast).2.1, by simp⟩
    · exact .inl (runs_pure.mp hlast).2.1

/-! ### Allocation on demand -/

/-- No counter of free blocks is higher than before. -/
def NoMore (v u : Volume) : Prop :=
  ∀ group, u.state.groupFreeBlocks group ≤ v.state.groupFreeBlocks group

theorem Fewer.trans_noMore {w : Volume}
    (h : Fewer v.state.groupFreeBlocks u.state.groupFreeBlocks) (h' : NoMore u w) :
    Fewer v.state.groupFreeBlocks w.state.groupFreeBlocks where
  le group := (h' group).trans (h.le group)
  lt := by
    obtain ⟨group, hlt⟩ := h.lt
    exact ⟨group, (h' group).trans_lt hlt⟩

/-- How a function that maps a block ends: it changed nothing, and its result is the
block if no access failed; or the file has no block there and one was allocated. -/
def Mapped (v : Volume) (inode : Inode) (index : Nat) (trace : List Event) (r : Nat)
    (inode' : Inode) (u : Volume) : Prop :=
  (u = v ∧ inode' = inode ∧ (AllOk trace → r = v.mapAt inode index ∧
      (v.mapAt inode index = 0 → v.InRange index → blockAllocator.Full v))) ∨
    (Fewer v.state.groupFreeBlocks u.state.groupFreeBlocks ∧ v.InRange index ∧
      v.mapAt inode index = 0 ∧ ¬ blockAllocator.Full v)

/-- A block is allocated and used, or there is none. -/
theorem runs_allocBlock_bind {α : Type} {fail result : α} {body : Nat → Ext2M α}
    (hbody : ∀ b, Keeps FsInstance.groupFreeBlocks (body b))
    (h : (allocBlock >>= fun b => if b = 0 then pure fail else body b).Runs v trace result u) :
    (u = v ∧ result = fail ∧ (AllOk trace → blockAllocator.Full v)) ∨
      (Fewer v.state.groupFreeBlocks u.state.groupFreeBlocks ∧ ¬ blockAllocator.Full v) := by
  obtain ⟨first, rest, b, w, rfl, halloc, hrest⟩ := runs_bind.mp h
  rcases runs_alloc_cases blockAllocator_counts halloc with ⟨rfl, rfl, hfull⟩ | ⟨hfewer, hroom⟩
  · obtain ⟨rfl, rfl, rfl⟩ := runs_pure.mp hrest
    exact .inl ⟨rfl, rfl, fun hok => hfull (allOk_append.mp hok).1⟩
  · have hkeeps : Keeps FsInstance.groupFreeBlocks (if b = 0 then pure fail else body b) :=
      .ite (.pure _) (hbody b)
    exact .inr ⟨hfewer.trans_eq (hkeeps hrest), hroom⟩

theorem runs_ensureIndirect {ok : Bool}
    (h : (ensureIndirect inode).Runs v trace (ok, inode') u) :
    (u = v ∧ inode' = inode ∧ (ok = true → inode.block 12 ≠ 0) ∧
        (ok = false → inode.block 12 = 0 ∧ (AllOk trace → blockAllocator.Full v))) ∨
      (Fewer v.state.groupFreeBlocks u.state.groupFreeBlocks ∧ inode.block 12 = 0 ∧
        ¬ blockAllocator.Full v) := by
  have hbody := runs_getState_bind.mp h
  by_cases h12 : inode.block 12 ≠ 0
  · rw [if_pos h12] at hbody
    obtain ⟨-, hr, rfl⟩ := runs_pure.mp hbody
    cases hr
    exact .inl ⟨rfl, rfl, fun _ => h12, nofun⟩
  rw [if_neg h12] at hbody
  rw [not_not] at h12
  -- the zeros are written to the disk, not to memory
  rcases runs_allocBlock_bind (fun _ => keeps_inherited.withBuffer
      (.bind (writeBlock_inherits keeps_inherited ..) fun _ => .pure _)) hbody with
    ⟨rfl, hr, hfull⟩ | ⟨hfewer, hroom⟩
  · cases hr
    exact .inl ⟨rfl, rfl, nofun, fun _ => ⟨h12, hfull⟩⟩
  · exact .inr ⟨hfewer, h12, hroom⟩

theorem runs_indirectOrAlloc (h : (indirectOrAlloc inode index).Runs v trace (r, inode') u) :
    (u = v ∧ inode' = inode ∧
        (AllOk trace → r = readLE 4 (v.block (inode.block 12)) (4 * index) ∧
          (r = 0 → blockAllocator.Full v))) ∨
      (Fewer v.state.groupFreeBlocks u.state.groupFreeBlocks ∧
        readLE 4 (v.block (inode.block 12)) (4 * index) = 0 ∧ ¬ blockAllocator.Full v) := by
  rcases runs_withBuffer.mp (runs_getState_bind.mp h) with ⟨rfl, hr, rfl⟩ | ⟨tail, rfl, hbody⟩
  · cases hr
    exact .inl ⟨rfl, rfl, by simp⟩
  rcases runs_readBlock_bind.mp hbody with ⟨rest, rfl, hrest⟩ | ⟨rest, rfl, hrest⟩
  · obtain ⟨rfl, hr, rfl⟩ := runs_pure.mp hrest
    cases hr
    exact .inl ⟨rfl, rfl, by simp⟩
  dsimp only at hrest
  by_cases hentry : readLE 4 (v.block (inode.block 12)) (4 * index) ≠ 0
  · rw [if_pos hentry] at hrest
    obtain ⟨rfl, hr, rfl⟩ := runs_pure.mp hrest
    cases hr
    exact .inl ⟨rfl, rfl, fun _ => ⟨rfl, fun hzero => absurd hzero hentry⟩⟩
  rw [if_neg hentry] at hrest
  rw [not_not] at hentry
  rcases runs_allocBlock_bind (fun _ =>
      .bind (writeBlock_inherits keeps_inherited ..) fun _ => .pure _) hrest with
    ⟨rfl, hr, hfull⟩ | ⟨hfewer, hroom⟩
  · cases hr
    exact .inl ⟨rfl, rfl, fun hok => ⟨hentry.symm, fun _ => hfull (by simpa using hok)⟩⟩
  · exact .inr ⟨hfewer, hentry, hroom⟩

theorem indirectOrAlloc_noMore (h : (indirectOrAlloc inode index).Runs v trace (r, inode') u) :
    NoMore v u := by
  rcases runs_indirectOrAlloc h with ⟨rfl, -⟩ | ⟨hfewer, -⟩
  · exact fun _ => le_rfl
  · exact hfewer.le

theorem runs_inodeBlockAtOrAlloc
    (h : (inodeBlockAtOrAlloc inode index).Runs v trace (r, inode') u) :
    Mapped v inode index trace r inode' u := by
  have hbody := runs_getState_bind.mp h
  by_cases hdirect : index < 12
  · rw [if_pos hdirect] at hbody
    have hmap : v.mapAt inode index = inode.block index := if_pos hdirect
    have hrange : v.InRange index := by
      change index < 12 + _
      omega
    by_cases hblock : inode.block index ≠ 0
    · rw [if_pos hblock] at hbody
      obtain ⟨-, hr, rfl⟩ := runs_pure.mp hbody
      cases hr
      exact .inl ⟨rfl, rfl, fun _ => ⟨hmap.symm, fun hzero => absurd (hmap ▸ hzero) hblock⟩⟩
    rw [if_neg hblock] at hbody
    rw [not_not] at hblock
    rcases runs_allocBlock_bind (fun _ => .pure _) hbody with ⟨rfl, hr, hfull⟩ | ⟨hfewer, hroom⟩
    · cases hr
      exact .inl ⟨rfl, rfl, fun hok => ⟨(hmap.trans hblock).symm, fun _ _ => hfull hok⟩⟩
    · exact .inr ⟨hfewer, hrange, hmap.trans hblock, hroom⟩
  rw [if_neg hdirect] at hbody
  by_cases hrange : v.state.ptrsPerBlock ≤ index - 12
  · rw [if_pos hrange] at hbody
    obtain ⟨-, hr, rfl⟩ := runs_pure.mp hbody
    cases hr
    have hout : ¬ u.InRange index := by
      change ¬ index < 12 + _
      omega
    exact .inl ⟨rfl, rfl, fun _ => ⟨(mapAt_of_not_inRange hout).symm,
      fun _ hin => absurd hin hout⟩⟩
  rw [if_neg hrange] at hbody
  have hin : v.InRange index := by
    change index < 12 + _
    omega
  obtain ⟨first, rest, ⟨ok, inode₁⟩, w, rfl, hensure, hrest⟩ := runs_bind.mp hbody
  rcases runs_ensureIndirect hensure with ⟨rfl, rfl, htrue, hfalse⟩ | ⟨hfewer, h12, hroom⟩
  · cases ok with
    | false =>
      obtain ⟨h12, hfull⟩ := hfalse rfl
      have hmap : mapAt w inode₁ index = 0 := by
        rw [mapAt, if_neg hdirect, if_pos (.inr h12)]
      obtain ⟨rfl, hr, rfl⟩ := runs_pure.mp hrest
      cases hr
      exact .inl ⟨rfl, rfl, fun hok => ⟨hmap.symm, fun _ _ => hfull (allOk_append.mp hok).1⟩⟩
    | true =>
      have h12 := htrue rfl
      have hmap : mapAt w inode₁ index =
          readLE 4 (block w (inode₁.block 12)) (4 * (index - 12)) := by
        rw [mapAt, if_neg hdirect, if_neg (by rintro (h | h); exacts [hrange h, h12 h])]
      rcases runs_indirectOrAlloc hrest with ⟨rfl, rfl, hres⟩ | ⟨hfewer, hzero, hroom⟩
      · refine .inl ⟨rfl, rfl, fun hok => ?_⟩
        obtain ⟨hr, hfull⟩ := hres (allOk_append.mp hok).2
        exact ⟨hr.trans hmap.symm, fun hzero _ => hfull (hr.trans (hmap.symm.trans hzero))⟩
      · exact .inr ⟨hfewer, hin, hmap.trans hzero, hroom⟩
  · have hmap : v.mapAt inode index = 0 := by
      rw [mapAt, if_neg hdirect, if_pos (.inr h12)]
    refine .inr ⟨?_, hin, hmap, hroom⟩
    cases ok with
    | false =>
      obtain ⟨-, -, rfl⟩ := runs_pure.mp hrest
      exact hfewer
    | true => exact hfewer.trans_noMore (indirectOrAlloc_noMore hrest)

end WengShiOS.Fs.Ext2
