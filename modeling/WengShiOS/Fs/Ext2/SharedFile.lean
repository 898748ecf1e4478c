import WengShiOS.Fs.Ext2.ChunkedRead
import WengShiOS.Fs.Ext2.Unleaked

/-! # Two descriptors of one file

`open` copies the inode into the handle, and `write` stores the copy of its own handle back.
The copies of two descriptors of one file are not kept equal, so a write through the one can
undo what the other has written to the inode. As long as every write goes through a
descriptor whose copy is the inode on the disk, no update is lost. -/

namespace WengShiOS.Fs.Ext2

open Math Math.Prog World Vfs Function

/-! ### What was written -/

/-- A write that was made: where it began, and its bytes. -/
structure Piece where
  offset : Nat
  data : List UInt8

/-- The end of a file of `size` bytes after the writes. -/
def endOf (size : Nat) (pieces : List Piece) : Nat :=
  pieces.foldl (fun size piece => max size (piece.offset + piece.data.length)) size

/-- The byte that the last write to a position stored there. -/
def lastByte (pieces : List Piece) (pos : Nat) : Option UInt8 :=
  pieces.foldl (fun old piece =>
    slicePatch piece.offset piece.data 0 piece.data.length pos <|> old) none

theorem endOf_append (size : Nat) (pieces : List Piece) (piece : Piece) :
    endOf size (pieces ++ [piece]) =
      max (endOf size pieces) (piece.offset + piece.data.length) := by
  simp [endOf]

theorem lastByte_append (pieces : List Piece) (piece : Piece) (pos : Nat) :
    lastByte (pieces ++ [piece]) pos =
      (slicePatch piece.offset piece.data 0 piece.data.length pos <|> lastByte pieces pos) := by
  simp [lastByte]

/-! ### Calls -/

/-- A call that fails nowhere. -/
theorem World.call_of_pattern {α : Type} {w : World} (hpattern : w.pattern = fun _ => true)
    (fs : Nat) (f : Ext2M α) :
    (w.call fs f).1 = (f.exec (w.volume fs)).1 ∧
      (w.call fs f).2.volume fs = (f.exec (w.volume fs)).2 ∧
      (w.call fs f).2.pattern = fun _ => true := by
  have hrun : w.runOn fs f = f.run (fun _ => true) (w.volume fs) := by
    unfold runOn
    rw [hpattern]
  refine ⟨?_, ?_, ?_⟩
  · rw [call_fst, hrun, exec_eq_run]
  · rw [volume_call, hrun, exec_eq_run]
  · unfold call after
    simp [hpattern]

/-- A call on a descriptor of the file. -/
inductive FileCall
  | seek (k : Fin maxOpenFiles) (offset : Int) (mode : SeekMode)
  | write (k : Fin maxOpenFiles) (data : List UInt8)

section Calls

variable {D : Type*} (drivers : D → FilesystemDriver World Nat PrivateData)

namespace FileCall

def through : FileCall → Fin maxOpenFiles
  | .seek k _ _ => k
  | .write k _ => k

def next (s : Vfs D Nat PrivateData World) : FileCall → Vfs D Nat PrivateData World
  | .seek k offset mode => (s.seek k offset mode).2
  | .write k data => (s.write drivers k data).2

/-- What the call writes. -/
def pieces (s : Vfs D Nat PrivateData World) : FileCall → List Piece
  | .seek .. => []
  | .write k data => [⟨(s.openFiles k).offset, data⟩]

/-- There is space enough: the range is one that the driver can map, and there are free
blocks for what it does not have yet. -/
def HasSpace (s : Vfs D Nat PrivateData World) : FileCall → Prop
  | .seek .. => True
  | .write k data =>
    let v := volumeOf s k
    let offset := (s.openFiles k).offset
    offset + data.length ≤ (12 + v.state.blockSize / 4) * v.state.blockSize ∧
      v.needed (privateOf s k).inode (offset / v.state.blockSize)
        (v.endBlock (offset + data.length)) ≤ v.freeBlocks.card

/-- A write goes through a descriptor whose copy of the inode is the inode on the disk. -/
def Current (s : Vfs D Nat PrivateData World) : FileCall → Prop
  | .seek .. => True
  | .write k _ => (privateOf s k).inode = (volumeOf s k).inodeAt (privateOf s k).inodeNum

end FileCall

variable (K : Finset (Fin maxOpenFiles))

/-- Calls through the descriptors of `K`, with what was written so far. -/
def fileSystem (start : Vfs D Nat PrivateData World) :
    System (Vfs D Nat PrivateData World × List Piece) FileCall where
  init t := t = (start, [])
  step t call t' := call.through ∈ K ∧ call.HasSpace t.1 ∧
    t' = (call.next drivers t.1, t.2 ++ call.pieces t.1)

/-- The descriptors of `K` are open on file `i` of the instance `fs`, on which nothing
fails. -/
structure OpenOn (s : Vfs D Nat PrivateData World) (fs i : Nat) : Prop where
  file : ∀ k ∈ K, OnExt2 drivers s k k
  target : ∀ k ∈ K, (s.target k).2 = fs
  inodeNum : ∀ k ∈ K, (privateOf s k).inodeNum = i
  pattern : s.world.pattern = fun _ => true

/-- All descriptors of `K` are closed. -/
def closeAll (s : Vfs D Nat PrivateData World) : Vfs D Nat PrivateData World :=
  ((List.finRange maxOpenFiles).filter (· ∈ K)).foldl
    (fun s (k : Fin maxOpenFiles) => s.close drivers k) s

end Calls

/-- What a file that is opened again has to be, after the writes to file `i` led from `v` to
`u`: it ends where the last of them ended, every byte has the value that was written last,
and every block that was taken is one of the file. -/
structure NoLostUpdate (v : Volume) (i : Nat) (pieces : List Piece) (u : Volume)
    (handle : Handle) : Prop where
  size : handle.fsPrivate.inode.size = endOf (v.inodeAt i).size pieces
  bytes : ∀ pos byte, lastByte pieces pos = some byte →
    (read handle pos 1).exec u = ((1, [byte], handle), u)
  referred : Unleaked v u handle.fsPrivate.inode

section Steps

variable {D : Type*} {drivers : D → FilesystemDriver World Nat PrivateData}
  {K : Finset (Fin maxOpenFiles)} {s s' : Vfs D Nat PrivateData World} {fs i : Nat}
  {k j : Fin maxOpenFiles} {data : List UInt8}

theorem slotOf_eq (s : Vfs D Nat PrivateData World) (k : Fin maxOpenFiles) :
    s.slotOf k = if (s.openFiles k).inUse then some k else none := by
  unfold slotOf
  rw [dif_pos ⟨by omega, by exact_mod_cast k.isLt⟩]
  rfl

@[simp] theorem advance_inUse (f : OpenFile PrivateData) (m : Int) :
    (advance f m).inUse = f.inUse := by
  unfold advance
  split_ifs <;> rfl

/-- What a call may do to the table of open files: the slots stay in use and on their mounts,
and the files stay the same. -/
structure SameFiles (s s' : Vfs D Nat PrivateData World) : Prop where
  mounts : s'.mounts = s.mounts
  inUse : ∀ j, (s'.openFiles j).inUse = (s.openFiles j).inUse
  mount : ∀ j, (s'.openFiles j).mount = (s.openFiles j).mount
  inodeNum : ∀ j, (privateOf s' j).inodeNum = (privateOf s j).inodeNum

theorem SameFiles.refl : SameFiles s s := ⟨rfl, fun _ => rfl, fun _ => rfl, fun _ => rfl⟩

theorem SameFiles.target (h : SameFiles s s') (j : Fin maxOpenFiles) : s'.target j = s.target j := by
  unfold Vfs.target
  rw [h.mounts, h.mount]

theorem SameFiles.openOn (h : SameFiles s s') (hpattern : s'.world.pattern = fun _ => true)
    (hopen : OpenOn drivers K s fs i) : OpenOn drivers K s' fs i where
  file j hj := by
    obtain ⟨hslot, hdriver⟩ := hopen.file j hj
    refine ⟨?_, ?_⟩
    · rw [slotOf_eq, h.inUse, ← slotOf_eq]
      exact hslot
    · rw [h.target]
      exact hdriver
  target j hj := by
    rw [h.target]
    exact hopen.target j hj
  inodeNum j hj := (h.inodeNum j).trans (hopen.inodeNum j hj)
  pattern := hpattern

/-- A slot that gets another handle of the same file, or another offset. -/
theorem sameFiles_setFile (world : World) {f : OpenFile PrivateData}
    (huse : f.inUse = (s.openFiles k).inUse) (hmount : f.mount = (s.openFiles k).mount)
    (hnum : f.handle.fsPrivate.inodeNum = (privateOf s k).inodeNum) :
    SameFiles s { s.setFile k f with world } := by
  refine ⟨rfl, fun j => ?_, fun j => ?_, fun j => ?_⟩ <;> by_cases hj : j = k
  · simpa [hj, setFile] using huse
  · simp [setFile, update_of_ne hj]
  · simpa [hj, setFile] using hmount
  · simp [setFile, update_of_ne hj]
  · simpa [hj, privateOf, setFile] using hnum
  · simp [privateOf, setFile, update_of_ne hj]

/-- A seek moves an offset and does nothing else. -/
theorem seek_sameFiles (offset : Int) (mode : SeekMode) :
    SameFiles s (s.seek k offset mode).2 ∧ (s.seek k offset mode).2.world = s.world := by
  unfold seek
  rw [slotOf_eq]
  split_ifs with huse
  · dsimp only
    split_ifs with hneg
    · exact ⟨.refl, rfl⟩
    · exact ⟨sameFiles_setFile s.world rfl rfl rfl, rfl⟩
  · exact ⟨.refl, rfl⟩

/-- The inode number of a handle never changes. -/
theorem write_inodeNum (handle : Handle) (offset : Nat) (data : List UInt8) (v : Volume) :
    ((write handle offset data).exec v).1.2.fsPrivate.inodeNum = handle.fsPrivate.inodeNum := by
  obtain ⟨trace, hok, h⟩ := exists_runs_exec (write handle offset data) v
  rcases runs_write h with ⟨-, hhandle, -⟩ | ⟨n, inode', first, rest, w, ok, -, -, hhandle, -⟩
  · rw [hhandle]
  · rw [hhandle, grow_inode]

/-- A write through a descriptor on which nothing fails. -/
theorem OpenOn.write (h : OpenOn drivers K s fs i) (hk : k ∈ K) (data : List UInt8) :
    let r := (Ext2.write (s.openFiles k).handle (s.openFiles k).offset data).exec (s.world.volume fs)
    SameFiles s (s.write drivers k data).2 ∧
      privateOf (s.write drivers k data).2 k = r.1.2.fsPrivate ∧
      (s.write drivers k data).2.world.volume fs = r.2 ∧
      (s.write drivers k data).2.world.pattern = fun _ => true := by
  intro r
  obtain ⟨hslot, hdriver⟩ := h.file k hk
  have htarget := h.target k hk
  obtain ⟨hres, hvolume, hpattern⟩ := call_of_pattern h.pattern fs
    (Ext2.write (s.openFiles k).handle (s.openFiles k).offset data)
  have hwrite : (s.write drivers k data).2 =
      { s.setFile k (advance { s.openFiles k with handle := r.1.2 } r.1.1) with
        world := (s.world.call fs
          (Ext2.write (s.openFiles k).handle (s.openFiles k).offset data)).2 } := by
    rw [Vfs.write, hslot]
    simp only [hdriver, htarget, driver, hres]
    rfl
  rw [hwrite]
  refine ⟨sameFiles_setFile _ (advance_inUse ..) (advance_mount ..) ?_, ?_, hvolume, hpattern⟩
  · rw [advance_handle]
    exact write_inodeNum ..
  · simp [privateOf, setFile]

/-- What holds along the calls: the image stays well formed and every path leads where it
led, and the file is the one that the writes so far describe. -/
structure SharedInv (drivers : D → FilesystemDriver World Nat PrivateData)
    (K : Finset (Fin maxOpenFiles)) (fs i : Nat) (start : Vfs D Nat PrivateData World)
    (t : Vfs D Nat PrivateData World × List Piece) : Prop where
  openOn : OpenOn drivers K t.1 fs i
  mounts : t.1.mounts = start.mounts
  consistent : (t.1.world.volume fs).Consistent
  live : (t.1.world.volume fs).Live i
  isReg : ((t.1.world.volume fs).inodeAt i).isReg = true
  geo : (t.1.world.volume fs).geo = (start.world.volume fs).geo
  resolve : ∀ path, (t.1.world.volume fs).resolve path = (start.world.volume fs).resolve path
  size : ((t.1.world.volume fs).inodeAt i).size =
    endOf ((start.world.volume fs).inodeAt i).size t.2
  bytes : ∀ pos byte, lastByte t.2 pos = some byte →
    pos < ((t.1.world.volume fs).inodeAt i).size ∧
      (t.1.world.volume fs).mapAt ((t.1.world.volume fs).inodeAt i)
        (pos / (t.1.world.volume fs).state.blockSize) ≠ 0 ∧
      (t.1.world.volume fs).contentAt ((t.1.world.volume fs).inodeAt i) pos = byte
  referred : Unleaked (start.world.volume fs) (t.1.world.volume fs)
    ((t.1.world.volume fs).inodeAt i)

variable {start : Vfs D Nat PrivateData World} {t : Vfs D Nat PrivateData World × List Piece}

/-- A call that leaves the volume alone keeps the invariant. -/
theorem SharedInv.of_sameFiles (h : SharedInv drivers K fs i start t) (hsame : SameFiles t.1 s)
    (hworld : s.world = t.1.world) : SharedInv drivers K fs i start (s, t.2) where
  openOn := hsame.openOn (by rw [hworld]; exact h.openOn.pattern) h.openOn
  mounts := hsame.mounts.trans h.mounts
  consistent := hworld ▸ h.consistent
  live := hworld ▸ h.live
  isReg := hworld ▸ h.isReg
  geo := hworld ▸ h.geo
  resolve := hworld ▸ h.resolve
  size := hworld ▸ h.size
  bytes := hworld ▸ h.bytes
  referred := hworld ▸ h.referred

/-- **The step.** A write through a descriptor whose copy is the inode on the disk. -/
theorem SharedInv.write (h : SharedInv drivers K fs i start t) (hk : k ∈ K)
    (hspace : (FileCall.write k data).HasSpace t.1)
    (hcurrent : (FileCall.write k data).Current t.1) :
    SharedInv drivers K fs i start ((t.1.write drivers k data).2,
      t.2 ++ [⟨(t.1.openFiles k).offset, data⟩]) := by
  have hvolume : volumeOf t.1 k = t.1.world.volume fs := by
    unfold volumeOf
    rw [h.openOn.target k hk]
  have hinode : (privateOf t.1 k).inode = (t.1.world.volume fs).inodeAt i := by
    rw [← hvolume, ← h.openOn.inodeNum k hk]
    exact hcurrent
  have hprivate : (t.1.openFiles k).handle.fsPrivate = ⟨i, (t.1.world.volume fs).inodeAt i⟩ := by
    rw [← hinode, ← h.openOn.inodeNum k hk]
    rfl
  obtain ⟨hmax, hneeded⟩ := hspace
  rw [hvolume] at hmax hneeded
  rw [hinode] at hneeded
  obtain ⟨hsame, -, hworld, hpattern⟩ := h.openOn.write hk data
  obtain ⟨w, inode', u, handle', hexec, hsaved, -, hsize⟩ :=
    exec_write_complete h.consistent h.live hprivate hmax hneeded
  have hreach : (t.1.world.volume fs).Reaches (t.1.openFiles k).offset := by
    have hlt := h.consistent.ok.mapped_lt.2
    unfold Volume.Reaches
    omega
  have hunleaked := exec_write_unleaked h.consistent h.live hprivate hreach data
  rw [hexec] at hworld hunleaked
  have hfile := Inode.not_isDir_of_isReg h.isReg
  have hgeo := hsaved.volume_geo
  have hbs : u.state.blockSize = (t.1.world.volume fs).state.blockSize :=
    congrArg Geometry.blockSize hgeo
  refine ⟨hsame.openOn hpattern h.openOn, hsame.mounts.trans h.mounts, ?_, ?_, ?_, ?_, ?_, ?_, ?_, ?_⟩ <;>
    dsimp only <;> rw [hworld]
  · exact hsaved.consistent h.consistent h.live hfile
  · exact (hsaved.live_iff h.consistent h.live).mpr h.live
  · have hmode := hsaved.mode_self h.consistent h.live
    unfold Inode.isReg
    rw [hmode]
    exact h.isReg
  · exact hgeo.trans h.geo
  · intro path
    exact ((hsaved.sameDirectories h.consistent h.live hfile).resolve h.consistent path).trans
      (h.resolve path)
  · rw [hsize, h.size, endOf_append]
  · intro pos byte hbyte
    rw [lastByte_append] at hbyte
    rw [hbs, hsaved.mapAt_self h.consistent h.live, hsize]
    cases hpatch : slicePatch (t.1.openFiles k).offset data 0 data.length pos with
    | some new =>
      -- the byte is one of this write
      rw [hpatch] at hbyte
      obtain rfl : new = byte := Option.some.inj hbyte
      have hin : (t.1.openFiles k).offset ≤ pos ∧ pos < (t.1.openFiles k).offset + data.length := by
        by_contra hout
        rw [slicePatch_zero, if_neg hout] at hpatch
        cases hpatch
      refine ⟨by omega, hsaved.splice.covered pos (by simp [hpatch]), ?_⟩
      rw [hsaved.contentAt_self h.consistent h.live (.inl (by simp [hpatch])), hpatch]
      rfl
    | none =>
      rw [hpatch] at hbyte
      obtain ⟨hlt, hmap, hcontent⟩ := h.bytes pos byte hbyte
      refine ⟨by omega, ?_, ?_⟩
      · rw [hsaved.splice.mapAt_kept hmap]
        exact hmap
      · rw [hsaved.contentAt_self h.consistent h.live (.inr hmap), hpatch]
        exact hcontent
  · refine h.referred.trans h.geo (fun b hb => ?_) hunleaked
    -- the file keeps the blocks it had
    obtain ⟨slot, hslot, rfl⟩ := hsaved.splice.isOf hb
    rw [hsaved.inodeAt_self h.consistent h.live]
    exact ⟨slot, by rwa [hsaved.slot h.consistent h.live slot],
      (hsaved.slot h.consistent h.live slot).symm⟩

/-- **The run.** -/
theorem sharedInv_of_reachable (hopen : OpenOn drivers K start fs i)
    (hc : (start.world.volume fs).Consistent) (hi : (start.world.volume fs).Live i)
    (hreg : ((start.world.volume fs).inodeAt i).isReg = true)
    (h : ((fileSystem drivers K start).restrict fun t call => call.Current t.1).Reachable t) :
    SharedInv drivers K fs i start t := by
  refine System.Reachable.invariant _ ?_ ?_ h
  · rintro _ rfl
    exact ⟨hopen, rfl, hc, hi, hreg, rfl, fun _ => rfl, rfl, nofun, .refl⟩
  · rintro t call _ hinv ⟨hcurrent, hk, hspace, rfl⟩
    cases call with
    | seek k offset mode =>
      obtain ⟨hsame, hworld⟩ := seek_sameFiles (s := t.1) (k := k) offset mode
      have := hinv.of_sameFiles hsame hworld
      simpa [FileCall.next, FileCall.pieces] using this
    | write k data => exact hinv.write hk hspace hcurrent

/-! ### Closing and opening again -/

/-- Closing a descriptor frees its slot and leaves the rest alone. -/
theorem close_eq (hfile : OnExt2 drivers s k k) (hpattern : s.world.pattern = fun _ => true) :
    s.close drivers k = s.setFile k { s.openFiles k with inUse := false } := by
  have hcall : s.world.call (s.target k).2 (close (s.openFiles k).handle) = ((), s.world) :=
    call_eq_of_exec hpattern rfl
  rw [Vfs.close, hfile.slot]
  simp only [hfile.driver, driver, hcall]
  rfl

/-- Closing descriptors one after the other, by induction on their list. -/
theorem closeList {l : List (Fin maxOpenFiles)} (hnodup : l.Nodup)
    (hfile : ∀ k ∈ l, OnExt2 drivers s k k) (hpattern : s.world.pattern = fun _ => true) :
    let s' := l.foldl (fun s (k : Fin maxOpenFiles) => s.close drivers k) s
    s'.world = s.world ∧ s'.mounts = s.mounts ∧
      ∀ k, (s'.openFiles k).inUse = ((s.openFiles k).inUse && k ∉ l) := by
  induction l generalizing s with
  | nil => simp
  | cons k l ih =>
    obtain ⟨hnot, hnodup⟩ := List.nodup_cons.mp hnodup
    rw [List.foldl_cons, close_eq (hfile k List.mem_cons_self) hpattern]
    have hother : ∀ j, j ≠ k → (s.setFile k { s.openFiles k with inUse := false }).openFiles j =
        s.openFiles j := fun j hj => by simp [setFile, update_of_ne hj]
    have hrest : ∀ j ∈ l, OnExt2 drivers (s.setFile k { s.openFiles k with inUse := false }) j j := by
      intro j hj
      have hj' : j ≠ k := fun heq => hnot (heq ▸ hj)
      obtain ⟨hslot, hdriver⟩ := hfile j (List.mem_cons_of_mem _ hj)
      refine ⟨?_, ?_⟩
      · rw [slotOf_eq, hother j hj', ← slotOf_eq]
        exact hslot
      · unfold target
        rw [hother j hj']
        exact hdriver
    obtain ⟨hworld, hmounts, huse⟩ := ih hnodup hrest hpattern
    refine ⟨hworld, hmounts, fun j => ?_⟩
    rw [huse j]
    by_cases hj : j = k
    · subst hj
      simp [setFile]
    · rw [hother j hj]
      simp [hj]

theorem closeAll_eq (hopen : OpenOn drivers K s fs i) :
    (closeAll drivers K s).world = s.world ∧ (closeAll drivers K s).mounts = s.mounts ∧
      ∀ k ∈ K, ((closeAll drivers K s).openFiles k).inUse = false := by
  have hmem : ∀ k, k ∈ (List.finRange maxOpenFiles).filter (· ∈ K) ↔ k ∈ K := by simp
  unfold closeAll
  obtain ⟨hworld, hmounts, huse⟩ := closeList ((List.nodup_finRange maxOpenFiles).filter _)
    (fun k hk => hopen.file k ((hmem k).mp hk)) hopen.pattern
  refine ⟨hworld, hmounts, fun k hk => ?_⟩
  have := huse k
  rw [decide_eq_false (not_not.mpr ((hmem k).mpr hk)), Bool.and_false] at this
  exact this

/-- Which file system a path is on depends on the mounts. -/
theorem resolvePath_congr (hmounts : s'.mounts = s.mounts) (path : CString) (size : Nat) :
    s'.resolvePath path size = s.resolvePath path size := by
  unfold resolvePath bestMount mountMatches
  rw [hmounts]

/-- A file that exists is opened with the inode that is on the disk. -/
theorem openFile_eq (hpattern : s.world.pattern = fun _ => true) {path sub : CString}
    {m : Fin maxMounts} (hpath : s.resolvePath path 128 = some (m, sub))
    (hdriver : drivers (s.mounts m).driver = driver) (hfs : (s.mounts m).fsInstance = fs)
    (hc : (s.world.volume fs).Consistent) (hi : (s.world.volume fs).Live i)
    (hsub : (s.world.volume fs).resolve sub = i) (hfree : ∃ k, (s.openFiles k).inUse = false) :
    ∃ (k : Fin maxOpenFiles) (s' : Vfs D Nat PrivateData World),
      s.openFile drivers path = ((k : Int), s') ∧ s'.world = s.world ∧
        privateOf s' k = ⟨i, (s.world.volume fs).inodeAt i⟩ := by
  obtain ⟨k, hk⟩ : ∃ k, s.freeFile = some k := by
    obtain ⟨k, hk⟩ := hfree
    refine Option.isSome_iff_exists.mp (List.find?_isSome.mpr ⟨k, List.mem_finRange k, ?_⟩)
    simp [hk]
  have hexec := exec_openFile hc.ok sub (by rw [hsub]; exact hi.hasInode)
  have hcall := call_eq_of_exec hpattern hexec
  refine ⟨k, { s with openFiles := update s.openFiles k ⟨true, m,
    ⟨⟨i, (s.world.volume fs).inodeAt i⟩, ((s.world.volume fs).inodeAt i).size,
      ((s.world.volume fs).inodeAt i).isDir⟩, 0⟩ }, ?_, rfl, ?_⟩
  · rw [Vfs.openFile, hpath]
    simp only [hk, hdriver, hfs, driver, hcall, hsub]
  · simp [privateOf]

/-- **No lost update.** Whatever order the calls through the descriptors of a regular file
come in, if every write goes through a descriptor whose copy of the inode is the one on the
disk, then no update is lost. -/
theorem no_lost_update (hopen : OpenOn drivers K start fs i) (hK : K.Nonempty)
    (hc : (start.world.volume fs).Consistent) (hi : (start.world.volume fs).Live i)
    (hreg : ((start.world.volume fs).inodeAt i).isReg = true) {path sub : CString}
    {m : Fin maxMounts} (hpath : start.resolvePath path 128 = some (m, sub))
    (hdriver : drivers (start.mounts m).driver = driver)
    (hfs : (start.mounts m).fsInstance = fs)
    (hsub : (start.world.volume fs).resolve sub = i)
    (h : ((fileSystem drivers K start).restrict fun t call => call.Current t.1).Reachable t) :
    ∃ (k : Fin maxOpenFiles) (s' : Vfs D Nat PrivateData World),
      (closeAll drivers K t.1).openFile drivers path = ((k : Int), s') ∧
        NoLostUpdate (start.world.volume fs) i t.2 (s'.world.volume fs) (s'.openFiles k).handle := by
  have hinv := sharedInv_of_reachable hopen hc hi hreg h
  obtain ⟨hworld, hmounts, huse⟩ := closeAll_eq hinv.openOn
  have hall := hmounts.trans hinv.mounts
  obtain ⟨k, hk⟩ := hK
  obtain ⟨k', s', heq, hworld', hprivate⟩ : ∃ (k' : Fin maxOpenFiles)
      (s' : Vfs D Nat PrivateData World),
      (closeAll drivers K t.1).openFile drivers path = ((k' : Int), s') ∧
        s'.world = (closeAll drivers K t.1).world ∧
        privateOf s' k' = ⟨i, ((closeAll drivers K t.1).world.volume fs).inodeAt i⟩ := openFile_eq
    (hworld ▸ hinv.openOn.pattern) ((resolvePath_congr hall path 128).trans hpath)
    (by rw [hall]; exact hdriver) (by rw [hall]; exact hfs) (hworld ▸ hinv.consistent)
    (hworld ▸ hinv.live) (by rw [hworld, hinv.resolve]; exact hsub) ⟨k, huse k hk⟩
  rw [hworld] at hworld' hprivate
  refine ⟨k', s', heq, ?_, fun pos byte hbyte => ?_, ?_⟩
  · show (privateOf s' k').inode.size = _
    rw [hprivate]
    exact hinv.size
  · obtain ⟨hlt, hmap, hcontent⟩ := hinv.bytes pos byte hbyte
    obtain ⟨h13, h14⟩ := hinv.consistent.single i hinv.live
    have hpriv : (s'.openFiles k').handle.fsPrivate = ⟨i, (t.1.world.volume fs).inodeAt i⟩ :=
      hprivate
    have hsize := ((t.1.world.volume fs).inodeAt i).size_lt
    rw [hworld', exec_read_contents hinv.consistent.ok (fun p hlo hhi _ => ?_)
      (by rw [hpriv]; exact h13) (by rw [hpriv]; exact h14) (by omega), hpriv]
    · have hlen : pos < ((t.1.world.volume fs).contents ((t.1.world.volume fs).inodeAt i)).length := by
        rwa [Volume.length_contents]
      have hget := Volume.getElem?_contents (v := t.1.world.volume fs) hlt
      rw [hcontent, List.getElem?_eq_getElem hlen] at hget
      have hone := List.take_one_drop_eq_of_lt_length hlen
      rw [List.get_eq_getElem, Option.some.inj hget] at hone
      simp [readOf, hone]
    · rw [hpriv, show p = pos by omega]
      exact hmap
  · show Unleaked _ _ (privateOf s' k').inode
    rw [hprivate, hworld']
    exact hinv.referred

end Steps

/-! ### The file of ten bytes -/

/-- The small volume, mounted at `/m`, with all descriptors on the file `a`. -/
def sharedVfs : Vfs Unit Nat PrivateData World :=
  { fileVfs 0 with mounts := fun k => { (fileVfs 0).mounts k with mountPoint := [slash, 0x6D] } }

/-- `/m/a` -/
def sharedPath : CString := [slash, 0x6D, slash, 0x61]

theorem sharedVfs_openOn (K : Finset (Fin maxOpenFiles)) :
    OpenOn (fun _ => driver) K sharedVfs 0 11 :=
  ⟨fun k _ => ⟨by rw [slotOf_eq]; rfl, rfl⟩, fun _ _ => rfl, fun _ _ => rfl, rfl⟩

/-- The file grows through descriptor 0. -/
theorem no_lost_update_growth :
    ∃ (k : Fin maxOpenFiles) (s' : Vfs Unit Nat PrivateData World),
      (closeAll (fun _ => driver) {0, 1} (sharedVfs.write (fun _ => driver) 0 [1, 2, 3]).2).openFile
          (fun _ => driver) sharedPath = ((k : Int), s') ∧
        NoLostUpdate fileVolume 11 [⟨0, [1, 2, 3]⟩] (s'.world.volume 0) (s'.openFiles k).handle := by
  have hpath : sharedVfs.resolvePath sharedPath 128 = some (0, [0x61]) := by decide +kernel
  refine no_lost_update (sharedVfs_openOn {0, 1}) ⟨0, by decide⟩ fileVolume_consistent
    fileVolume_live (by decide +kernel) hpath rfl rfl (by decide +kernel) (.step (.init rfl)
      (a := .write 0 [1, 2, 3]) ⟨rfl, by decide, ⟨?_, ?_⟩, rfl⟩)
  · decide +kernel
  · decide +kernel

/-- The file grows through descriptor 0, and then a byte is written through descriptor 1. -/
def sharedRun : List FileCall := [.seek 0 1024 .set, .write 0 [1], .write 1 [2]]

def sharedEnd : Vfs Unit Nat PrivateData World × List Piece :=
  sharedRun.foldl (fun t call => (call.next (fun _ => driver) t.1, t.2 ++ call.pieces t.1))
    (sharedVfs, [])

theorem sharedEnd_reachable : (fileSystem (fun _ => driver) {0, 1} sharedVfs).Reachable sharedEnd := by
  refine .step (a := .write 1 [2]) (.step (a := .write 0 [1])
    (.step (a := .seek 0 1024 .set) (.init rfl) ⟨by decide, trivial, rfl⟩)
    ⟨by decide, ?_, rfl⟩) ⟨by decide, ?_, rfl⟩
  · exact ⟨by decide +kernel, by decide +kernel⟩
  · exact ⟨by decide +kernel, by decide +kernel⟩

/-- The write through descriptor 1 puts the old inode back: the file has ten bytes, and the
block that was allocated for byte 1024 is used by no file. -/
theorem not_no_lost_update :
    (fileSystem (fun _ => driver) {0, 1} sharedVfs).Reachable sharedEnd ∧
      sharedEnd.2.map Piece.offset = [1024, 0] ∧
      ((sharedEnd.1.world.volume 0).inodeAt 11).size = 10 ∧
      (sharedEnd.1.world.volume 0).used 9 = true ∧ fileVolume.used 9 = false ∧
      ¬ ∃ (k : Fin maxOpenFiles) (s' : Vfs Unit Nat PrivateData World),
        (closeAll (fun _ => driver) {0, 1} sharedEnd.1).openFile (fun _ => driver) sharedPath =
            ((k : Int), s') ∧
          NoLostUpdate fileVolume 11 sharedEnd.2 (s'.world.volume 0) (s'.openFiles k).handle := by
  refine ⟨sharedEnd_reachable, by decide +kernel, by decide +kernel, by decide +kernel,
    by decide +kernel, ?_⟩
  rintro ⟨k, s', hopen, hno⟩
  have hslot : ((closeAll (fun _ => driver) {0, 1} sharedEnd.1).openFile (fun _ => driver)
      sharedPath).1 = 0 := by decide +kernel
  have hsize : (((closeAll (fun _ => driver) {0, 1} sharedEnd.1).openFile (fun _ => driver)
      sharedPath).2.openFiles 0).handle.fsPrivate.inode.size = 10 := by decide +kernel
  have hend : endOf (fileVolume.inodeAt 11).size sharedEnd.2 = 1025 := by decide +kernel
  rw [hopen] at hslot hsize
  have hzero : ((k : Nat) : Int) = 0 := hslot
  obtain rfl : k = 0 := by exact_mod_cast hzero
  have := hno.size
  rw [hsize, hend] at this
  cases this

end WengShiOS.Fs.Ext2
