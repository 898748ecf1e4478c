import WengShiOS.Fs.Ext2.Access
import WengShiOS.Math.Ledger

/-! # The buffers of the ext2 driver

The model of the driver writes the life of a buffer once, in `withBuffer`. The source frees a
buffer before each `return`, and some functions have many. Here these functions are written
out, each `return` with the calls of `kfree` that the source has before it, and shown to be
the programs of the model; `mount` and `open` also return the pointers that they leave
allocated. With this no function of the driver leaks a buffer or frees one twice, whatever
allocation or access fails. -/

namespace WengShiOS.Fs.Ext2

open Math Math.Prog Ledger Balanced

variable {α β : Type}

namespace Exits

/-! ### The functions with their returns -/

/-- `allocBlockInGroup` and `allocInodeInGroup`. -/
def allocInGroup (A : Allocator) (group : Nat) : Ext2M Nat := do
  let fs ← getState
  if fs.groupCount ≤ group then pure 0
  else if A.freeCount fs group = 0 then pure 0
  else
    match ← alloc (← getState).blockSize with
    | none => pure 0
    | some ptr =>
      match ← readBlock (A.bitmap fs group) with
      | none =>
        free ptr
        pure 0
      | some bitmap =>
        match findClear bitmap (A.limit fs group) 0 with
        | none =>
          free ptr
          pure 0
        | some freeBit =>
          if ← writeBlock (A.bitmap fs group) (setBit bitmap freeBit) then
            free ptr
            updateCounters (A.take · group)
            pure (A.number fs group freeBit)
          else
            free ptr
            pure 0

/-- `freeBlock` and `freeInode`. -/
def release (A : Allocator) (num : Nat) : Ext2M Bool := do
  if num = 0 then pure false
  else
    let fs ← getState
    if fs.groupCount ≤ (A.locate fs num).1 then pure false
    else
      match ← alloc (← getState).blockSize with
      | none => pure false
      | some ptr =>
        match ← readBlock (A.bitmap fs (A.locate fs num).1) with
        | none =>
          free ptr
          pure false
        | some bitmap =>
          let ok ← writeBlock (A.bitmap fs (A.locate fs num).1)
            (clearBit bitmap (A.locate fs num).2)
          free ptr
          if ok then
            updateCounters (A.give · (A.locate fs num).1)
            pure true
          else pure false

/-- The last part of `inodeBlockAtOrAlloc`. -/
def indirectOrAlloc (inode : Inode) (index : Nat) : Ext2M (Nat × Inode) := do
  let fs ← getState
  match ← alloc fs.blockSize with
  | none => pure (0, inode)
  | some ptr =>
    match ← readBlock (inode.block 12) with
    | none =>
      free ptr
      pure (0, inode)
    | some indirect =>
      let result := readLE 4 indirect (4 * index)
      if result ≠ 0 then
        free ptr
        pure (result, inode)
      else
        let result ← allocBlock
        if result = 0 then
          free ptr
          pure (0, inode)
        else
          let _ ← writeBlock (inode.block 12) (writeLE 4 indirect (4 * index) result)
          free ptr
          pure (result, inode.addSectors fs.blockSize)

/-- The loop of `insertDirEntry`, which returns from inside. -/
def insertLoop (ptr : Nat) (dirInode : Inode) (name : CString) (childInode fileType : Nat) :
    (n b : Nat) → Ext2M (Option Bool)
  | 0, _ => pure none
  | n + 1, b => do
    let fs ← getState
    let physBlock ← inodeBlockAt dirInode b
    if physBlock = 0 then insertLoop ptr dirInode name childInode fileType n (b + 1)
    else
      match ← readBlock physBlock with
      | none => insertLoop ptr dirInode name childInode fileType n (b + 1)
      | some buf =>
        let needed := dirEntryMinSize (name.length % 256)
        match (entries fs.blockSize buf).find? (hasRoom buf needed) with
        | none => insertLoop ptr dirInode name childInode fileType n (b + 1)
        | some offset =>
          let ok ← writeBlock physBlock (placeEntry buf offset childInode name fileType)
          free ptr
          pure (some ok)

def insertDirEntry (dirInode : Inode) (name : CString) (childInode fileType : Nat) :
    Ext2M (Bool × Inode) := do
  let fs ← getState
  match ← alloc fs.blockSize with
  | none => pure (false, dirInode)
  | some ptr =>
    match ← insertLoop ptr dirInode name childInode fileType (fs.numBlocks dirInode) 0 with
    | some ok => pure (ok, dirInode)
    | none =>
      let fs ← getState
      let (physBlock, dirInode) ← inodeBlockAtOrAlloc dirInode (fs.numBlocks dirInode)
      if physBlock = 0 then
        free ptr
        pure (false, dirInode)
      else
        let ok ← writeBlock physBlock (freshBlock fs.blockSize childInode name fileType)
        free ptr
        if ok then pure (true, dirInode.setSize (dirInode.size + fs.blockSize))
        else pure (false, dirInode)

/-- The loop of `removeDirEntry`, which returns from inside. -/
def removeLoop (ptr : Nat) (dirInode : Inode) (name : CString) : (n b : Nat) →
    Ext2M (Option Bool)
  | 0, _ => pure none
  | n + 1, b => do
    let fs ← getState
    let physBlock ← inodeBlockAt dirInode b
    if physBlock = 0 then removeLoop ptr dirInode name n (b + 1)
    else
      match ← readBlock physBlock with
      | none => removeLoop ptr dirInode name n (b + 1)
      | some buf =>
        match findWithPrev (isNamed buf name) none (entries fs.blockSize buf) with
        | none => removeLoop ptr dirInode name n (b + 1)
        | some (prev, offset) =>
          let ok ← writeBlock physBlock (cutEntry buf prev offset)
          free ptr
          pure (some ok)

def removeDirEntry (dirInode : Inode) (name : CString) : Ext2M Bool := do
  let fs ← getState
  match ← alloc fs.blockSize with
  | none => pure false
  | some ptr =>
    match ← removeLoop ptr dirInode name (fs.numBlocks dirInode) 0 with
    | some ok => pure ok
    | none =>
      free ptr
      pure false

/-- The loop of `read`, which returns from inside if a block cannot be read. -/
def readLoop (ptr offset count : Nat) : (fuel : Nat) → (inode : Inode) → (data : List UInt8) →
    Ext2M ReadState
  | 0, inode, data => pure ⟨true, data, inode⟩
  | fuel + 1, inode, data =>
    if data.length < count then do
      let fs ← getState
      let filePos := u64 (offset + data.length)
      let logicalBlock := u32 (filePos / fs.blockSize)
      let offsetInBlock := filePos % fs.blockSize
      let (physBlock, inode) ← inodeBlockAtOrAlloc inode logicalBlock
      let chunk := min (fs.blockSize - offsetInBlock) (count - data.length)
      if physBlock = 0 then readLoop ptr offset count fuel inode (data ++ List.replicate chunk 0)
      else
        match ← readBlock physBlock with
        | none =>
          free ptr
          pure ⟨false, data, inode⟩
        | some buf => readLoop ptr offset count fuel inode (data ++ slice buf offsetInBlock chunk)
    else pure ⟨true, data, inode⟩

def read (handle : Handle) (offset count : Nat) : Ext2M (Int × List UInt8 × Handle) := do
  let fs ← getState
  let inode := handle.fsPrivate.inode
  if inode.size ≤ offset then pure (0, [], handle)
  else
    let count := clampCount inode.size offset count
    match ← alloc fs.blockSize with
    | none => pure (-1, [], handle)
    | some ptr =>
      let r ← readLoop ptr offset count count inode []
      if r.complete then free ptr
      pure (r.result, r.data, { handle with fsPrivate := { handle.fsPrivate with inode := r.inode } })

/-- The pointers of the instance and of its group descriptors. -/
def mount : Ext2M (Option (Nat × Nat)) := do
  match ← readSectors 2 (superblockSize / sectorSize) with
  | none => pure none
  | some sb =>
    if readLE 2 sb 56 ≠ ext2Magic then pure none
    else
      match ← alloc fsInstanceSize with
      | none => pure none
      | some fsPtr =>
        let fs := fromSuperblock sb
        putState fs
        match ← alloc (groupDescSize * fs.groupCount) with
        | none =>
          free fsPtr
          pure none
        | some groupsPtr =>
          match ← alloc (u32 (fs.bgdtBlocksNeeded * fs.blockSize)) with
          | none =>
            free groupsPtr
            free fsPtr
            pure none
          | some bgdtPtr =>
            match ← readDescriptorBlocks fs.bgdtBlock fs.blockSize fs.bgdtBlocksNeeded 0
              fun _ => 0 with
            | none =>
              free bgdtPtr
              free groupsPtr
              free fsPtr
              pure none
            | some buf =>
              free bgdtPtr
              putState { fs with groups := window buf 0 fs.bgdtBytes }
              pure (some (fsPtr, groupsPtr))

def unmount (fsPtr groupsPtr : Nat) : Ext2M Unit := do
  free groupsPtr
  free fsPtr

/-- The pointer of the private data, and the handle. -/
def openFile (path : CString) : Ext2M (Option (Nat × Handle)) := do
  let inodeNum ← resolvePathToInode path
  if inodeNum = 0 then pure none
  else
    match ← alloc inodeStructSize with
    | none => pure none
    | some inodePtr =>
      match ← readInode inodeNum with
      | none =>
        free inodePtr
        pure none
      | some inode =>
        match ← alloc privateDataSize with
        | none =>
          free inodePtr
          pure none
        | some priv =>
          free inodePtr
          pure (some (priv, ⟨⟨inodeNum, inode⟩, inode.size, inode.isDir⟩))

/-- What is left of the pointer: a handle that was closed has none. -/
def close (priv : Option Nat) : Ext2M (Option Nat) :=
  match priv with
  | none => pure none
  | some ptr => do
    free ptr
    pure none

end Exits

/-! ### They are the programs of the model -/

theorem withBuffer_bind {size : Nat} {failed : α} {body : Ext2M α} {k : α → Ext2M β} :
    withBuffer size failed body >>= k = (do
      match ← alloc size with
      | none => k failed
      | some ptr =>
        let result ← body
        free ptr
        k result) := by
  unfold withBuffer
  rw [bind_bind]
  refine bind_of_eq fun p => ?_
  cases p with
  | none => rfl
  | some ptr => simp only [bind_bind, bind_of_pure]

theorem Exits.allocInGroup_eq (A : Allocator) (group : Nat) :
    Exits.allocInGroup A group = A.allocInGroup group := by
  unfold Allocator.allocInGroup Exits.allocInGroup claimBit
  refine bind_of_eq fun fs => ?_
  split_ifs
  · rfl
  · rfl
  simp only [bind_bind, withBuffer_bind]
  refine bind_of_eq fun _ => bind_of_eq fun p => ?_
  cases p with
  | none => rfl
  | some ptr =>
    refine bind_of_eq fun r => ?_
    cases r with
    | none => rfl
    | some bitmap =>
      dsimp only
      cases findClear bitmap (A.limit fs group) 0 with
      | none => rfl
      | some freeBit =>
        simp only [bind_bind, bind_of_ite, bind_of_pure]

theorem Exits.release_eq (A : Allocator) (num : Nat) : Exits.release A num = A.free num := by
  unfold Allocator.free Exits.release releaseBit
  split_ifs
  · rfl
  refine bind_of_eq fun fs => ?_
  dsimp only
  split_ifs
  · rfl
  refine bind_of_eq fun _ => bind_of_eq fun p => ?_
  cases p with
  | none => rfl
  | some ptr =>
    refine bind_of_eq fun r => ?_
    cases r with
    | none => rfl
    | some bitmap => rfl

theorem Exits.indirectOrAlloc_eq (inode : Inode) (index : Nat) :
    Exits.indirectOrAlloc inode index = Ext2.indirectOrAlloc inode index := by
  refine bind_of_eq fun fs => bind_of_eq fun p => ?_
  cases p with
  | none => rfl
  | some ptr =>
    simp only [bind_bind]
    refine bind_of_eq fun r => ?_
    cases r with
    | none => rfl
    | some indirect => simp only [bind_bind, bind_of_ite, bind_of_pure]

/-- What the loop does where it returns from inside: the buffer is freed there. -/
theorem Exits.insertLoop_eq (ptr : Nat) (dirInode : Inode) (name : CString)
    (childInode fileType n b : Nat) :
    Exits.insertLoop ptr dirInode name childInode fileType n b = (do
      match ← Ext2.insertLoop dirInode name childInode fileType n b with
      | some ok =>
        free ptr
        pure (some ok)
      | none => pure none) := by
  induction n generalizing b with
  | zero => rfl
  | succ n ih =>
    rw [Exits.insertLoop, Ext2.insertLoop]
    simp only [bind_bind]
    refine bind_of_eq fun fs => bind_of_eq fun physBlock => ?_
    split_ifs
    · exact ih (b + 1)
    simp only [bind_bind]
    refine bind_of_eq fun r => ?_
    cases r with
    | none => exact ih (b + 1)
    | some buf =>
      dsimp only
      cases (entries fs.blockSize buf).find? (hasRoom buf (dirEntryMinSize (name.length % 256))) with
      | none => exact ih (b + 1)
      | some offset => rfl

theorem Exits.insertDirEntry_eq (dirInode : Inode) (name : CString) (childInode fileType : Nat) :
    Exits.insertDirEntry dirInode name childInode fileType =
      Ext2.insertDirEntry dirInode name childInode fileType := by
  unfold Exits.insertDirEntry Ext2.insertDirEntry withBuffer appendEntry
  refine bind_of_eq fun fs => bind_of_eq fun p => ?_
  cases p with
  | none => rfl
  | some ptr =>
    dsimp only
    rw [Exits.insertLoop_eq]
    simp only [bind_bind]
    refine bind_of_eq fun r => ?_
    cases r with
    | some ok => rfl
    | none =>
      simp only [bind_of_pure, bind_bind]
      refine bind_of_eq fun fs => bind_of_eq fun found => ?_
      split_ifs
      · rfl
      · refine bind_of_eq fun ok => ?_
        cases ok <;> rfl

theorem Exits.removeLoop_eq (ptr : Nat) (dirInode : Inode) (name : CString) (n b : Nat) :
    (do
      match ← Exits.removeLoop ptr dirInode name n b with
      | some ok => pure ok
      | none =>
        free ptr
        pure false) = (do
      let ok ← Ext2.removeLoop dirInode name n b
      free ptr
      pure ok) := by
  induction n generalizing b with
  | zero => rfl
  | succ n ih =>
    rw [Exits.removeLoop, Ext2.removeLoop]
    simp only [bind_bind]
    refine bind_of_eq fun fs => bind_of_eq fun physBlock => ?_
    split_ifs
    · exact ih (b + 1)
    simp only [bind_bind]
    refine bind_of_eq fun r => ?_
    cases r with
    | none => exact ih (b + 1)
    | some buf =>
      dsimp only
      cases findWithPrev (isNamed buf name) none (entries fs.blockSize buf) with
      | none => exact ih (b + 1)
      | some found => rfl

theorem Exits.removeDirEntry_eq (dirInode : Inode) (name : CString) :
    Exits.removeDirEntry dirInode name = Ext2.removeDirEntry dirInode name := by
  refine bind_of_eq fun fs => bind_of_eq fun p => ?_
  cases p with
  | none => rfl
  | some ptr => exact Exits.removeLoop_eq ptr dirInode name _ 0

theorem Exits.readLoop_eq (ptr offset count fuel : Nat) (inode : Inode) (data : List UInt8) :
    Exits.readLoop ptr offset count fuel inode data = (do
      let r ← Ext2.readLoop offset count fuel inode data
      if r.complete then pure r
      else
        free ptr
        pure r) := by
  induction fuel generalizing inode data with
  | zero => rfl
  | succ fuel ih =>
    rw [Exits.readLoop, Ext2.readLoop]
    split_ifs
    swap
    · rfl
    simp only [bind_bind]
    refine bind_of_eq fun fs => bind_of_eq fun found => ?_
    split_ifs
    · exact ih _ _
    refine bind_of_eq fun r => ?_
    cases r with
    | none => rfl
    | some buf => exact ih _ _

theorem Exits.read_eq (handle : Handle) (offset count : Nat) :
    Exits.read handle offset count = Ext2.read handle offset count := by
  refine bind_of_eq fun fs => ?_
  dsimp only
  split_ifs
  · rfl
  refine bind_of_eq fun p => ?_
  cases p with
  | none => rfl
  | some ptr =>
    dsimp only
    rw [Exits.readLoop_eq]
    simp only [bind_bind]
    refine bind_of_eq fun r => ?_
    cases hr : r.complete with
    | true => simp [hr, bind_of_pure]
    | false => simp [hr, bind_bind, bind_of_pure]

/-- The model's `mount` forgets the pointers. -/
theorem Exits.mount_eq : (do return (← Exits.mount).isSome) = Ext2.mount := by
  unfold Exits.mount Ext2.mount
  simp only [bind_bind]
  refine bind_of_eq fun r => ?_
  cases r with
  | none => rfl
  | some sb =>
    dsimp only
    split_ifs
    · rfl
    simp only [bind_bind]
    refine bind_of_eq fun p => ?_
    cases p with
    | none => rfl
    | some fsPtr =>
      simp only [bind_bind]
      refine bind_of_eq fun _ => bind_of_eq fun q => ?_
      cases q with
      | none => rfl
      | some groupsPtr =>
        simp only [bind_bind, withBuffer_bind]
        refine bind_of_eq fun b => ?_
        cases b with
        | none => rfl
        | some bgdtPtr =>
          simp only [bind_bind]
          refine bind_of_eq fun d => ?_
          cases d with
          | none => rfl
          | some buf => rfl

/-- The model's `open` keeps the private data in the handle. -/
theorem Exits.openFile_eq (path : CString) :
    (do return (← Exits.openFile path).map Prod.snd) = Ext2.openFile path := by
  unfold Exits.openFile Ext2.openFile withBuffer
  simp only [bind_bind]
  refine bind_of_eq fun inodeNum => ?_
  split_ifs
  · rfl
  simp only [bind_bind]
  refine bind_of_eq fun p => ?_
  cases p with
  | none => rfl
  | some inodePtr =>
    simp only [bind_bind]
    refine bind_of_eq fun r => ?_
    cases r with
    | none => rfl
    | some inode =>
      simp only [bind_bind]
      refine bind_of_eq fun q => ?_
      cases q with
      | none => rfl
      | some priv => rfl

/-! ### No function leaks

A buffer is freed where its scope ends, so a function is balanced because its parts are. -/

theorem balanced_inherited : InheritedByWriting (@Balanced FsInstance) where
  pure := .pure
  bind := .bind
  getState := .getState
  readSectors := .readSectors
  writeSectors := .writeSectors
  withBuffer hbody _ := .bind (.alloc (.pure rfl) fun _ hptr => hbody.ends fun _ =>
    .bind (.free (.pure (release_take hptr))))

theorem updateCounters_balanced (update : FsInstance → FsInstance) :
    Balanced (updateCounters update) :=
  .bind .getState fun _ => .bind (.putState _) fun _ =>
    .bind (writeGroupDescriptors_inherits balanced_inherited) fun _ =>
      .bind (writeSuperblock_inherits balanced_inherited) fun _ => .pure _

/-! ### Pointers that stay allocated -/

/-- A failed `open` leaves nothing allocated, a successful one the private data. -/
theorem Exits.openFile_ends (path : CString) (l : Ledger) :
    (Exits.openFile path).Ends l fun r l' =>
      match r with
      | none => l' = l
      | some (priv, _) => priv ∉ l.live ∧ l' = l.take priv := by
  refine (resolvePathToInode_inherits balanced_inherited.toInherited path).ends fun inodeNum => ?_
  split_ifs
  · exact .pure rfl
  refine .bind (.alloc (.pure rfl) fun inodePtr hinode =>
    (readInode_inherits balanced_inherited.toInherited inodeNum).ends ?_)
  intro r
  cases r with
  | none => exact .bind (.free (.pure (release_take hinode)))
  | some inode =>
    refine .bind (.alloc ?_ fun priv hpriv => ?_)
    · exact .bind (.free (.pure (release_take hinode)))
    · refine .bind (.free (.pure ⟨fun hmem => ?_, release_take_take hinode hpriv⟩))
      exact hpriv (mem_live_take.mpr (.inr hmem))

/-- A failed `mount` leaves nothing allocated, a successful one the instance and its group
descriptors. -/
theorem Exits.mount_ends (l : Ledger) :
    Exits.mount.Ends l fun r l' =>
      match r with
      | none => l' = l
      | some (fsPtr, groupsPtr) =>
        fsPtr ∉ l.live ∧ groupsPtr ∉ (l.take fsPtr).live ∧ l' = (l.take fsPtr).take groupsPtr := by
  refine (Balanced.readSectors _ _).ends fun sb => ?_
  cases sb with
  | none => exact .pure rfl
  | some sb =>
    dsimp only
    split_ifs
    · exact .pure rfl
    refine .bind (.alloc (.pure rfl) fun fsPtr hfs => (Balanced.putState _).ends fun _ => ?_)
    refine .bind (.alloc (.bind (.free (.pure (Ledger.release_take hfs)))) fun groupsPtr hgroups => ?_)
    -- from here on both have to be freed if something fails
    have hfreed : ∀ {Q : Option (Nat × Nat) → Ledger → Prop}, Q none l → (do
        free groupsPtr
        free fsPtr
        pure none : Ext2M _).Ends ((l.take fsPtr).take groupsPtr) Q := by
      intro Q hQ
      refine .bind (.free (.bind (.free (.pure ?_))))
      rw [release_take hgroups, release_take hfs]
      exact hQ
    refine .bind (.alloc (hfreed rfl) fun bgdtPtr hbgdt =>
      (readDescriptorBlocks_inherits balanced_inherited.toInherited ..).ends fun descriptors => ?_)
    cases descriptors with
    | none =>
      refine .bind (.free ?_)
      rw [release_take hbgdt]
      exact hfreed rfl
    | some buf =>
      refine .bind (.free ?_)
      rw [release_take hbgdt]
      exact (Balanced.putState _).ends fun _ => .pure ⟨hfs, hgroups, rfl⟩

theorem openFile_failed (path : CString) (l : Ledger) :
    (openFile path).Ends l fun r l' => r = none → l' = l := by
  rw [← Exits.openFile_eq]
  refine .bind ((Exits.openFile_ends path l).mono fun r l' h => .pure fun hr => ?_)
  obtain rfl : r = none := by simpa using hr
  exact h

theorem mount_failed (l : Ledger) : mount.Ends l fun ok l' => ok = false → l' = l := by
  rw [← Exits.mount_eq]
  refine .bind ((Exits.mount_ends l).mono fun r l' h => .pure fun hr => ?_)
  obtain rfl : r = none := by simpa using hr
  exact h

/-- Open a file, do something with it and close it. -/
def whileOpen (path : CString) (body : Handle → Ext2M α) : Ext2M (Option α) := do
  match ← Exits.openFile path with
  | none => pure none
  | some (priv, handle) =>
    let result ← body handle
    let _ ← Exits.close (some priv)
    pure (some result)

/-- Mount a file system, do something with it and unmount it. -/
def whileMounted (body : Ext2M α) : Ext2M (Option α) := do
  match ← Exits.mount with
  | none => pure none
  | some (fsPtr, groupsPtr) =>
    let result ← body
    Exits.unmount fsPtr groupsPtr
    pure (some result)

theorem whileOpen_balanced (path : CString) {body : Handle → Ext2M α}
    (hbody : ∀ handle, Balanced (body handle)) : Balanced (whileOpen path body) := by
  intro l
  refine .bind ((Exits.openFile_ends path l).mono fun r l' h => ?_)
  cases r with
  | none => exact .pure h
  | some opened =>
    obtain ⟨hfresh, rfl⟩ := h
    exact (hbody _).ends fun _ => .bind (.bind (.free (.pure (.pure (release_take hfresh)))))

theorem whileMounted_balanced {body : Ext2M α} (hbody : Balanced body) :
    Balanced (whileMounted body) := by
  intro l
  refine .bind ((Exits.mount_ends l).mono fun r l' h => ?_)
  cases r with
  | none => exact .pure h
  | some mounted =>
    obtain ⟨hfs, hgroups, rfl⟩ := h
    refine hbody.ends fun _ => .bind (.bind (.free (.free (.pure ?_))))
    rw [release_take hgroups, release_take hfs]

/-! ### The whole driver -/

/-- What it means that the driver leaks no memory: a call ends with the allocations it began
with, for every pattern of failures, and so do the functions that are written out above; so
does a `mount` or an `open` that fails, and one that succeeds together with its `unmount` or
`close`, whatever balanced calls are between them. -/
structure LeaksNothing : Prop where
  allocInGroup : ∀ A group, Clean (Exits.allocInGroup A group)
  release : ∀ A num, Clean (Exits.release A num)
  indirectOrAlloc : ∀ inode index, Clean (Exits.indirectOrAlloc inode index)
  insertDirEntry : ∀ dirInode name childInode fileType,
    Clean (Exits.insertDirEntry dirInode name childInode fileType)
  removeDirEntry : ∀ dirInode name, Clean (Exits.removeDirEntry dirInode name)
  read : ∀ handle offset count, Clean (Exits.read handle offset count)
  write : ∀ handle offset data, Clean (Ext2.write handle offset data)
  isDirectory : ∀ path, Clean (Ext2.isDirectory path)
  readdir : ∀ path index, Clean (Ext2.readdir path index)
  create : ∀ path isDirectory, Clean (Ext2.create path isDirectory)
  unlinkFile : ∀ path, Clean (Ext2.unlinkFile path)
  rmdirPath : ∀ path, Clean (Ext2.rmdirPath path)
  openFailed : ∀ path l, (Ext2.openFile path).Ends l fun r l' => r = none → l' = l
  mountFailed : ∀ l, Ext2.mount.Ends l fun ok l' => ok = false → l' = l
  openClose : ∀ {α : Type} path (body : Handle → Ext2M α), (∀ handle, Balanced (body handle)) →
    Clean (whileOpen path body)
  mountUnmount : ∀ {α : Type} (body : Ext2M α), Balanced body → Clean (whileMounted body)

/-- **The driver leaks nothing**, on any volume and for any arguments. -/
theorem driver_leaksNothing : LeaksNothing where
  allocInGroup A group := by
    rw [Exits.allocInGroup_eq]
    exact clean (allocInGroup_inherits balanced_inherited (fun _ => updateCounters_balanced _) group)
  release A num := by
    rw [Exits.release_eq]
    exact clean (free_inherits balanced_inherited (fun _ => updateCounters_balanced _) num)
  indirectOrAlloc inode index := by
    rw [Exits.indirectOrAlloc_eq]
    exact clean
      (indirectOrAlloc_inherits balanced_inherited (fun _ => updateCounters_balanced _) inode index)
  insertDirEntry dirInode name childInode fileType := by
    rw [Exits.insertDirEntry_eq]
    exact clean (insertDirEntry_inherits balanced_inherited (fun _ => updateCounters_balanced _) ..)
  removeDirEntry dirInode name := by
    rw [Exits.removeDirEntry_eq]
    exact clean (removeDirEntry_inherits balanced_inherited ..)
  read handle offset count := by
    rw [Exits.read_eq]
    exact clean
      (read_inherits balanced_inherited (fun _ => updateCounters_balanced _) handle offset count)
  write handle offset data :=
    clean (write_inherits balanced_inherited (fun _ => updateCounters_balanced _) handle offset data)
  isDirectory path := clean (isDirectory_inherits balanced_inherited.toInherited path)
  readdir path index := clean (readdir_inherits balanced_inherited.toInherited path index)
  create path isDirectory :=
    clean (create_inherits balanced_inherited updateCounters_balanced path isDirectory)
  unlinkFile path :=
    clean (unlinkFile_inherits balanced_inherited updateCounters_balanced path)
  rmdirPath path :=
    clean (rmdirPath_inherits balanced_inherited updateCounters_balanced path)
  openFailed := openFile_failed
  mountFailed := mount_failed
  openClose path _ hbody := (whileOpen_balanced path hbody).clean
  mountUnmount _ hbody := (whileMounted_balanced hbody).clean

end WengShiOS.Fs.Ext2
