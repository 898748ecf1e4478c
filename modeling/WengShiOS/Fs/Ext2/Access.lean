import WengShiOS.Fs.Ext2.Driver

/-! # Runs of the ext2 functions

What a run of the basic functions does to the volume, whatever accesses fail, and which
functions only read. The functions that read are the ones every operation begins with:
up to the first allocation nothing is changed. -/

namespace WengShiOS.Fs.Ext2

open Math Math.Prog

/-- A mounted file system and the disk it lies on. -/
abbrev Volume := Store FsInstance

namespace Volume

variable (v : Volume)

/-- `sectors_per_block`. -/
def sectorsPerBlock : Nat := v.state.blockSize / sectorSize

/-- The bytes of a block that the device transfers. -/
def blockBytes : Nat := sectorSize * v.sectorsPerBlock

/-- The contents of a block. -/
def block (b : Nat) : Bytes := window v.disk (sectorSize * (b * v.sectorsPerBlock)) v.blockBytes

/-- The volume after a block was written. -/
def setBlock (b : Nat) (data : Bytes) : Volume :=
  { v with disk := overlay v.disk (sectorSize * (b * v.sectorsPerBlock)) v.blockBytes data }

/-- The event of reading or writing a block. -/
def readEvent (b : Nat) (ok : Bool) : Event :=
  ⟨.read (b * v.sectorsPerBlock) v.sectorsPerBlock, ok⟩

def writeEvent (b : Nat) (ok : Bool) : Event :=
  ⟨.write (b * v.sectorsPerBlock) v.sectorsPerBlock, ok⟩

@[simp] theorem setBlock_state (b : Nat) (data : Bytes) : (v.setBlock b data).state = v.state := rfl

end Volume

variable {α β γ : Type} {v v' : Volume} {trace : List Event} {f : FsInstance → γ}

/-! ### The basic functions -/

variable {r : α} {b : Nat}

theorem runs_withBuffer {size : Nat} {failed : α} {body : Ext2M α} :
    (withBuffer size failed body).Runs v trace r v' ↔
      (trace = [⟨.kmalloc size, false⟩] ∧ r = failed ∧ v' = v) ∨
        ∃ rest, trace = ⟨.kmalloc size, true⟩ :: rest ∧ body.Runs v rest r v' := by
  unfold withBuffer
  rw [runs_bind]
  constructor
  · rintro ⟨first, rest, p, u, rfl, hp, h⟩
    obtain ⟨ok, rfl, rfl, rfl⟩ := runs_alloc.mp hp
    cases ok with
    | false =>
      obtain ⟨rfl, rfl, rfl⟩ := runs_pure.mp h
      exact .inl ⟨rfl, rfl, rfl⟩
    | true =>
      obtain ⟨body', last, r', u', rfl, hbody, hlast⟩ := runs_bind.mp h
      obtain ⟨freed, last, done, u'', rfl, hfree, hret⟩ := runs_bind.mp hlast
      obtain ⟨rfl, rfl⟩ := runs_free.mp hfree
      obtain ⟨rfl, rfl, rfl⟩ := runs_pure.mp hret
      exact .inr ⟨body', by simp, hbody⟩
  · rintro (⟨rfl, rfl, rfl⟩ | ⟨rest, rfl, hbody⟩)
    · exact ⟨_, [], none, v', rfl, runs_alloc.mpr ⟨false, rfl, rfl, rfl⟩, rfl, rfl, rfl⟩
    · refine ⟨[_], rest, some 0, v, rfl, runs_alloc.mpr ⟨true, rfl, rfl, rfl⟩, ?_⟩
      refine runs_bind.mpr ⟨rest, [], r, v', by simp, hbody, ?_⟩
      exact runs_bind.mpr ⟨[], [], (), v', rfl, runs_free.mpr ⟨rfl, rfl⟩, rfl, rfl, rfl⟩

theorem runs_readBlock {r : Option Bytes} : (readBlock b).Runs v trace r v' ↔
    ∃ ok, trace = [v.readEvent b ok] ∧ v' = v ∧ r = if ok then some (v.block b) else none := by
  unfold readBlock
  rw [runs_bind]
  constructor
  · rintro ⟨first, rest, fs, u, rfl, ⟨rfl, rfl, rfl⟩, h⟩
    exact runs_readSectors.mp h
  · intro h
    exact ⟨[], trace, v.state, v, rfl, ⟨rfl, rfl, rfl⟩, runs_readSectors.mpr h⟩

theorem runs_writeBlock {data : Bytes} {r : Bool} :
    (writeBlock b data).Runs v trace r v' ↔
      trace = [v.writeEvent b r] ∧ v' = if r then v.setBlock b data else v := by
  unfold writeBlock
  rw [runs_bind]
  constructor
  · rintro ⟨first, rest, fs, u, rfl, ⟨rfl, rfl, rfl⟩, h⟩
    exact runs_writeSectors.mp h
  · intro h
    exact ⟨[], trace, v.state, v, rfl, ⟨rfl, rfl, rfl⟩, runs_writeSectors.mpr h⟩

/-- The read fails, or the program goes on with the contents of the block. -/
theorem runs_readBlock_bind {k : Option Bytes → Ext2M α} :
    (readBlock b >>= k).Runs v trace r v' ↔
      (∃ rest, trace = v.readEvent b false :: rest ∧ (k none).Runs v rest r v') ∨
        ∃ rest, trace = v.readEvent b true :: rest ∧ (k (some (v.block b))).Runs v rest r v' := by
  rw [runs_bind]
  constructor
  · rintro ⟨first, rest, buf, u, rfl, hread, h⟩
    obtain ⟨ok, rfl, rfl, rfl⟩ := runs_readBlock.mp hread
    cases ok with
    | false => exact .inl ⟨rest, rfl, h⟩
    | true => exact .inr ⟨rest, rfl, h⟩
  · rintro (⟨rest, rfl, h⟩ | ⟨rest, rfl, h⟩)
    · exact ⟨[_], rest, _, v, rfl, runs_readBlock.mpr ⟨false, rfl, rfl, rfl⟩, h⟩
    · exact ⟨[_], rest, _, v, rfl, runs_readBlock.mpr ⟨true, rfl, rfl, rfl⟩, h⟩

/-- The write fails and changes nothing, or the block is written. -/
theorem runs_writeBlock_bind {data : Bytes} {k : Bool → Ext2M α} :
    (writeBlock b data >>= k).Runs v trace r v' ↔
      (∃ rest, trace = v.writeEvent b false :: rest ∧ (k false).Runs v rest r v') ∨
        ∃ rest, trace = v.writeEvent b true :: rest ∧
          (k true).Runs (v.setBlock b data) rest r v' := by
  rw [runs_bind]
  constructor
  · rintro ⟨first, rest, ok, u, rfl, hwrite, h⟩
    obtain ⟨rfl, rfl⟩ := runs_writeBlock.mp hwrite
    cases ok with
    | false => exact .inl ⟨rest, rfl, h⟩
    | true => exact .inr ⟨rest, rfl, h⟩
  · rintro (⟨rest, rfl, h⟩ | ⟨rest, rfl, h⟩)
    · exact ⟨[_], rest, false, v, rfl, runs_writeBlock.mpr ⟨rfl, rfl⟩, h⟩
    · exact ⟨[_], rest, true, _, rfl, runs_writeBlock.mpr ⟨rfl, rfl⟩, h⟩

@[simp] theorem Volume.readEvent_ok (b : Nat) (ok : Bool) : (v.readEvent b ok).ok = ok := rfl

@[simp] theorem Volume.writeEvent_ok (b : Nat) (ok : Bool) : (v.writeEvent b ok).ok = ok := rfl

/-! ### What a function has from its parts

A function has many properties because the calls that it makes have them: that it only reads,
that it leaves something in memory alone, that it frees its buffers. Here this is said once,
for every function of the driver. -/

/-- A property that a program has if its parts have it, and that reading has. -/
structure Inherited (P : ∀ {α : Type}, Ext2M α → Prop) : Prop where
  pure : ∀ {α : Type} (a : α), P (pure a)
  bind : ∀ {α β : Type} {p : Ext2M α} {k : α → Ext2M β}, P p → (∀ a, P (k a)) → P (p >>= k)
  getState : P getState
  readSectors : ∀ lba count, P (readSectors lba count)
  withBuffer : ∀ {α : Type} {size : Nat} {failed : α} {body : Ext2M α},
    P body → P (withBuffer size failed body)

/-- The same for a property that writing has too. -/
structure InheritedByWriting (P : ∀ {α : Type}, Ext2M α → Prop) : Prop extends Inherited P where
  writeSectors : ∀ lba count data, P (writeSectors lba count data)

section Inherits

variable {P : ∀ {α : Type}, Ext2M α → Prop}

/-! Functions that only read. -/

section Reading

variable (hP : Inherited P)
include hP

omit hP in
theorem ite_inherits {c : Prop} [Decidable c] {p q : Ext2M α} (hp : P p) (hq : P q) :
    P (if c then p else q) := by
  split_ifs
  · exact hp
  · exact hq

theorem readBlock_inherits (b : Nat) : P (readBlock b) :=
  hP.bind hP.getState fun _ => hP.readSectors ..

/-- A function that reads a block and goes on with its contents. -/
theorem readBlock_bind_inherits {b : Nat} {k : Option Bytes → Ext2M α} (hnone : P (k none))
    (hsome : ∀ buf, P (k (some buf))) : P (readBlock b >>= k) :=
  hP.bind (readBlock_inherits hP b) fun
    | none => hnone
    | some buf => hsome buf

theorem readInode_inherits (inodeNum : Nat) : P (readInode inodeNum) := by
  refine hP.bind hP.getState fun fs => ?_
  cases fs.locateInode inodeNum with
  | none => exact hP.pure _
  | some location =>
    exact hP.withBuffer (readBlock_bind_inherits hP (hP.pure _) fun _ => hP.pure _)

theorem inodeBlockAt_inherits (inode : Inode) (index : Nat) : P (inodeBlockAt inode index) :=
  hP.bind hP.getState fun _ => ite_inherits (hP.pure _) (ite_inherits (hP.pure _)
    (hP.withBuffer (readBlock_bind_inherits hP (hP.pure _) fun _ => hP.pure _)))

/-- A pass over one block of a directory: it goes on with the next block if the block is
missing or cannot be read. The five walks differ in what they do with a block. -/
theorem directoryPass_inherits {inode : Inode} {b : Nat} {next : Ext2M α}
    {visit : FsInstance → Nat → Bytes → Ext2M α} (hnext : P next)
    (hvisit : ∀ fs physBlock buf, P (visit fs physBlock buf)) :
    P (do
      let fs ← getState
      let physBlock ← inodeBlockAt inode b
      if physBlock = 0 then next
      else
        match ← readBlock physBlock with
        | none => next
        | some buf => visit fs physBlock buf) :=
  hP.bind hP.getState fun _ => hP.bind (inodeBlockAt_inherits hP ..) fun _ =>
    ite_inherits hnext (readBlock_bind_inherits hP hnext fun _ => hvisit ..)

theorem lookupLoop_inherits (dirInode : Inode) (name : CString) (n b : Nat) :
    P (lookupLoop dirInode name n b) := by
  induction n generalizing b with
  | zero => exact hP.pure _
  | succ n ih =>
    refine directoryPass_inherits hP (ih _) fun fs physBlock buf => ?_
    cases (entries fs.blockSize buf).find? (isNamed buf name) with
    | none => exact ih _
    | some offset => exact hP.pure _

theorem lookupInDir_inherits (dirInode : Inode) (name : CString) : P (lookupInDir dirInode name) :=
  hP.bind hP.getState fun _ => ite_inherits (hP.pure _) (hP.withBuffer (lookupLoop_inherits hP ..))

theorem enter_inherits (current : Nat) (component : CString) : P (enter current component) :=
  ite_inherits (hP.pure _) (hP.bind (readInode_inherits hP _) fun
    | none => hP.pure _
    | some _ => lookupInDir_inherits hP ..)

theorem resolvePathToInode_inherits (path : CString) : P (resolvePathToInode path) := by
  have hloop : ∀ size path current component, P (resolveLoop size path current component) := by
    intro size path
    induction path with
    | nil => exact enter_inherits hP
    | cons c path ih =>
      intro current component
      exact ite_inherits (hP.bind (enter_inherits hP ..) fun _ => ite_inherits (hP.pure _) (ih ..))
        (ite_inherits (ih ..) (ih ..))
  exact hloop ..

theorem openParent_inherits (path : CString) : P (openParent path) := by
  unfold openParent
  cases splitPath path with
  | none => exact hP.pure _
  | some parts =>
    exact hP.bind (resolvePathToInode_inherits hP _) fun _ => ite_inherits (hP.pure _)
      (hP.bind (readInode_inherits hP _) fun
        | none => hP.pure _
        | some _ => hP.pure _)

theorem openTarget_inherits (path : CString) : P (openTarget path) :=
  hP.bind (openParent_inherits hP path) fun
    | none => hP.pure _
    | some _ => hP.bind (lookupInDir_inherits hP ..) fun _ => ite_inherits (hP.pure _)
      (hP.bind (readInode_inherits hP _) fun
        | none => hP.pure _
        | some _ => hP.pure _)

theorem isDirectory_inherits (path : CString) : P (isDirectory path) :=
  hP.bind (resolvePathToInode_inherits hP _) fun _ => ite_inherits (hP.pure _)
    (hP.bind (readInode_inherits hP _) fun
      | none => hP.pure _
      | some _ => hP.pure _)

theorem readdirLoop_inherits (dirInode : Inode) (index : Int) (n b seen : Nat) :
    P (readdirLoop dirInode index n b seen) := by
  induction n generalizing b seen with
  | zero => exact hP.pure _
  | succ n ih =>
    refine directoryPass_inherits hP (ih ..) fun fs physBlock buf => ?_
    dsimp only
    split
    · exact ih ..
    · exact hP.pure _

theorem readdir_inherits (path : CString) (index : Int) : P (readdir path index) :=
  hP.bind (resolvePathToInode_inherits hP _) fun _ => ite_inherits (hP.pure _)
    (hP.bind (readInode_inherits hP _) fun
      | none => hP.pure _
      | some _ => ite_inherits (hP.pure _)
        (hP.bind hP.getState fun _ => hP.withBuffer (readdirLoop_inherits hP ..)))

theorem hasChildrenLoop_inherits (dirInode : Inode) (n b : Nat) :
    P (hasChildrenLoop dirInode n b) := by
  induction n generalizing b with
  | zero => exact hP.pure _
  | succ n ih =>
    exact directoryPass_inherits hP (ih _) fun _ _ _ => ite_inherits (hP.pure _) (ih _)

theorem readDescriptorBlocks_inherits (bgdtBlock blockSize n i : Nat) (buf : Bytes) :
    P (readDescriptorBlocks bgdtBlock blockSize n i buf) := by
  induction n generalizing i buf with
  | zero => exact hP.pure _
  | succ n ih => exact readBlock_bind_inherits hP (hP.pure _) fun _ => ih ..

end Reading

/-! Functions that write. -/

section Writing

variable (hP : InheritedByWriting P)
include hP

theorem writeBlock_inherits (b : Nat) (data : Bytes) : P (writeBlock b data) :=
  hP.bind hP.getState fun _ => hP.writeSectors ..

theorem writeSuperblock_inherits : P writeSuperblock :=
  hP.bind hP.getState fun _ => hP.writeSectors ..

theorem writeDescriptorBlocks_inherits (bgdtBlock : Nat) (buf : Bytes) (blockSize n i : Nat) :
    P (writeDescriptorBlocks bgdtBlock buf blockSize n i) := by
  induction n generalizing i with
  | zero => exact hP.pure _
  | succ n ih => exact hP.bind (writeBlock_inherits hP ..) fun _ => ite_inherits (ih _) (hP.pure _)

theorem writeGroupDescriptors_inherits : P writeGroupDescriptors :=
  hP.bind hP.getState fun _ => hP.withBuffer (writeDescriptorBlocks_inherits hP ..)

theorem writeInode_inherits (inodeNum : Nat) (inode : Inode) : P (writeInode inodeNum inode) := by
  refine hP.bind hP.getState fun fs => ?_
  cases fs.locateInode inodeNum with
  | none => exact hP.pure _
  | some location =>
    exact hP.withBuffer (readBlock_bind_inherits hP.toInherited (hP.pure _) fun _ =>
      writeBlock_inherits hP ..)

theorem claimBit_inherits (bitmapBlock limit : Nat) : P (claimBit bitmapBlock limit) := by
  refine hP.bind hP.getState fun fs => hP.withBuffer
    (readBlock_bind_inherits hP.toInherited (hP.pure _) fun bitmap => ?_)
  dsimp only
  cases findClear bitmap limit 0 with
  | none => exact hP.pure _
  | some bit => exact hP.bind (writeBlock_inherits hP ..) fun _ => ite_inherits (hP.pure _) (hP.pure _)

theorem allocInGroup_inherits {A : Allocator}
    (htake : ∀ group, P (updateCounters (A.take · group))) (group : Nat) :
    P (A.allocInGroup group) :=
  hP.bind hP.getState fun _ => ite_inherits (hP.pure _) (ite_inherits (hP.pure _)
    (hP.bind (claimBit_inherits hP ..) fun
      | none => hP.pure _
      | some _ => hP.bind (htake group) fun _ => hP.pure _))

theorem alloc_inherits {A : Allocator} (htake : ∀ group, P (updateCounters (A.take · group))) :
    P A.alloc := by
  have hloop : ∀ n group, P (A.allocLoop n group) := by
    intro n
    induction n with
    | zero => exact fun _ => hP.pure _
    | succ n ih =>
      exact fun group => hP.bind (allocInGroup_inherits hP htake group) fun _ =>
        ite_inherits (hP.pure _) (ih _)
  exact hP.bind hP.getState fun _ => hloop ..

theorem free_inherits {A : Allocator} (hgive : ∀ group, P (updateCounters (A.give · group)))
    (num : Nat) : P (A.free num) :=
  ite_inherits (hP.pure _) (hP.bind hP.getState fun _ => ite_inherits (hP.pure _)
    (hP.bind (hP.bind hP.getState fun _ => hP.withBuffer
      (readBlock_bind_inherits hP.toInherited (hP.pure _) fun _ => writeBlock_inherits hP ..))
      fun _ => ite_inherits (hP.bind (hgive _) fun _ => hP.pure _) (hP.pure _)))

theorem insertLoop_inherits (dirInode : Inode) (name : CString) (childInode fileType n b : Nat) :
    P (insertLoop dirInode name childInode fileType n b) := by
  induction n generalizing b with
  | zero => exact hP.pure _
  | succ n ih =>
    refine directoryPass_inherits hP.toInherited (ih _) fun fs physBlock buf => ?_
    dsimp only
    cases (entries fs.blockSize buf).find? (hasRoom buf (dirEntryMinSize (name.length % 256))) with
    | none => exact ih _
    | some offset => exact hP.bind (writeBlock_inherits hP ..) fun _ => hP.pure _

theorem removeDirEntry_inherits (dirInode : Inode) (name : CString) :
    P (removeDirEntry dirInode name) := by
  have hloop : ∀ n b, P (removeLoop dirInode name n b) := by
    intro n
    induction n with
    | zero => exact fun _ => hP.pure _
    | succ n ih =>
      refine fun b => directoryPass_inherits hP.toInherited (ih _) fun fs physBlock buf => ?_
      cases findWithPrev (isNamed buf name) none (entries fs.blockSize buf) with
      | none => exact ih _
      | some found => exact writeBlock_inherits hP ..
  exact hP.bind hP.getState fun _ => hP.withBuffer (hloop ..)

/-! Functions that allocate blocks, if taking a block has the property. -/

section Blocks

variable (htake : ∀ group, P (updateCounters (FsInstance.takeBlock · group)))
include htake

theorem allocBlock_inherits : P allocBlock := alloc_inherits hP htake

theorem ensureIndirect_inherits (inode : Inode) : P (ensureIndirect inode) :=
  hP.bind hP.getState fun _ => ite_inherits (hP.pure _) (hP.bind (allocBlock_inherits hP htake) fun _ =>
    ite_inherits (hP.pure _) (hP.withBuffer (hP.bind (writeBlock_inherits hP ..) fun _ => hP.pure _)))

theorem indirectOrAlloc_inherits (inode : Inode) (index : Nat) : P (indirectOrAlloc inode index) :=
  hP.bind hP.getState fun _ => hP.withBuffer (readBlock_bind_inherits hP.toInherited (hP.pure _)
    fun _ => ite_inherits (hP.pure _) (hP.bind (allocBlock_inherits hP htake) fun _ =>
      ite_inherits (hP.pure _) (hP.bind (writeBlock_inherits hP ..) fun _ => hP.pure _)))

theorem inodeBlockAtOrAlloc_inherits (inode : Inode) (index : Nat) :
    P (inodeBlockAtOrAlloc inode index) :=
  hP.bind hP.getState fun _ => ite_inherits
    (ite_inherits (hP.pure _) (hP.bind (allocBlock_inherits hP htake) fun _ =>
      ite_inherits (hP.pure _) (hP.pure _)))
    (ite_inherits (hP.pure _) (hP.bind (ensureIndirect_inherits hP htake inode) fun
      | (false, _) => hP.pure _
      | (true, inode) => indirectOrAlloc_inherits hP htake inode _))

theorem insertDirEntry_inherits (dirInode : Inode) (name : CString) (childInode fileType : Nat) :
    P (insertDirEntry dirInode name childInode fileType) :=
  hP.bind hP.getState fun _ => hP.withBuffer (hP.bind (insertLoop_inherits hP ..) fun
    | some _ => hP.pure _
    | none => hP.bind hP.getState fun _ => hP.bind (inodeBlockAtOrAlloc_inherits hP htake ..)
      fun _ => ite_inherits (hP.pure _)
        (hP.bind (writeBlock_inherits hP ..) fun _ => ite_inherits (hP.pure _) (hP.pure _)))

theorem createInode_inherits (parent : Parent) (newInodeNum : Nat) (isDirectory : Bool) :
    P (createInode parent newInodeNum isDirectory) := by
  have hlink : ∀ parentInode inode isDirectory,
      P (createLink parent parentInode newInodeNum inode isDirectory) := fun _ _ _ =>
    hP.bind (writeInode_inherits hP ..) fun _ => ite_inherits
      (hP.bind (insertDirEntry_inherits hP htake ..) fun
        | (false, _) => hP.pure _
        | (true, _) => writeInode_inherits hP ..) (hP.pure _)
  have hdots : ∀ parentInodeNum inode, P (createDotBlock newInodeNum parentInodeNum inode) :=
    fun _ _ => hP.bind hP.getState fun _ => hP.bind (allocBlock_inherits hP htake) fun _ =>
      ite_inherits (hP.pure _) (hP.withBuffer
        (hP.bind (writeBlock_inherits hP ..) fun _ => ite_inherits (hP.pure _) (hP.pure _)))
  exact ite_inherits (hP.bind (hdots ..) fun
    | none => hP.pure _
    | some _ => hlink ..) (hlink ..)

theorem read_inherits (handle : Handle) (offset count : Nat) : P (read handle offset count) := by
  have hloop : ∀ count fuel inode data, P (readLoop offset count fuel inode data) := by
    intro count fuel
    induction fuel with
    | zero => exact fun _ _ => hP.pure _
    | succ fuel ih =>
      exact fun _ _ => ite_inherits (hP.bind hP.getState fun _ =>
        hP.bind (inodeBlockAtOrAlloc_inherits hP htake ..) fun _ => ite_inherits (ih ..)
          (readBlock_bind_inherits hP.toInherited (hP.pure _) fun _ => ih ..)) (hP.pure _)
  exact hP.bind hP.getState fun _ => ite_inherits (hP.pure _)
    (hP.withBuffer (hP.bind (hloop ..) fun _ => hP.pure _))

theorem write_inherits (handle : Handle) (offset : Nat) (data : List UInt8) :
    P (write handle offset data) := by
  have hchunk : ∀ b o chunk, P (writeChunk b o chunk) := fun _ _ _ =>
    hP.bind hP.getState fun _ => ite_inherits (readBlock_bind_inherits hP.toInherited (hP.pure _)
      fun _ => writeBlock_inherits hP ..) (writeBlock_inherits hP ..)
  have hloop : ∀ fuel inode written, P (writeLoop offset data fuel inode written) := by
    intro fuel
    induction fuel with
    | zero => exact fun _ _ => hP.pure _
    | succ fuel ih =>
      exact fun _ _ => ite_inherits (hP.bind hP.getState fun _ =>
        hP.bind (inodeBlockAtOrAlloc_inherits hP htake ..) fun _ => ite_inherits (hP.pure _)
          (hP.bind (hchunk ..) fun _ => ite_inherits (ih ..) (hP.pure _))) (hP.pure _)
  exact hP.bind hP.getState fun _ =>
    hP.bind (hP.withBuffer (hP.bind (hloop ..) fun _ => hP.pure _)) fun
      | none => hP.pure _
      | some _ => hP.bind (writeInode_inherits hP ..) fun _ => hP.pure _

end Blocks

/-! Functions that change all the counters. -/

section Counters

variable (hcount : ∀ update, P (updateCounters update))
include hcount

theorem create_inherits (path : CString) (isDirectory : Bool) : P (create path isDirectory) := by
  have htarget : P (createTarget path) :=
    hP.bind (openParent_inherits hP.toInherited path) fun
      | none => hP.pure _
      | some _ => ite_inherits (hP.pure _) (hP.bind (lookupInDir_inherits hP.toInherited ..) fun _ =>
        ite_inherits (hP.pure _) (hP.bind (alloc_inherits hP fun _ => hcount _) fun _ =>
          ite_inherits (hP.pure _) (hP.pure _)))
  exact hP.bind htarget fun
    | none => hP.pure _
    | some _ => createInode_inherits hP (fun _ => hcount _) ..

theorem freeDirectBlocks_inherits (n i : Nat) (inode : Inode) :
    P (freeDirectBlocks n i inode) := by
  induction n generalizing i inode with
  | zero => exact hP.pure _
  | succ n ih =>
    exact ite_inherits (hP.bind (free_inherits hP (fun _ => hcount _) _) fun _ => ih ..) (ih ..)

theorem freeIndirectEntries_inherits (indirect : Bytes) (n i : Nat) :
    P (freeIndirectEntries indirect n i) := by
  induction n generalizing i with
  | zero => exact hP.pure _
  | succ n ih =>
    exact ite_inherits (hP.bind (free_inherits hP (fun _ => hcount _) _) fun _ => ih _) (ih _)

theorem destroyInode_inherits (inodeNum : Nat) (inode : Inode) (finish : Inode → Inode) :
    P (destroyInode inodeNum inode finish) := by
  have hindirect : ∀ inode, P (freeIndirectBlock inode) := fun _ =>
    hP.bind hP.getState fun _ => ite_inherits
      (hP.bind (hP.withBuffer (readBlock_bind_inherits hP.toInherited (hP.pure _)
        fun _ => freeIndirectEntries_inherits hP hcount ..)) fun _ =>
          hP.bind (free_inherits hP (fun _ => hcount _) _) fun _ => hP.pure _) (hP.pure _)
  exact hP.bind (hP.bind (freeDirectBlocks_inherits hP hcount ..) fun _ =>
    hP.bind (hindirect _) fun _ => hP.pure _) fun _ =>
      hP.bind (writeInode_inherits hP ..) fun _ => free_inherits hP (fun _ => hcount _) _

theorem unlinkFile_inherits (path : CString) : P (unlinkFile path) :=
  hP.bind (openTarget_inherits hP.toInherited path) fun
    | none => hP.pure _
    | some _ => ite_inherits (hP.pure _) (hP.bind (removeDirEntry_inherits hP ..) fun _ => ite_inherits
      (hP.bind (writeInode_inherits hP ..) fun _ => destroyInode_inherits hP hcount ..)
      (hP.pure _))

theorem rmdirPath_inherits (path : CString) : P (rmdirPath path) :=
  hP.bind (openTarget_inherits hP.toInherited path) fun
    | none => hP.pure _
    | some _ => ite_inherits (hP.pure _) (hP.bind hP.getState fun _ =>
      hP.bind (hP.withBuffer (hasChildrenLoop_inherits hP.toInherited ..)) fun _ =>
        ite_inherits (hP.pure _) (hP.bind (removeDirEntry_inherits hP ..) fun _ => ite_inherits
          (hP.bind (writeInode_inherits hP ..) fun _ => destroyInode_inherits hP hcount ..)
          (hP.pure _)))

end Counters

end Writing

end Inherits

/-- A function that reads changes nothing. -/
theorem readOnly_inherited : Inherited (@ReadOnly FsInstance) where
  pure := .pure
  bind := .bind
  getState := .getState
  readSectors := .readSectors
  withBuffer hbody := .bind (.alloc _) fun
    | none => .pure _
    | some ptr => .bind hbody fun _ => .bind (.free ptr) fun _ => .pure _

/-- A function that writes changes nothing in memory, the counters apart. -/
theorem keeps_inherited : InheritedByWriting fun {α} (p : Ext2M α) => Keeps f p where
  pure := .pure
  bind := .bind
  getState := .getState
  readSectors lba count := (ReadOnly.readSectors lba count).keeps
  writeSectors := .writeSectors
  withBuffer hbody v trace a v' h := by
    rcases runs_withBuffer.mp h with ⟨-, -, rfl⟩ | ⟨rest, -, hrun⟩
    · rfl
    · exact hbody hrun

/-- The counters are the only thing in memory that changes. -/
theorem updateCounters_keeps {update : FsInstance → FsInstance}
    (hupdate : ∀ fs, f (update fs) = f fs) : Keeps f (updateCounters update) := by
  intro v trace r v' h
  obtain ⟨-, rest, fs, u, -, ⟨-, rfl, rfl⟩, h⟩ := runs_bind.mp h
  obtain ⟨first, tail, done, u', -, hput, h⟩ := runs_bind.mp h
  obtain ⟨-, rfl⟩ := runs_putState.mp hput
  have hrest : Keeps f (do let _ ← writeGroupDescriptors; let _ ← writeSuperblock; pure ()) :=
    .bind (writeGroupDescriptors_inherits keeps_inherited) fun _ =>
      .bind (writeSuperblock_inherits keeps_inherited) fun _ => .pure _
  exact (hrest h).trans (hupdate _)

end WengShiOS.Fs.Ext2
