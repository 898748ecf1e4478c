import WengShiOS.Fs.Ext2.DirectoryBlock
import WengShiOS.Fs.Ext2.Unleaked

/-! # Directories as maps

The entries in use of all blocks of a directory bind names to inodes. Looking up a name and
listing a directory read these bindings. -/

namespace WengShiOS.Fs.Ext2

open Math Math.Prog Entry Ext2.DirEntry

/-- What an entry that is in use says. -/
structure Binding where
  name : CString
  inode : Nat
  fileType : Nat
  deriving DecidableEq

/-- The binding is neither that of `.` nor that of `..`. -/
def Binding.isChild (x : Binding) : Bool := x.name ≠ [dot] && x.name ≠ [dot, dot]

def Entry.binding (e : Entry) : Option Binding :=
  if e.inode = 0 then none else some ⟨e.name, e.inode, e.fileType⟩

def bindingsOf (es : List Entry) : List Binding := es.filterMap Entry.binding

namespace Volume

variable (v : Volume)

/-- The entries of block `index` of a directory. -/
def entriesAt (dir : Inode) (index : Nat) : List Entry :=
  if v.mapAt dir index = 0 then []
  else blockEntries v.state.blockSize (v.block (v.mapAt dir index))

/-- The bindings of a directory, in the order of the disk. -/
def bindings (dir : Inode) : List Binding :=
  (List.range (v.state.numBlocks dir)).flatMap fun index => bindingsOf (v.entriesAt dir index)

end Volume

variable {v : Volume} {dir : Inode} {name : CString} {e : Entry} {es : List Entry} {index : Nat}

/-! ### Reading -/

theorem isNamed_eq_any : e.isNamed name = e.binding.any fun x => x.name = name := by
  unfold Entry.isNamed Entry.binding
  by_cases h : e.inode = 0 <;> simp [h]

theorem isChild_eq_any : e.isChild = e.binding.any Binding.isChild := by
  unfold Entry.isChild Entry.binding Binding.isChild
  by_cases h : e.inode = 0 <;> simp [h]

theorem find_bindingsOf (name : CString) (es : List Entry) :
    (bindingsOf es).find? (·.name = name) = (es.find? (Entry.isNamed · name)).bind Entry.binding := by
  unfold bindingsOf
  rw [List.find?_filterMap]
  congr 2
  funext e
  exact isNamed_eq_any.symm

/-- The binding of the first entry with a name. -/
theorem inode_of_find (h : es.find? (Entry.isNamed · name) = some e) :
    ∃ x, e.binding = some x ∧ x.inode = e.inode ∧ x.name = name := by
  have hnamed := List.find?_some h
  rw [isNamed_eq_any] at hnamed
  unfold binding at hnamed ⊢
  split_ifs at hnamed ⊢ with h0
  · cases hnamed
  · exact ⟨_, rfl, rfl, by simpa using hnamed⟩

theorem entriesAt_zero (h : v.mapAt dir index = 0) : v.entriesAt dir index = [] := if_pos h

theorem entriesAt_of_ne (h : v.mapAt dir index ≠ 0) :
    v.entriesAt dir index = blockEntries v.state.blockSize (v.block (v.mapAt dir index)) := if_neg h

theorem lookupFrom_eq (dir : Inode) (name : CString) (n b : Nat) :
    v.lookupFrom dir name n b = ((((List.range' b n).flatMap fun index =>
      bindingsOf (v.entriesAt dir index)).find? (·.name = name)).map Binding.inode).getD 0 := by
  induction n generalizing b with
  | zero => rfl
  | succ n ih =>
    rw [Volume.lookupFrom, List.range'_succ, List.flatMap_cons, List.find?_append, ih]
    by_cases hzero : v.mapAt dir b = 0
    · rw [if_pos hzero, entriesAt_zero hzero]
      rfl
    · rw [if_neg hzero, entriesAt_of_ne hzero, find_bindingsOf, ← find_isNamed]
      dsimp only
      cases hfind : (entries v.state.blockSize (v.block (v.mapAt dir b))).find?
          (isNamed (v.block (v.mapAt dir b)) name) with
      | none => simp
      | some offset =>
        have hentry := find_isNamed v.state.blockSize (v.block (v.mapAt dir b)) name
        rw [hfind, Option.map_some] at hentry
        obtain ⟨x, hx, hinode, -⟩ := inode_of_find hentry.symm
        simp [hx, hinode]

/-- **Lookup.** The inode that the directory binds the name to, or 0. -/
theorem lookup_eq (hdir : dir.isDir = true) (name : CString) : v.lookup dir name =
    (((v.bindings dir).find? (·.name = name)).map Binding.inode).getD 0 := by
  unfold Volume.lookup Volume.bindings
  rw [if_pos hdir, lookupFrom_eq, List.range_eq_range']

/-- What `readdir` stores for a child. -/
def Binding.listed (x : Binding) : DirEntry := ⟨x.name.take 63, x.fileType = ftDir⟩

/-- The children of a directory, in the order of the disk. -/
def Volume.childrenOf (v : Volume) (dir : Inode) : List Binding :=
  (v.bindings dir).filter Binding.isChild

/-- The entries of a block that `readdir` counts are the children among its bindings. -/
theorem children_block (bs : Nat) (buf : Bytes) :
    (bindingsOf (blockEntries bs buf)).filter Binding.isChild =
      ((entries bs buf).filter (isChild buf)).filterMap fun offset => (entryAt buf offset).binding := by
  unfold bindingsOf blockEntries
  rw [List.filter_filterMap, List.filterMap_map, List.filterMap_filter]
  refine List.filterMap_congr fun offset _ => ?_
  rw [Function.comp_apply, ← isChild_entryAt, isChild_eq_any]
  cases (entryAt buf offset).binding with
  | none => simp
  | some x => by_cases hx : x.isChild <;> simp [hx]

theorem listed_entryAt {buf : Bytes} {offset : Nat} {x : Binding}
    (h : (entryAt buf offset).binding = some x) :
    (⟨DirEntry.name buf offset (min (DirEntry.nameLen buf offset) 63),
      fileType buf offset = ftDir⟩ : DirEntry) = x.listed := by
  unfold binding at h
  rw [inode_entryAt] at h
  split_ifs at h with h0
  cases h
  have hname := name_entryAt h0
  have htype : (entryAt buf offset).fileType = fileType buf offset := by
    unfold entryAt
    rw [if_neg h0]
  rw [hname, htype]
  congr 1
  unfold DirEntry.name
  rw [← List.map_take, List.take_range, Nat.min_comm]

/-- The children of a block, as `readdir` stores them. -/
theorem listed_children (bs : Nat) (buf : Bytes) :
    ((bindingsOf (blockEntries bs buf)).filter Binding.isChild).map Binding.listed =
      ((entries bs buf).filter (isChild buf)).map fun offset =>
        ⟨DirEntry.name buf offset (min (DirEntry.nameLen buf offset) 63),
          fileType buf offset = ftDir⟩ := by
  rw [children_block, List.map_filterMap, ← List.filterMap_eq_map]
  refine List.filterMap_congr fun offset hoffset => ?_
  have hchild := (List.mem_filter.mp hoffset).2
  rw [← isChild_entryAt, isChild_eq_any] at hchild
  cases hx : (entryAt buf offset).binding with
  | none =>
    rw [hx] at hchild
    cases hchild
  | some x => simp [listed_entryAt hx]

/-- **Listing.** Child number `index`, where `seen` children came before these blocks. -/
theorem exec_readdirLoop (dir : Inode) (index : Int) (n b seen : Nat) :
    (readdirLoop dir index n b seen).exec v =
      ((if seen ≤ index then ((((List.range' b n).flatMap fun i =>
        (bindingsOf (v.entriesAt dir i)).filter Binding.isChild).map
          Binding.listed)[(index - seen).toNat]?) else none), v) := by
  induction n generalizing b seen with
  | zero => simp [readdirLoop]
  | succ n ih =>
    rw [readdirLoop, List.range'_succ, List.flatMap_cons, List.map_append, exec_bind, exec_getState]
    simp only [exec_bind, exec_inodeBlockAt, exec_ite, exec_readBlock]
    by_cases hzero : v.mapAt dir b = 0
    · rw [if_pos hzero, entriesAt_zero hzero, ih]
      rfl
    rw [if_neg hzero, entriesAt_of_ne hzero, listed_children]
    set children := (entries v.state.blockSize (v.block (v.mapAt dir b))).filter
      (isChild (v.block (v.mapAt dir b))) with hchildren
    by_cases hseen : (seen : Int) ≤ index
    swap
    · rw [if_neg hseen, if_neg hseen]
      rw [ih, if_neg (by push_cast; omega)]
    rw [if_pos hseen, if_pos hseen]
    rcases Nat.lt_or_ge (index - seen).toNat children.length with hlt | hge
    · rw [List.getElem?_append_left (by simpa using hlt), List.getElem?_map,
        List.getElem?_eq_getElem hlt]
      rfl
    · rw [List.getElem?_append_right (by simpa using hge), List.getElem?_eq_none hge]
      rw [ih, if_pos (by push_cast; omega), List.length_map]
      congr 3
      push_cast
      omega

end WengShiOS.Fs.Ext2
