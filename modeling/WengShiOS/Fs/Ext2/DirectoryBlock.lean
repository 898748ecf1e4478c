import WengShiOS.Fs.Ext2.Driver

/-! # Directory blocks

A block of a directory is a chain of entries. What the functions on directories look for in a
chain is said here in terms of the list of its entries. -/

namespace WengShiOS.Fs.Ext2

open Math Math.Prog Ext2.DirEntry

/-- An entry of a directory block. An entry that is not in use has inode 0 and no name. -/
structure Entry where
  recLen : Nat
  inode : Nat
  name : CString
  fileType : Nat
  deriving DecidableEq

namespace Entry

variable (e : Entry)

def isNamed (name : CString) : Bool := e.inode ≠ 0 && e.name = name

/-- The entry is in use and is neither `.` nor `..`. -/
def isChild : Bool := e.inode ≠ 0 && e.name ≠ [dot] && e.name ≠ [dot, dot]

end Entry

/-- The entry at an offset. -/
def entryAt (buf : Bytes) (offset : Nat) : Entry :=
  if DirEntry.inode buf offset = 0 then ⟨DirEntry.recLen buf offset, 0, [], 0⟩
  else ⟨DirEntry.recLen buf offset, DirEntry.inode buf offset,
    DirEntry.name buf offset (DirEntry.nameLen buf offset), DirEntry.fileType buf offset⟩

variable {buf : Bytes} {offset : Nat} {name : CString}

/-! ### Reading an entry -/

@[simp] theorem inode_entryAt : (entryAt buf offset).inode = inode buf offset := by
  unfold entryAt
  split_ifs with h
  · exact h.symm
  · rfl

theorem name_entryAt (h : inode buf offset ≠ 0) : (entryAt buf offset).name =
    DirEntry.name buf offset (DirEntry.nameLen buf offset) := by
  unfold entryAt
  rw [if_neg h]

@[simp] theorem length_name (n : Nat) : (DirEntry.name buf offset n).length = n := by
  simp [name]

theorem isNamed_entryAt : (entryAt buf offset).isNamed name = isNamed buf name offset := by
  unfold Entry.isNamed isNamed
  rw [inode_entryAt]
  by_cases h : inode buf offset = 0
  · simp [h]
  · rw [name_entryAt h, Bool.and_assoc]
    congr 1
    rw [← Bool.decide_and, decide_eq_decide]
    constructor
    · rintro rfl
      simp
    · rintro ⟨hlen, hname⟩
      rw [hlen, hname]

theorem isChild_entryAt : (entryAt buf offset).isChild = isChild buf offset := by
  unfold Entry.isChild isChild
  rw [inode_entryAt]
  by_cases h : inode buf offset = 0
  · simp [h]
  · have hname : ∀ name : CString, decide ((entryAt buf offset).name = name) =
        (decide (nameLen buf offset = name.length) &&
          decide (DirEntry.name buf offset name.length = name)) := by
      intro name
      have : (entryAt buf offset).isNamed name = isNamed buf name offset := isNamed_entryAt
      simpa [Entry.isNamed, isNamed, h] using this
    have hdot := hname [dot]
    have hdotdot := hname [dot, dot]
    simp only [List.length_cons, List.length_nil, Nat.zero_add] at hdot hdotdot
    simp only [h, ne_eq, not_false_eq_true, decide_true, Bool.true_and, decide_not, hdot, hdotdot]

/-! ### Chains -/

/-- The entries of a block. -/
def blockEntries (bs : Nat) (buf : Bytes) : List Entry := (entries bs buf).map (entryAt buf)

theorem find_isNamed (bs : Nat) (buf : Bytes) (name : CString) :
    ((entries bs buf).find? (isNamed buf name)).map (entryAt buf) =
      (blockEntries bs buf).find? (Entry.isNamed · name) := by
  unfold blockEntries
  rw [List.find?_map]
  congr 2
  funext x
  exact isNamed_entryAt.symm

end WengShiOS.Fs.Ext2
