import WengShiOS.Fs.Vfs

/-! # A file that is opened for a while

Code of the kernel that opens a file, reads from it and closes it again borrows a slot of the
table of open files. As long as it only uses its own descriptor, the other slots are not
touched, and after the `close` the table is as before. -/

namespace WengShiOS.Fs.Vfs

open Function

variable {D I P W : Type*} {drivers : D → FilesystemDriver W I P} {v v' : Vfs D I P W}
  {i : Fin maxOpenFiles} {f : OpenFile P} {path : CString} {fd : Int}

/-- The same descriptors are open, for the same files. -/
structure SameOpen (v v' : Vfs D I P W) : Prop where
  inUse : ∀ j, (v'.openFiles j).inUse = (v.openFiles j).inUse
  file : ∀ j, (v.openFiles j).inUse = true → v'.openFiles j = v.openFiles j

/-- In `v'` the slot `i` is in use, which was free in `v`, and the others are as in `v`. -/
structure Borrowed (v v' : Vfs D I P W) (i : Fin maxOpenFiles) : Prop where
  free : (v.openFiles i).inUse = false
  inUse : (v'.openFiles i).inUse = true
  other : ∀ j, j ≠ i → v'.openFiles j = v.openFiles j

theorem SameOpen.of_eq (h : v'.openFiles = v.openFiles) : SameOpen v v' :=
  ⟨fun j => by rw [h], fun j _ => by rw [h]⟩

/-- `open` fails and leaves the table alone, or borrows a slot. -/
theorem openFile_borrowed (h : v.openFile drivers path = (fd, v')) :
    fd = invalidFd ∧ SameOpen v v' ∨ ∃ i : Fin maxOpenFiles, fd = i ∧ Borrowed v v' i := by
  unfold openFile at h
  split at h
  · cases h
    exact .inl ⟨rfl, .of_eq rfl⟩
  split at h
  · cases h
    exact .inl ⟨rfl, .of_eq rfl⟩
  next i hfree =>
  split at h
  · cases h
    exact .inl ⟨rfl, .of_eq rfl⟩
  · cases h
    refine .inr ⟨i, rfl, ?_, ?_, fun j hj => update_of_ne hj _ _⟩
    · simpa using List.find?_some hfree
    · simp

namespace Borrowed

theorem slotOf (b : Borrowed v v' i) : v'.slotOf i = some i := by
  have hrange : 0 ≤ (i : Int) ∧ (i : Int) < maxOpenFiles := ⟨by omega, by omega⟩
  rw [Vfs.slotOf, dif_pos hrange]
  exact if_pos b.inUse

/-- Another value in the borrowed slot. -/
theorem update {w : Vfs D I P W} (b : Borrowed v v' i)
    (h : w.openFiles = update v'.openFiles i f) (hf : f.inUse = true) :
    Borrowed v w i := by
  refine ⟨b.free, ?_, fun j hj => ?_⟩
  · rw [h, update_self, hf]
  · rw [h, update_of_ne hj, b.other j hj]

theorem advance_inUse (n : Int) : (advance f n).inUse = f.inUse := by
  unfold advance
  split_ifs <;> rfl

theorem read (b : Borrowed v v' i) (count : Nat) :
    Borrowed v (v'.read drivers i count).2.2 i := by
  unfold Vfs.read
  rw [b.slotOf]
  refine b.update rfl ?_
  rw [advance_inUse]
  exact b.inUse

theorem seek (b : Borrowed v v' i) (offset : Int) (mode : SeekMode) :
    Borrowed v (v'.seek i offset mode).2 i := by
  unfold Vfs.seek
  rw [b.slotOf]
  dsimp only
  split_ifs
  · exact b
  · exact b.update rfl b.inUse

theorem close (b : Borrowed v v' i) : SameOpen v (v'.close drivers i) := by
  have hclose : (v'.close drivers i).openFiles =
      Function.update v'.openFiles i { v'.openFiles i with inUse := false } := by
    unfold Vfs.close
    rw [b.slotOf]
    rfl
  refine ⟨fun j => ?_, fun j hj => ?_⟩
  · by_cases hji : j = i
    · rw [hclose, hji, update_self, b.free]
    · rw [hclose, update_of_ne hji, b.other j hji]
  · have hji : j ≠ i := by
      rintro rfl
      rw [b.free] at hj
      cases hj
    rw [hclose, update_of_ne hji, b.other j hji]

end Borrowed

end WengShiOS.Fs.Vfs
