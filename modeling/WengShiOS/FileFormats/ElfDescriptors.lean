import WengShiOS.FileFormats.ElfLoad
import WengShiOS.Fs.BorrowedFile

/-! # The descriptor of the loader

`load` opens one file. Whatever it returns, and wherever it gives up, the table of open files
is then as before (`load_sameOpen`). -/

namespace WengShiOS.FileFormats.Elf

open Fs Mm

variable {D I P W : Type*} {drivers : D → FilesystemDriver W I P} {v v' v'' : Vfs D I P W}
  {fd : Fin maxOpenFiles} {t t' : Traced} {path : CString} {argv : List CString}
  {kmalloc ok : Bool} {count fuel total i : Nat} {buf data : List UInt8}

theorem readFullyLoop_borrowed (b : v.Borrowed v' fd)
    (h : readFullyLoop drivers fd count fuel v' total buf = some (ok, data, v'')) :
    v.Borrowed v'' fd := by
  induction fuel generalizing v' total buf with
  | zero => cases h
  | succ fuel ih =>
    by_cases hlt : total < count
    · obtain ⟨n, data₁, v₁, hread⟩ : ∃ n data₁ v₁,
          v'.read drivers fd (count - total) = (n, data₁, v₁) := ⟨_, _, _, rfl⟩
      have b₁ : v.Borrowed v₁ fd := by
        have hborrowed : v.Borrowed (v'.read drivers fd (count - total)).2.2 fd := b.read _
        rwa [hread] at hborrowed
      by_cases hpos : 0 < n
      · rw [readFullyLoop_next hlt hread hpos] at h
        exact ih b₁ h
      · rw [readFullyLoop_stop hlt hread (by omega)] at h
        obtain ⟨-, hrest⟩ := Prod.mk.inj (Option.some.inj h)
        obtain ⟨-, rfl⟩ := Prod.mk.inj hrest
        exact b₁
    · rw [readFullyLoop_done (by omega)] at h
      obtain ⟨-, hrest⟩ := Prod.mk.inj (Option.some.inj h)
      obtain ⟨-, rfl⟩ := Prod.mk.inj hrest
      exact b

theorem readFully_borrowed (b : v.Borrowed v' fd)
    (h : readFully drivers v' fd count = some (ok, data, v'')) : v.Borrowed v'' fd :=
  readFullyLoop_borrowed b h

/-- The headers: the file is closed again, or it stays open for the segments. -/
theorem readHeaders_borrowed {result : Except Failure Executable}
    (h : readHeaders drivers v path kmalloc = some (result, v')) :
    (∃ failure, result = .error failure) ∧ v.SameOpen v' ∨
      ∃ exe fd, result = .ok exe ∧ exe.fd = (fd : Fin maxOpenFiles) ∧ v.Borrowed v' fd := by
  unfold readHeaders at h
  obtain ⟨fd, v₀, hopen⟩ : ∃ fd v₀, v.openFile drivers path = (fd, v₀) := ⟨_, _, rfl⟩
  rw [hopen] at h
  dsimp only at h
  rcases Vfs.openFile_borrowed hopen with ⟨rfl, hsame⟩ | ⟨fd, rfl, b⟩
  · cases h
    exact .inl ⟨⟨_, rfl⟩, hsame⟩
  obtain ⟨⟨ok, buf, v₁⟩, hfirst, h⟩ := Option.bind_eq_some_iff.mp h
  have b₁ := readFully_borrowed b hfirst
  cases ok with
  | false =>
    cases h
    exact .inl ⟨⟨_, rfl⟩, b₁.close⟩
  | true =>
  dsimp only at h
  rw [if_neg (by decide)] at h
  split at h
  · cases h
    exact .inl ⟨⟨_, rfl⟩, b₁.close⟩
  have b₂ := b₁.seek (toInt64 (Ehdr.ofBytes (bytesOf buf)).ePhoff) .set
  cases kmalloc with
  | false =>
    cases h
    exact .inl ⟨⟨_, rfl⟩, b₂.close⟩
  | true =>
  obtain ⟨⟨ok, buf', v₃⟩, hsecond, h⟩ := Option.map_eq_some_iff.mp h
  have b₃ := readFully_borrowed b₂ hsecond
  cases ok with
  | false =>
    cases h
    exact .inl ⟨⟨_, rfl⟩, b₃.close⟩
  | true =>
    cases h
    exact .inr ⟨_, fd, rfl, rfl, b₃⟩

theorem loadSegment_borrowed {ph : Phdr} (b : v.Borrowed v' fd)
    (h : loadSegment drivers fd i ph v' t = some (ok, v'', t')) : v.Borrowed v'' fd := by
  by_cases hload : ph.pType = ptLoad
  · obtain ⟨data, -, -, hdata, -⟩ := loadSegment_cases hload h
    unfold segmentData at hdata
    split_ifs at hdata
    · cases hdata
      exact b
    · exact readFully_borrowed (b.seek _ _) hdata
  · rw [loadSegment, if_pos hload] at h
    cases h
    exact b

theorem loadSegments_borrowed {phdrs : List Phdr} (b : v.Borrowed v' fd)
    (h : loadSegments drivers fd i phdrs v' t = some (ok, v'', t')) : v.Borrowed v'' fd := by
  induction phdrs generalizing v' i t with
  | nil =>
    obtain ⟨-, hrest⟩ := Prod.mk.inj (Option.some.inj h)
    obtain ⟨rfl, -⟩ := Prod.mk.inj hrest
    exact b
  | cons ph rest ih =>
    obtain ⟨⟨ok₁, v₁, t₁⟩, hsegment, h⟩ := Option.bind_eq_some_iff.mp h
    have b₁ := loadSegment_borrowed b hsegment
    cases ok₁ with
    | false =>
      obtain ⟨-, hrest⟩ := Prod.mk.inj (Option.some.inj h)
      obtain ⟨rfl, -⟩ := Prod.mk.inj hrest
      exact b₁
    | true => exact ih b₁ h

/-- **Every return of the loader** leaves the open files as they were. -/
theorem load_sameOpen {outcome : Outcome}
    (h : load drivers v t path argv kmalloc = some (outcome, v', t')) : v.SameOpen v' := by
  obtain ⟨⟨result, v₁⟩, hheaders, h⟩ := Option.bind_eq_some_iff.mp h
  rcases readHeaders_borrowed hheaders with ⟨⟨failure, rfl⟩, hsame⟩ | ⟨exe, fd, rfl, hfd, b⟩
  · obtain ⟨-, hrest⟩ := Prod.mk.inj (Option.some.inj h)
    obtain ⟨rfl, -⟩ := Prod.mk.inj hrest
    exact hsame
  dsimp only at h
  rw [hfd] at h
  obtain ⟨⟨ok, v₂, t₂⟩, hsegments, h⟩ := Option.bind_eq_some_iff.mp h
  have hclose : v.SameOpen (v₂.close drivers fd) := (loadSegments_borrowed b hsegments).close
  split_ifs at h
  · obtain ⟨-, hrest⟩ := Prod.mk.inj (Option.some.inj h)
    obtain ⟨rfl, -⟩ := Prod.mk.inj hrest
    exact hclose
  · obtain ⟨t₃, -, h⟩ := Option.bind_eq_some_iff.mp h
    obtain ⟨⟨stack, t₄⟩, -, h⟩ := Option.map_eq_some_iff.mp h
    obtain ⟨-, hrest⟩ := Prod.mk.inj h
    obtain ⟨rfl, -⟩ := Prod.mk.inj hrest
    exact hclose

end WengShiOS.FileFormats.Elf
