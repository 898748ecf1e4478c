import WengShiOS.FileFormats.ElfImage

/-! # Which memory the loader touches

For any file: if every segment the loader comes to is below the top of the stack and above the
first GiB, which the kernel half shares, and the data of no segment goes beyond its pages, then
all pages that are mapped and all bytes that are stored are in the user half, and nothing that
was in use before is written; and a run that returns an entry point is only then safe
(`load_safe`). The loader checks none of this: a segment without pages puts the data of the
file into the kernel (`not_load_safe`). -/

namespace WengShiOS.FileFormats.Elf

open Math Fs Mm Machine Phdr

variable {D I P W : Type*} {drivers : D → FilesystemDriver W I P} {v v' v₀ : Vfs D I P W} {fd : Int}
  {spaces : List Nat} {m : Machine} {t t' t'' : Traced} {path : CString} {argv : List CString}
  {kmalloc ok : Bool} {data file : List UInt8} {positioned : Nat → Vfs D I P W → Prop} {ph : Phdr}
  {i n s k : Nat} {p : List Nat} {log log' : List Event} {e : Event}

/-- Where user memory starts: the tables of the first GiB are also those of the kernel half. -/
def userStart : Nat := 2 ^ 30

/-- A segment that is in user memory with `n` bytes of data on its pages, or has neither pages
nor data. -/
def Phdr.Confined (ph : Phdr) (n : Nat) : Prop :=
  ph.segEnd = ph.segStart ∧ n = 0 ∨
    userStart ≤ ph.segStart ∧ ph.segStart ≤ ph.segEnd ∧ ph.segEnd ≤ userStackTop ∧
      (n = 0 ∨ ph.pVaddr + n ≤ ph.segEnd)

/-- What the loader may do: map pages of user memory up to the top of the stack, and store
there; data of the file only on pages that were mapped for its segment. -/
def Event.Safe (log : List Event) : Event → Prop
  | .mapped _ page => userStart / pageSize ≤ page ∧ page < userStackTop / pageSize
  | .stored purpose addr count => count = 0 ∨
      userStart ≤ addr ∧ addr + count ≤ userStackTop ∧
        ∀ segment, purpose = .file segment → ∀ w, addr ≤ w → w < addr + count →
          .mapped (some segment) (w / pageSize) ∈ log

theorem Phdr.Confined.placed (h : ph.Confined n) (hle : k ≤ n) : ph.Placed k := by
  rcases h with ⟨hend, hn⟩ | ⟨-, horder, -, hdata⟩
  · exact ⟨hend.ge, by omega⟩
  · exact ⟨horder, by omega⟩

theorem Phdr.Confined.mono (h : ph.Confined n) (hle : k ≤ n) : ph.Confined k := by
  unfold Confined at h ⊢
  omega

theorem Phdr.Confined.page (h : ph.Confined k) (hn : n ∈ ph.pages) :
    userStart / pageSize ≤ n ∧ n < userStackTop / pageSize := by
  have hpage : n * pageSize / pageSize = n := Nat.mul_div_cancel n (by decide)
  rw [← hpage, mem_pages] at hn
  unfold Confined at h
  simp only [userStart, userStackTop, pageSize] at *
  omega

theorem Event.Safe.mono (hsub : log ⊆ log') (h : e.Safe log) : e.Safe log' := by
  cases e with
  | mapped segment page => exact h
  | stored purpose addr count =>
    refine h.imp_right fun ⟨hlow, hhigh, hfile⟩ => ⟨hlow, hhigh, fun segment hp w hle hlt => ?_⟩
    exact hsub (hfile segment hp w hle hlt)

/-- All that is in the log is safe, so far. -/
structure Guarded (spaces : List Nat) (t : Traced) : Prop where
  space : Space spaces t.machine
  events : ∀ e ∈ t.log, e.Safe t.log

theorem Guarded.segment (g : Guarded spaces t) (hph : ph.Confined n) (hdata : data.length ≤ n)
    (s : SegmentLoaded spaces i ph data t t') : Guarded spaces t' := by
  refine ⟨s.acquires.space, fun e he => ?_⟩
  rcases s.events e he with he | ⟨n, hn, rfl⟩ | rfl | ⟨count, hcount, rfl⟩
  · exact (g.events e he).mono s.kept
  · exact hph.page hn
  · have hsize := clearedSize (hph.placed hdata).order
    rcases hph with ⟨hend, -⟩ | ⟨hlow, -, hhigh, -⟩
    · exact .inl (by omega)
    · exact .inr ⟨hlow, by omega, nofun⟩
  · -- the data is on the pages of the segment
    have hstart : ph.segStart ≤ ph.pVaddr := Nat.div_mul_le_self ..
    rcases (hph.mono (hcount.trans hdata)) with ⟨-, hzero⟩ | ⟨hlow, -, hhigh, hzero | hfile⟩
    · exact .inl hzero
    · exact .inl hzero
    · refine .inr ⟨by omega, by omega, fun segment hp w hle hlt => ?_⟩
      obtain rfl := Purpose.file.inj hp
      exact s.mapped _ (mem_pages.mpr ⟨by omega, by omega⟩)

theorem stackPages_user (hn : n ∈ stackPages) :
    userStart / pageSize ≤ n ∧ n < userStackTop / pageSize := by
  simp only [stackPages, pageRange, Set.mem_Ico, stackBottom, userStackTop, userStackPages,
    userStart, pageSize] at hn ⊢
  omega

theorem Guarded.stack (g : Guarded spaces t) (hadded : StackAdded spaces t t') :
    Guarded spaces t' := by
  refine ⟨hadded.acquires.space, fun e he => ?_⟩
  rcases hadded.events e he with he | ⟨n, hn, rfl⟩ | ⟨addr, count, rfl, hlow, hhigh⟩
  · exact (g.events e he).mono hadded.kept
  · exact stackPages_user hn
  · have hbottom : userStart ≤ stackBottom := by decide
    exact .inr ⟨hbottom.trans hlow, hhigh, nofun⟩

/-- The log grows, and the pages that are mapped are those of segments from `i` on. -/
structure Grows (i : Nat) (t t' : Traced) : Prop where
  kept : t.log ⊆ t'.log
  mapped : ∀ {j n}, .mapped (some j) n ∈ t'.log → .mapped (some j) n ∈ t.log ∨ i ≤ j

theorem Grows.refl (i : Nat) (t : Traced) : Grows i t t := ⟨List.Subset.refl _, .inl⟩

theorem Grows.trans (h : Grows i t t') (h' : Grows k t' t'') (hle : i ≤ k) : Grows i t t'' := by
  refine ⟨List.Subset.trans h.kept h'.kept, fun he => ?_⟩
  rcases h'.mapped he with he | hj
  · exact h.mapped he
  · exact .inr (hle.trans hj)

/-- What a segment leaves in the log whose data could be read. -/
structure Logged (i : Nat) (ph : Phdr) (t t' : Traced) : Prop where
  kept : t.log ⊆ t'.log
  mapped : ∀ {j n}, .mapped (some j) n ∈ t'.log → .mapped (some j) n ∈ t.log ∨ j = i ∧ n ∈ ph.pages
  zero : .stored (.zero i) ph.segStart (wrapSub ph.segEnd ph.segStart) ∈ t'.log
  data : ph.pFilesz ≠ 0 → .stored (.file i) ph.pVaddr ph.pFilesz ∈ t'.log

theorem Logged.grows (l : Logged i ph t t') : Grows i t t' :=
  ⟨l.kept, fun he => (l.mapped he).imp_right fun h => h.1.ge⟩

end WengShiOS.FileFormats.Elf
