import WengShiOS.FileFormats.ElfSegments

/-! # Runs of the loader

The headers that are read are those in the file (`Serves.readHeaders`), and the size of the
file says how far the loop over the segments gets (`reached`). An invariant that every segment
keeps holds after all of them (`loadSegments_run`), and then the stack is added
(`stack_added`), so a run of `load` is the headers, the segments and the stack (`load_run`). -/

namespace WengShiOS.FileFormats.Elf

open Math Fs Mm Ehdr

variable {D I P W : Type*} {drivers : D → FilesystemDriver W I P} {v v' v₀ v₁ : Vfs D I P W}
  {fd : Int} {spaces : List Nat} {t t' : Traced} {path : CString} {argv : List CString}
  {kmalloc : Bool} {file : List UInt8} {positioned : Nat → Vfs D I P W → Prop}

/-! ### Headers -/

/-- The header of a file. -/
def headerOf (file : List UInt8) : Ehdr := .ofBytes (bytesOf file)

/-- Where the program headers are read: a negative offset is not taken, and then they are read
behind the header. -/
def tableStart (file : List UInt8) : Nat := seekTarget ehdrSize (headerOf file).ePhoff

def tableEnd (file : List UInt8) : Nat := tableStart file + (headerOf file).ePhnum * phdrSize

/-- The program headers of a file. -/
def phdrsOf (file : List UInt8) : List Phdr :=
  phdrTable (fun i => bytesOf file (tableStart file + i)) (headerOf file).ePhnum

/-- The headers are in the file, and the loader accepts them. -/
structure Executable.Accepted (file : List UInt8) : Prop where
  header : ehdrSize ≤ file.length
  check : (headerOf file).check = none
  table : tableEnd file ≤ file.length

instance (file : List UInt8) : Decidable (Executable.Accepted file) :=
  decidable_of_iff (ehdrSize ≤ file.length ∧ (headerOf file).check = none ∧
    tableEnd file ≤ file.length) ⟨fun h => ⟨h.1, h.2.1, h.2.2⟩, fun h => ⟨h.1, h.2, h.3⟩⟩

theorem Ehdr.ofBytes_congr {b b' : Bytes} (h : ∀ i < ehdrSize, b i = b' i) :
    ofBytes b = ofBytes b' := by
  have hread : ∀ a n, a + n ≤ ehdrSize → readLE n b a = readLE n b' a := fun a n hle =>
    readLE_congr fun i hi => h _ (by omega)
  have hident : window b 0 16 = window b' 0 16 := window_congr fun i hi => h _ (by
    simp only [ehdrSize]
    omega)
  simp only [ofBytes, hident, hread _ _ (by decide : 16 + 2 ≤ ehdrSize),
    hread _ _ (by decide : 18 + 2 ≤ ehdrSize), hread _ _ (by decide : 24 + 8 ≤ ehdrSize),
    hread _ _ (by decide : 32 + 8 ≤ ehdrSize), hread _ _ (by decide : 54 + 2 ≤ ehdrSize),
    hread _ _ (by decide : 56 + 2 ≤ ehdrSize)]

theorem phdrTable_congr {b b' : Bytes} {n : Nat} (h : ∀ i < n * phdrSize, b i = b' i) :
    phdrTable b n = phdrTable b' n := by
  apply List.map_congr_left
  intro k hk
  have hread : ∀ a m, a + m ≤ phdrSize →
      readLE m b (k * phdrSize + a) = readLE m b' (k * phdrSize + a) := by
    intro a m hle
    refine readLE_congr fun i hi => h _ ?_
    have := Nat.mul_le_mul_right phdrSize (List.mem_range.mp hk)
    rw [Nat.succ_mul] at this
    omega
  have hfirst := hread 0 4 (by decide)
  rw [Nat.add_zero] at hfirst
  simp only [Phdr.ofBytes, hfirst, hread _ _ (by decide : 4 + 4 ≤ phdrSize),
    hread _ _ (by decide : 8 + 8 ≤ phdrSize), hread _ _ (by decide : 16 + 8 ≤ phdrSize),
    hread _ _ (by decide : 32 + 8 ≤ phdrSize), hread _ _ (by decide : 40 + 8 ≤ phdrSize)]

/-- The bytes of a part of the file. -/
theorem bytesOf_take_drop {p n i : Nat} (h : i < n) :
    bytesOf ((file.drop p).take n) i = bytesOf file (p + i) := by
  simp [bytesOf, List.getD_eq_getElem?_getD, h]

theorem Ehdr.ePhnum_lt (b : Bytes) : (ofBytes b).ePhnum < 2 ^ 16 := readLE_lt

theorem Ehdr.ePhnum_pos {header : Ehdr} (h : header.check = none) : 0 < header.ePhnum := by
  unfold check at h
  split_ifs at h
  omega

theorem encoded_of_mem {ph : Phdr} {b : Bytes} {n : Nat} (h : ph ∈ phdrTable b n) : ph.Encoded := by
  obtain ⟨i, -, rfl⟩ := List.mem_map.mp h
  exact ⟨readLE_lt, readLE_lt, readLE_lt⟩

theorem tableSize_lt (file : List UInt8) : (headerOf file).ePhnum * phdrSize < 2 ^ 64 := by
  have := ePhnum_lt (bytesOf file)
  simp only [headerOf, phdrSize]
  omega

/-- Reading the headers ends. -/
theorem Honest.readHeaders (h : Honest drivers) (v : Vfs D I P W) (path : CString) (kmalloc : Bool) :
    ∃ result v', Elf.readHeaders drivers v path kmalloc = some (result, v') := by
  unfold Elf.readHeaders
  dsimp only
  by_cases hfd : (v.openFile drivers path).1 = invalidFd
  · rw [if_pos hfd]
    exact ⟨_, _, rfl⟩
  obtain ⟨ok, buf, v₁, hrun, -⟩ := h.readFully (by decide : ehdrSize < 2 ^ 64)
    (v.openFile drivers path).2 (v.openFile drivers path).1
  rw [if_neg hfd, hrun, Option.bind_some]
  cases ok with
  | false => exact ⟨_, _, rfl⟩
  | true =>
  dsimp only
  rw [if_neg (by decide)]
  split
  · exact ⟨_, _, rfl⟩
  cases kmalloc with
  | false => exact ⟨_, _, rfl⟩
  | true =>
  have hsize : (ofBytes (bytesOf buf)).ePhnum * phdrSize < 2 ^ 64 := by
    have := ePhnum_lt (bytesOf buf)
    simp only [phdrSize]
    omega
  obtain ⟨ok', buf', v₂, hrun', -⟩ := h.readFully hsize _ (v.openFile drivers path).1
  rw [hrun', Option.map_some]
  exact ⟨_, _, rfl⟩

/-- The headers that are read are those in the file. -/
theorem Serves.readHeaders {exe : Executable} (hs : Serves drivers fd file positioned)
    (h : Honest drivers) (hopen : v.openFile drivers path = (fd, v₀)) (hp : positioned 0 v₀)
    (hrun : Elf.readHeaders drivers v path kmalloc = some (.ok exe, v₁)) :
    exe = ⟨fd, headerOf file, phdrsOf file⟩ ∧ positioned (tableEnd file) v₁ ∧ kmalloc = true ∧
      Executable.Accepted file := by
  unfold Elf.readHeaders at hrun
  rw [hopen] at hrun
  dsimp only at hrun
  by_cases hfd : fd = invalidFd
  · rw [if_pos hfd] at hrun
    cases (Prod.mk.inj (Option.some.inj hrun)).1
  rw [if_neg hfd] at hrun
  obtain ⟨⟨ok, buf, v₂⟩, hfirst, hrun⟩ := Option.bind_eq_some_iff.mp hrun
  cases ok with
  | false => cases (Prod.mk.inj (Option.some.inj hrun)).1
  | true =>
  obtain ⟨hbuf, hlen, hp₂⟩ := hs.readFully h (by decide : ehdrSize < 2 ^ 64) hp hfirst
  have hheader : ofBytes (bytesOf buf) = headerOf file := by
    apply ofBytes_congr
    intro i hi
    rw [hbuf, bytesOf_take_drop hi, Nat.zero_add]
  dsimp only at hrun
  rw [if_neg (by decide), hheader] at hrun
  split at hrun
  · cases (Prod.mk.inj (Option.some.inj hrun)).1
  rename_i hcheck
  cases kmalloc with
  | false => cases (Prod.mk.inj (Option.some.inj hrun)).1
  | true =>
  obtain ⟨⟨ok, buf', v₃⟩, hsecond, hrun⟩ := Option.map_eq_some_iff.mp hrun
  cases ok with
  | false => cases (Prod.mk.inj hrun).1
  | true =>
  rw [Nat.zero_add] at hp₂
  obtain ⟨hbuf', hlen', hp₃⟩ := hs.readFully h (tableSize_lt file) (hs.seekTarget hp₂ readLE_lt) hsecond
  obtain ⟨hexe, rfl⟩ := Prod.mk.inj hrun
  rw [hbuf, List.length_take, List.length_drop] at hlen
  rw [hbuf', List.length_take, List.length_drop, ← tableStart] at hlen'
  refine ⟨?_, hp₃, rfl, by omega, hcheck, ?_⟩
  · rw [← Except.ok.inj hexe, phdrsOf]
    congr 1
    apply phdrTable_congr
    intro i hi
    rw [hbuf', bytesOf_take_drop hi, tableStart]
  · have hnum : 0 < (headerOf file).ePhnum * phdrSize := Nat.mul_pos (ePhnum_pos hcheck) (by decide)
    rw [tableEnd]
    omega

/-- If the loader accepts the headers and they can be read, they are. -/
theorem Delivers.readHeaders (hs : Delivers drivers fd file positioned) (h : Honest drivers)
    (hopen : v.openFile drivers path = (fd, v₀)) (hfd : fd ≠ invalidFd) (hp : positioned 0 v₀)
    (hfile : Executable.Accepted file) :
    ∃ v₁, Elf.readHeaders drivers v path true =
      some (.ok ⟨fd, headerOf file, phdrsOf file⟩, v₁) := by
  obtain ⟨v₂, hfirst⟩ := hs.readFully h (by decide : ehdrSize < 2 ^ 64) hp
    (by rw [Nat.zero_add]; exact hfile.header)
  have hp₂ := (hs.toServes.readFully h (by decide) hp hfirst).2.2
  rw [Nat.zero_add] at hp₂
  have hread : ofBytes (bytesOf ((file.drop 0).take ehdrSize)) = headerOf file := by
    apply ofBytes_congr
    intro i hi
    rw [bytesOf_take_drop hi, Nat.zero_add]
  obtain ⟨v₃, hsecond⟩ := hs.readFully h (tableSize_lt file) (hs.seekTarget hp₂ readLE_lt) hfile.table
  have hrun : Elf.readHeaders drivers v path true = some (.ok ⟨fd, headerOf file,
      phdrTable (bytesOf ((file.drop (tableStart file)).take
        ((headerOf file).ePhnum * phdrSize))) (headerOf file).ePhnum⟩, v₃) := by
    unfold Elf.readHeaders
    rw [hopen]
    dsimp only
    rw [if_neg hfd, hfirst, Option.bind_some]
    dsimp only
    rw [if_neg (by decide), hread, hfile.check]
    rw [if_neg (by decide), hsecond, Option.map_some]
    rfl
  obtain ⟨hexe, -⟩ := hs.toServes.readHeaders h hopen hp hrun
  exact ⟨v₃, hexe ▸ hrun⟩

/-! ### Segments -/

/-- The segments the loop comes to, with the bytes that are stored for each: it ends with the
first one whose data is not all in the file. -/
def reached (size : Nat) : (p : Nat) → List Phdr → List (Phdr × Nat)
  | _, [] => []
  | p, ph :: rest =>
    if ph.pType ≠ ptLoad then reached size p rest
    else (ph, ph.dataSize size p) :: if ph.Whole size p then reached size (ph.dataEnd p) rest else []

/-- The data of all segments is in the file. -/
def ReadsAll (size : Nat) : (p : Nat) → List Phdr → Prop
  | _, [] => True
  | p, ph :: rest =>
    if ph.pType ≠ ptLoad then ReadsAll size p rest
    else ph.Whole size p ∧ ReadsAll size (ph.dataEnd p) rest

/-- The segments of a file that the loop comes to. -/
def reachedOf (file : List UInt8) : List (Phdr × Nat) :=
  if Executable.Accepted file then reached file.length (tableEnd file) (phdrsOf file) else []

theorem reachedOf_eq (h : Executable.Accepted file) :
    reachedOf file = reached file.length (tableEnd file) (phdrsOf file) := if_pos h

theorem of_mem_reached {size p : Nat} {phdrs : List Phdr} {x : Phdr × Nat}
    (h : x ∈ reached size p phdrs) :
    x.1 ∈ phdrs ∧ x.1.pType = ptLoad ∧ x.2 ≤ x.1.pFilesz := by
  induction phdrs generalizing p with
  | nil => cases h
  | cons ph rest ih =>
    have htail : ∀ {p}, x ∈ reached size p rest →
        x.1 ∈ ph :: rest ∧ x.1.pType = ptLoad ∧ x.2 ≤ x.1.pFilesz := fun h =>
      ⟨List.mem_cons_of_mem _ (ih h).1, (ih h).2⟩
    rw [reached] at h
    split_ifs at h with hload hwhole
    · exact htail h
    all_goals
      rcases List.mem_cons.mp h with rfl | h
      · exact ⟨List.mem_cons_self .., not_not.mp hload, ph.dataSize_le size p⟩
    · exact htail h
    · cases h

theorem readsAll_of_forall {size p : Nat} {phdrs : List Phdr}
    (h : ∀ ph ∈ phdrs, ph.pType = ptLoad → ph.pOffset < 2 ^ 63 ∧ ph.pOffset + ph.pFilesz ≤ size) :
    ReadsAll size p phdrs := by
  induction phdrs generalizing p with
  | nil => trivial
  | cons ph rest ih =>
    obtain ⟨hph, hrest⟩ := List.forall_mem_cons.mp h
    rw [ReadsAll]
    split_ifs with hload
    · exact ih hrest
    · obtain ⟨hoffset, hend⟩ := hph (not_not.mp hload)
      refine ⟨.inr ?_, ih hrest⟩
      rwa [seekTarget, if_pos hoffset]

/-- The pages of the stack, in the order in which they are mapped. -/
def stackList : List Nat := List.range' (stackBottom / pageSize) userStackPages

/-- The pages that are mapped for the segments and then for the stack. -/
def mappedPages (segments : List (Phdr × Nat)) : List Nat :=
  segments.flatMap (fun x => x.1.pageList) ++ stackList

theorem mappedPages_cons (x : Phdr × Nat) (rest : List (Phdr × Nat)) :
    mappedPages (x :: rest) = x.1.pageList ++ mappedPages rest := by
  rw [mappedPages, List.flatMap_cons, List.append_assoc]
  rfl

/-- The pages of the segments. -/
def reachedPages (segments : List (Phdr × Nat)) : Set Nat := {n | ∃ x ∈ segments, n ∈ x.1.pages}

theorem reachedPages_nil : reachedPages [] = ∅ := by simp [reachedPages]

theorem reachedPages_cons (x : Phdr × Nat) (rest : List (Phdr × Nat)) :
    reachedPages (x :: rest) = x.1.pages ∪ reachedPages rest := by
  ext n
  simp [reachedPages]

section Segments

variable {phdrs : List Phdr} (hs : Serves drivers fd file positioned) (hhonest : Honest drivers)
  (hencoded : ∀ ph ∈ phdrs, ph.Encoded) (Ok : Phdr → Nat → Prop)
  (hplaced : ∀ {ph k n}, Ok ph n → k ≤ n → ph.Placed k)
  (Inv : List Phdr → Traced → Prop) (Kept : Traced → Prop)
  (hspace : ∀ {done t}, Inv done t → Space spaces t.machine) (hkept : ∀ {done t}, Inv done t → Kept t)
  (hskip : ∀ {done ph rest t}, phdrs = done ++ ph :: rest → ph.pType ≠ ptLoad → Inv done t →
    Inv (done ++ [ph]) t)
  (hstep : ∀ {done ph rest n ok data t t'}, phdrs = done ++ ph :: rest → ph.pType = ptLoad →
    Inv done t → Ok ph n → data.length ≤ n →
    (ok = true → ∃ p, data = (file.drop (seekTarget p ph.pOffset)).take ph.pFilesz) →
    SegmentLoaded spaces done.length ph data t t' → Kept t' ∧ (ok = true → Inv (done ++ [ph]) t'))
include hs hhonest hencoded hplaced hspace hkept hskip hstep

/-- **All segments.** Pages of the segments that the loop comes to are mapped, all of them if no
read inside the file fails, and what every segment keeps is kept; `done` are the headers before
those that are left. By induction on those that are left. -/
theorem loadSegments_run {done rest : List Phdr} {p : Nat} (hsplit : phdrs = done ++ rest)
    (hp : positioned p v) (hinv : Inv done t) (hok : ∀ x ∈ reached file.length p rest, Ok x.1 x.2)
    (hframes : FramesFor t.machine (mappedPages (reached file.length p rest))) :
    ∃ ok v' t', loadSegments drivers fd done.length rest v t = some (ok, v', t') ∧ Kept t' ∧
      (∃ pages ⊆ reachedPages (reached file.length p rest), Acquires spaces t.machine t'.machine pages ∧
        (Delivers drivers fd file positioned → reachedPages (reached file.length p rest) ⊆ pages)) ∧
      (ok = true → ReadsAll file.length p rest ∧ Inv phdrs t' ∧ FramesFor t'.machine stackList) ∧
      (Delivers drivers fd file positioned → ReadsAll file.length p rest → ok = true) := by
  induction rest generalizing done v t p with
  | nil =>
    rw [List.append_nil] at hsplit
    refine ⟨true, v, t, rfl, hkept hinv, ?_, fun _ => ⟨trivial, hsplit ▸ hinv, hframes⟩, fun _ _ => rfl⟩
    rw [reached, reachedPages_nil]
    exact ⟨∅, subset_rfl, .refl (hspace hinv), fun _ => subset_rfl⟩
  | cons ph rest ih =>
    have hmem : ph ∈ phdrs := hsplit ▸ List.mem_append_right _ (List.mem_cons_self ..)
    have hsplit' : phdrs = (done ++ [ph]) ++ rest := by rw [hsplit, List.append_assoc]; rfl
    have hlen : (done ++ [ph]).length = done.length + 1 := by simp
    rw [reached] at hok hframes ⊢
    rw [ReadsAll]
    unfold loadSegments
    by_cases hload : ph.pType = ptLoad
    · rw [if_neg (not_not.mpr hload)] at hok hframes
      rw [if_neg (not_not.mpr hload), if_neg (not_not.mpr hload), reachedPages_cons]
      rw [mappedPages_cons] at hframes
      have hcr3 := (hspace hinv).layout.forest.active
      obtain ⟨hph, hok⟩ := List.forall_mem_cons.mp hok
      obtain ⟨ok, data, v₁, hdata, hle, hread⟩ := hs.segmentData hhonest (hencoded ph hmem) hp
      obtain ⟨t₁, hrun, hloaded, hframes⟩ := loadSegment_loaded (i := done.length) (hspace hinv) hload
        (hplaced hph hle) hframes hdata
      obtain ⟨hkept₁, hnext⟩ := hstep hsplit hload hinv hph hle
        (fun h => ⟨p, (hread h).2.2⟩) hloaded
      rw [hrun, Option.bind_some]
      cases ok with
      | false =>
        -- the pages of the segment are there when its data turns out to be missing
        refine ⟨false, v₁, t₁, rfl, hkept₁, ?_, nofun, fun hd hall => ?_⟩
        · refine ⟨ph.pages, Set.subset_union_left, hloaded.acquires, fun hd => ?_⟩
          have hcut : ¬ ph.Whole file.length p := fun hwhole =>
            absurd (hd.segmentData hhonest (hencoded ph hmem) hp hwhole hdata) (by decide)
          rw [if_neg hcut, reachedPages_nil, Set.union_empty]
        · exact hd.segmentData hhonest (hencoded ph hmem) hp hall.1 hdata
      | true =>
        obtain ⟨hwhole, hp₁, -⟩ := hread rfl
        rw [if_pos hwhole] at hok hframes ⊢
        dsimp only
        rw [if_pos rfl, ← hlen]
        obtain ⟨ok, v', t', hrest, hkept', ⟨pages, hsub, a, hall⟩, hdone, hd⟩ :=
          ih hsplit' hp₁ (hnext rfl) hok hframes
        exact ⟨ok, v', t', hrest, hkept', ⟨_, Set.union_subset_union_right _ hsub,
          hloaded.acquires.trans a hcr3, fun hd => Set.union_subset_union_right _ (hall hd)⟩,
          fun h => ⟨⟨hwhole, (hdone h).1⟩, (hdone h).2⟩, fun h hall => hd h hall.2⟩
    · -- headers of another type are passed over
      rw [if_pos hload] at hok hframes
      rw [if_pos hload, if_pos hload]
      have hrun : loadSegment drivers fd done.length ph v t = some (true, v, t) := if_pos hload
      rw [hrun, Option.bind_some]
      dsimp only
      rw [if_pos rfl, ← hlen]
      exact ih hsplit' hp (hskip hsplit hload hinv) hok hframes

end Segments

/-! ### The stack -/

/-- The pages of the stack. -/
def stackPages : Set Nat := pageRange (stackBottom / pageSize) userStackPages

theorem mem_stackPages {w : Nat} :
    w / pageSize ∈ stackPages ↔ stackBottom ≤ w ∧ w < userStackTop := by
  simp only [stackPages, pageRange, Set.mem_Ico, stackBottom, userStackTop, userStackPages, pageSize]
  omega

/-- The stack was added, with the arguments on it. -/
structure StackAdded (spaces : List Nat) (t t' : Traced) : Prop where
  acquires : Acquires spaces t.machine t'.machine stackPages
  flags : ∀ n ∈ stackPages, ∃ N, pageAt t'.machine n = some (N, (stackFlags ||| pagePresent) &&& 31)
  kept : t.log ⊆ t'.log
  events : ∀ e ∈ t'.log, e ∈ t.log ∨ (∃ n ∈ stackPages, e = .mapped none n) ∨
    ∃ addr count, e = .stored .arguments addr count ∧ stackBottom ≤ addr ∧
      addr + count ≤ userStackTop

theorem stack_added (h : Space spaces t.machine)
    (hframes : FramesFor t.machine stackList) (hfit : ArgsFit argv) :
    ∃ t₁ stack t', t.mapPages none stackFlags stackBottom userStackPages = some t₁ ∧
      setupArgs t₁ userStackTop argv = some (stack, t') ∧ StackAdded spaces t t' := by
  have hcr3 := h.layout.forest.active
  have hbottom : stackBottom = stackBottom / pageSize * pageSize := by decide
  rw [← List.append_nil stackList] at hframes
  obtain ⟨t₁, hmap, hrange, hlog, -⟩ :=
    Traced.mapPages_added none h (by decide : stackFlags < pageSize) hframes
  rw [← hbottom] at hmap
  have hpages : Owned spaces t₁.machine stackPages := hrange.owned_new
  obtain ⟨stack, t', hargs, hpushed⟩ := setupArgs_onStack hrange.space hpages
    (fun w hlow hhigh => mem_stackPages.mpr ⟨hlow, hhigh⟩) hfit
  obtain ⟨f, hstores, -⟩ := hpushed.stores
  refine ⟨t₁, stack, t', hmap, hargs, hrange.toAcquires.stores hstores subset_rfl hcr3, fun n hn => ?_,
    ?_, ?_⟩
  · rw [hstores.pageAt (hrange.cr3 ▸ hcr3) (hpages.user n hn)]
    exact hrange.page n hn
  · refine List.Subset.trans ?_ hpushed.kept
    rw [hlog]
    exact List.subset_append_left ..
  · intro e he
    rcases hpushed.events e he with he | he
    · rw [hlog, List.mem_append, List.mem_map] at he
      rcases he with he | ⟨n, hn, rfl⟩
      · exact .inl he
      · exact .inr (.inl ⟨n, List.mem_range'_1.mp hn, rfl⟩)
    · exact .inr (.inr he)

/-! ### The loader -/

/-- A run of `load` in which the headers are read. -/
theorem load_run {exe : Executable} {ok : Bool}
    (hheaders : readHeaders drivers v path kmalloc = some (.ok exe, v₀))
    (hsegments : loadSegments drivers exe.fd 0 exe.phdrs v₀ t = some (ok, v₁, t'))
    (h : Space spaces t'.machine) (hfit : ArgsFit argv)
    (hframes : ok = true → FramesFor t'.machine stackList) :
    ∃ outcome t'', load drivers v t path argv kmalloc =
        some (outcome, v₁.close drivers exe.fd, t'') ∧
      (ok = false → outcome = .failed path .segmentData ∧ t'' = t') ∧
      (ok = true → outcome.value = exe.header.eEntry ∧ outcome.stack ≠ none ∧
        StackAdded spaces t' t'') := by
  unfold load
  rw [hheaders, Option.bind_some]
  dsimp only
  rw [hsegments, Option.bind_some]
  cases ok with
  | false => exact ⟨_, t', rfl, fun _ => ⟨rfl, rfl⟩, nofun⟩
  | true =>
    obtain ⟨t₁, stack, t'', hmap, hargs, hadded⟩ := stack_added h (hframes rfl) hfit
    dsimp only
    rw [if_neg (by decide), hmap, Option.bind_some, hargs, Option.map_some]
    exact ⟨_, t'', rfl, nofun, fun _ => ⟨rfl, by simp, hadded⟩⟩

end WengShiOS.FileFormats.Elf
