import WengShiOS.FileFormats.ElfLoad

/-! # What the parts of the loader do

One segment whose pages are in the user half, with enough frames for them: its pages are
new and hold the data of the file and zeroes, and all other memory stays as it was
(`loadSegment_loaded`). How much of its data is read is a matter of the size of the file
(`Serves.segmentData`). The stack: if the arguments fit, `setupArgs` stores the strings at
its top and the array of their addresses below them (`setupArgs_argStores`). -/

namespace WengShiOS.FileFormats.Elf

open Math Fs Mm Traced Phdr

variable {D I P W : Type*} {drivers : D → FilesystemDriver W I P} {v v' : Vfs D I P W} {fd : Int}
  {spaces : List Nat} {t t' t'' : Traced} {k n i w flags addr : Nat} {ph : Phdr}
  {data : List UInt8} {pages : Set Nat} {rest : List Nat}

/-! ### Steps -/

/-- A range of pages, with frames for them and for the pages in `rest`. -/
theorem Traced.mapPages_added (segment : Option Nat) (h : Space spaces t.machine)
    (hflags : flags < pageSize) (hframes : FramesFor t.machine (List.range' k n ++ rest)) :
    ∃ t', t.mapPages segment flags (k * pageSize) n = some t' ∧
      RangeAdded spaces t.machine t'.machine k n flags ∧
      t'.log = t.log ++ (List.range' k n).map (.mapped segment) ∧
      FramesFor t'.machine rest := by
  induction n generalizing t k with
  | zero => exact ⟨t, rfl, .refl h k, by simp, hframes⟩
  | succ n ih =>
    rw [List.range'_succ, List.cons_append] at hframes
    have hpage : k * pageSize / pageSize = k := Nat.mul_div_cancel k (by decide)
    have hk : k < userPages := hframes.user k (List.mem_cons_self ..)
    obtain ⟨N, m₁, hrun, hadded⟩ := h.allocAndMapPage (v := k * pageSize) (hpage.symm ▸ hk) hflags
      hframes.missing_lt
    rw [hpage] at hadded
    have hstep : t.allocAndMapPage segment (k * pageSize) flags =
        some ⟨m₁, t.log ++ [.mapped segment k]⟩ := by
      rw [allocAndMapPage, hrun, Option.map_some]
      dsimp only
      rw [if_pos rfl, Nat.mul_div_cancel k (by decide)]
    obtain ⟨t', hrun', hrange, hlog, hrest⟩ := ih (t := ⟨m₁, t.log ++ [.mapped segment k]⟩)
      hadded.space (hadded.supply _ hframes)
    refine ⟨t', ?_, .cons h.layout.forest.active hk hadded hrange, ?_, hrest⟩
    · rw [mapPages, hstep, Option.bind_some, ← Nat.succ_mul]
      exact hrun'
    · rw [hlog, List.range'_succ, List.map_cons, List.append_assoc]
      rfl

theorem Traced.store_stored (purpose : Purpose) (addr : Nat) (data : List UInt8)
    (h : Space spaces t.machine) (o : Owned spaces t.machine pages)
    (hin : ∀ w, addr ≤ w → w < addr + data.length → w / pageSize ∈ pages) :
    ∃ t', t.store purpose addr data = some t' ∧
      Stores spaces t.machine t'.machine pages (stored addr data) ∧
      t'.log = t.log ++ [.stored purpose addr data.length] := by
  obtain ⟨m', hrun, hstores⟩ := o.storeBytes h data hin
  refine ⟨⟨m', _⟩, ?_, hstores, rfl⟩
  rw [store, hrun, Option.map_some]

/-! ### Where a segment is -/

namespace Phdr

theorem segEnd_lt (ph : Phdr) : ph.segEnd < 2 ^ 64 := by
  simp only [segEnd, wrap, pageSize]
  omega

theorem segEnd_eq (h : ph.pVaddr + ph.pMemsz ≤ 2 ^ 47) :
    ph.segEnd = (ph.pVaddr + ph.pMemsz + 4095) / 4096 * 4096 := by
  simp only [segEnd, pageSize]
  rw [wrap_of_lt (by omega)]
  omega

/-- The addresses of the pages. -/
theorem mem_pages : w / pageSize ∈ ph.pages ↔ ph.segStart ≤ w ∧ w < ph.segEnd := by
  simp only [pages, pageRange, Set.mem_Ico, pageCount, segStart, segEnd, pageSize]
  omega

theorem clearedSize (h : ph.segStart ≤ ph.segEnd) :
    ph.segStart + wrapSub ph.segEnd ph.segStart = ph.segEnd := by
  rw [wrapSub_of_le h ph.segEnd_lt]
  omega

/-- A segment whose end is not before its start, with `n` bytes of data on its pages. -/
structure Placed (ph : Phdr) (n : Nat) : Prop where
  order : ph.segStart ≤ ph.segEnd
  data : n = 0 ∨ ph.pVaddr + n ≤ ph.segEnd

theorem Placed.mono (h : ph.Placed n) (hle : k ≤ n) : ph.Placed k :=
  ⟨h.order, by rcases h.data with h | h <;> omega⟩

theorem pageFlags_lt (ph : Phdr) : ph.pageFlags < pageSize := by
  unfold pageFlags
  split_ifs <;> decide

end Phdr

/-! ### One segment -/

/-- What is in the log for a segment of which at most `n` bytes were read from the file. -/
def Event.IsFor (i : Nat) (ph : Phdr) (n : Nat) (e : Event) : Prop :=
  (∃ page ∈ ph.pages, e = .mapped (some i) page) ∨
    e = .stored (.zero i) ph.segStart (wrapSub ph.segEnd ph.segStart) ∨
    ∃ count ≤ n, e = .stored (.file i) ph.pVaddr count

/-- A segment was loaded with `data` from the file. -/
structure SegmentLoaded (spaces : List Nat) (i : Nat) (ph : Phdr) (data : List UInt8)
    (t t' : Traced) : Prop where
  acquires : Acquires spaces t.machine t'.machine ph.pages
  flags : ∀ n ∈ ph.pages, ∃ N, pageAt t'.machine n = some (N, (ph.pageFlags ||| pagePresent) &&& 31)
  byte : ∀ w, w / pageSize ∈ ph.pages → t'.machine.readByte w = stored ph.pVaddr data w (some 0)
  kept : t.log ⊆ t'.log
  mapped : ∀ n ∈ ph.pages, .mapped (some i) n ∈ t'.log
  events : ∀ e ∈ t'.log, e ∈ t.log ∨ e.IsFor i ph data.length

/-- The pages of a segment are mapped and cleared. -/
theorem segmentCleared (h : Space spaces t.machine) (horder : ph.segStart ≤ ph.segEnd)
    (hframes : FramesFor t.machine (ph.pageList ++ rest)) :
    ∃ t₁ t₂, t.mapPages (some i) ph.pageFlags ph.segStart ph.pageCount = some t₁ ∧
      t₁.store (.zero i) ph.segStart (List.replicate (wrapSub ph.segEnd ph.segStart) 0) = some t₂ ∧
      SegmentLoaded spaces i ph [] t t₂ ∧ FramesFor t₂.machine rest := by
  have hcr3 := h.layout.forest.active
  obtain ⟨t₁, hmap, hrange, hlog₁, hrest⟩ := mapPages_added (some i) h ph.pageFlags_lt hframes
  have hpages : Owned spaces t₁.machine ph.pages := hrange.owned_new
  obtain ⟨t₂, hclear, hstores, hlog₂⟩ := store_stored (.zero i) ph.segStart
    (List.replicate (wrapSub ph.segEnd ph.segStart) 0) hrange.space hpages (by
      intro w hle hlt
      rw [List.length_replicate, clearedSize horder] at hlt
      exact mem_pages.mpr ⟨hle, hlt⟩)
  have hpageAt : ∀ n ∈ ph.pages, pageAt t₂.machine n = pageAt t₁.machine n := fun n hn =>
    hstores.pageAt (hrange.cr3 ▸ hcr3) (hpages.user n hn)
  rw [List.length_replicate] at hlog₂
  refine ⟨t₁, t₂, hmap, hclear, ⟨hrange.toAcquires.stores hstores subset_rfl hcr3, fun n hn => ?_,
    fun w hw => ?_, ?_, fun n hn => ?_, fun e he => ?_⟩, hstores.framesFor (hrange.cr3 ▸ hcr3) hrest⟩
  · rw [hpageAt n hn]
    exact hrange.page n hn
  · obtain ⟨hle, hlt⟩ := mem_pages.mp hw
    rw [hstores.byte w hw, stored, stored, List.length_replicate, clearedSize horder,
      if_pos ⟨hle, hlt⟩, if_neg (by simp only [List.length_nil]; omega),
      List.getElem?_replicate, if_pos]
    have := clearedSize horder
    omega
  · rw [hlog₂, hlog₁, List.append_assoc]
    exact List.subset_append_left ..
  · rw [hlog₂, hlog₁]
    exact List.mem_append_left _ (List.mem_append_right _ (List.mem_map_of_mem (mem_pageList.mpr hn)))
  · rw [hlog₂, hlog₁, List.append_assoc, List.mem_append, List.mem_append] at he
    rcases he with he | he | he
    · exact .inl he
    · obtain ⟨n, hn, rfl⟩ := List.mem_map.mp he
      exact .inr (.inl ⟨n, mem_pageList.mp hn, rfl⟩)
    · exact .inr (.inr (.inl (List.mem_singleton.mp he)))

/-- The data of the file over the zeroes. -/
theorem SegmentLoaded.fill (s : SegmentLoaded spaces i ph [] t t') (hcr3 : t.machine.cr3 ∈ spaces)
    (hplaced : ph.Placed data.length) (hframes : FramesFor t'.machine rest) :
    ∃ t'', t'.store (.file i) ph.pVaddr data = some t'' ∧ SegmentLoaded spaces i ph data t t'' ∧
      FramesFor t''.machine rest := by
  have hpages := s.acquires.owned_new
  obtain ⟨t'', hrun, hstores, hlog⟩ := store_stored (.file i) ph.pVaddr data
    s.acquires.space hpages (by
      intro w hle hlt
      have hdata := hplaced.data
      rw [mem_pages]
      simp only [segStart, pageSize]
      omega)
  have hpageAt : ∀ n ∈ ph.pages, pageAt t''.machine n = pageAt t'.machine n := fun n hn =>
    hstores.pageAt (s.acquires.cr3 ▸ hcr3) (hpages.user n hn)
  refine ⟨t'', hrun, ⟨s.acquires.stores hstores subset_rfl hcr3, fun n hn => ?_, fun w hw => ?_, ?_,
    fun n hn => ?_, fun e he => ?_⟩, hstores.framesFor (s.acquires.cr3 ▸ hcr3) hframes⟩
  · rw [hpageAt n hn]
    exact s.flags n hn
  · rw [hstores.byte w hw, s.byte w hw]
    congr 1
    exact if_neg (by simp only [List.length_nil]; omega)
  · rw [hlog]
    exact List.Subset.trans s.kept (List.subset_append_left ..)
  · rw [hlog]
    exact List.mem_append_left _ (s.mapped n hn)
  · rw [hlog, List.mem_append, List.mem_singleton] at he
    rcases he with he | rfl
    · rcases s.events e he with he | hpage | hzero | ⟨count, hcount, hstored⟩
      · exact .inl he
      · exact .inr (.inl hpage)
      · exact .inr (.inr (.inl hzero))
      · exact .inr (.inr (.inr ⟨count, hcount.trans (Nat.zero_le _), hstored⟩))
    · exact .inr (.inr (.inr ⟨_, le_rfl, rfl⟩))

/-! ### The data of a segment -/

namespace Phdr

/-- The bytes of the segment that are stored if the descriptor of a file of `size` bytes is at
`p`: a read ends at the end of the file, unless the position overflows. -/
def dataSize (ph : Phdr) (size p : Nat) : Nat :=
  if seekTarget p ph.pOffset < size ∧ 2 ^ 64 ≤ seekTarget p ph.pOffset + ph.pFilesz then ph.pFilesz
  else min ph.pFilesz (size - seekTarget p ph.pOffset)

/-- The data of the segment is in the file. -/
def Whole (ph : Phdr) (size p : Nat) : Prop :=
  ph.pFilesz = 0 ∨ seekTarget p ph.pOffset + ph.pFilesz ≤ size

instance (ph : Phdr) (size p : Nat) : Decidable (ph.Whole size p) := inferInstanceAs (Decidable (_ ∨ _))

/-- Where the descriptor is then. -/
def dataEnd (ph : Phdr) (p : Nat) : Nat :=
  if ph.pFilesz = 0 then p else seekTarget p ph.pOffset + ph.pFilesz

theorem dataSize_le (ph : Phdr) (size p : Nat) : ph.dataSize size p ≤ ph.pFilesz := by
  unfold dataSize
  split_ifs <;> omega

/-- The numbers that a file can hold. -/
structure Encoded (ph : Phdr) : Prop where
  offset : ph.pOffset < 2 ^ 64
  vaddr : ph.pVaddr < 2 ^ 64
  filesz : ph.pFilesz < 2 ^ 64

end Phdr

section Data

variable {file : List UInt8} {positioned : Nat → Vfs D I P W → Prop} {p : Nat}
  (h : Honest drivers) (hph : ph.Encoded) (hp : positioned p v)
include h hph hp

/-- If all of the data is read, it is what the file has there. -/
theorem Serves.segmentData (hs : Serves drivers fd file positioned) :
    ∃ ok data v', Elf.segmentData drivers fd ph v = some (ok, data, v') ∧
      data.length ≤ ph.dataSize file.length p ∧
      (ok = true → ph.Whole file.length p ∧ positioned (ph.dataEnd p) v' ∧
        data = (file.drop (Elf.seekTarget p ph.pOffset)).take ph.pFilesz) := by
  unfold Elf.segmentData Whole dataEnd
  by_cases hzero : ph.pFilesz = 0
  · rw [if_pos hzero, if_pos hzero, hzero]
    exact ⟨_, _, _, rfl, Nat.zero_le _, fun _ => ⟨.inl rfl, hp, rfl⟩⟩
  rw [if_neg hzero, if_neg hzero]
  have hq := hs.seekTarget hp hph.offset
  obtain ⟨ok, data, v', hrun, hle, -⟩ := h.readFully hph.filesz (v.seek fd (toInt64 ph.pOffset) .set).2 fd
  refine ⟨ok, data, v', hrun, ?_, fun hok => ?_⟩
  · unfold dataSize
    split_ifs with hover
    · exact hle
    · exact le_min hle (hs.readFully_length h hph.filesz hq (by omega) hrun)
  · subst hok
    obtain ⟨rfl, hlen, hp'⟩ := hs.readFully h hph.filesz hq hrun
    rw [List.length_take, List.length_drop] at hlen
    exact ⟨.inr (by omega), hp', rfl⟩

theorem Delivers.segmentData {ok : Bool} (hs : Delivers drivers fd file positioned)
    (hwhole : ph.Whole file.length p)
    (hrun : Elf.segmentData drivers fd ph v = some (ok, data, v')) : ok = true := by
  unfold Elf.segmentData at hrun
  split_ifs at hrun with hzero
  · exact (Prod.mk.inj (Option.some.inj hrun)).1.symm
  · obtain ⟨v₁, hrun'⟩ := hs.readFully h hph.filesz (hs.seekTarget hp hph.offset)
      (hwhole.resolve_left hzero)
    exact (Prod.mk.inj (Option.some.inj (hrun.symm.trans hrun'))).1

end Data

/-- **One segment.** It is loaded with the data that is read for it. -/
theorem loadSegment_loaded {ok : Bool} (h : Space spaces t.machine) (hload : ph.pType = ptLoad)
    (hplaced : ph.Placed data.length) (hframes : FramesFor t.machine (ph.pageList ++ rest))
    (hdata : segmentData drivers fd ph v = some (ok, data, v')) :
    ∃ t', loadSegment drivers fd i ph v t = some (ok, v', t') ∧
      SegmentLoaded spaces i ph data t t' ∧ FramesFor t'.machine rest := by
  obtain ⟨t₁, t₂, hmap, hclear, hloaded, hrest⟩ := segmentCleared (i := i) h hplaced.order hframes
  unfold loadSegment
  rw [if_neg (by simpa using hload), hmap, Option.bind_some, hclear, Option.bind_some]
  unfold segmentData at hdata
  split_ifs at hdata ⊢ with hzero
  · obtain ⟨rfl, hrest'⟩ := Prod.mk.inj (Option.some.inj hdata)
    cases hrest'
    exact ⟨t₂, rfl, hloaded, hrest⟩
  · dsimp only
    rw [hdata, Option.bind_some]
    obtain ⟨t', hrun, hloaded', hrest'⟩ := hloaded.fill h.layout.forest.active hplaced hrest
    refine ⟨t', ?_, hloaded', hrest'⟩
    rw [hrun, Option.map_some]

/-! ### The stack -/

/-- All stores from `t` to `t'` are on the stack. -/
structure OnStack (spaces : List Nat) (pages : Set Nat) (t t' : Traced) : Prop where
  stores : ∃ f, Stores spaces t.machine t'.machine pages f ∧
    ∀ w old, w < stackBottom ∨ userStackTop ≤ w → f w old = old
  kept : t.log ⊆ t'.log
  events : ∀ e ∈ t'.log, e ∈ t.log ∨
    ∃ addr count, e = .stored .arguments addr count ∧ stackBottom ≤ addr ∧
      addr + count ≤ userStackTop

/-- Stores from `lo` up to the top of the stack, which make `f w` of the byte at `w`. -/
structure ArgStores (spaces : List Nat) (pages : Set Nat) (lo : Nat) (t t' : Traced)
    (f : Nat → Option UInt8 → Option UInt8) : Prop where
  stores : Stores spaces t.machine t'.machine pages f
  outside : ∀ w old, w < lo ∨ userStackTop ≤ w → f w old = old
  kept : t.log ⊆ t'.log
  events : ∀ e ∈ t'.log, e ∈ t.log ∨
    ∃ addr count, e = .stored .arguments addr count ∧ lo ≤ addr ∧ addr + count ≤ userStackTop

namespace ArgStores

variable {lo lo' : Nat} {f g : Nat → Option UInt8 → Option UInt8}

theorem refl (h : Space spaces t.machine) (pages : Set Nat) (lo : Nat) :
    ArgStores spaces pages lo t t fun _ old => old :=
  ⟨.refl h pages, fun _ _ _ => rfl, List.Subset.refl _, fun _ => .inl⟩

theorem trans (h : ArgStores spaces pages lo t t' f) (h' : ArgStores spaces pages lo' t' t'' g)
    (hle : lo' ≤ lo) (hcr3 : t.machine.cr3 ∈ spaces) (huser : ∀ n ∈ pages, n < userPages) :
    ArgStores spaces pages lo' t t'' fun w old => g w (f w old) := by
  refine ⟨h.stores.trans h'.stores hcr3 huser, fun w old hw => ?_, List.Subset.trans h.kept h'.kept,
    fun e he => ?_⟩
  · rw [h.outside w old (by omega), h'.outside w old hw]
  · rcases h'.events e he with he | he
    · rcases h.events e he with he | ⟨addr, count, heq, hlow, hhigh⟩
      · exact .inl he
      · exact .inr ⟨addr, count, heq, hle.trans hlow, hhigh⟩
    · exact .inr he

theorem onStack (h : ArgStores spaces pages lo t t' f) (hlo : stackBottom ≤ lo) :
    OnStack spaces pages t t' := by
  refine ⟨⟨f, h.stores, fun w old hw => h.outside w old (by omega)⟩, h.kept, fun e he => ?_⟩
  rcases h.events e he with he | ⟨addr, count, heq, hlow, hhigh⟩
  · exact .inl he
  · exact .inr ⟨addr, count, heq, hlo.trans hlow, hhigh⟩

end ArgStores

/-- The size of the strings with their terminating zeroes. -/
def stringsSize (argv : List CString) : Nat := (argv.map fun arg => arg.length + 1).sum

/-- What the strings, up to a multiple of eight bytes, and the array of their addresses take. -/
def argsSize (argv : List CString) : Nat := (stringsSize argv + 7) / 8 * 8 + 8 * (argv.length + 1)

/-- The arguments fit on the stack. -/
def ArgsFit (argv : List CString) : Prop := argsSize (argv.take maxArgs) ≤ userStackPages * pageSize

/-- The strings with their terminating zeroes, one after the other. -/
def stringBytes (argv : List CString) : List UInt8 := argv.flatMap fun arg => arg ++ [0]

@[simp] theorem stringsSize_cons (arg : CString) (rest : List CString) :
    stringsSize (arg :: rest) = arg.length + 1 + stringsSize rest := by
  simp [stringsSize]

theorem length_stringBytes (argv : List CString) : (stringBytes argv).length = stringsSize argv := by
  rw [stringBytes, List.length_flatMap, stringsSize]
  congr 1
  apply List.map_congr_left
  intro arg _
  rw [List.length_append, List.length_singleton]

/-- Where the strings are: the first one has the lowest address. -/
def stringAddrs : List CString → List Nat
  | [] => []
  | arg :: rest => (userStackTop - stringsSize (arg :: rest)) :: stringAddrs rest

@[simp] theorem length_stringAddrs (argv : List CString) :
    (stringAddrs argv).length = argv.length := by
  induction argv with
  | nil => rfl
  | cons arg rest ih => rw [stringAddrs, List.length_cons, List.length_cons, ih]

/-- Where the array of their addresses is. -/
def arrayAddr (argv : List CString) : Nat :=
  (userStackTop - stringsSize argv) / 8 * 8 - (argv.length + 1) * 8

theorem le_arrayAddr {argv : List CString}
    (hfit : argsSize argv ≤ userStackPages * pageSize) : stackBottom ≤ arrayAddr argv := by
  simp only [argsSize, arrayAddr, stackBottom, userStackTop, userStackPages, pageSize] at hfit ⊢
  omega

/-- The array with its terminating zero. -/
def arrayBytes (argv : List CString) : List UInt8 := (stringAddrs argv ++ [0]).flatMap wordBytes

theorem length_flatMap_wordBytes (words : List Nat) :
    (words.flatMap wordBytes).length = 8 * words.length := by
  have hword : ∀ a ∈ words, (wordBytes a).length = 8 := fun a _ => by simp [wordBytes]
  rw [List.length_flatMap, List.map_congr_left hword, List.map_const', List.sum_replicate,
    smul_eq_mul, Nat.mul_comm]

theorem length_arrayBytes (argv : List CString) :
    (arrayBytes argv).length = 8 * (argv.length + 1) := by
  rw [arrayBytes, length_flatMap_wordBytes, List.length_append, length_stringAddrs,
    List.length_singleton]

/-- One range below another one. -/
theorem stored_append (addr w : Nat) (xs ys : List UInt8) (old : Option UInt8) :
    stored addr xs w (stored (addr + xs.length) ys w old) = stored addr (xs ++ ys) w old := by
  simp only [stored, List.length_append]
  by_cases hx : addr ≤ w ∧ w < addr + xs.length
  · rw [if_pos hx, if_pos (by omega), List.getElem?_append_left (by omega)]
  · rw [if_neg hx]
    by_cases hy : addr + xs.length ≤ w ∧ w < addr + xs.length + ys.length
    · rw [if_pos hy, if_pos (by omega), List.getElem?_append_right (by omega), Nat.sub_sub]
    · rw [if_neg hy, if_neg (by omega)]

section Stack

variable (h : Space spaces t.machine) (o : Owned spaces t.machine pages)
  (hstack : ∀ w, stackBottom ≤ w → w < userStackTop → w / pageSize ∈ pages)
include h o hstack

theorem store_argStores (addr : Nat) (data : List UInt8) (hlow : stackBottom ≤ addr)
    (hhigh : addr + data.length ≤ userStackTop) :
    ∃ t', t.store .arguments addr data = some t' ∧
      ArgStores spaces pages addr t t' (stored addr data) := by
  obtain ⟨t', hrun, hstores, hlog⟩ := store_stored .arguments addr data h o fun w hle hlt =>
    hstack w (hlow.trans hle) (hlt.trans_le hhigh)
  refine ⟨t', hrun, hstores, fun w old hw => if_neg (by omega), ?_, fun e he => ?_⟩
  · rw [hlog]
    exact List.subset_append_left ..
  · rw [hlog, List.mem_append, List.mem_singleton] at he
    exact he.imp_right fun he => ⟨_, _, he, le_rfl, hhigh⟩

/-- By induction on the strings: those after the first one are pushed before it. -/
theorem pushStrings_argStores (argv : List CString)
    (hfit : stackBottom + stringsSize argv ≤ userStackTop) :
    ∃ t', pushStrings t userStackTop argv =
        some (userStackTop - stringsSize argv, stringAddrs argv, t') ∧
      ArgStores spaces pages (userStackTop - stringsSize argv) t t'
        (stored (userStackTop - stringsSize argv) (stringBytes argv)) := by
  induction argv with
  | nil =>
    have hnone : stored (userStackTop - stringsSize []) (stringBytes []) = fun _ old => old := by
      funext w old
      apply if_neg
      simp only [stringBytes, List.flatMap_nil, List.length_nil]
      omega
    rw [hnone]
    exact ⟨t, rfl, .refl h pages _⟩
  | cons arg rest ih =>
    have hsize := stringsSize_cons arg rest
    obtain ⟨t₁, hrun, hpushed⟩ := ih (by omega)
    have hsp : wrapSub (userStackTop - stringsSize rest) (arg.length + 1) =
        userStackTop - stringsSize (arg :: rest) := by
      rw [hsize, wrapSub_of_le (by omega) (by simp only [userStackTop]; omega)]
      omega
    have hlen : (arg ++ [0]).length = arg.length + 1 := List.length_append
    obtain ⟨t', hrun', hpushed'⟩ := store_argStores (t := t₁) hpushed.stores.space
      (hpushed.stores.owned _ o) hstack (userStackTop - stringsSize (arg :: rest)) (arg ++ [0])
      (by omega) (by omega)
    refine ⟨t', ?_, ?_⟩
    · rw [pushStrings, hrun, Option.bind_some]
      dsimp only
      rw [hsp, hrun', Option.map_some, stringAddrs]
    · have hboth := hpushed.trans hpushed' (by omega) h.layout.forest.active o.user
      have hnext : userStackTop - stringsSize rest =
          userStackTop - stringsSize (arg :: rest) + (arg ++ [0]).length := by omega
      have hbytes : stringBytes (arg :: rest) = arg ++ [0] ++ stringBytes rest := List.flatMap_cons
      rw [hnext] at hboth
      rw [hbytes]
      simpa only [stored_append] using hboth

/-- **The arguments.** The strings go to the top of the stack and the array below them. -/
theorem setupArgs_argStores {argv : List CString} (hmax : argv.length ≤ maxArgs)
    (hfit : argsSize argv ≤ userStackPages * pageSize) :
    ∃ t', setupArgs t userStackTop argv =
        some (⟨arrayAddr argv / 16 * 16, arrayAddr argv⟩, t') ∧
      ArgStores spaces pages (arrayAddr argv) t t' fun w old =>
        stored (arrayAddr argv) (arrayBytes argv) w
          (stored (userStackTop - stringsSize argv) (stringBytes argv) w old) := by
  have hbottom : stackBottom = userStackTop - userStackPages * pageSize := rfl
  have htop : userStackPages * pageSize ≤ userStackTop := by decide
  have hsmall : userStackTop < 2 ^ 64 := by decide
  have hsize : argsSize argv = (stringsSize argv + 7) / 8 * 8 + 8 * (argv.length + 1) := rfl
  have harray : arrayAddr argv =
      (userStackTop - stringsSize argv) / 8 * 8 - (argv.length + 1) * 8 := rfl
  have hlen := length_arrayBytes argv
  obtain ⟨t₁, hrun, hpushed⟩ := pushStrings_argStores h o hstack argv (by omega)
  have hsp : wrapSub ((userStackTop - stringsSize argv) / 8 * 8) ((argv.length + 1) * 8) =
      arrayAddr argv := by
    apply wrapSub_of_le <;> omega
  obtain ⟨t', hrun', hpushed'⟩ := store_argStores (t := t₁) hpushed.stores.space
    (hpushed.stores.owned _ o) hstack (arrayAddr argv) (arrayBytes argv) (le_arrayAddr hfit) (by omega)
  refine ⟨t', ?_, hpushed.trans hpushed' (by omega) h.layout.forest.active o.user⟩
  unfold setupArgs
  dsimp only
  rw [List.take_of_length_le hmax, hrun, Option.bind_some]
  rw [hsp, ← arrayBytes, hrun', Option.map_some]

/-- If the arguments fit, all of `setupArgs` is on the stack. -/
theorem setupArgs_onStack {argv : List CString} (hfit : ArgsFit argv) :
    ∃ stack t', setupArgs t userStackTop argv = some (stack, t') ∧ OnStack spaces pages t t' := by
  have htake : setupArgs t userStackTop argv = setupArgs t userStackTop (argv.take maxArgs) := by
    unfold setupArgs
    rw [List.take_take, Nat.min_self]
  obtain ⟨t', hrun, hstores⟩ := setupArgs_argStores h o hstack (List.length_take_le _ _) hfit
  exact ⟨_, t', htake.trans hrun, hstores.onStack (le_arrayAddr hfit)⟩

end Stack

end WengShiOS.FileFormats.Elf
