import WengShiOS.FileFormats.ElfRun
import WengShiOS.FileFormats.RamFile
import Mathlib.Order.CompletePartialOrder

/-! # The image of an executable

A page that two segments share is mapped and cleared again for the second one, so what is on
it is decided by the last one. The memory after `load` is what the program headers say if and
only if nothing is lost by this (`load_image_iff`), and data can be lost (`not_load_image`). -/

namespace WengShiOS.FileFormats.Elf

open Math Fs Mm Phdr

variable {D I P W : Type*} {drivers : D → FilesystemDriver W I P} {v v' v₀ : Vfs D I P W}
  {fd : Int} {spaces : List Nat} {m m' : Machine} {t t' : Traced} {path : CString}
  {argv : List CString} {kmalloc : Bool} {file data : List UInt8}
  {positioned : Nat → Vfs D I P W → Prop} {ph last : Phdr} {done phdrs : List Phdr} {n k : Nat}
  {pages pages' : Set Nat}

/-! ### Executables -/

/-- The addresses of a segment. -/
def Phdr.range (ph : Phdr) : Set Nat := Set.Ico ph.pVaddr (ph.pVaddr + ph.pMemsz)

/-- A static executable: segments in the user half that have no byte in common, with their
data in the file. -/
structure WellFormed (file : List UInt8) : Prop where
  length : file.length < 2 ^ 63
  table : (headerOf file).ePhoff + (headerOf file).ePhnum * phdrSize ≤ file.length
  user : ∀ ph ∈ phdrsOf file, ph.pType = ptLoad → ph.pVaddr + ph.pMemsz ≤ 2 ^ 47
  filesz : ∀ ph ∈ phdrsOf file, ph.pType = ptLoad → ph.pFilesz ≤ ph.pMemsz
  data : ∀ ph ∈ phdrsOf file, ph.pType = ptLoad → ph.pOffset + ph.pFilesz ≤ file.length
  apart : (phdrsOf file).Pairwise fun a b => a.pType = ptLoad → b.pType = ptLoad →
    Disjoint a.range b.range

/-- No byte of a segment is on the pages of the stack. -/
def OffStack (file : List UInt8) : Prop :=
  ∀ ph ∈ phdrsOf file, ph.pType = ptLoad → Disjoint ph.range (Set.Ico stackBottom userStackTop)

/-- The memory is what the program header says. -/
structure Image (file : List UInt8) (m : Machine) (ph : Phdr) : Prop where
  data : ∀ k < ph.pFilesz, m.readByte (ph.pVaddr + k) = file[ph.pOffset + k]?
  zero : ∀ k, ph.pFilesz ≤ k → k < ph.pMemsz → m.readByte (ph.pVaddr + k) = some 0
  pages : ∀ n ∈ ph.pages, Accessible m n ph.writable

/-- The last segment on a page. -/
def lastOn (phdrs : List Phdr) (n : Nat) : Option Phdr :=
  phdrs.reverse.find? fun ph => ph.pType = ptLoad ∧ n ∈ ph.pageList

/-- Nothing is lost if the last segment on a page decides what it holds and who may write to it:
bytes on the page of a later segment are zero, and it is writable if one of its segments is. -/
structure Survives (file : List UInt8) : Prop where
  data : ∀ ph ∈ phdrsOf file, ph.pType = ptLoad → ∀ k < ph.pFilesz,
    lastOn (phdrsOf file) ((ph.pVaddr + k) / pageSize) ≠ some ph → file[ph.pOffset + k]? = some 0
  rights : ∀ ph ∈ phdrsOf file, ph.pType = ptLoad → ph.writable = true → ∀ n ∈ ph.pages,
    n ∉ stackPages → ∀ last, lastOn (phdrsOf file) n = some last → last.writable = true

theorem WellFormed.placed (h : WellFormed file) (hph : ph ∈ phdrsOf file) (hload : ph.pType = ptLoad) :
    ph.Placed ph.pFilesz := by
  have huser := segEnd_eq (h.user ph hph hload)
  have := h.filesz ph hph hload
  refine ⟨?_, .inr (by omega)⟩
  simp only [segStart, pageSize]
  omega

theorem WellFormed.disjoint (h : WellFormed file) (hph : ph ∈ phdrsOf file)
    (hload : ph.pType = ptLoad) (hlast : last ∈ phdrsOf file) (hload' : last.pType = ptLoad)
    (hne : last ≠ ph) : Disjoint last.range ph.range := by
  have hsymm : Std.Symm fun a b : Phdr =>
      a.pType = ptLoad → b.pType = ptLoad → Disjoint a.range b.range :=
    ⟨fun a b hab ha hb => (hab hb ha).symm⟩
  exact h.apart.forall hlast hph hne hload' hload

theorem WellFormed.mem_pages (h : WellFormed file) (hph : ph ∈ phdrsOf file)
    (hload : ph.pType = ptLoad) (hk : k < ph.pMemsz) : (ph.pVaddr + k) / pageSize ∈ ph.pages := by
  rw [Phdr.mem_pages, segEnd_eq (h.user ph hph hload)]
  simp only [segStart, pageSize]
  omega

/-! ### The last segment on a page -/

theorem lastOn_concat (done : List Phdr) (ph : Phdr) (n : Nat) :
    lastOn (done ++ [ph]) n = if ph.pType = ptLoad ∧ n ∈ ph.pageList then some ph else lastOn done n := by
  rw [lastOn, List.reverse_append, List.reverse_singleton, List.singleton_append, List.find?_cons]
  by_cases h : ph.pType = ptLoad ∧ n ∈ ph.pageList
  · rw [if_pos h, decide_eq_true h]
  · rw [if_neg h, decide_eq_false h]
    rfl

theorem of_lastOn (h : lastOn phdrs n = some ph) :
    ph ∈ phdrs ∧ ph.pType = ptLoad ∧ n ∈ ph.pages := by
  have hmem := List.mem_of_find?_eq_some h
  have hph := List.find?_some h
  rw [List.mem_reverse] at hmem
  obtain ⟨hload, hn⟩ := of_decide_eq_true hph
  exact ⟨hmem, hload, mem_pageList.mp hn⟩

theorem exists_lastOn (hph : ph ∈ phdrs) (hload : ph.pType = ptLoad) (hn : n ∈ ph.pages) :
    ∃ last, lastOn phdrs n = some last := by
  rw [← Option.isSome_iff_exists, lastOn, List.find?_isSome]
  exact ⟨ph, List.mem_reverse.mpr hph, decide_eq_true ⟨hload, mem_pageList.mpr hn⟩⟩

/-- The page holds the data of the segment and zeroes. -/
structure Holds (file : List UInt8) (m : Machine) (ph : Phdr) (n : Nat) : Prop where
  flags : ∃ N, pageAt m n = some (N, (ph.pageFlags ||| pagePresent) &&& 31)
  byte : ∀ w, w / pageSize = n → m.readByte w =
    stored ph.pVaddr ((file.drop ph.pOffset).take ph.pFilesz) w (some 0)

/-- Other pages do not matter. -/
theorem Holds.acquires (h : Holds file m ph n) (o : Owned spaces m pages) (hn : n ∈ pages)
    (a : Acquires spaces m m' pages') (hcr3 : m.cr3 ∈ spaces) (hnot : n ∉ pages') :
    Holds file m' ph n := by
  refine ⟨?_, fun w hw => ?_⟩
  · rw [a.pageAt_of_not_mem hcr3 (o.user n hn) hnot]
    exact h.flags
  · rw [a.readByte hcr3 o (hw ▸ hn) (hw ▸ hnot)]
    exact h.byte w hw

section Bytes

variable (hwf : WellFormed file) (hph : ph ∈ phdrsOf file) (hload : ph.pType = ptLoad)
include hwf hph hload

/-- The bytes of the segment itself. -/
theorem Holds.own (h : Holds file m ph ((ph.pVaddr + k) / pageSize)) :
    m.readByte (ph.pVaddr + k) = if k < ph.pFilesz then file[ph.pOffset + k]? else some 0 := by
  have hdata := hwf.data ph hph hload
  have hlen : ((file.drop ph.pOffset).take ph.pFilesz).length = ph.pFilesz := by
    rw [List.length_take, List.length_drop]
    omega
  rw [h.byte _ rfl, stored, hlen]
  split_ifs with hin hk hk
  · rw [Nat.add_sub_cancel_left, List.getElem?_take, if_pos hk, List.getElem?_drop]
  · omega
  · omega
  · rfl

/-- The bytes of another segment on the page. -/
theorem Holds.other (h : Holds file m last ((ph.pVaddr + k) / pageSize)) (hk : k < ph.pMemsz)
    (hlast : last ∈ phdrsOf file) (hload' : last.pType = ptLoad) (hne : last ≠ ph) :
    m.readByte (ph.pVaddr + k) = some 0 := by
  have hfilesz := hwf.filesz last hlast hload'
  have hnot := Set.disjoint_right.mp (hwf.disjoint hph hload hlast hload' hne)
    (Set.mem_Ico.mpr ⟨Nat.le_add_right .., Nat.add_lt_add_left hk _⟩)
  rw [range, Set.mem_Ico] at hnot
  rw [h.byte _ rfl, stored, List.length_take, if_neg (by omega)]

end Bytes

/-! ### The run -/

/-- The pages of all segments. -/
def segmentPages (phdrs : List Phdr) : Set Nat :=
  {n | ∃ ph ∈ phdrs, ph.pType = ptLoad ∧ n ∈ ph.pages}

theorem segmentPages_concat (done : List Phdr) (hload : ph.pType = ptLoad) :
    segmentPages (done ++ [ph]) = segmentPages done ∪ ph.pages := by
  ext n
  simp only [segmentPages, List.mem_append, List.mem_singleton, Set.mem_ofPred_eq, Set.mem_union]
  constructor
  · rintro ⟨ph', hph | rfl, hload', hn⟩
    · exact .inl ⟨ph', hph, hload', hn⟩
    · exact .inr hn
  · rintro (⟨ph', hph, hload', hn⟩ | hn)
    · exact ⟨ph', .inl hph, hload', hn⟩
    · exact ⟨ph, .inr rfl, hload, hn⟩

theorem segmentPages_skip (done : List Phdr) (hload : ph.pType ≠ ptLoad) :
    segmentPages (done ++ [ph]) = segmentPages done := by
  ext n
  simp only [segmentPages, List.mem_append, List.mem_singleton, Set.mem_ofPred_eq]
  constructor
  · rintro ⟨ph', hph | rfl, hload', hn⟩
    · exact ⟨ph', hph, hload', hn⟩
    · exact absurd hload' hload
  · rintro ⟨ph', hph, hload', hn⟩
    exact ⟨ph', .inl hph, hload', hn⟩

/-- The segments of `done` are loaded. -/
structure Built (spaces : List Nat) (file : List UInt8) (m : Machine) (done : List Phdr) (t : Traced) :
    Prop where
  acquires : Acquires spaces m t.machine (segmentPages done)
  holds : ∀ {n ph}, lastOn done n = some ph → Holds file t.machine ph n

theorem Built.nil (hspace : Space spaces m) (log : List Event) : Built spaces file m [] ⟨m, log⟩ := by
  refine ⟨?_, nofun⟩
  have hnone : segmentPages [] = ∅ := by
    ext n
    simp [segmentPages]
  rw [hnone]
  exact .refl hspace

/-- A header of another type. -/
theorem Built.skip (b : Built spaces file m done t) (hload : ph.pType ≠ ptLoad) :
    Built spaces file m (done ++ [ph]) t := by
  refine ⟨?_, fun {n ph'} hlast => b.holds ?_⟩
  · rw [segmentPages_skip done hload]
    exact b.acquires
  · rwa [lastOn_concat, if_neg fun h => hload h.1] at hlast

theorem mem_segmentPages (h : lastOn phdrs n = some ph) : n ∈ segmentPages phdrs :=
  ⟨ph, of_lastOn h⟩

/-- One more segment, which takes the pages it shares with those before. -/
theorem Built.concat (b : Built spaces file m done t) (hcr3 : m.cr3 ∈ spaces)
    (hload : ph.pType = ptLoad) {i : Nat}
    (s : SegmentLoaded spaces i ph ((file.drop ph.pOffset).take ph.pFilesz) t t') :
    Built spaces file m (done ++ [ph]) t' := by
  refine ⟨?_, fun {n ph'} hlast => ?_⟩
  · rw [segmentPages_concat done hload]
    exact b.acquires.trans s.acquires hcr3
  · rw [lastOn_concat] at hlast
    split_ifs at hlast with hon
    · obtain rfl := Option.some.inj hlast
      have hn := mem_pageList.mp hon.2
      exact ⟨s.flags n hn, fun w hw => s.byte w (hw ▸ hn)⟩
    · exact (b.holds hlast).acquires b.acquires.owned_new (mem_segmentPages hlast) s.acquires
        (b.acquires.cr3 ▸ hcr3) fun hn => hon ⟨hload, mem_pageList.mpr hn⟩

/-- All segments are loaded, and then the stack. -/
structure Complete (spaces : List Nat) (file : List UInt8) (m : Machine) : Prop where
  space : Space spaces m
  owned : Owned spaces m (segmentPages (phdrsOf file) ∪ stackPages)
  holds : ∀ {n ph}, lastOn (phdrsOf file) n = some ph → n ∉ stackPages → Holds file m ph n
  stack : ∀ n ∈ stackPages, ∃ N, pageAt m n = some (N, (stackFlags ||| pagePresent) &&& 31)

theorem Built.complete (b : Built spaces file m (phdrsOf file) t) (hcr3 : m.cr3 ∈ spaces)
    (hadded : StackAdded spaces t t') : Complete spaces file t'.machine where
  space := hadded.acquires.space
  owned := hadded.acquires.owned _ b.acquires.owned_new
  holds hlast hn := (b.holds hlast).acquires b.acquires.owned_new (mem_segmentPages hlast)
    hadded.acquires (b.acquires.cr3 ▸ hcr3) hn
  stack := hadded.flags

section Complete

variable (c : Complete spaces file m) (hwf : WellFormed file) (hoff : OffStack file)
include c

/-- What the last segment on a page says is what user code may do with it. -/
theorem Complete.accessible {writable : Bool} (hph : ph ∈ phdrsOf file) (hload : ph.pType = ptLoad)
    (hn : n ∈ ph.pages) (hwrite : n ∉ stackPages → writable = true →
      ∀ last, lastOn (phdrsOf file) n = some last → last.writable = true) :
    Accessible m n writable := by
  have hown : n ∈ segmentPages (phdrsOf file) ∪ stackPages := .inl ⟨ph, hph, hload, hn⟩
  by_cases hstack : n ∈ stackPages
  · obtain ⟨N, hN⟩ := c.stack n hstack
    exact c.owned.accessible c.space hown hN (by decide) fun _ => by decide
  · obtain ⟨last, hlast⟩ := exists_lastOn hph hload hn
    obtain ⟨N, hN⟩ := (c.holds hlast hstack).flags
    refine c.owned.accessible c.space hown hN ?_ fun hw => ?_
    · unfold pageFlags
      split_ifs <;> decide
    · rw [pageFlags, if_pos (hwrite hstack hw last hlast)]
      decide

include hwf hoff

/-- A byte of a segment: its own, or zero if a later segment is on the page. -/
theorem Complete.byte (hph : ph ∈ phdrsOf file) (hload : ph.pType = ptLoad) (hk : k < ph.pMemsz) :
    m.readByte (ph.pVaddr + k) =
      if lastOn (phdrsOf file) ((ph.pVaddr + k) / pageSize) = some ph ∧ k < ph.pFilesz then
        file[ph.pOffset + k]? else some 0 := by
  have hstack : (ph.pVaddr + k) / pageSize ∉ stackPages := by
    rw [mem_stackPages]
    exact Set.disjoint_left.mp (hoff ph hph hload) ⟨Nat.le_add_right .., Nat.add_lt_add_left hk _⟩
  obtain ⟨last, hlast⟩ := exists_lastOn hph hload (hwf.mem_pages hph hload hk)
  obtain ⟨hmem, hload', -⟩ := of_lastOn hlast
  have hholds := c.holds hlast hstack
  by_cases hsame : last = ph
  · subst hsame
    rw [hholds.own hwf hph hload]
    simp only [hlast, true_and]
  · rw [hholds.other hwf hph hload hk hmem hload' hsame, if_neg]
    rw [hlast]
    exact fun h => hsame (Option.some.inj h.1)

theorem Complete.image_iff :
    (∀ ph ∈ phdrsOf file, ph.pType = ptLoad → Image file m ph) ↔ Survives file := by
  constructor
  · intro himage
    refine ⟨fun ph hph hload k hk hlast => ?_, fun ph hph hload hw n hn hstack last hlast => ?_⟩
    · rw [← (himage ph hph hload).data k hk, c.byte hwf hoff hph hload
        (hk.trans_le (hwf.filesz ph hph hload)), if_neg fun h => hlast h.1]
    · -- the write bit of the page is that of the last segment
      obtain ⟨N, hN⟩ := (c.holds hlast hstack).flags
      have haccess := (himage ph hph hload).pages n hn
      rw [hw] at haccess
      have hbit := haccess.testBit hN
      by_contra hnot
      rw [pageFlags, if_neg hnot] at hbit
      exact absurd hbit (by decide)
  · intro hsurvives ph hph hload
    have hfilesz := hwf.filesz ph hph hload
    refine ⟨fun k hk => ?_, fun k hle hk => ?_, fun n hn => ?_⟩
    · rw [c.byte hwf hoff hph hload (hk.trans_le hfilesz)]
      split_ifs with hlast
      · rfl
      · exact (hsurvives.data ph hph hload k hk fun h => hlast ⟨h, hk⟩).symm
    · rw [c.byte hwf hoff hph hload hk, if_neg fun h => absurd h.2 (Nat.not_lt.mpr hle)]
    · exact c.accessible hph hload hn fun hstack hw => hsurvives.rights ph hph hload hw n hn hstack

end Complete

section Run

variable (hhonest : Honest drivers) (hspace : Space spaces m) (hwf : WellFormed file)
  (hframes : FramesFor m (mappedPages (reachedOf file)))
include hhonest hspace hwf hframes

/-- All segments. -/
theorem loadSegments_built (hserves : Serves drivers fd file positioned)
    (hfile : Executable.Accepted file) (hp : positioned (tableEnd file) v) :
    ∃ ok v' t', loadSegments drivers fd 0 (phdrsOf file) v ⟨m, []⟩ = some (ok, v', t') ∧
      Space spaces t'.machine ∧
      (ok = true → Built spaces file m (phdrsOf file) t' ∧ FramesFor t'.machine stackList) ∧
      (Delivers drivers fd file positioned → ok = true) := by
  have hcr3 := hspace.layout.forest.active
  have hlength := hwf.length
  rw [reachedOf_eq hfile] at hframes
  have hoffset : ∀ ph ∈ phdrsOf file, ph.pType = ptLoad → ph.pOffset < 2 ^ 63 := by
    intro ph hph hload
    have := hwf.data ph hph hload
    omega
  have hstep : ∀ {done ph rest n ok data t t'}, phdrsOf file = done ++ ph :: rest →
      ph.pType = ptLoad → Built spaces file m done t → ph.Placed n → data.length ≤ n →
      (ok = true → ∃ p, data = (file.drop (seekTarget p ph.pOffset)).take ph.pFilesz) →
      SegmentLoaded spaces done.length ph data t t' →
      Space spaces t'.machine ∧ (ok = true → Built spaces file m (done ++ [ph]) t') := by
    intro done ph rest n ok data t t' hsplit hload b _ _ hdata s
    refine ⟨s.acquires.space, fun hok => ?_⟩
    obtain ⟨p, rfl⟩ := hdata hok
    have hph : ph ∈ phdrsOf file := hsplit ▸ List.mem_append_right _ (List.mem_cons_self ..)
    rw [seekTarget, if_pos (hoffset ph hph hload)] at s
    exact b.concat hcr3 hload s
  obtain ⟨ok, v', t', hrun, hspace', -, hok, hd⟩ := loadSegments_run hserves hhonest
    (fun ph => encoded_of_mem) Phdr.Placed (fun h hle => h.mono hle) (Built spaces file m)
    (fun t => Space spaces t.machine) (fun b => b.acquires.space) (fun b => b.acquires.space)
    (fun _ hload b => b.skip hload) hstep (List.nil_append (phdrsOf file)).symm hp
    (Built.nil hspace []) (fun x hx => by
      obtain ⟨hph, hload, hle⟩ := of_mem_reached hx
      exact (hwf.placed hph hload).mono hle) hframes
  refine ⟨ok, v', t', hrun, hspace', fun h => (hok h).2, fun h => hd h (readsAll_of_forall ?_)⟩
  exact fun ph hph hload => ⟨hoffset ph hph hload, hwf.data ph hph hload⟩

/-- **The image.** If there are enough frames, the arguments fit on the stack and no segment is
there: `load` does not fault, and if it returns the entry point, all segments are in memory
with their rights if and only if none loses something to a later one. -/
theorem load_image_iff (hserves : Serves drivers fd file positioned)
    (hopen : v.openFile drivers path = (fd, v₀)) (hstart : positioned 0 v₀) (hargs : ArgsFit argv)
    (hoff : OffStack file) :
    ∃ outcome v' t', load drivers v ⟨m, []⟩ path argv kmalloc = some (outcome, v', t') ∧
      (outcome.stack ≠ none → outcome.value = (headerOf file).eEntry ∧
        ((∀ ph ∈ phdrsOf file, ph.pType = ptLoad → Image file t'.machine ph) ↔ Survives file)) := by
  obtain ⟨result, v₁, hheaders⟩ := hhonest.readHeaders v path kmalloc
  cases result with
  | error failure =>
    refine ⟨.failed path failure, v₁, ⟨m, []⟩, ?_, fun h => absurd rfl h⟩
    rw [load, hheaders, Option.bind_some]
  | ok exe =>
    obtain ⟨rfl, hp, -, hfile⟩ := hserves.readHeaders hhonest hopen hstart hheaders
    obtain ⟨ok, v₂, t₂, hsegments, hspace₂, hok, -⟩ := loadSegments_built hhonest hspace hwf hframes
      hserves hfile hp
    obtain ⟨outcome, t₃, hrun, hfailed, hdone⟩ := load_run hheaders hsegments hspace₂ hargs
      fun h => (hok h).2
    refine ⟨outcome, _, t₃, hrun, fun hstack => ?_⟩
    cases ok with
    | false => exact absurd (by rw [(hfailed rfl).1]; rfl) hstack
    | true =>
      obtain ⟨hvalue, -, hadded⟩ := hdone rfl
      exact ⟨hvalue, ((hok rfl).1.complete hspace.layout.forest.active hadded).image_iff hwf hoff⟩

/-- If all reads inside the file succeed, `load` returns the entry point. -/
theorem load_returns (hs : Delivers drivers fd file positioned)
    (hopen : v.openFile drivers path = (fd, v₀)) (hfd : fd ≠ invalidFd) (hstart : positioned 0 v₀)
    (hfile : Executable.Accepted file) (hargs : ArgsFit argv) :
    ∃ outcome v' t', load drivers v ⟨m, []⟩ path argv true = some (outcome, v', t') ∧
      outcome.stack ≠ none := by
  obtain ⟨v₁, hheaders⟩ := hs.readHeaders hhonest hopen hfd hstart hfile
  obtain ⟨-, hp, -⟩ := hs.toServes.readHeaders hhonest hopen hstart hheaders
  obtain ⟨ok, v₂, t₂, hsegments, hspace₂, hok, hd⟩ := loadSegments_built hhonest hspace hwf hframes
    hs.toServes hfile hp
  obtain ⟨outcome, t₃, hrun, -, hdone⟩ := load_run hheaders hsegments hspace₂ hargs
    fun h => (hok h).2
  exact ⟨outcome, _, t₃, hrun, (hdone (hd hs)).2.1⟩

end Run

/-! ### Small executables -/

/-- The bytes of a header with the given entry point and number of program headers. -/
def encodeEhdr (entry phnum : Nat) : List UInt8 :=
  let le (n value : Nat) : List UInt8 := (List.range n).map (byteOf value)
  [0x7F, 0x45, 0x4C, 0x46, 2, 1, 1, 0, 0, 0, 0, 0, 0, 0, 0, 0] ++ le 2 2 ++ le 2 62 ++ le 4 1 ++
    le 8 entry ++ le 8 ehdrSize ++ le 8 0 ++ le 4 0 ++ le 2 ehdrSize ++ le 2 phdrSize ++ le 2 phnum ++
    le 6 0

def encodePhdr (ph : Phdr) : List UInt8 :=
  let le (n value : Nat) : List UInt8 := (List.range n).map (byteOf value)
  le 4 ph.pType ++ le 4 ph.pFlags ++ le 8 ph.pOffset ++ le 8 ph.pVaddr ++ le 8 ph.pVaddr ++
    le 8 ph.pFilesz ++ le 8 ph.pMemsz ++ le 8 pageSize

/-- A file of headers only; the segments hold parts of the headers. -/
def encode (entry : Nat) (phdrs : List Phdr) : List UInt8 :=
  encodeEhdr entry phdrs.length ++ phdrs.flatMap encodePhdr

/-- The kernel after booting, with 64 free frames. -/
def largeVm : Vm :=
  { Vm.bootVm with
    machine := { Vm.bootVm.machine with
      pmm := ⟨fun byte => if byte < 34 then 0xFF else 0, 336, 272, 0⟩ } }

theorem largeVm_card : largeVm.machine.pmm.freeSet.card = 64 := by
  decide +kernel

theorem largeVm_phys : largeVm.machine.phys = setupPageTables 0x100 fun _ _ => 0 := by
  simp only [largeVm, Vm.bootVm]

theorem largeVm_boot : largeVm.Boot :=
  Vm.boot_of_tables largeVm_phys rfl rfl (fun _ => Vm.le_of_mem_clearBits) (by decide) rfl rfl

theorem largeVm_space : Space [0x100] largeVm.machine :=
  Vm.space_of_reachable (.init largeVm_boot)

theorem ramPath_fits : ArgsFit [ramPath] := by
  unfold ArgsFit
  decide

/-- One segment with eight bytes, of which four are in the file. -/
def smallPhdr : Phdr := ⟨ptLoad, 6, 0, 0x10000000000, 4, 8⟩

def smallFile : List UInt8 := encode 0x10000000000 [smallPhdr]

theorem phdrsOf_smallFile : phdrsOf smallFile = [smallPhdr] := by decide +kernel

theorem smallFile_wellFormed : WellFormed smallFile where
  length := by decide +kernel
  table := by decide +kernel
  user := by
    decide
  filesz := by
    decide
  data := by
    decide +kernel
  apart := by
    exact List.pairwise_singleton ..

theorem smallFile_offStack : OffStack smallFile := by
  rw [OffStack, phdrsOf_smallFile]
  intro ph hph _
  obtain rfl := List.mem_singleton.mp hph
  rw [Set.disjoint_left]
  intro w hw hw'
  simp only [range, smallPhdr, Set.mem_Ico, stackBottom, userStackTop, userStackPages,
    pageSize] at hw hw'
  omega

theorem reachedOf_smallFile : reachedOf smallFile = [(smallPhdr, 4)] := by decide +kernel

theorem smallFile_frames : FramesFor largeVm.machine (mappedPages (reachedOf smallFile)) := by
  rw [reachedOf_smallFile]
  refine framesFor_of_card (by decide) ?_
  rw [largeVm_card]
  decide

theorem smallFile_survives : Survives smallFile := by
  constructor
  · rw [phdrsOf_smallFile]
    intro ph hph _ k hk hlast
    obtain rfl := List.mem_singleton.mp hph
    have hpage : ∀ k < 4, lastOn [smallPhdr] ((smallPhdr.pVaddr + k) / pageSize) = some smallPhdr := by
      decide
    exact absurd (hpage k hk) hlast
  · rw [phdrsOf_smallFile]
    intro ph _ _ _ n _ _ last hlast
    obtain rfl := List.mem_singleton.mp (of_lastOn hlast).1
    decide

/-- The first four bytes of the file are at the start of the segment, and then zeroes. -/
theorem smallFile_image : ∃ outcome v' t', load (ramDrivers smallFile) ramVfs
      ⟨largeVm.machine, []⟩ ramPath [ramPath] true = some (outcome, v', t') ∧
    outcome.value = 0x10000000000 ∧ Image smallFile t'.machine smallPhdr := by
  have hhonest := honest_ramDrivers smallFile
  have hs := delivers_ramDrivers smallFile_wellFormed.length
  obtain ⟨outcome, v', t', hrun, himage⟩ := load_image_iff hhonest largeVm_space smallFile_wellFormed
    smallFile_frames hs.toServes (ramVfs_openFile smallFile) rfl ramPath_fits smallFile_offStack
  obtain ⟨outcome₂, v₂, t₂, hrun₂, hstack⟩ := load_returns hhonest largeVm_space
    smallFile_wellFormed smallFile_frames hs (ramVfs_openFile smallFile) (by decide) rfl
    (by decide +kernel) ramPath_fits
  obtain ⟨rfl, -⟩ := Prod.mk.inj (Option.some.inj (hrun.symm.trans hrun₂))
  obtain ⟨hvalue, hsegments⟩ := himage hstack
  refine ⟨outcome, v', t', hrun, hvalue.trans (by decide +kernel),
    hsegments.mpr smallFile_survives smallPhdr ?_ rfl⟩
  exact List.mem_singleton_self _

/-- Data at the start of a page, and a zeroed segment in the middle of the same page. -/
def dataPhdr : Phdr := ⟨ptLoad, 6, 0, 0x10000000000, 4, 4⟩

def bssPhdr : Phdr := ⟨ptLoad, 6, 0, 0x10000000800, 0, 4⟩

def sharedFile : List UInt8 := encode 0x10000000000 [dataPhdr, bssPhdr]

theorem phdrsOf_sharedFile : phdrsOf sharedFile = [dataPhdr, bssPhdr] := by decide +kernel

theorem sharedFile_wellFormed : WellFormed sharedFile where
  length := by decide +kernel
  table := by decide +kernel
  user := by
    decide
  filesz := by
    decide
  data := by
    decide +kernel
  apart := by
    rw [phdrsOf_sharedFile]
    refine List.pairwise_pair.mpr fun _ _ => Set.disjoint_left.mpr fun w hw hw' => ?_
    simp only [range, dataPhdr, bssPhdr, Set.mem_Ico] at hw hw'
    omega

/-- **A page that two segments share.** It is mapped and cleared for the second segment, so
the data of the first one is gone when `load` returns the entry point. -/
theorem not_load_image : WellFormed sharedFile ∧ dataPhdr ∈ phdrsOf sharedFile ∧
    ∃ outcome v' t', load (ramDrivers sharedFile) ramVfs ⟨largeVm.machine, []⟩ ramPath [ramPath]
        true = some (outcome, v', t') ∧ outcome.value = 0x10000000000 ∧ outcome.stack ≠ none ∧
      t'.machine.readByte dataPhdr.pVaddr = some 0 ∧
      sharedFile[dataPhdr.pOffset]? = some 0x7F := by
  have hwf := sharedFile_wellFormed
  have hhonest := honest_ramDrivers sharedFile
  have hs := delivers_ramDrivers hwf.length
  obtain ⟨v₁, hheaders⟩ := hs.readHeaders hhonest (ramVfs_openFile sharedFile) (by decide) rfl
    (by decide +kernel)
  obtain ⟨-, hp, -⟩ := hs.toServes.readHeaders hhonest (ramVfs_openFile sharedFile) rfl hheaders
  have hframes : FramesFor largeVm.machine (dataPhdr.pageList ++ (bssPhdr.pageList ++ stackList)) := by
    refine framesFor_of_card (by decide) ?_
    rw [largeVm_card]
    decide
  -- the first segment
  have hencoded : dataPhdr.Encoded := ⟨by decide, by decide, by decide⟩
  obtain ⟨ok, data, v₂, hdata, hle, -⟩ := hs.toServes.segmentData hhonest hencoded hp
  obtain rfl := hs.segmentData hhonest hencoded hp (.inr (by decide +kernel)) hdata
  have hplaced : dataPhdr.Placed dataPhdr.pFilesz := ⟨by decide, .inr (by decide)⟩
  obtain ⟨t₁, hrun₁, hloaded₁, hframes₁⟩ := loadSegment_loaded (t := ⟨largeVm.machine, []⟩) (i := 0)
    largeVm_space rfl (hplaced.mono (hle.trans (dataPhdr.dataSize_le _ _))) hframes hdata
  -- the second one
  have hdata₁ : segmentData (ramDrivers sharedFile) 0 bssPhdr v₂ = some (true, [], v₂) := rfl
  obtain ⟨t₂, hrun₂, hloaded₂, hframes₂⟩ := loadSegment_loaded (i := 1) hloaded₁.acquires.space rfl
    ⟨by decide, .inl rfl⟩ hframes₁ hdata₁
  have hsegments : loadSegments (ramDrivers sharedFile) 0 0 [dataPhdr, bssPhdr] v₁
      ⟨largeVm.machine, []⟩ = some (true, v₂, t₂) := by
    rw [loadSegments, hrun₁, Option.bind_some]
    dsimp only
    rw [if_pos rfl, loadSegments, hrun₂, Option.bind_some]
    rfl
  obtain ⟨outcome, t₃, hrun, -, hdone⟩ := load_run hheaders hsegments hloaded₂.acquires.space
    ramPath_fits fun _ => hframes₂
  obtain ⟨hvalue, hstack, hadded⟩ := hdone rfl
  refine ⟨hwf, phdrsOf_sharedFile ▸ List.mem_cons_self .., outcome, _, t₃, hrun,
    hvalue.trans (by decide +kernel), hstack, ?_, by decide +kernel⟩
  -- the byte is on the page of the second segment, and outside of its range
  have hpages := hloaded₂.acquires.owned_new
  have hpage : dataPhdr.pVaddr / pageSize ∈ bssPhdr.pages := by
    rw [mem_pages]
    decide
  rw [hadded.acquires.readByte hloaded₂.acquires.space.layout.forest.active hpages hpage,
    hloaded₂.byte _ hpage]
  · rfl
  · rw [mem_stackPages]
    decide

end WengShiOS.FileFormats.Elf
