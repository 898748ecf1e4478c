import WengShiOS.FileFormats.TarWalk
import WengShiOS.Fs.Ext2.Executable

/-! # Where the data of an archive is stored

A read stores as much as it delivers at the buffer it is given, and skipping is a read whose
buffer is 0. So the data stays in the two blocks exactly as long as there is nothing to skip:
every member that is passed over is empty, or the file ends behind its header
(`Command.run_stores_iff`). -/

namespace WengShiOS.FileFormats.Tar

open Math Fs Elf Archiver Command

variable {D I P W : Type*} {drivers : D → FilesystemDriver W I P} {M : Blocks}
  {s s' s'' : Archiver D I P W} {v : Vfs D I P W} {fd : Int} {n p offset : Nat}
  {path filename behind : CString} {wanted : Option CString} {hdr file data rest : List UInt8}
  {positioned : Nat → Vfs D I P W → Prop}

/-- The data is in the block of the header or in one for a content. -/
def InBlocks (M : Blocks) (store : Nat × List UInt8) : Prop :=
  store.2 = [] ∨ M.header ≠ 0 ∧ store.1 = M.header ∧ store.2.length ≤ headerSize ∨
    ∃ size, M.content (size + 1) ≠ 0 ∧ store.1 = M.content (size + 1) ∧ store.2.length ≤ size

theorem not_inBlocks_zero (h : data ≠ []) : ¬ InBlocks M (0, data) := by
  rintro (hnil | ⟨hheader, haddr, -⟩ | ⟨size, hcontent, haddr, -⟩)
  · exact h hnil
  · exact hheader haddr.symm
  · exact hcontent haddr.symm

theorem inBlocks_header (hheader : file = [] ∨ M.header ≠ 0) (p : Nat) :
    InBlocks M (M.header, block file p) := by
  rcases hheader with rfl | hheader
  · exact .inl (by simp [block])
  · exact .inr (.inl ⟨hheader, rfl, List.length_take_le ..⟩)

/-- From position `p` on, behind headers of empty members only, a header is passed over that
has a member with data, and something follows it in the file. -/
inductive Skips (behind : CString) (wanted : Option CString) (file : List UInt8) : Nat → Prop
  | here {p : Nat} : p + headerSize < file.length → ¬ Stops behind wanted (block file p) →
      memberSize (block file p) ≠ 0 → Skips behind wanted file p
  | next {p : Nat} : ¬ Stops behind wanted (block file p) → memberSize (block file p) = 0 →
      Skips behind wanted file (p + headerSize) → Skips behind wanted file p

theorem Skips.lt (h : Skips behind wanted file p) : p + headerSize < file.length := by
  induction h with
  | here hlt => exact hlt
  | next _ _ _ ih => omega

theorem not_skips_nil : ¬ Skips behind wanted [] p := fun h => absurd h.lt (Nat.not_lt_zero _)

/-- Nothing is read, or there is a block to read headers into and nothing to skip. -/
def Command.StaysInside (cmd : Command) (M : Blocks) (file : List UInt8) : Prop :=
  cmd.wanted = some [] ∨ file = [] ∨ M.header ≠ 0 ∧ ¬ Skips M.behind cmd.wanted file 0

/-- Behind a header that is passed over nothing is skipped, and the next one follows. -/
theorem next_of_not_skips (h : ¬ Skips behind wanted file p)
    (hlen : (block file p ++ rest).length = headerSize)
    (hstop : ¬ Stops behind wanted (block file p ++ rest)) :
    (file.drop (p + (block file p).length)).take (skipSize (block file p ++ rest)) = [] ∧
      ¬ Skips behind wanted file (p + (block file p).length) := by
  have hblock := length_block file p
  by_cases hin : p + headerSize < file.length
  · rw [Nat.min_eq_left (by omega)] at hblock
    obtain rfl : rest = [] := by
      rw [List.length_append, hblock] at hlen
      exact List.length_eq_zero_iff.mp (by omega)
    rw [List.append_nil] at hstop ⊢
    have hsize : memberSize (block file p) = 0 := by
      by_contra hsize
      exact h (.here hin hstop hsize)
    rw [skipSize_eq_zero hsize, List.take_zero, hblock]
    exact ⟨rfl, fun hnext => h (.next hstop hsize hnext)⟩
  · rw [List.drop_of_length_le (by omega)]
    refine ⟨List.take_nil, fun hnext => ?_⟩
    have := hnext.lt
    omega

theorem skip_lt (hdr : List UInt8) : skipSize hdr < 2 ^ 63 :=
  (skipSize_lt hdr).trans (by norm_num)

theorem skipped_eq_nil (hsize : memberSize hdr = 0) : (file.drop p).take (skipSize hdr) = [] := by
  rw [skipSize_eq_zero hsize, List.take_zero]

theorem skipped_ne_nil (hsize : memberSize hdr ≠ 0) (hp : p < file.length) :
    (file.drop p).take (skipSize hdr) ≠ [] := by
  rw [← List.length_pos_iff, List.length_take, List.length_drop, skipSize_eq]
  omega

namespace Archiver

/-- From `s` to `s'` data is only stored in the blocks. -/
def Stores (M : Blocks) (s s' : Archiver D I P W) : Prop :=
  ∃ new, s'.stores = s.stores ++ new ∧ ∀ store ∈ new, InBlocks M store

/-- Some data is stored from address 0 on. -/
def Spills (s s' : Archiver D I P W) : Prop :=
  ∃ new, s'.stores = s.stores ++ new ∧ ∃ data, data ≠ [] ∧ (0, data) ∈ new

theorem Stores.of_eq (h : s'.stores = s.stores) : Stores M s s' := ⟨[], by simp [h], by simp⟩

theorem Stores.trans (h : Stores M s s') (h' : Stores M s' s'') : Stores M s s'' := by
  obtain ⟨new, hnew, hall⟩ := h
  obtain ⟨new', hnew', hall'⟩ := h'
  refine ⟨new ++ new', by rw [hnew', hnew, List.append_assoc], fun store hstore => ?_⟩
  exact (List.mem_append.mp hstore).elim (hall store) (hall' store)

theorem Spills.not_stores (h : Spills s s') : ¬ Stores M s s' := by
  rintro ⟨new, hnew, hall⟩
  obtain ⟨new', hnew', data, hdata, hmem⟩ := h
  obtain rfl := List.append_cancel_left (hnew.symm.trans hnew')
  exact not_inBlocks_zero hdata (hall _ hmem)

/-- What is stored before and after does not matter. -/
theorem Spills.mono {t t' : Archiver D I P W} (h : Spills s s') (hold : t.stores <+: s.stores)
    (hlater : s'.stores <+: t'.stores) : Spills t t' := by
  obtain ⟨new, hnew, data, hdata, hmem⟩ := h
  obtain ⟨old, hold⟩ := hold
  obtain ⟨later, hlater⟩ := hlater
  refine ⟨old ++ new ++ later, ?_, data, hdata, by simp [hmem]⟩
  rw [← hlater, hnew, ← hold]
  simp

section

variable (hreads : Reads drivers fd file positioned)
include hreads

/-- Nothing is left of the file, or nothing is asked for. -/
theorem read_nothing (hpos : positioned p s.vfs) {count : Nat} (hcount : count < 2 ^ 63)
    (h : (file.drop p).take count = []) (buffer : Nat) :
    Stores M s (s.read drivers fd buffer count) ∧
      positioned p (s.read drivers fd buffer count).vfs := by
  obtain ⟨hdata, hnext⟩ := hreads hpos hcount
  rw [h] at hdata hnext
  refine ⟨⟨[(buffer, [])], ?_, by simp [InBlocks]⟩, hnext⟩
  rw [← hdata]
  rfl

/-- Data is read to address 0. -/
theorem read_spills (hpos : positioned p s.vfs) {count : Nat} (hcount : count < 2 ^ 63)
    (h : (file.drop p).take count ≠ []) : Spills s (s.read drivers fd 0 count) := by
  refine ⟨[(0, (file.drop p).take count)], ?_, _, h, List.mem_singleton_self _⟩
  rw [← (hreads hpos hcount).1]
  rfl

section Inside

variable (hheader : file = [] ∨ M.header ≠ 0)
include hheader

theorem listLoop_stores (n : Nat) (hpos : positioned p s.vfs)
    (hskips : ¬ Skips M.behind none file p) : Stores M s (s.listLoop drivers M fd n).2 := by
  induction n generalizing s p with
  | zero => exact .of_eq rfl
  | succ n ih =>
    obtain ⟨stale, s₁, hread, hlen, hpos₁, -, -, hstores, -⟩ :=
      readHeader_spec (M := M) hreads hpos
    have hfirst : Stores M s s₁ := ⟨_, hstores, by simpa using inBlocks_header hheader p⟩
    rw [listLoop, hread]
    dsimp only
    split_ifs with hmagic
    · exact hfirst
    · have hstop : ¬ Stops M.behind none (block file p ++ stale) := by
        rintro (h | h)
        exacts [hmagic h, Option.some_ne_none _ h.symm]
      obtain ⟨hnone, hskips'⟩ := next_of_not_skips hskips hlen hstop
      obtain ⟨hsecond, hpos₂⟩ := read_nothing (s := s₁.print _) hreads hpos₁ (skip_lt _) hnone 0
      have hprint : ∀ line, Stores M s₁ (s₁.print line) := fun _ => .of_eq rfl
      exact (hfirst.trans ((hprint _).trans hsecond)).trans (ih hpos₂ hskips')

/-- The loop is entered behind a header, with its data still to be skipped. -/
theorem findLoop_stores (n : Nat) (hpos : positioned p s.vfs) (hoffset : offset < 2 ^ 63)
    (hskips : filename ≠ fileName M.behind hdr →
      (file.drop p).take offset = [] ∧ ¬ Skips M.behind (some filename) file p) :
    Stores M s (s.findLoop drivers M fd filename n hdr offset).2 ∧
      ∃ p', positioned p' (s.findLoop drivers M fd filename n hdr offset).2.vfs := by
  induction n generalizing s hdr offset p with
  | zero => exact ⟨.of_eq rfl, p, hpos⟩
  | succ n ih =>
    rw [findLoop]
    split_ifs with hname
    · exact ⟨.of_eq rfl, p, hpos⟩
    obtain ⟨hnone, hskips⟩ := hskips hname
    obtain ⟨hskip, hpos₀⟩ := read_nothing (M := M) hreads hpos hoffset hnone 0
    obtain ⟨stale, s₁, hread, hlen, hpos₁, -, -, hstores, -⟩ :=
      readHeader_spec (M := M) hreads hpos₀
    have hfirst : Stores M s s₁ :=
      hskip.trans ⟨_, hstores, by simpa using inBlocks_header hheader p⟩
    rw [hread]
    dsimp only
    split_ifs with hmagic
    · exact ⟨hfirst, _, hpos₁⟩
    · obtain ⟨hrest, hend⟩ := ih hpos₁
        (skip_lt (block file p ++ stale))
        fun hname' => next_of_not_skips hskips hlen fun h =>
          h.elim hmagic fun h => hname' (Option.some.inj h)
      exact ⟨hfirst.trans hrest, hend⟩

end Inside

/-! ### Data is skipped -/

theorem header_spills (hpos : positioned 0 s.vfs) (hheader : M.header = 0) (hfile : file ≠ []) :
    Spills s (s.readHeader drivers M fd).2 := by
  obtain ⟨stale, s₁, hread, -, -, -, -, hstores, -⟩ := readHeader_spec (M := M) hreads hpos
  rw [hread]
  refine ⟨_, hstores, block file 0, ?_, by simp [hheader]⟩
  have hlen := length_block file 0
  have hpos := List.length_pos_iff.mpr hfile
  unfold headerSize at hlen
  exact List.length_pos_iff.mp (by omega)

theorem listLoop_spills (h : Skips M.behind none file p) (hpos : positioned p s.vfs) :
    ∃ n, Spills s (s.listLoop drivers M fd n).2 := by
  induction h generalizing s with
  | @here p hlt hstop hsize =>
    obtain ⟨s₁, hread, hpos₁, -, -, hstores, -⟩ := readHeader_complete (M := M) hreads hpos hlt.le
    refine ⟨1, ?_⟩
    rw [listLoop, hread]
    dsimp only
    rw [if_neg fun hmagic => hstop (.inl hmagic)]
    have hspills := read_spills (s := s₁) hreads hpos₁
      (skip_lt (block file p)) (skipped_ne_nil hsize hlt)
    exact hspills.mono ⟨_, hstores.symm⟩ List.prefix_rfl
  | @next p hstop hsize hnext ih =>
    have hle : p + headerSize ≤ file.length := (Nat.le_add_right _ _).trans hnext.lt.le
    obtain ⟨s₁, hread, hpos₁, -, -, hstores, -⟩ := readHeader_complete (M := M) hreads hpos hle
    obtain ⟨s₂, hs₂, hvfs, hstores₂⟩ : ∃ s₂, s₁.print (.file (fileName M.behind (block file p))
      (memberSize (block file p))) = s₂ ∧ s₂.vfs = s₁.vfs ∧ s₂.stores = s₁.stores := ⟨_, rfl, rfl, rfl⟩
    obtain ⟨n, hspills⟩ := ih (read_nothing (M := M) hreads (hvfs ▸ hpos₁) (skip_lt (block file p))
      (skipped_eq_nil hsize) 0).2
    refine ⟨n + 1, ?_⟩
    rw [listLoop, hread]
    dsimp only
    rw [if_neg fun hmagic => hstop (.inl hmagic), hs₂]
    refine hspills.mono ?_ List.prefix_rfl
    exact List.IsPrefix.trans ⟨_, (hstores₂.trans hstores).symm⟩ (List.prefix_append _ _)

theorem findLoop_spills (h : Skips M.behind (some filename) file p)
    (hpos : positioned p (s.read drivers fd 0 offset).vfs)
    (hname : filename ≠ fileName M.behind hdr) :
    ∃ n, Spills s (s.findLoop drivers M fd filename n hdr offset).2 := by
  induction h generalizing s hdr offset with
  | @here p hlt hstop hsize =>
    obtain ⟨s₁, hread, hpos₁, -, -, hstores, -⟩ := readHeader_complete (M := M) hreads hpos hlt.le
    refine ⟨2, ?_⟩
    rw [findLoop, if_neg hname, hread]
    dsimp only
    rw [if_neg fun hmagic => hstop (.inl hmagic), findLoop,
      if_neg fun hfound => hstop (.inr (congrArg some hfound))]
    refine (read_spills hreads hpos₁
      (skip_lt (block file p)) (skipped_ne_nil hsize hlt)).mono ?_ ?_
    · exact List.IsPrefix.trans (List.prefix_append _ _) ⟨_, hstores.symm⟩
    · dsimp only
      split_ifs <;> exact List.prefix_append _ _
  | @next p hstop hsize hnext ih =>
    have hle : p + headerSize ≤ file.length := (Nat.le_add_right _ _).trans hnext.lt.le
    obtain ⟨s₁, hread, hpos₁, -, -, hstores, -⟩ := readHeader_complete (M := M) hreads hpos hle
    obtain ⟨n, hspills⟩ := ih (read_nothing (M := M) hreads hpos₁ (skip_lt (block file p))
      (skipped_eq_nil hsize) 0).2 fun hfound => hstop (.inr (congrArg some hfound))
    refine ⟨n + 1, ?_⟩
    rw [findLoop, if_neg hname, hread]
    dsimp only
    rw [if_neg fun hmagic => hstop (.inl hmagic)]
    refine hspills.mono ?_ List.prefix_rfl
    exact List.IsPrefix.trans (List.prefix_append _ _) ⟨_, hstores.symm⟩

/-! ### The functions -/

variable (M filename) in
/-- The content of a member is stored in its block; `use` stores nothing. -/
theorem withMember_stores (hopen : s.openFile drivers path = (fd, s')) (hfd : 0 ≤ fd)
    {use : Int → (content size : Nat) → Archiver D I P W → Archiver D I P W}
    (huse : ∀ fd content size t, (use fd content size t).stores = t.stores) (n : Nat) :
    ∃ later, (s.withMember drivers M path filename n use).2.stores = (s'.findLoop drivers M fd
        filename n (List.replicate headerSize 0) 0).2.stores ++ later ∧
      ∀ {p}, positioned p (s'.findLoop drivers M fd filename n (List.replicate headerSize 0) 0).2.vfs →
        ∀ store ∈ later, InBlocks M store := by
  obtain ⟨⟨search, s₁⟩, hfind⟩ : ∃ r, s'.findLoop drivers M fd filename n
    (List.replicate headerSize 0) 0 = r := ⟨_, rfl⟩
  rw [hfind]
  cases search with
  | running =>
    refine ⟨[], ?_, by simp⟩
    rw [withMember, hopen]
    dsimp only
    rw [if_neg (by omega), hfind, List.append_nil]
  | missing =>
    refine ⟨[], ?_, by simp⟩
    rw [withMember_missing use hopen hfd hfind, List.append_nil]
    rfl
  | found hdr =>
    rw [withMember_found use hopen hfd hfind]
    dsimp only
    split_ifs with hcontent
    · exact ⟨[], (List.append_nil _).symm, by simp⟩
    · refine ⟨[(M.content (memberSize hdr + 1), (s₁.vfs.read drivers fd (memberSize hdr)).2.1)],
        huse _ _ _ _, fun hpos store hstore => ?_⟩
      obtain rfl := List.mem_singleton.mp hstore
      rw [(hreads hpos ((memberSize_lt hdr).trans (by norm_num))).1]
      exact .inr (.inr ⟨_, hcontent, rfl, List.length_take_le ..⟩)

end

end Archiver

theorem Archiver.writeOut_stores (target : CString) (fd : Int) (content size : Nat)
    (t : Archiver D I P W) :
    (writeOut drivers target fd content size t).stores = t.stores := by
  unfold writeOut
  dsimp only
  split_ifs <;> rfl

theorem Archiver.withMember_stores_iff (hreads : Reads drivers fd file positioned)
    (hopen : s.openFile drivers path = (fd, s')) (hfd : 0 ≤ fd) (hstart : positioned 0 s'.vfs)
    {use : Int → (content size : Nat) → Archiver D I P W → Archiver D I P W}
    (huse : ∀ fd content size t, (use fd content size t).stores = t.stores) :
    (∀ n, Stores M s' (s.withMember drivers M path filename n use).2) ↔
      (cat filename).StaysInside M file := by
  have hpos : positioned 0 (s'.read drivers fd 0 0).vfs :=
    read_positioned hreads hstart (by norm_num : 0 < 2 ^ 63) (Nat.zero_le _) 0
  have hmember := withMember_stores M filename hreads hopen hfd huse
  constructor
  · intro hall
    have hinside : ∀ n, ¬ Spills s' (s'.findLoop drivers M fd filename n
        (List.replicate headerSize 0) 0).2 := by
      intro n hspills
      obtain ⟨later, hlater, -⟩ := hmember n
      exact (hspills.mono List.prefix_rfl ⟨later, hlater.symm⟩).not_stores (hall n)
    by_cases hempty : filename = []
    · exact .inl (congrArg some hempty)
    · have hname : filename ≠ fileName M.behind (List.replicate headerSize 0) := by
        rwa [fileName_replicate]
      refine .inr (or_iff_not_imp_left.mpr fun hfile => ⟨fun hheader => ?_, fun hskips => ?_⟩)
      · -- without a block for it, the first header is stored from address 0 on
        refine hinside 1 ?_
        rw [findLoop, if_neg hname]
        dsimp only
        refine (header_spills hreads hpos hheader hfile).mono (List.prefix_append _ _) ?_
        split_ifs <;> exact List.prefix_rfl
      · obtain ⟨n, hspills⟩ := findLoop_spills (s := s') hreads hskips hpos hname
        exact hinside n hspills
  · intro hin n
    have hloop : Stores M s' (s'.findLoop drivers M fd filename n
          (List.replicate headerSize 0) 0).2 ∧ ∃ p', positioned p' (s'.findLoop drivers M fd
            filename n (List.replicate headerSize 0) 0).2.vfs := by
      rcases hin with hempty | hin
      · have hname : filename = fileName M.behind (List.replicate headerSize 0) :=
          (Option.some.inj hempty).trans (fileName_replicate _).symm
        cases n <;> exact ⟨.of_eq (by rw [findLoop, if_pos hname]), 0, by rwa [findLoop, if_pos hname]⟩
      · refine findLoop_stores hreads (hin.imp_right And.left) n hstart (by norm_num)
          fun _ => ⟨List.take_zero, fun hskips => ?_⟩
        rcases hin with rfl | hin
        · exact not_skips_nil hskips
        · exact hin.2 hskips
    obtain ⟨later, hlater, hcontent⟩ := hmember n
    obtain ⟨hstores, p', hpos'⟩ := hloop
    exact hstores.trans ⟨later, hlater, hcontent hpos'⟩

/-- **Where data is stored.** However long the function runs, all data of the archive is in the
blocks: this holds exactly if nothing is read, or there is a block for the headers and no data
that is passed over. -/
theorem Command.run_stores_iff (cmd : Command) (hreads : Reads drivers fd file positioned)
    (hopen : s.vfs.openFile drivers path = (fd, v)) (hfd : 0 ≤ fd) (hstart : positioned 0 v) :
    (∀ n, Stores M s (cmd.run drivers M s path n).2) ↔ cmd.StaysInside M file := by
  obtain ⟨s₀, hopened, rfl, -, -, -, hstores₀⟩ := openFile_spec hopen
  have hsame : ∀ {t}, Stores M s t ↔ Stores M s₀ t := by
    intro t
    rw [Stores, Stores, hstores₀]
  simp only [hsame]
  cases cmd with
  | list =>
    have hrun : ∀ n, (list.run drivers M s path n).2.stores =
        (s₀.listLoop drivers M fd n).2.stores := by
      intro n
      rw [run, listFiles, hopened]
      dsimp only
      rw [if_neg (by omega)]
      dsimp only
      split_ifs <;> rfl
    constructor
    · intro hall
      have hinside : ∀ n, ¬ Spills s₀ (s₀.listLoop drivers M fd n).2 := fun n hspills =>
        (hspills.mono List.prefix_rfl ⟨[], by rw [hrun, List.append_nil]⟩).not_stores (hall n)
      refine .inr (or_iff_not_imp_left.mpr fun hfile => ⟨fun hheader => ?_, fun hskips => ?_⟩)
      · -- without a block for it, the first header is stored from address 0 on
        refine hinside 1 ?_
        rw [listLoop]
        dsimp only
        refine (header_spills hreads hstart hheader hfile).mono List.prefix_rfl ?_
        split_ifs
        · exact List.prefix_rfl
        · exact List.prefix_append _ _
      · obtain ⟨n, hspills⟩ := listLoop_spills hreads hskips hstart
        exact hinside n hspills
    · intro hin n
      have hin := hin.resolve_left (Option.some_ne_none _).symm
      have hskips : ¬ Skips M.behind none file 0 := by
        intro hskips
        rcases hin with rfl | hin
        · exact not_skips_nil hskips
        · exact hin.2 hskips
      obtain ⟨new, hnew, hall⟩ := listLoop_stores hreads (hin.imp_right And.left) n hstart hskips
      exact ⟨new, (hrun n).trans hnew, hall⟩
  | cat filename => exact withMember_stores_iff hreads hopened hfd hstart fun _ _ _ _ => rfl
  | extract filename target =>
    exact withMember_stores_iff hreads hopened hfd hstart (writeOut_stores target)

/-! ### An archive on an ext2 volume -/

section Volume

open Ext2

/-- The file `a` of 1536 bytes, with the header of a member whose size field has one digit. -/
def tarDisk (digit : Nat) : Bytes :=
  Ext2.stores [⟨1, 8192, 0x61⟩, ⟨1, 8316, digit⟩, ⟨1, 8449, 0x75⟩] (fileDisk 1536 [8, 9] 9)

def tarVfs (digit : Nat) : Vfs Unit Nat PrivateData World where
  blockDevices := []
  mounts _ := ⟨true, ramPath, [], ⟨[], 0, 126, 512, fun _ _ _ w => (none, w),
    fun _ _ _ _ w => (false, w)⟩, (), 0⟩
  openFiles _ := ⟨false, 0, fileHandle, 0⟩
  world := ⟨fun _ => tarDisk digit, fun _ => (0, (mounted (tarDisk digit)).state), 1, fun _ => true⟩

def tarArchiver (digit : Nat) : Archiver Unit Nat PrivateData World :=
  ⟨tarVfs digit, fun _ => 0, [], [], [], []⟩

/-- `listFiles` on the volume. -/
def tarListed (digit : Nat) : Bool × Archiver Unit Nat PrivateData World :=
  Command.list.run (fun _ => driver) ramBlocks (tarArchiver digit) (ramPath ++ [slash, 0x61]) 3

/-- The volume of an archive with an empty member, with the archive open. -/
def tarOpened : Int × Vfs Unit Nat PrivateData World :=
  (tarVfs 0x30).openFile (fun _ => driver) (ramPath ++ [slash, 0x61])

def tarFile : List UInt8 := (volumeOf tarOpened.2 0).contents (privateOf tarOpened.2 0).inode

theorem tarOpened_reads : ReadsSafely (fun _ => driver) tarOpened.2 0 0 ∧
    (volumeOf tarOpened.2 0).InReach (privateOf tarOpened.2 0).inode := by
  have hsize : (volumeOf tarOpened.2 0).state.blockSize = 1024 ∧
      (privateOf tarOpened.2 0).inode.size = 1536 := by decide +kernel
  have hblocks : ∀ index, index * (volumeOf tarOpened.2 0).state.blockSize <
      (privateOf tarOpened.2 0).inode.size → index = 0 ∨ index = 1 := by
    intro index hindex
    rw [hsize.1, hsize.2] at hindex
    omega
  refine ⟨⟨⟨by decide +kernel, rfl⟩, rfl, by rw [hsize.1]; decide, fun index hindex => ?_⟩,
    fun index hindex => ?_⟩
  all_goals rcases hblocks index hindex with rfl | rfl <;> decide +kernel

theorem run_stores_emptyMember : Stores ramBlocks (tarArchiver 0x30) (tarListed 0x30).2 := by
  obtain ⟨hsafe, hreach⟩ := tarOpened_reads
  have hopen : tarOpened.1 = 0 ∧ (tarOpened.2.openFiles 0).offset = 0 := by decide +kernel
  have hstart : tarOpened.2 = Ext2.atOffset tarOpened.2 0 0 := by
    rw [← hopen.2, atOffset_self]
  have hempty : memberSize (block tarFile 0) = 0 := by decide +kernel
  have hstop : Stops [] none (block tarFile headerSize) := .inl (by decide +kernel)
  have hskips : ¬ Skips [] none tarFile 0 := by
    rintro (⟨-, -, hsize⟩ | ⟨-, -, ⟨-, hnot, -⟩ | ⟨hnot, -, -⟩⟩)
    · exact hsize hempty
    · exact hnot (by simpa using hstop)
    · exact hnot (by simpa using hstop)
  exact (run_stores_iff (s := tarArchiver 0x30) list (hsafe.reads hreach)
    (Prod.ext hopen.1 rfl) le_rfl hstart).mpr (.inr (.inr ⟨by decide, hskips⟩)) 3

/-- **Skipped data.** The member has five bytes of data, and a block of 512 bytes is stored
from address 0 on. -/
theorem not_run_stores : ∃ store ∈ (tarListed 0x35).2.stores, store.1 = 0 ∧
    store.2.length = 512 ∧ ¬ InBlocks ramBlocks store := by
  have hrun : ((tarListed 0x35).2.stores.any fun store =>
      decide (store.1 = 0) && decide (store.2.length = 512)) = true := by decide +kernel
  simp only [List.any_eq_true, Bool.and_eq_true, decide_eq_true_eq] at hrun
  obtain ⟨store, hstore, haddr, hlen⟩ := hrun
  obtain ⟨addr, data⟩ := store
  obtain rfl : addr = 0 := haddr
  refine ⟨_, hstore, rfl, hlen, not_inBlocks_zero ?_⟩
  rintro rfl
  cases hlen

end Volume

end WengShiOS.FileFormats.Tar
