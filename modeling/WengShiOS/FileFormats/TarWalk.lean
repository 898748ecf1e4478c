import Mathlib.Data.List.TakeWhile
import WengShiOS.FileFormats.RamFile
import WengShiOS.FileFormats.Tar

/-! # The walk through an archive

Where the headers of a file lead, without the code: from a complete header to the one behind
its data, up to a header at which a function stops (`Walk`). The loops end in time, and look
only at what they have read, exactly if the file has such a walk (`Command.run_ends_iff`); on
an archive as `tar` writes it, they list the members and find their data (`archive_correct`).
If the file ends before, the last header is taken for a new one again and again
(`Archiver.listLoop_lastHeader`). -/

namespace WengShiOS.FileFormats.Tar

open Math Fs Elf Archiver Command

variable {D I P W : Type*} {drivers : D → FilesystemDriver W I P} {M : Blocks}
  {s s' : Archiver D I P W} {v : Vfs D I P W} {fd : Int} {file data hdr rest : List UInt8}
  {positioned : Nat → Vfs D I P W → Prop} {p q n offset : Nat} {mem : Bytes}
  {path filename target behind : CString} {wanted : Option CString} {hdrs : List (List UInt8)}

/-! ### Reads -/

theorem reads_ramDrivers (hlength : file.length < 2 ^ 63) :
    Reads (ramDrivers file) 0 file fun p v => v = ramAt file p := by
  rintro p v count rfl -
  rw [read_ramAt hlength]
  exact ⟨rfl, rfl⟩

/-- The header at a position of the file, or what there is of it. -/
def block (file : List UInt8) (p : Nat) : List UInt8 := (file.drop p).take headerSize

theorem length_block (file : List UInt8) (p : Nat) :
    (block file p).length = min headerSize (file.length - p) := by
  rw [block, List.length_take, List.length_drop]

theorem length_block_of_le (h : p + headerSize ≤ file.length) :
    (block file p).length = headerSize := by
  rw [length_block]
  omega

theorem length_loadBytes (mem : Bytes) (p n : Nat) : (loadBytes mem p n).length = n := by
  simp [loadBytes]

/-- What is loaded where `data` was stored. -/
theorem loadBytes_take (hlen : data.length ≤ n)
    (h : ∀ i < data.length, mem (p + i) = bytesOf data i) :
    (loadBytes mem p n).take data.length = data := by
  refine List.ext_getElem (by simp [length_loadBytes, hlen]) fun i hi hi' => ?_
  simp [loadBytes, h i hi', bytesOf, hi']

/-- A header that has been read completely. -/
def complete (hdr : List UInt8) : Examined := ⟨hdr, hdr⟩

theorem magic_append (h : 257 < hdr.length) : magic (hdr ++ rest) = magic hdr := by
  rw [magic, magic, List.getD_eq_getElem?_getD, List.getD_eq_getElem?_getD,
    List.getElem?_append_left h]

/-- What follows a header that holds a zero is not part of its name. -/
theorem fileName_append (h : 0 ∈ hdr) : fileName behind (hdr ++ rest) = fileName behind hdr := by
  have hends : ∀ tail : List UInt8, (hdr ++ tail).takeWhile (· ≠ 0) = hdr.takeWhile (· ≠ 0) := by
    intro tail
    rw [List.takeWhile_append, if_neg fun hall => ?_]
    have hself := List.takeWhile_eq_self_iff.mp
      ((List.takeWhile_prefix _).eq_of_length hall) 0 h
    simp at hself
  rw [fileName, fileName, List.append_assoc, hends, hends]

namespace Archiver

/-- What a read may change besides the memory. -/
structure Same (s s' : Archiver D I P W) : Prop where
  terminal : s'.terminal = s.terminal
  calls : s'.calls = s.calls

section

variable (hreads : Reads drivers fd file positioned) (hpos : positioned p s.vfs)
include hreads hpos

theorem read_positioned {count : Nat} (hcount : count < 2 ^ 63) (hle : p + count ≤ file.length)
    (buffer : Nat) :
    positioned (p + count) (s.read drivers fd buffer count).vfs := by
  have hnext := (hreads hpos hcount).2
  rwa [List.length_take, List.length_drop, Nat.min_eq_left (by omega)] at hnext

/-- The header is what could be read, and behind it what was in its block before. -/
theorem readHeader_spec : ∃ stale s', s.readHeader drivers M fd = (block file p ++ stale, s') ∧
    (block file p ++ stale).length = headerSize ∧
    positioned (p + (block file p).length) s'.vfs ∧ Same s s' ∧
    s'.examined = s.examined ++ [⟨block file p, block file p ++ stale⟩] ∧
    s'.stores = s.stores ++ [(M.header, block file p)] ∧
    loadBytes s'.mem M.header headerSize = block file p ++ stale := by
  obtain ⟨hdata, hnext⟩ := hreads hpos (by decide : headerSize < 2 ^ 63)
  have hdata : (s.vfs.read drivers fd headerSize).2.1 = block file p := hdata
  obtain ⟨hdr, hhdr⟩ : ∃ hdr, (s.readHeader drivers M fd).1 = hdr := ⟨_, rfl⟩
  have hload : loadBytes (s.read drivers fd M.header headerSize).mem M.header headerSize = hdr := by
    rw [← hhdr, readHeader_fst]
  have htake : hdr.take (block file p).length = block file p := by
    rw [← hload]
    refine loadBytes_take (List.length_take_le ..) fun i hi => ?_
    rw [read_mem, hdata]
    exact overlay_of_lt hi
  have hsplit : block file p ++ hdr.drop (block file p).length = hdr := by
    calc block file p ++ hdr.drop (block file p).length
        = hdr.take (block file p).length ++ hdr.drop (block file p).length := by rw [htake]
      _ = hdr := List.take_append_drop ..
  refine ⟨hdr.drop (block file p).length, (s.readHeader drivers M fd).2, ?_, ?_, hnext,
    ⟨rfl, rfl⟩, ?_, ?_, ?_⟩
  · rw [hsplit]
    exact Prod.ext hhdr rfl
  · rw [hsplit, ← hload, length_loadBytes]
  · rw [hsplit, readHeader_examined, hhdr, hdata]
  · rw [← hdata]
    rfl
  · rw [hsplit]
    exact hload

theorem readHeader_complete (hle : p + headerSize ≤ file.length) :
    ∃ s', s.readHeader drivers M fd = (block file p, s') ∧ positioned (p + headerSize) s'.vfs ∧
      Same s s' ∧ s'.examined = s.examined ++ [complete (block file p)] ∧
      s'.stores = s.stores ++ [(M.header, block file p)] ∧
      loadBytes s'.mem M.header headerSize = block file p := by
  obtain ⟨stale, s', hread, hlen, hnext, hspec⟩ := readHeader_spec (M := M) hreads hpos
  have hblock := length_block_of_le hle
  obtain rfl : stale = [] := by
    rw [List.length_append, hblock] at hlen
    exact List.length_eq_zero_iff.mp (by omega)
  rw [List.append_nil] at hread hspec
  rw [hblock] at hnext
  exact ⟨s', hread, hnext, hspec⟩
/-! ### A file that ends too early -/

theorem read_atEnd (hend : file.length ≤ p) {count : Nat} (hcount : count < 2 ^ 63) (buffer : Nat) :
    positioned p (s.read drivers fd buffer count).vfs ∧
      (s.read drivers fd buffer count).mem = s.mem := by
  obtain ⟨hdata, hnext⟩ := hreads hpos hcount
  rw [List.drop_of_length_le hend, List.take_nil] at hdata hnext
  refine ⟨hnext, funext fun x => ?_⟩
  rw [read_mem, hdata]
  exact overlay_of_not_mem (by rw [List.length_nil]; omega)

/-- At the end of the file the header is still that of the last member: it is listed again and
the loop is where it was. -/
theorem listLoop_atEnd (hend : file.length ≤ p)
    (hmagic : magic (loadBytes s.mem M.header headerSize) ≠ 0) (n : Nat) :
    (s.listLoop drivers M fd n).1 = false := by
  induction n generalizing s with
  | zero => rfl
  | succ n ih =>
    obtain ⟨hpos₁, hmem₁⟩ := read_atEnd hreads hpos hend (by decide : headerSize < 2 ^ 63) M.header
    obtain ⟨s₁, hread, hvfs, hmem⟩ : ∃ s₁,
        s.readHeader drivers M fd = (loadBytes s.mem M.header headerSize, s₁) ∧
          positioned p s₁.vfs ∧ s₁.mem = s.mem := by
      refine ⟨(s.readHeader drivers M fd).2, Prod.ext ?_ rfl, hpos₁, hmem₁⟩
      rw [readHeader_fst, hmem₁]
    rw [listLoop, hread]
    dsimp only
    rw [if_neg hmagic]
    have hskip := (skipSize_lt (loadBytes s.mem M.header headerSize)).trans
      (by norm_num : 2 ^ 37 < 2 ^ 63)
    obtain ⟨hpos₂, hmem₂⟩ := read_atEnd (s := s₁.print _) hreads hvfs hend hskip 0
    exact ih hpos₂ (by rwa [hmem₂, show (s₁.print _).mem = s₁.mem from rfl, hmem])

/-- **The last header is a member's.** The loop never ends. -/
theorem listLoop_lastHeader (hlast : p + headerSize = file.length)
    (hmagic : magic (block file p) ≠ 0) (n : Nat) : (s.listLoop drivers M fd n).1 = false := by
  cases n with
  | zero => rfl
  | succ n =>
    obtain ⟨s₁, hread, hpos₁, -, -, -, hmem⟩ := readHeader_complete hreads hpos hlast.le
    rw [listLoop, hread]
    dsimp only
    rw [if_neg hmagic]
    have hskip := (skipSize_lt (block file p)).trans (by norm_num : 2 ^ 37 < 2 ^ 63)
    obtain ⟨hpos₂, hmem₂⟩ := read_atEnd (s := s₁.print _) hreads hpos₁ hlast.ge hskip 0
    refine listLoop_atEnd hreads hpos₂ hlast.ge ?_ n
    rwa [hmem₂, show (s₁.print _).mem = s₁.mem from rfl, hmem]

end

end Archiver

/-! ### The walk -/

/-- The headers at which a function stops that looks for `wanted`. -/
def Stops (behind : CString) (wanted : Option CString) (hdr : List UInt8) : Prop :=
  magic hdr = 0 ∨ wanted = some (fileName behind hdr)

/-- As much of a header as there is shows how its name compares: the name ends in it, or it
differs from the one that is looked for. -/
def Within (wanted : Option CString) (hdr : List UInt8) : Prop :=
  0 ∈ hdr ∨ ∃ name, wanted = some name ∧ ¬ hdr <+: name

/-- The headers from position `p` on: the file is walked over `hdrs`, which are complete, and
the header at `q` is one to stop at. That one may be cut off behind what shows it. -/
inductive Walk (behind : CString) (wanted : Option CString) (file : List UInt8) :
    Nat → List (List UInt8) → Nat → Prop
  | stop {p : Nat} : 257 < (block file p).length → 0 ∈ block file p →
      Stops behind wanted (block file p) → Walk behind wanted file p [] p
  | pass {p q : Nat} {hdrs : List (List UInt8)} : p + headerSize ≤ file.length →
      Within wanted (block file p) → ¬ Stops behind wanted (block file p) →
      Walk behind wanted file (p + headerSize + skipSize (block file p)) hdrs q →
      Walk behind wanted file p (block file p :: hdrs) q

theorem zero_mem_of_magic (hlen : 257 < hdr.length) (h : magic hdr = 0) : 0 ∈ hdr := by
  rw [magic, List.getD_eq_getElem?_getD, List.getElem?_eq_getElem hlen, Option.getD_some] at h
  exact h ▸ List.getElem_mem hlen

/-- If so much of a header shows that it is the wanted one, its name ends there. -/
theorem zero_mem_of_within (h : Within (some (fileName behind (hdr ++ rest))) hdr) : 0 ∈ hdr := by
  rcases h with hzero | ⟨name, hname, hprefix⟩
  · exact hzero
  · by_contra hzero
    refine hprefix ?_
    rw [← Option.some.inj hname, fileName, List.append_assoc, List.takeWhile_append_of_pos]
    · exact List.prefix_append _ _
    · exact fun c hc => decide_eq_true fun hc' => hzero (hc' ▸ hc)

namespace Walk

theorem start_lt (h : Walk behind wanted file p hdrs q) : p + 257 < file.length := by
  cases h with
  | stop hlen =>
    rw [length_block] at hlen
    omega
  | pass hle =>
    unfold headerSize at hle
    omega

/-- Every header takes its bytes of the file. -/
theorem length_lt (h : Walk behind wanted file p hdrs q) :
    p + hdrs.length * headerSize < file.length := by
  induction h with
  | stop hlen =>
    rw [length_block] at hlen
    rw [List.length_nil, Nat.zero_mul]
    omega
  | pass _ _ _ _ ih =>
    rw [List.length_cons, Nat.add_mul, Nat.one_mul]
    omega

/-- One pass for every header is in time. -/
theorem inTime (h : Walk behind wanted file p hdrs q) :
    (hdrs.length + 1) * 512 < file.length + 512 := by
  have hlen := h.length_lt
  unfold headerSize at hlen
  omega

theorem next_le (h : Walk behind wanted file (p + headerSize + offset) hdrs q) :
    p + headerSize + offset ≤ file.length := by
  have := h.start_lt
  omega

/-- `listFiles` goes this way. -/
theorem listLoop (h : Walk M.behind none file p hdrs q)
    (hreads : Reads drivers fd file positioned) (hpos : positioned p s.vfs) :
    ∃ s' stale, s.listLoop drivers M fd (hdrs.length + 1) = (true, s') ∧
      s'.terminal =
        s.terminal ++ hdrs.map (fun hdr => .file (fileName M.behind hdr) (memberSize hdr)) ∧
      s'.examined = s.examined ++
        (hdrs.map complete ++ [⟨block file q, block file q ++ stale⟩]) := by
  induction h generalizing s with
  | stop hlen _ hstop =>
    obtain ⟨stale, s', hread, -, -, hsame, hexam, -⟩ := readHeader_spec (M := M) hreads hpos
    refine ⟨s', stale, ?_, by simp [hsame.terminal], hexam⟩
    rw [List.length_nil, listLoop, hread]
    exact if_pos ((magic_append hlen).trans (hstop.resolve_right nofun))
  | @pass p q hdrs hle _ hstop hrest ih =>
    obtain ⟨s₁, hread, hpos₁, hsame, hexam, -⟩ := readHeader_complete (M := M) hreads hpos hle
    have hskip := (skipSize_lt (block file p)).trans (by norm_num : 2 ^ 37 < 2 ^ 63)
    obtain ⟨s', stale, hrun, hterm, hexam'⟩ := ih (read_positioned
      (s := s₁.print (.file (fileName M.behind (block file p)) (memberSize (block file p))))
      hreads hpos₁ hskip hrest.next_le 0)
    refine ⟨s', stale, ?_, ?_, ?_⟩
    · rw [List.length_cons, listLoop, hread]
      exact (if_neg fun hmagic => hstop (.inl hmagic)).trans hrun
    · rw [hterm]
      simp [Archiver.read, Archiver.print, hsame.terminal]
    · rw [hexam']
      simp [Archiver.read, Archiver.print, hexam]

/-- `catFile` and `extractFile` go this way, once the skip of the last member's data has led to
its start. -/
theorem findLoop (h : Walk M.behind (some filename) file p hdrs q)
    (hreads : Reads drivers fd file positioned)
    (hpos : positioned p (s.read drivers fd 0 offset).vfs)
    (hname : filename ≠ fileName M.behind hdr) :
    ∃ s' stale, s.findLoop drivers M fd filename (hdrs.length + 1) hdr offset =
        (if magic (block file q) = 0 then .missing else .found (block file q ++ stale), s') ∧
      (block file q ++ stale).length = headerSize ∧
      positioned (q + (block file q).length) s'.vfs ∧ Same s s' ∧
      s'.examined = s.examined ++
        (hdrs.map complete ++ [⟨block file q, block file q ++ stale⟩]) := by
  induction h generalizing s hdr offset with
  | @stop p hlen hzero hstop =>
    obtain ⟨stale, s', hread, hlength, hpos', hsame, hexam, -⟩ :=
      readHeader_spec (M := M) hreads hpos
    refine ⟨s', stale, ?_, hlength, hpos', ⟨hsame.terminal, hsame.calls⟩, hexam⟩
    rw [List.length_nil, findLoop, if_neg hname, hread]
    dsimp only
    rw [magic_append hlen]
    by_cases hmagic : magic (block file p) = 0
    · rw [if_pos hmagic, if_pos hmagic]
    · have hfound := Option.some.inj (hstop.resolve_left hmagic)
      rw [if_neg hmagic, if_neg hmagic, findLoop, fileName_append hzero, if_pos hfound]
  | @pass p q hdrs hle _ hstop hrest ih =>
    obtain ⟨s₁, hread, hpos₁, hsame, hexam, -⟩ := readHeader_complete (M := M) hreads hpos hle
    have hskip := (skipSize_lt (block file p)).trans (by norm_num : 2 ^ 37 < 2 ^ 63)
    obtain ⟨s', stale, hrun, hlength, hpos', hsame', hexam'⟩ := ih
      (read_positioned hreads hpos₁ hskip hrest.next_le 0)
      fun hfound => hstop (.inr (congrArg some hfound))
    refine ⟨s', stale, ?_, hlength, hpos', ⟨hsame'.terminal.trans hsame.terminal,
      hsame'.calls.trans hsame.calls⟩, ?_⟩
    · rw [List.length_cons, findLoop, if_neg hname, hread]
      exact (if_neg fun hmagic => hstop (.inl hmagic)).trans hrun
    · rw [hexam', hexam]
      simp [Archiver.read]

end Walk

/-! ### The loops go no other way -/

/-- What a function that looks for `wanted` sees of a header was read from the file: the magic
number, and the name as far as it looks at it. The size is in front of the magic number. -/
def Examined.FromFile (wanted : Option CString) (e : Examined) : Prop :=
  257 < e.delivered.length ∧ (magic e.hdr = 0 ∨ Within wanted e.delivered)

/-- All headers that are examined from `s` to `s'` were read from the file. -/
def Archiver.Sees (wanted : Option CString) (s s' : Archiver D I P W) : Prop :=
  ∃ new, s'.examined = s.examined ++ new ∧ ∀ e ∈ new, e.FromFile wanted

theorem Walk.fromFile (h : Walk behind wanted file p hdrs q) (rest : List UInt8) :
    ∀ e ∈ hdrs.map complete ++ [⟨block file q, block file q ++ rest⟩], e.FromFile wanted := by
  induction h with
  | stop hlen hzero =>
    intro e he
    obtain rfl := List.mem_singleton.mp he
    exact ⟨hlen, .inr (.inl hzero)⟩
  | pass hle hwithin _ _ ih =>
    intro e he
    rcases List.mem_cons.mp he with rfl | he
    · refine ⟨?_, .inr hwithin⟩
      rw [complete, length_block_of_le hle]
      decide
    · exact ih e he

namespace Archiver

variable {s₁ s₂ : Archiver D I P W} {e : Examined}

theorem listLoop_examined (s : Archiver D I P W) (n : Nat) :
    s.examined <+: (s.listLoop drivers M fd n).2.examined := by
  induction n generalizing s with
  | zero => exact List.prefix_rfl
  | succ n ih =>
    rw [listLoop]
    dsimp only
    split_ifs
    · exact List.prefix_append _ _
    · refine List.IsPrefix.trans ?_ (ih _)
      exact List.prefix_append _ _

theorem findLoop_examined (s : Archiver D I P W) (n : Nat) :
    s.examined <+: (s.findLoop drivers M fd filename n hdr offset).2.examined := by
  induction n generalizing s hdr offset with
  | zero => exact List.prefix_rfl
  | succ n ih =>
    rw [findLoop]
    dsimp only
    split_ifs
    · exact List.prefix_rfl
    · exact List.prefix_append _ _
    · refine List.IsPrefix.trans ?_ (ih _)
      exact List.prefix_append _ _

/-- The first header of a run, and the run behind it. -/
theorem Sees.of_step (h : Sees wanted s s₂) (hfirst : s₁.examined = s.examined ++ [e])
    (hnext : s₁.examined <+: s₂.examined) : e.FromFile wanted ∧ Sees wanted s₁ s₂ := by
  obtain ⟨new, hnew, hall⟩ := h
  obtain ⟨tail, htail⟩ := hnext
  obtain rfl : e :: tail = new := by
    rw [← htail, hfirst, List.append_assoc] at hnew
    exact List.append_cancel_left hnew
  exact ⟨hall e List.mem_cons_self, tail, htail.symm, fun e' he' =>
    hall e' (List.mem_cons_of_mem _ he')⟩

section

variable (hreads : Reads drivers fd file positioned)
include hreads

/-- A header that is not one to stop at was complete, and its data led to the next one: nothing
could be read at the end of the file. -/
theorem walk_pass (hpos : positioned (p + (block file p).length) s.vfs)
    (hlen : (block file p ++ rest).length = headerSize)
    (hfrom : Examined.FromFile wanted ⟨block file p, block file p ++ rest⟩)
    (hstop : ¬ Stops behind wanted (block file p ++ rest))
    (hnext : ∀ {p'}, positioned p' (s.read drivers fd 0 (skipSize (block file p ++ rest))).vfs →
      ∃ hdrs q, Walk behind wanted file p' hdrs q) :
    ∃ hdrs q, Walk behind wanted file p hdrs q := by
  have hwithin : Within wanted (block file p) := hfrom.2.resolve_left fun h => hstop (.inl h)
  have hskip := (skipSize_lt (block file p ++ rest)).trans (by norm_num : 2 ^ 37 < 2 ^ 63)
  obtain ⟨hdrs, q, hwalk⟩ := hnext (hreads hpos hskip).2
  rw [List.length_take, List.length_drop] at hwalk
  have hstart := hwalk.start_lt
  have hblock : (block file p).length = headerSize := by
    have := length_block file p
    omega
  obtain rfl : rest = [] := by
    rw [List.length_append, hblock] at hlen
    exact List.length_eq_zero_iff.mp (by omega)
  rw [List.append_nil, hblock] at hwalk hstart
  rw [List.append_nil] at hstop
  rw [Nat.min_eq_left (by omega)] at hwalk
  exact ⟨_, q, .pass (by omega) hwithin hstop hwalk⟩

theorem walk_of_listLoop (hpos : positioned p s.vfs)
    (hrun : (s.listLoop drivers M fd n).1 = true)
    (hsees : Sees none s (s.listLoop drivers M fd n).2) :
    ∃ hdrs q, Walk M.behind none file p hdrs q := by
  induction n generalizing s p with
  | zero => cases hrun
  | succ n ih =>
    obtain ⟨stale, s₁, hread, hlen, hpos₁, -, hexam, -⟩ := readHeader_spec (M := M) hreads hpos
    rw [listLoop, hread] at hrun hsees
    dsimp only at hrun hsees
    by_cases hmagic : magic (block file p ++ stale) = 0
    · rw [if_pos hmagic] at hsees
      obtain ⟨hfrom, -⟩ := hsees.of_step hexam List.prefix_rfl
      rw [magic_append hfrom.1] at hmagic
      exact ⟨[], p, .stop hfrom.1 (zero_mem_of_magic hfrom.1 hmagic) (.inl hmagic)⟩
    · rw [if_neg hmagic] at hrun hsees
      obtain ⟨hfrom, hsees⟩ := hsees.of_step hexam
        (List.IsPrefix.trans (by exact List.prefix_rfl) (listLoop_examined _ n))
      exact walk_pass (s := s₁) hreads hpos₁ hlen hfrom (fun h => h.elim hmagic nofun)
        fun hnext => ih (by exact hnext) hrun hsees

theorem walk_of_findLoop (hpos : positioned p (s.read drivers fd 0 offset).vfs)
    (hname : filename ≠ fileName M.behind hdr)
    (hrun : (s.findLoop drivers M fd filename n hdr offset).1 ≠ .running)
    (hsees : Sees (some filename) s (s.findLoop drivers M fd filename n hdr offset).2) :
    ∃ hdrs q, Walk M.behind (some filename) file p hdrs q := by
  induction n generalizing s hdr offset p with
  | zero => exact absurd (if_neg hname) hrun
  | succ n ih =>
    obtain ⟨stale, s₁, hread, hlen, hpos₁, -, hexam, -⟩ := readHeader_spec (M := M) hreads hpos
    rw [findLoop, if_neg hname, hread] at hrun hsees
    dsimp only at hrun hsees
    by_cases hmagic : magic (block file p ++ stale) = 0
    · rw [if_pos hmagic] at hsees
      obtain ⟨hfrom, -⟩ := hsees.of_step hexam List.prefix_rfl
      rw [magic_append hfrom.1] at hmagic
      exact ⟨[], p, .stop hfrom.1 (zero_mem_of_magic hfrom.1 hmagic) (.inl hmagic)⟩
    · rw [if_neg hmagic] at hrun hsees
      obtain ⟨hfrom, hsees⟩ := hsees.of_step hexam (findLoop_examined _ n)
      by_cases hfound : filename = fileName M.behind (block file p ++ stale)
      · have hzero := zero_mem_of_within (hfound ▸ hfrom.2.resolve_left hmagic)
        rw [fileName_append hzero] at hfound
        exact ⟨[], p, .stop hfrom.1 hzero (.inr (congrArg some hfound))⟩
      · exact walk_pass hreads hpos₁ hlen hfrom
          (fun h => h.elim hmagic fun h => hfound (Option.some.inj h))
          fun hnext => ih hnext hfound hrun hsees

end

end Archiver

/-! ### The functions end -/

/-- The headers of the file lead to one at which the function stops. Nothing is read for the
empty name. -/
def Command.Ends (cmd : Command) (behind : CString) (file : List UInt8) : Prop :=
  cmd.wanted = some [] ∨ ∃ hdrs q, Walk behind cmd.wanted file 0 hdrs q

variable (drivers M s file path) in
/-- The function returns after at most one pass for every 512 bytes of the file or part of
them, and has looked only at what it has read. -/
def Command.EndsInTime (cmd : Command) : Prop :=
  ∃ n s', n * 512 < file.length + 512 ∧ cmd.run drivers M s path n = (true, s') ∧
    Sees cmd.wanted s s'

theorem fileName_replicate (behind : CString) :
    fileName behind (List.replicate headerSize 0) = [] := rfl

namespace Archiver

/-! What stands before and behind the loops. -/

variable {s₁ : Archiver D I P W}

/-- To open the archive stores nothing, looks at nothing and prints nothing. -/
theorem openFile_spec (hopen : s.vfs.openFile drivers path = (fd, v)) :
    ∃ s₀, s.openFile drivers path = (fd, s₀) ∧ s₀.vfs = v ∧ s₀.terminal = s.terminal ∧
      s₀.calls = s.calls ++ [.opened path fd] ∧ s₀.examined = s.examined ∧ s₀.stores = s.stores := by
  rw [openFile, hopen]
  exact ⟨_, rfl, rfl, rfl, rfl, rfl, rfl⟩

theorem listFiles_of_loop (hopen : s.openFile drivers path = (fd, s')) (hfd : 0 ≤ fd)
    (hloop : s'.listLoop drivers M fd n = (true, s₁)) :
    s.listFiles drivers M path n = (true, s₁.close drivers fd) := by
  rw [listFiles, hopen]
  dsimp only
  rw [if_neg (by omega), hloop]
  rfl

section

variable (use : Int → (content size : Nat) → Archiver D I P W → Archiver D I P W)
  (hopen : s.openFile drivers path = (fd, s')) (hfd : 0 ≤ fd)
include use hopen hfd

theorem withMember_missing
    (hfind : s'.findLoop drivers M fd filename n (List.replicate headerSize 0) 0 = (.missing, s₁)) :
    s.withMember drivers M path filename n use =
      (true, (s₁.print .notInArchive).close drivers fd) := by
  rw [withMember, hopen]
  dsimp only
  rw [if_neg (by omega), hfind]

theorem withMember_found
    (hfind : s'.findLoop drivers M fd filename n (List.replicate headerSize 0) 0 =
      (.found hdr, s₁)) :
    s.withMember drivers M path filename n use =
      (true, if M.content (memberSize hdr + 1) = 0 then (s₁.print .noBuffer).close drivers fd
        else use fd (M.content (memberSize hdr + 1)) (memberSize hdr)
          (s₁.readContent drivers fd (M.content (memberSize hdr + 1)) (memberSize hdr))) := by
  rw [withMember, hopen]
  dsimp only
  rw [if_neg (by omega), hfind]
  dsimp only
  split_ifs <;> rfl

end

variable (M filename) in
/-- The function returns if the search comes to an end, and looks at no header after that. -/
theorem withMember_search (hopen : s.openFile drivers path = (fd, s')) (hfd : 0 ≤ fd)
    {use : Int → (content size : Nat) → Archiver D I P W → Archiver D I P W}
    (huse : ∀ fd content size t, (use fd content size t).examined = t.examined) (n : Nat) :
    (s.withMember drivers M path filename n use).1 = decide ((s'.findLoop drivers M fd filename n
        (List.replicate headerSize 0) 0).1 ≠ .running) ∧
      (s.withMember drivers M path filename n use).2.examined = (s'.findLoop drivers M fd filename n
        (List.replicate headerSize 0) 0).2.examined := by
  obtain ⟨⟨search, s₁⟩, hfind⟩ : ∃ r, s'.findLoop drivers M fd filename n
    (List.replicate headerSize 0) 0 = r := ⟨_, rfl⟩
  cases search with
  | running =>
    rw [withMember, hopen]
    dsimp only
    rw [if_neg (by omega), hfind]
    exact ⟨rfl, rfl⟩
  | missing =>
    rw [withMember_missing use hopen hfd hfind, hfind]
    exact ⟨rfl, rfl⟩
  | found hdr =>
    rw [withMember_found use hopen hfd hfind, hfind]
    refine ⟨rfl, ?_⟩
    dsimp only
    split_ifs
    · rfl
    · exact huse _ _ _ _

theorem withMember_ends_iff (hreads : Reads drivers fd file positioned)
    (hopen : s.openFile drivers path = (fd, s')) (hfd : 0 ≤ fd) (hstart : positioned 0 s'.vfs)
    {use : Int → (content size : Nat) → Archiver D I P W → Archiver D I P W}
    (huse : ∀ fd content size t, (use fd content size t).examined = t.examined) :
    (∃ n s₂, n * 512 < file.length + 512 ∧
        s.withMember drivers M path filename n use = (true, s₂) ∧ Sees (some filename) s' s₂) ↔
      (cat filename).Ends M.behind file := by
  have hpos : positioned 0 (s'.read drivers fd 0 0).vfs :=
    read_positioned hreads hstart (by norm_num : 0 < 2 ^ 63) (Nat.zero_le _) 0
  have hsearch := withMember_search M filename hopen hfd huse
  constructor
  · rintro ⟨n, s₂, -, hrun, new, hexam, hnew⟩
    by_cases hempty : filename = []
    · exact .inl (congrArg some hempty)
    · have hends := hsearch n
      rw [hrun] at hends
      refine .inr (walk_of_findLoop (M := M) (n := n) hreads hpos (by rwa [fileName_replicate])
        (of_decide_eq_true hends.1.symm) ⟨new, ?_, hnew⟩)
      rw [← hends.2, hexam]
  · intro hends
    by_cases hempty : filename = []
    · have hfind : s'.findLoop drivers M fd filename 0 (List.replicate headerSize 0) 0 =
          (.found (List.replicate headerSize 0), s') := by
        rw [findLoop, if_pos (hempty.trans (fileName_replicate _).symm)]
      obtain ⟨hrun, hexam⟩ := hsearch 0
      rw [hfind] at hrun hexam
      exact ⟨0, _, by omega, Prod.ext hrun rfl, [], by simp [hexam], by simp⟩
    · obtain ⟨hdrs, q, hwalk⟩ := hends.resolve_left fun h => hempty (Option.some.inj h)
      obtain ⟨s₁, stale, hfind, -, -, -, hexam₁⟩ :=
        hwalk.findLoop hreads hpos (by rwa [fileName_replicate])
      obtain ⟨hrun, hexam⟩ := hsearch (hdrs.length + 1)
      rw [hfind] at hrun hexam
      refine ⟨hdrs.length + 1, _, hwalk.inTime, Prod.ext (hrun.trans ?_) rfl, _,
        hexam.trans hexam₁, hwalk.fromFile stale⟩
      dsimp only
      split_ifs <;> rfl

theorem writeOut_examined (target : CString) (fd : Int) (content size : Nat)
    (t : Archiver D I P W) :
    (writeOut drivers target fd content size t).examined = t.examined := by
  unfold writeOut
  dsimp only
  split_ifs <;> rfl

end Archiver

/-- **The walk ends.** The function returns in time, and has looked only at what it has read,
exactly if the headers of the file lead to one at which it stops. -/
theorem Command.run_ends_iff (cmd : Command) (hreads : Reads drivers fd file positioned)
    (hopen : s.vfs.openFile drivers path = (fd, v)) (hfd : 0 ≤ fd) (hstart : positioned 0 v) :
    cmd.EndsInTime drivers M s file path ↔ cmd.Ends M.behind file := by
  obtain ⟨s₀, hopened, rfl, -, -, hexam₀, -⟩ := openFile_spec hopen
  have hsees : ∀ {wanted s'}, Sees wanted s s' ↔ Sees wanted s₀ s' := by
    intro wanted s'
    rw [Sees, Sees, hexam₀]
  unfold EndsInTime
  simp only [hsees]
  cases cmd with
  | list =>
    constructor
    · rintro ⟨n, s', -, hrun, hsees'⟩
      rw [run, listFiles, hopened] at hrun
      dsimp only at hrun
      rw [if_neg (by omega)] at hrun
      obtain ⟨hdone, hstate⟩ := Prod.mk.inj hrun
      refine .inr (walk_of_listLoop hreads hstart hdone ?_)
      rw [hdone, if_pos rfl] at hstate
      subst hstate
      exact hsees'
    · intro hends
      obtain ⟨hdrs, q, hwalk⟩ := hends.resolve_left nofun
      obtain ⟨s₁, stale, hrun, -, hexam⟩ := hwalk.listLoop hreads hstart
      refine ⟨hdrs.length + 1, s₁.close drivers fd, hwalk.inTime, ?_, _, hexam,
        hwalk.fromFile stale⟩
      rw [run, listFiles_of_loop hopened hfd hrun]
  | cat filename => exact withMember_ends_iff hreads hopened hfd hstart fun _ _ _ _ => rfl
  | extract filename target =>
    exact withMember_ends_iff hreads hopened hfd hstart (writeOut_examined target)

/-! ### Archives -/

/-- The value of an octal digit. -/
def digitValue (c : UInt8) : Nat := c.toNat - 0x30

def ustar : List UInt8 := [0x75, 0x73, 0x74, 0x61, 0x72]

/-- A member as `tar` writes it: what the header says of its name and its size. -/
structure Entry where
  header : List UInt8
  name : CString
  data : List UInt8
  length_header : header.length = headerSize
  name_ne : name ≠ []
  name_end : 0 ∉ name
  nameField : ∃ fill, header.take 100 = name ++ 0 :: fill
  sizeField : ∃ digits last, fileSize header = digits ++ [last] ∧ digits.length = 11 ∧
    (∀ c ∈ digits, 0x30 ≤ c ∧ c ≤ 0x37) ∧ (last = 0 ∨ last = 0x20) ∧
    Nat.ofDigits 8 (digits.map digitValue).reverse = data.length
  magicField : (header.drop 257).take 5 = ustar
  noPrefix : header[345]? = some 0

namespace Entry

/-- The header and the data, filled up with zeros. -/
def bytes (e : Entry) : List UInt8 :=
  e.header ++ (e.data ++ List.replicate ((512 - e.data.length % 512) % 512) 0)

end Entry

/-- The members, a zero block, and whatever follows. -/
def archive (entries : List Entry) (rest : List UInt8) : List UInt8 :=
  entries.flatMap Entry.bytes ++ (List.replicate headerSize 0 ++ rest)

/-- A number of octal digits, with its end. -/
theorem octToDecFrom_digits {digits : List UInt8} {last : UInt8} (n : Nat)
    (hdigits : ∀ c ∈ digits, 0x30 ≤ c ∧ c ≤ 0x37) (hlast : last = 0 ∨ last = 0x20)
    (hfits : (n + 1) * 8 ^ digits.length ≤ 2 ^ 64) :
    octToDecFrom n (digits ++ [last]) =
      n * 8 ^ digits.length + Nat.ofDigits 8 (digits.map digitValue).reverse := by
  induction digits generalizing n with
  | nil => simp [octToDecFrom, hlast]
  | cons c digits ih =>
    obtain ⟨hlow, hhigh⟩ := hdigits c List.mem_cons_self
    have hlow' : 0x30 ≤ c.toNat := hlow
    have hhigh' : c.toNat ≤ 0x37 := hhigh
    have hpow : 8 ^ (c :: digits).length = 8 * 8 ^ digits.length := by
      rw [List.length_cons, pow_succ, Nat.mul_comm]
    have hpos : 0 < 8 ^ digits.length := by positivity
    rw [hpow] at hfits ⊢
    have hlt : n * 8 + (c.toNat - 0x30) < 2 ^ 64 := by
      have hle : (n + 1) * 8 * 1 ≤ (n + 1) * 8 * 8 ^ digits.length := Nat.mul_le_mul_left _ hpos
      rw [Nat.mul_assoc _ 8 (8 ^ _)] at hle
      omega
    have hend : ¬ (c = 0 ∨ c = 0x20) := by
      rintro (rfl | rfl) <;> simp at hlow'
    have hdigit : octDigit n c = n * 8 + digitValue c := by
      rw [octDigit, if_pos ⟨hlow, hhigh⟩, Nat.mod_eq_of_lt hlt]
      rfl
    have hvalue : digitValue c ≤ 7 := by
      unfold digitValue
      omega
    rw [List.cons_append, octToDecFrom, if_neg hend, hdigit,
      ih _ (fun c hc => hdigits c (List.mem_cons_of_mem _ hc)), List.map_cons,
      List.reverse_cons, Nat.ofDigits_append, Nat.ofDigits_singleton, List.length_reverse,
      List.length_map]
    · ring
    · calc (n * 8 + digitValue c + 1) * 8 ^ digits.length
          ≤ ((n + 1) * 8) * 8 ^ digits.length := Nat.mul_le_mul_right _ (by omega)
        _ = (n + 1) * (8 * 8 ^ digits.length) := by ring
        _ ≤ 2 ^ 64 := hfits

namespace Entry

variable (e : Entry) (behind : CString)

theorem memberSize_header : memberSize e.header = e.data.length := by
  obtain ⟨digits, last, hfield, hlen, hdigits, hlast, hvalue⟩ := e.sizeField
  rw [memberSize, octToDec, hfield, octToDecFrom_digits 0 hdigits hlast, hvalue, Nat.zero_mul,
    Nat.zero_add]
  rw [hlen]
  norm_num

theorem fileName_header : fileName behind e.header = e.name := by
  obtain ⟨fill, hfield⟩ := e.nameField
  have hall : ∀ c ∈ e.name, decide (c ≠ 0) = true := fun c hc =>
    decide_eq_true fun h => e.name_end (h ▸ hc)
  rw [fileName, ← List.take_append_drop 100 e.header, hfield, List.append_assoc, List.append_assoc,
    List.takeWhile_append_of_pos hall, List.cons_append, List.takeWhile_cons_of_neg (by simp),
    List.append_nil]

theorem zero_mem_header : 0 ∈ e.header := by
  obtain ⟨fill, hfield⟩ := e.nameField
  exact List.mem_of_mem_take (hfield ▸ List.mem_append_right _ List.mem_cons_self)

theorem magic_header : magic e.header ≠ 0 := by
  have hfirst : ((e.header.drop 257).take 5)[0]? = some 0x75 := by rw [e.magicField]; rfl
  rw [List.getElem?_take_of_lt (by norm_num), List.getElem?_drop] at hfirst
  rw [magic, List.getD_eq_getElem?_getD, hfirst]
  decide

theorem length_bytes : e.bytes.length = headerSize + skipSize e.header := by
  rw [bytes, List.length_append, e.length_header, List.length_append, List.length_replicate,
    skipSize_eq, e.memberSize_header]

end Entry

theorem block_append {front : List UInt8} (h : hdr.length = headerSize) :
    block (front ++ (hdr ++ rest)) front.length = hdr := by
  rw [block, List.drop_left, List.take_left' h]

theorem magic_zeros : magic (List.replicate headerSize 0) = 0 := by decide +kernel

/-- The walk through an archive: over the members in front of the wanted one, to its header or
to the zero block. -/
theorem walk_archive (behind : CString) (wanted : Option CString) (entries : List Entry)
    (rest front : List UInt8) :
    ∃ q, Walk behind wanted (front ++ archive entries rest) front.length
        ((entries.takeWhile fun e => wanted ≠ some e.name).map Entry.header) q ∧
      match entries.find? fun e => wanted = some e.name with
      | none => block (front ++ archive entries rest) q = List.replicate headerSize 0
      | some e => block (front ++ archive entries rest) q = e.header ∧
          ((front ++ archive entries rest).drop (q + headerSize)).take e.data.length = e.data := by
  induction entries generalizing front with
  | nil =>
    have hblock : block (front ++ archive [] rest) front.length = List.replicate headerSize 0 :=
      block_append List.length_replicate
    refine ⟨front.length, .stop ?_ ?_ (.inl ?_), hblock⟩
    · rw [hblock, List.length_replicate]
      decide
    · rw [hblock]
      exact List.mem_replicate.mpr ⟨by decide, rfl⟩
    · rw [hblock, magic_zeros]
  | cons e entries ih =>
    have hbytes : front ++ archive (e :: entries) rest =
        front ++ (e.header ++ (e.data ++ List.replicate ((512 - e.data.length % 512) % 512) 0 ++
          archive entries rest)) := by
      simp only [archive, List.flatMap_cons, Entry.bytes, List.append_assoc]
    have hblock : block (front ++ archive (e :: entries) rest) front.length = e.header := by
      rw [hbytes, block_append e.length_header]
    have hle : front.length + headerSize ≤ (front ++ archive (e :: entries) rest).length := by
      rw [hbytes, List.length_append, List.length_append, e.length_header]
      omega
    by_cases hname : wanted = some e.name
    · refine ⟨front.length, ?_, ?_⟩
      · rw [List.takeWhile_cons_of_neg (by simpa using hname)]
        refine .stop ?_ (hblock ▸ e.zero_mem_header) (.inr ?_)
        · rw [hblock, e.length_header]
          decide
        · rw [hblock, e.fileName_header, hname]
      · rw [List.find?_cons_of_pos (by simpa using hname)]
        refine ⟨hblock, ?_⟩
        rw [hbytes, ← e.length_header, ← List.drop_drop, List.drop_left, List.drop_left,
          List.append_assoc, List.take_left]
    · -- the member is passed over, and the walk goes on behind its padding
      have hstop : ¬ Stops behind wanted (block (front ++ archive (e :: entries) rest)
          front.length) := by
        rw [hblock, Stops, e.fileName_header]
        exact fun h => h.elim e.magic_header hname
      obtain ⟨q, hwalk, hend⟩ := ih (front ++ e.bytes)
      have hfile : front ++ e.bytes ++ archive entries rest =
          front ++ archive (e :: entries) rest := by
        simp only [archive, List.flatMap_cons, List.append_assoc]
      have hnext : (front ++ e.bytes).length = front.length + headerSize +
          skipSize (block (front ++ archive (e :: entries) rest) front.length) := by
        rw [List.length_append, e.length_bytes, hblock, Nat.add_assoc]
      rw [hfile, hnext] at hwalk
      rw [hfile] at hend
      refine ⟨q, ?_, ?_⟩
      · rw [List.takeWhile_cons_of_pos (by simpa using hname), List.map_cons]
        have hpass := Walk.pass hle (.inl (hblock ▸ e.zero_mem_header)) hstop hwalk
        rwa [hblock] at hpass
      · rwa [List.find?_cons_of_neg (by simpa using hname)]

/-- A header with the given name and size field. -/
def ustarHeader (name digits : List UInt8) : List UInt8 :=
  name ++ List.replicate (124 - name.length) 0 ++
    (digits ++ List.replicate (133 - digits.length) 0) ++ (ustar ++ List.replicate 250 0)

/-- The member `a` of three bytes. -/
def smallEntry : Entry where
  header := ustarHeader [0x61] (List.replicate 10 0x30 ++ [0x33])
  name := [0x61]
  data := [1, 2, 3]
  length_header := by decide +kernel
  name_ne := by decide
  name_end := by decide
  nameField := ⟨List.replicate 98 0, by decide +kernel⟩
  sizeField := ⟨List.replicate 10 0x30 ++ [0x33], 0, by decide +kernel⟩
  magicField := by decide +kernel
  noPrefix := by decide +kernel

def smallArchive : List UInt8 := archive [smallEntry] []

theorem length_smallArchive : smallArchive.length = 1536 := by decide +kernel

def ramBlocks : Blocks := ⟨0x10000, fun _ => 0x20000, []⟩

def ramArchiver : Archiver Unit Unit Unit RamWorld := ⟨ramVfs, fun _ => 0, [], [], [], []⟩

theorem run_ends_smallArchive :
    list.EndsInTime (ramDrivers smallArchive) ramBlocks ramArchiver smallArchive ramPath := by
  obtain ⟨q, hwalk, -⟩ := walk_archive [] none [smallEntry] [] []
  exact (list.run_ends_iff (reads_ramDrivers (by rw [length_smallArchive]; norm_num))
    (ramVfs_openFile smallArchive) le_rfl rfl).mpr (.inr ⟨_, q, hwalk⟩)

/-- **The end is missing.** The file is the header of a member without data. -/
theorem not_run_ends : ¬ ∃ n, (Command.list.run (ramDrivers (ustarHeader [0x61] [])) ramBlocks
    ramArchiver ramPath n).1 = true := by
  rintro ⟨n, hends⟩
  generalize hfile : ustarHeader [0x61] [] = file at hends
  have hlen : file.length = 512 := by
    rw [← hfile]
    decide +kernel
  have hblock : block file 0 = file := List.take_of_length_le hlen.le
  have hmagic : magic (block file 0) ≠ 0 := by
    rw [hblock, ← hfile]
    decide +kernel
  obtain ⟨s₀, hopened, hvfs, -⟩ := openFile_spec (s := ramArchiver) (ramVfs_openFile file)
  have hrunning := listLoop_lastHeader (M := ramBlocks)
    (reads_ramDrivers (by rw [hlen]; norm_num)) hvfs hlen.symm hmagic n
  rw [run, listFiles, hopened] at hends
  have hdone : (s₀.listLoop (ramDrivers file) ramBlocks 0 n).1 = true := hends
  rw [hrunning] at hdone
  cases hdone

end WengShiOS.FileFormats.Tar
