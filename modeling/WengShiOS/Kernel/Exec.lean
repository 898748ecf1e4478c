import WengShiOS.FileFormats.ElfArguments
import WengShiOS.FileFormats.ElfDescriptors
import WengShiOS.Kernel.Spawn

/-! # Executing a program

`sysExec` of `src/kernel/syscall.cpp`: the arguments are copied out of the caller's memory,
the loader puts the program over it, and the registers the caller returns with become those
of the program. If the loader gives up, the caller gets -1 and goes on.

The caller's registers and the open files are then as before. Its memory need not be: the
loader maps and clears the pages of a segment before it reads the data for them. It leaves the
memory alone only if it gives up before the first segment that has pages or data. -/

namespace WengShiOS.Syscalls

open Math Fs Mm FileFormats.Elf Machine

/-- The register frame of an interrupt. -/
structure Registers where
  rax : Nat
  rbx : Nat
  rcx : Nat
  rdx : Nat
  rsi : Nat
  rdi : Nat
  rbp : Nat
  r8 : Nat
  r9 : Nat
  r10 : Nat
  r11 : Nat
  r12 : Nat
  r13 : Nat
  r14 : Nat
  r15 : Nat
  vector : Nat
  errCode : Nat
  rip : Nat
  cs : Nat
  rflags : Nat
  rsp : Nat
  ss : Nat
  deriving DecidableEq, Repr

def maxExecArgs : Nat := 16

/-- `static_cast<uint64_t>(-1)` -/
def execFailed : Nat := 2 ^ 64 - 1

/-- The loop of `copyUserArgv` from the pointer at `ptr` on, for the arguments that are left. -/
def copyUserArgv (m : Machine) : (left : Nat) → (ptr : Nat) → Option (List CString)
  | 0, _ => some []
  | left + 1, ptr => (m.loadLE 8 ptr).bind fun strPtr =>
      if strPtr = 0 then some []
      else (m.loadString addressSpaceSize strPtr).bind fun str =>
        (copyUserArgv m left (wrap (ptr + 8))).map fun rest => clipArg str :: rest

section Exec

variable {D I P W : Type*} (drivers : D → FilesystemDriver W I P)

/-- `kmalloc` says whether there is memory for the program headers. -/
def sysExec (regs : Registers) (pathPtr argvPtr : Nat) (v : Vfs D I P W) (t : Traced)
    (kmalloc : Bool) : Option (Registers × Vfs D I P W × Traced) :=
  (copyUserArgv t.machine maxExecArgs argvPtr).bind fun argv =>
    if argv = [] then some ({ regs with rax := execFailed }, v, t)
    else (t.machine.loadString addressSpaceSize pathPtr).bind fun path =>
      (load drivers v t path argv kmalloc).map fun (outcome, v, t) =>
        if outcome.value = 0 then ({ regs with rax := execFailed }, v, t)
        else
          let stack := outcome.stack.getD ⟨0, 0⟩
          ({ regs with rip := outcome.value, rsp := stack.stackTop, rdi := argv.length,
                       rsi := stack.argvUserPtr }, v, t)

/-- The translation and the bytes of all user pages are the same. -/
structure SameUserMemory (m m' : Machine) : Prop where
  translation : ∀ n < userPages, pageAt m' n = pageAt m n
  byte : ∀ w, w / pageSize < userPages → m'.readByte w = m.readByte w

/-- The loader gives up before it touches the memory: it cannot open the file, has no memory for
the program headers or does not accept them; or the data of a segment is missing, and neither
this one nor those before have pages or data that is stored. -/
def GivesUpEarly (v : Vfs D I P W) (path : CString) (kmalloc : Bool) (file : List UInt8) : Prop :=
  (v.openFile drivers path).1 = invalidFd ∨ kmalloc = false ∨ ¬ Executable.Accepted file ∨
    ¬ ReadsAll file.length (tableEnd file) (phdrsOf file) ∧
      ∀ x ∈ reachedOf file, x.1.segEnd = x.1.segStart ∧ x.2 = 0

/-- There are no arguments, or the loader gives up before it touches the memory. -/
def FailsEarly (pathPtr argvPtr : Nat) (v : Vfs D I P W) (t : Traced) (kmalloc : Bool)
    (file : List UInt8) : Prop :=
  copyUserArgv t.machine maxExecArgs argvPtr = some [] ∨
    ∃ path, t.machine.loadString addressSpaceSize pathPtr = some path ∧
      GivesUpEarly drivers v path kmalloc file

/-- If the path can be opened, the file is read from its start on. -/
def Opens (v : Vfs D I P W) (path : CString) (file : List UInt8)
    (positioned : Nat → Vfs D I P W → Prop) : Prop :=
  (v.openFile drivers path).1 ≠ invalidFd →
    Delivers drivers (v.openFile drivers path).1 file positioned ∧
      positioned 0 (v.openFile drivers path).2

/-- The segments can be loaded as far as the file goes: their data is on their pages, and there are
frames for these and the stack. -/
structure Loadable (spaces : List Nat) (m : Machine) (file : List UInt8) : Prop where
  space : Space spaces m
  placed : ∀ x ∈ reachedOf file, x.1.Placed x.2
  frames : FramesFor m (mappedPages (reachedOf file))

/-- None of the pages is in a free frame. -/
def InUse (m : Machine) (pages : List Nat) : Prop :=
  ∀ n ∈ pages, ∀ F flags, pageAt m n = some (F, flags) → F ∉ m.pmm.freeSet

variable {drivers} {regs regs' : Registers} {pathPtr argvPtr : Nat} {v v' : Vfs D I P W}
  {t t' : Traced} {kmalloc : Bool} {path : CString} {argv : List CString} {file : List UInt8}
  {positioned : Nat → Vfs D I P W → Prop} {outcome : Outcome}

/-- Segments without pages and data. By induction on the headers. -/
theorem loadSegments_idle {fd : Int} {phdrs : List Phdr} {i p : Nat} {ok : Bool}
    (hhonest : Honest drivers) (hs : Serves drivers fd file positioned) (hp : positioned p v)
    (hencoded : ∀ ph ∈ phdrs, ph.Encoded)
    (hidle : ∀ x ∈ reached file.length p phdrs, x.1.segEnd = x.1.segStart ∧ x.2 = 0)
    (h : loadSegments drivers fd i phdrs v t = some (ok, v', t')) :
    t'.machine = t.machine ∧ (ok = true → ReadsAll file.length p phdrs) := by
  induction phdrs generalizing i p v t with
  | nil =>
    cases h
    exact ⟨rfl, fun _ => trivial⟩
  | cons ph rest ih =>
    obtain ⟨hph, hrest⟩ := List.forall_mem_cons.mp hencoded
    obtain ⟨⟨ok₁, v₁, t₁⟩, hsegment, h⟩ := Option.bind_eq_some_iff.mp h
    rw [reached] at hidle
    rw [ReadsAll]
    by_cases hload : ph.pType = ptLoad
    · rw [if_neg (not_not.mpr hload)] at hidle ⊢
      obtain ⟨⟨hend, hnone⟩, hidle⟩ := List.forall_mem_cons.mp hidle
      obtain ⟨data, t₂, t₃, hdata, hmap, hclear, hfill⟩ := loadSegment_cases hload hsegment
      obtain ⟨ok', data', v₂, hdata', hle, hread⟩ := hs.segmentData hhonest hph hp
      cases hdata.symm.trans hdata'
      obtain rfl : data = [] := List.length_eq_zero_iff.mp (by dsimp only at hnone; omega)
      -- nothing is mapped, cleared or filled
      have hsame : t₁.machine = t.machine := by
        have hsize : wrapSub ph.segEnd ph.segStart = 0 := by
          have hcleared : ph.segStart + wrapSub ph.segEnd ph.segStart = ph.segEnd :=
            Phdr.clearedSize hend.ge
          dsimp only at hend
          omega
        rw [Phdr.pageCount, hend, Nat.sub_self, Nat.zero_div] at hmap
        rw [hsize] at hclear
        cases hmap
        cases hclear
        rcases hfill with ⟨-, rfl⟩ | ⟨-, hfill⟩
        · rfl
        · cases hfill
          rfl
      cases ok₁ with
      | false =>
        cases h
        exact ⟨hsame, fun hok => absurd hok Bool.false_ne_true⟩
      | true =>
        obtain ⟨hwhole, hp₁, -⟩ := hread rfl
        rw [if_pos hwhole] at hidle
        obtain ⟨hsame', hall⟩ := ih hp₁ hrest hidle h
        exact ⟨hsame'.trans hsame, fun hok => ⟨hwhole, hall hok⟩⟩
    · rw [if_pos hload] at hidle ⊢
      rw [loadSegment, if_pos hload] at hsegment
      cases hsegment
      exact ih hp hrest hidle h

/-- If the loader gives up early, the memory is as before. -/
theorem machine_of_givesUpEarly (hhonest : Honest drivers) (hopens : Opens drivers v path file positioned)
    (h : load drivers v t path argv kmalloc = some (outcome, v', t'))
    (hearly : GivesUpEarly drivers v path kmalloc file) : t'.machine = t.machine := by
  obtain ⟨⟨result, v₁⟩, hheaders, h⟩ := Option.bind_eq_some_iff.mp h
  cases result with
  | error failure =>
    cases h
    rfl
  | ok exe =>
  have hfd : (v.openFile drivers path).1 ≠ invalidFd := fun hfd => by
    simp [readHeaders, hfd] at hheaders
  obtain ⟨hd, hstart⟩ := hopens hfd
  obtain ⟨rfl, hp, hmemory, hfile⟩ := hd.toServes.readHeaders hhonest rfl hstart hheaders
  obtain ⟨hcut, hidle⟩ := ((hearly.resolve_left hfd).resolve_left (by simp [hmemory])).resolve_left
    (not_not.mpr hfile)
  rw [reachedOf_eq hfile] at hidle
  obtain ⟨⟨ok, v₂, t₂⟩, hsegments, h⟩ := Option.bind_eq_some_iff.mp h
  obtain ⟨hsame, hall⟩ := loadSegments_idle hhonest hd.toServes hp (fun ph => encoded_of_mem) hidle
    hsegments
  cases ok with
  | false =>
    cases h
    exact hsame
  | true => exact absurd (hall rfl) hcut

/-- The page is in a frame that was free. -/
def Fresh (m m' : Machine) (n : Nat) : Prop :=
  ∃ N ∈ m.pmm.freeSet, ∃ flags, pageAt m' n = some (N, flags)

/-- A run that comes to the segments. -/
theorem Loadable.run {spaces : List Nat} (hr : Loadable spaces t.machine file)
    (hhonest : Honest drivers) (hopens : Opens drivers v path file positioned)
    (hfd : (v.openFile drivers path).1 ≠ invalidFd) (hfile : Executable.Accepted file)
    (hargs : ArgsFit argv) :
    ∃ outcome v' t', load drivers v t path argv true = some (outcome, v', t') ∧
      (∀ n ∈ reachedPages (reachedOf file), Fresh t.machine t'.machine n) ∧
      (ReadsAll file.length (tableEnd file) (phdrsOf file) →
        ∀ n ∈ stackPages, Fresh t.machine t'.machine n) ∧
      (¬ ReadsAll file.length (tableEnd file) (phdrsOf file) → outcome.value = 0) := by
  obtain ⟨hd, hstart⟩ := hopens hfd
  obtain ⟨v₁, hheaders⟩ := hd.readHeaders hhonest rfl hfd hstart hfile
  obtain ⟨-, hp, -⟩ := hd.toServes.readHeaders hhonest rfl hstart hheaders
  obtain ⟨hspace, hplaced, hframes⟩ := hr
  rw [reachedOf_eq hfile] at hplaced hframes ⊢
  obtain ⟨ok, v₂, t₂, hsegments, hspace₂, ⟨pages, -, a, hpages⟩, hok, hall⟩ := loadSegments_run hd.toServes
    hhonest (fun ph => encoded_of_mem) Phdr.Placed (fun h hle => h.mono hle)
    (fun _ t => Space spaces t.machine) (fun t => Space spaces t.machine) id id (fun _ _ h => h)
    (fun _ _ _ _ _ _ s => ⟨s.acquires.space, fun _ => s.acquires.space⟩)
    (List.nil_append (phdrsOf file)).symm hp hspace hplaced hframes
  obtain ⟨outcome, t₃, hrun, hfailed, hdone⟩ := load_run hheaders hsegments hspace₂ hargs
    fun h => (hok h).2.2
  refine ⟨outcome, _, t₃, hrun, ?_⟩
  cases ok with
  | true =>
    have a := a.trans (hdone rfl).2.2.acquires hspace.layout.forest.active
    exact ⟨fun n hn => a.fresh n (.inl (hpages hd hn)), fun _ n hn => a.fresh n (.inr hn),
      fun h => absurd (hok rfl).1 h⟩
  | false =>
    obtain ⟨rfl, rfl⟩ := hfailed rfl
    exact ⟨fun n hn => a.fresh n (hpages hd hn), fun h => absurd (hall hd h) (by decide), fun _ => rfl⟩

/-- If the memory is as before, the loader has given up early. -/
theorem givesUpEarly_of_sameUserMemory {spaces : List Nat} (hhonest : Honest drivers)
    (hopens : Opens drivers v path file positioned) (hargs : ArgsFit argv)
    (hr : Loadable spaces t.machine file) (hused : InUse t.machine (mappedPages (reachedOf file)))
    (h : load drivers v t path argv kmalloc = some (outcome, v', t'))
    (hsame : SameUserMemory t.machine t'.machine) : GivesUpEarly drivers v path kmalloc file := by
  have hold : ∀ {n}, n ∈ mappedPages (reachedOf file) → ¬ Fresh t.machine t'.machine n := by
    rintro n hn ⟨N, hN, flags, hpage⟩
    rw [hsame.translation n (hr.frames.user n hn)] at hpage
    exact hused n hn N flags hpage hN
  by_contra hlate
  simp only [GivesUpEarly, not_or, not_not] at hlate
  obtain ⟨hfd, hmemory, hfile, hlate⟩ := hlate
  rw [Bool.not_eq_false] at hmemory
  subst hmemory
  obtain ⟨outcome', v₁, t₁, hrun, hsegments, hstack, -⟩ := hr.run hhonest hopens hfd hfile hargs
  cases h.symm.trans hrun
  refine hlate ⟨fun hreads => ?_, fun x hx => ?_⟩
  · have hpage : stackBottom / pageSize ∈ stackPages := mem_stackPages.mpr ⟨le_rfl, by decide⟩
    exact hold (List.mem_append_right _ (List.mem_range'_1.mpr hpage)) (hstack hreads _ hpage)
  · have hnone : ∀ n, n ∉ x.1.pages := fun n hn =>
      hold (List.mem_append_left _ (List.mem_flatMap.mpr ⟨x, hx, Phdr.mem_pageList.mpr hn⟩))
        (hsegments n ⟨x, hx, hn⟩)
    obtain ⟨horder, hdata⟩ := hr.placed x hx
    have hend : x.1.segEnd = x.1.segStart := by
      by_contra hne
      exact hnone _ (Phdr.mem_pages.mpr ⟨le_rfl, lt_of_le_of_ne horder (Ne.symm hne)⟩)
    have hstart : x.1.segStart ≤ x.1.pVaddr := Nat.div_mul_le_self ..
    exact ⟨hend, by omega⟩

/-- The arguments are short enough for the stack. -/
theorem argsFit_of_copyUserArgv {m : Machine} {ptr : Nat}
    (h : copyUserArgv m maxExecArgs ptr = some argv) : ArgsFit argv := by
  have hclipped : ∀ {left ptr argv}, copyUserArgv m left ptr = some argv →
      ∀ arg ∈ argv, arg.length ≤ 63 := by
    intro left
    induction left with
    | zero =>
      rintro ptr argv h
      cases h
      exact nofun
    | succ left ih =>
      intro ptr argv h
      obtain ⟨strPtr, -, h⟩ := Option.bind_eq_some_iff.mp h
      split_ifs at h
      · cases h
        exact nofun
      · obtain ⟨str, -, h⟩ := Option.bind_eq_some_iff.mp h
        obtain ⟨rest, hrest, rfl⟩ := Option.map_eq_some_iff.mp h
        exact List.forall_mem_cons.mpr ⟨List.length_take_le .., ih hrest⟩
  have hsize : stringsSize (argv.take maxArgs) ≤ 64 * (argv.take maxArgs).length :=
    stringsSize_le fun arg harg => hclipped h arg (List.mem_of_mem_take harg)
  have hlen : (argv.take maxArgs).length ≤ 16 := List.length_take_le ..
  simp only [ArgsFit, argsSize, userStackPages, pageSize]
  omega

/-- What a call does that returns: it has no arguments, or it is a call of the loader. -/
theorem sysExec_cases
    (h : sysExec drivers regs pathPtr argvPtr v t kmalloc = some (regs', v', t')) :
    copyUserArgv t.machine maxExecArgs argvPtr = some [] ∧
        regs' = { regs with rax := execFailed } ∧ v' = v ∧ t' = t ∨
      ∃ path argv outcome, t.machine.loadString addressSpaceSize pathPtr = some path ∧
        copyUserArgv t.machine maxExecArgs argvPtr = some argv ∧ argv ≠ [] ∧
        load drivers v t path argv kmalloc = some (outcome, v', t') ∧
        (outcome.value = 0 ∧ regs' = { regs with rax := execFailed } ∨ regs'.rax = regs.rax) := by
  obtain ⟨argv, hargv, h⟩ := Option.bind_eq_some_iff.mp h
  by_cases hnone : argv = []
  · rw [if_pos hnone] at h
    obtain ⟨rfl, hrest⟩ := Prod.mk.inj (Option.some.inj h)
    cases hrest
    exact .inl ⟨hnone ▸ hargv, rfl, rfl, rfl⟩
  · rw [if_neg hnone] at h
    obtain ⟨path, hpath, h⟩ := Option.bind_eq_some_iff.mp h
    obtain ⟨⟨outcome, v₁, t₁⟩, hload, h⟩ := Option.map_eq_some_iff.mp h
    dsimp only at h
    refine .inr ⟨path, argv, outcome, hpath, hargv, hnone, ?_⟩
    split_ifs at h with hzero
    · obtain ⟨rfl, hrest⟩ := Prod.mk.inj h
      cases hrest
      exact ⟨hload, .inl ⟨hzero, rfl⟩⟩
    · obtain ⟨rfl, hrest⟩ := Prod.mk.inj h
      cases hrest
      exact ⟨hload, .inr rfl⟩

/-- **A failed `exec`.** The registers and the open files of the caller are as before. So is the
memory if it fails early, and if the segments can be loaded as far as the file goes, only
then. -/
theorem sysExec_failed (hcall : regs.rax ≠ execFailed)
    (h : sysExec drivers regs pathPtr argvPtr v t kmalloc = some (regs', v', t'))
    (hfail : regs'.rax = execFailed) :
    regs' = { regs with rax := execFailed } ∧ v.SameOpen v' ∧
      ∀ file positioned, Honest drivers →
        (∀ path, t.machine.loadString addressSpaceSize pathPtr = some path →
          Opens drivers v path file positioned) →
        (FailsEarly drivers pathPtr argvPtr v t kmalloc file → SameUserMemory t.machine t'.machine) ∧
        ∀ spaces, Loadable spaces t.machine file →
          InUse t.machine (mappedPages (reachedOf file)) → SameUserMemory t.machine t'.machine →
          FailsEarly drivers pathPtr argvPtr v t kmalloc file := by
  rcases sysExec_cases h with ⟨hnone, hregs, rfl, rfl⟩ |
    ⟨path, argv, outcome, hpath, hargv, hsome, hload, hresult⟩
  · exact ⟨hregs, .of_eq rfl, fun _ _ _ _ => ⟨fun _ => ⟨fun _ _ => rfl, fun _ _ => rfl⟩,
      fun _ _ _ _ => .inl hnone⟩⟩
  obtain ⟨-, hregs⟩ := hresult.resolve_right fun hrax => hcall (hrax.symm.trans hfail)
  refine ⟨hregs, load_sameOpen hload, fun file positioned hhonest hopens =>
    ⟨?_, fun spaces hr hused hsame => ?_⟩⟩
  · rintro (hnone | ⟨path', hpath', hearly⟩)
    · exact absurd (Option.some.inj (hargv.symm.trans hnone)) hsome
    · obtain rfl := Option.some.inj (hpath.symm.trans hpath')
      have hmachine := machine_of_givesUpEarly hhonest (hopens path hpath) hload hearly
      exact ⟨fun n _ => by rw [hmachine], fun w _ => by rw [hmachine]⟩
  · exact .inr ⟨path, hpath, givesUpEarly_of_sameUserMemory hhonest (hopens path hpath)
      (argsFit_of_copyUserArgv hargv) hr hused hload hsame⟩

end Exec

/-! ### A caller with one page -/

/-- The address of the page. -/
def callerAddr : Nat := 0x10000000000

def callerPages : Set Nat := pageRange (callerAddr / pageSize) 1

theorem mem_callerPages {w : Nat} :
    w / pageSize ∈ callerPages ↔ callerAddr ≤ w ∧ w < callerAddr + pageSize := by
  simp only [callerPages, pageRange, Set.mem_Ico, callerAddr, pageSize]
  omega

/-- The array of arguments, and behind it the path as the only one of them. -/
def callerBytes : List UInt8 :=
  wordBytes (callerAddr + 16) ++ (wordBytes 0 ++ (ramPath ++ [0]))

/-- A machine on which a task has such a page, with frames for it once more and for the stack. -/
structure Caller (t : Traced) : Prop where
  space : Space [0x100] t.machine
  owned : Owned [0x100] t.machine callerPages
  frames : FramesFor t.machine (callerAddr / pageSize :: stackList)
  argv : copyUserArgv t.machine maxExecArgs callerAddr = some [ramPath]
  path : t.machine.loadString addressSpaceSize (callerAddr + 16) = some ramPath

theorem argv_of_callerBytes {m : Machine} (h : m.Holds callerAddr callerBytes) :
    copyUserArgv m maxExecArgs callerAddr = some [ramPath] ∧
      m.loadString addressSpaceSize (callerAddr + 16) = some ramPath := by
  obtain ⟨hfirst, hrest⟩ := holds_append.mp h
  obtain ⟨hsecond, hstring⟩ := holds_append.mp hrest
  have hstr : m.loadLE 8 callerAddr = some (callerAddr + 16) :=
    loadLE_of_holds hfirst (by decide) (by decide)
  have hnull : m.loadLE 8 (callerAddr + 8) = some 0 :=
    loadLE_of_holds hsecond (by decide) (by decide)
  have hpath : m.loadString addressSpaceSize (callerAddr + 16) = some ramPath :=
    loadString_of_holds hstring (by decide) (by decide) (by decide)
  have hwrap : wrap (callerAddr + 8) = callerAddr + 8 := by decide
  refine ⟨?_, hpath⟩
  rw [maxExecArgs, copyUserArgv, hstr, Option.bind_some, if_neg (by decide), hpath,
    Option.bind_some, hwrap, copyUserArgv, hnull, Option.bind_some, if_pos rfl]
  rfl

theorem exists_caller : ∃ t, Caller t := by
  have hframes : FramesFor largeVm.machine (List.range' (callerAddr / pageSize) 1 ++
      callerAddr / pageSize :: stackList) :=
    framesFor_of_card (by decide) (by rw [largeVm_card]; decide)
  obtain ⟨t₁, -, hrange, -, hframes₁⟩ := Traced.mapPages_added (t := ⟨largeVm.machine, []⟩) none
    largeVm_space (by decide : stackFlags < pageSize) hframes
  have hin : ∀ w, callerAddr ≤ w → w < callerAddr + callerBytes.length →
      w / pageSize ∈ callerPages := by
    intro w hlow hhigh
    have hlen : callerBytes.length ≤ pageSize := by decide
    exact mem_callerPages.mpr ⟨hlow, by omega⟩
  obtain ⟨t₂, -, hstores, -⟩ := Traced.store_stored .arguments callerAddr callerBytes hrange.space
    hrange.owned_new hin
  obtain ⟨hargv, hpath⟩ := argv_of_callerBytes (m := t₂.machine)
    (holds_of_stored t₁.machine.readByte fun w hlow hhigh =>
      hstores.byte w (hin w hlow hhigh))
  exact ⟨t₂, hstores.space, hstores.owned _ hrange.owned_new,
    hstores.framesFor hrange.space.layout.forest.active hframes₁, hargv, hpath⟩

/-- The registers of the call: the path in `rdi`, the arguments in `rsi`. -/
def callerRegs : Registers :=
  { rax := 7, rbx := 0, rcx := 0, rdx := 0, rsi := callerAddr, rdi := callerAddr + 16, rbp := 0,
    r8 := 0, r9 := 0, r10 := 0, r11 := 0, r12 := 0, r13 := 0, r14 := 0, r15 := 0, vector := 128,
    errCode := 0, rip := callerAddr + 64, cs := 0x23, rflags := 0x202, rsp := callerAddr + 4096,
    ss := 0x1B }

/-- A call of the caller whose program cannot be loaded. -/
theorem Caller.sysExec {file : List UInt8} {t t' : Traced} {outcome : Outcome}
    {v' : Vfs Unit Unit Unit RamWorld} (c : Caller t)
    (hload : load (ramDrivers file) ramVfs t ramPath [ramPath] true = some (outcome, v', t'))
    (hzero : outcome.value = 0) :
    Syscalls.sysExec (ramDrivers file) callerRegs callerRegs.rdi callerRegs.rsi ramVfs t true =
      some ({ callerRegs with rax := execFailed }, v', t') := by
  have hargv : copyUserArgv t.machine maxExecArgs callerRegs.rsi = some [ramPath] := c.argv
  have hpath : t.machine.loadString addressSpaceSize callerRegs.rdi = some ramPath := c.path
  rw [Syscalls.sysExec, hargv, Option.bind_some, if_neg (List.cons_ne_nil _ _), hpath,
    Option.bind_some, hload, Option.map_some]
  dsimp only
  rw [if_pos hzero]

theorem ramVfs_opens {file : List UInt8} (hlength : file.length < 2 ^ 63) (path : CString) :
    path = ramPath → Opens (ramDrivers file) ramVfs path file fun p v => v = ramAt file p := by
  rintro rfl -
  exact ⟨delivers_ramDrivers hlength, rfl⟩

/-- An empty file. -/
theorem sysExec_failed_emptyFile : ∃ t regs' v' t',
    sysExec (ramDrivers []) callerRegs callerRegs.rdi callerRegs.rsi ramVfs t true =
        some (regs', v', t') ∧
      regs'.rax = execFailed ∧ ramVfs.SameOpen v' ∧ SameUserMemory t.machine t'.machine := by
  obtain ⟨t, c⟩ := exists_caller
  obtain ⟨result, v', hheaders⟩ := (honest_ramDrivers []).readHeaders ramVfs ramPath true
  obtain ⟨failure, rfl⟩ : ∃ failure, result = .error failure := by
    have hrun : (readHeaders (ramDrivers []) ramVfs ramPath true).map (fun r => r.1.isOk) =
        some false := by decide +kernel
    rw [hheaders, Option.map_some] at hrun
    cases result with
    | error failure => exact ⟨failure, rfl⟩
    | ok exe => cases hrun
  have hload : load (ramDrivers []) ramVfs t ramPath [ramPath] true =
      some (.failed ramPath failure, v', t) := by
    rw [load, hheaders, Option.bind_some]
  have hcall := c.sysExec hload rfl
  obtain ⟨-, hopen, hmemory⟩ := sysExec_failed (by decide) hcall rfl
  have hearly : FailsEarly (ramDrivers []) callerRegs.rdi callerRegs.rsi ramVfs t true [] :=
    .inr ⟨ramPath, c.path, .inr (.inr (.inl (by decide)))⟩
  exact ⟨t, _, v', t, hcall, rfl, hopen, (hmemory [] _ (honest_ramDrivers []) (fun path hpath =>
    ramVfs_opens (by decide) path (Option.some.inj (hpath.symm.trans c.path)))).1 hearly⟩

/-- A segment over the caller's page with more data than the file has. -/
def truncatedPhdr : Phdr := ⟨ptLoad, 6, 0, callerAddr, 200, 200⟩

def truncatedFile : List UInt8 := encode callerAddr [truncatedPhdr]

/-- **A truncated file.** The caller gets -1, and a page that is not the one it had. -/
theorem not_sysExec_failed : ∃ t regs' v' t',
    sysExec (ramDrivers truncatedFile) callerRegs callerRegs.rdi callerRegs.rsi ramVfs t true =
        some (regs', v', t') ∧
      regs'.rax = execFailed ∧ ¬ SameUserMemory t.machine t'.machine := by
  obtain ⟨t, c⟩ := exists_caller
  have hlength : truncatedFile.length < 2 ^ 63 := by decide +kernel
  have hreached : reachedOf truncatedFile = [(truncatedPhdr, 120)] := by decide +kernel
  have hpages : mappedPages (reachedOf truncatedFile) = callerAddr / pageSize :: stackList := by
    rw [hreached]
    rfl
  have hpage : callerAddr / pageSize ∈ callerPages := mem_callerPages.mpr ⟨le_rfl, by decide⟩
  have hr : Loadable [0x100] t.machine truncatedFile := by
    refine ⟨c.space, ?_, hpages ▸ c.frames⟩
    rw [hreached]
    intro x hx
    obtain rfl := List.mem_singleton.mp hx
    exact ⟨by decide, .inr (by decide)⟩
  have hcut : ¬ ReadsAll truncatedFile.length (tableEnd truncatedFile) (phdrsOf truncatedFile) := by
    have hphdrs : phdrsOf truncatedFile = [truncatedPhdr] := by decide +kernel
    rw [hphdrs, ReadsAll, if_neg (by decide)]
    exact fun h => absurd h.1 (by decide +kernel)
  obtain ⟨outcome, v', t', hload, hfresh, -, hfailed⟩ := hr.run (honest_ramDrivers truncatedFile)
    (ramVfs_opens hlength ramPath rfl) (by decide) (by decide +kernel) ramPath_fits
  refine ⟨t, _, v', t', c.sysExec hload (hfailed hcut), rfl, fun same => ?_⟩
  -- the page is in a frame that was free, and it had one that was not
  obtain ⟨F, flags, hbefore, hused, -⟩ := c.owned.frame _ hpage
  obtain ⟨N, hfree, flags', hafter⟩ := hfresh (callerAddr / pageSize) (by
    rw [hreached]
    exact ⟨_, List.mem_singleton_self _, Phdr.mem_pageList.mp (by decide)⟩)
  rw [same.translation _ (c.owned.user _ hpage), hbefore] at hafter
  obtain ⟨rfl, -⟩ := Prod.mk.inj (Option.some.inj hafter)
  exact hused hfree

end WengShiOS.Syscalls
