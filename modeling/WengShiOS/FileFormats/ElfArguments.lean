import WengShiOS.FileFormats.ElfImage
import WengShiOS.Mm.UserStrings

/-! # The arguments of a program

What `setupArgs` leaves on the stack is what the program is given. Read as C code reads
`argv` (`readArgv`), the memory behind the pointer it returns has the strings that went in,
each in a place of its own. -/

namespace WengShiOS.FileFormats.Elf

open Math Fs Mm Machine

/-- The number of addresses, a bound for every loop that reads on to the next one. -/
def addressSpaceSize : Nat := 2 ^ 64

/-- An array of pointers to strings which ends with a null pointer: the pointers and the
strings. -/
def readArgv (m : Machine) : (fuel : Nat) → (a : Nat) → Option (List (Nat × CString))
  | 0, _ => none
  | fuel + 1, a => (m.loadLE 8 a).bind fun p =>
      if p = 0 then some []
      else (m.loadString addressSpaceSize p).bind fun s =>
        (readArgv m fuel (wrap (a + 8))).map fun rest => (p, s) :: rest

/-- Address and size of the array and of every string. -/
def regions (a : Nat) (args : List (Nat × CString)) : List (Nat × Nat) :=
  (a, 8 * (args.length + 1)) :: args.map fun arg => (arg.1, arg.2.length + 1)

/-- The arguments `argv` have been passed in `stack`. -/
structure Passed (t t' : Traced) (argv : List CString) (stack : UserStack) : Prop where
  stackTop_aligned : 16 ∣ stack.stackTop
  argv_aligned : 8 ∣ stack.argvUserPtr
  bottom_le : stackBottom ≤ stack.stackTop
  stackTop_le : stack.stackTop ≤ stack.argvUserPtr
  reads : ∃ args, readArgv t'.machine addressSpaceSize stack.argvUserPtr = some args ∧
    args.map Prod.snd = argv ∧
    (∀ r ∈ regions stack.argvUserPtr args, stack.stackTop ≤ r.1 ∧ r.1 + r.2 ≤ userStackTop) ∧
    (regions stack.argvUserPtr args).Pairwise fun r r' => Apart r.1 r.2 r'.1 r'.2
  events : ∀ e ∈ t'.log, e ∈ t.log ∨ ∃ addr count, e = .stored .arguments addr count ∧
    stack.stackTop ≤ addr ∧ addr + count ≤ userStackTop
  bytes : ∀ w, stackBottom ≤ w → w < stack.stackTop → t'.machine.readByte w = t.machine.readByte w
  frames : ∀ F, (∀ n ∈ stackPages, ∀ flags, pageAt t.machine n ≠ some (F, flags)) →
    t'.machine.phys F = t.machine.phys F
  kernel : t'.machine.cr3 = t.machine.cr3 ∧ t'.machine.pmm = t.machine.pmm

variable {spaces : List Nat} {m : Machine} {t : Traced} {argv : List CString} {a fuel : Nat}

/-! ### Reading them back -/

theorem stringAddrs_lt (hsize : stringsSize argv < userStackTop) :
    ∀ p ∈ stringAddrs argv, p ≠ 0 ∧ p < 2 ^ 64 := by
  have htop : userStackTop < 2 ^ 64 := by decide
  induction argv with
  | nil => exact fun p hp => absurd hp List.not_mem_nil
  | cons arg rest ih =>
    have hcons := stringsSize_cons arg rest
    rw [stringAddrs, List.forall_mem_cons]
    exact ⟨⟨by omega, by omega⟩, ih (by omega)⟩

/-- By induction on the strings: behind the first one are the others, and behind its pointer
theirs. -/
theorem readArgv_of_holds
    (hstrings : m.Holds (userStackTop - stringsSize argv) (stringBytes argv))
    (harray : m.Holds a ((stringAddrs argv ++ [0]).flatMap wordBytes))
    (hnul : ∀ arg ∈ argv, 0 ∉ arg) (hsize : stringsSize argv < userStackTop)
    (ha : a + 8 * (argv.length + 1) < 2 ^ 64) (hfuel : argv.length < fuel) :
    readArgv m fuel a = some ((stringAddrs argv).zip argv) := by
  have htop : userStackTop < 2 ^ 64 := by decide
  induction argv generalizing a fuel with
  | nil =>
    obtain ⟨fuel, rfl⟩ := Nat.exists_eq_succ_of_ne_zero (Nat.ne_zero_of_lt hfuel)
    have hzero : m.loadLE 8 a = some 0 := by
      refine loadLE_of_holds ?_ (by decide) (by simpa using ha)
      simpa [stringAddrs, wordBytes] using harray
    rw [readArgv, hzero, Option.bind_some, if_pos rfl]
    rfl
  | cons arg rest ih =>
    obtain ⟨fuel, rfl⟩ := Nat.exists_eq_succ_of_ne_zero (Nat.ne_zero_of_lt hfuel)
    obtain ⟨hnul₁, hnul⟩ := List.forall_mem_cons.mp hnul
    obtain ⟨hne, hlt⟩ := stringAddrs_lt hsize _ List.mem_cons_self
    have hcons := stringsSize_cons arg rest
    rw [List.length_cons] at ha hfuel
    -- the pointer and the rest of the array
    rw [stringAddrs, List.cons_append, List.flatMap_cons, holds_append] at harray
    obtain ⟨hword, harray⟩ := harray
    have hpointer : m.loadLE 8 a = some (userStackTop - stringsSize (arg :: rest)) :=
      loadLE_of_holds hword hlt (by omega)
    -- the string and the rest of the strings
    have hbytes : stringBytes (arg :: rest) = arg ++ [0] ++ stringBytes rest := List.flatMap_cons
    rw [hbytes, holds_append] at hstrings
    obtain ⟨hstring, hstrings⟩ := hstrings
    have hnext : userStackTop - stringsSize (arg :: rest) + (arg ++ [0]).length =
        userStackTop - stringsSize rest := by
      rw [List.length_append, List.length_singleton]
      omega
    rw [hnext] at hstrings
    have hread : m.loadString addressSpaceSize (userStackTop - stringsSize (arg :: rest)) =
        some arg := by
      refine loadString_of_holds hstring hnul₁ ?_ (by omega)
      simp only [addressSpaceSize]
      omega
    rw [readArgv, hpointer, Option.bind_some, if_neg hne, hread, Option.bind_some,
      wrap_of_lt (by omega), ih hstrings (by simpa [wordBytes] using harray) hnul (by omega)
        (by omega) (by omega), Option.map_some]
    rfl

/-! ### Where they are -/

theorem stringRegions_bounds (hsize : stringsSize argv ≤ userStackTop) :
    ∀ arg ∈ (stringAddrs argv).zip argv,
      userStackTop - stringsSize argv ≤ arg.1 ∧ arg.1 + (arg.2.length + 1) ≤ userStackTop := by
  induction argv with
  | nil => exact fun _ h => absurd h List.not_mem_nil
  | cons arg rest ih =>
    have hcons := stringsSize_cons arg rest
    rw [stringAddrs, List.zip_cons_cons, List.forall_mem_cons]
    dsimp only
    refine ⟨⟨le_rfl, by omega⟩, fun x hx => ?_⟩
    have := ih (by omega) x hx
    omega

theorem stringRegions_apart (hsize : stringsSize argv ≤ userStackTop) :
    ((stringAddrs argv).zip argv).Pairwise fun x y => x.1 + (x.2.length + 1) ≤ y.1 := by
  induction argv with
  | nil => exact List.Pairwise.nil
  | cons arg rest ih =>
    have hcons := stringsSize_cons arg rest
    rw [stringAddrs, List.zip_cons_cons, List.pairwise_cons]
    refine ⟨fun x hx => ?_, ih (by omega)⟩
    have := (stringRegions_bounds (by omega) x hx).1
    dsimp only
    omega

/-- At most 16 strings of at most 63 bytes take up little of the stack. -/
theorem stringsSize_le (hlen : ∀ arg ∈ argv, arg.length ≤ 63) :
    stringsSize argv ≤ 64 * argv.length := by
  induction argv with
  | nil => exact le_rfl
  | cons arg rest ih =>
    obtain ⟨harg, hrest⟩ := List.forall_mem_cons.mp hlen
    have := ih hrest
    rw [stringsSize_cons, List.length_cons]
    omega

/-! ### The result -/

/-- **Arguments go through the stack.** For at most 16 strings of at most 63 bytes, and
a stack whose pages are mapped. -/
theorem setupArgs_passed (h : Space spaces t.machine) (o : Owned spaces t.machine stackPages)
    (hargc : argv.length ≤ 16) (hlen : ∀ arg ∈ argv, arg.length ≤ 63)
    (hnul : ∀ arg ∈ argv, 0 ∉ arg) :
    ∃ stack t', setupArgs t userStackTop argv = some (stack, t') ∧ Passed t t' argv stack := by
  have hsize := stringsSize_le hlen
  have hbottom : stackBottom = userStackTop - 16384 := rfl
  have htop : userStackTop = 0x7FFFFFFFF000 := rfl
  have harray : arrayAddr argv =
      (userStackTop - stringsSize argv) / 8 * 8 - (argv.length + 1) * 8 := rfl
  have hstack : ∀ w, stackBottom ≤ w → w < userStackTop → w / pageSize ∈ stackPages :=
    fun w hlow hhigh => mem_stackPages.mpr ⟨hlow, hhigh⟩
  obtain ⟨t', hrun, hstores⟩ := setupArgs_argStores h o hstack hargc (by
    simp only [argsSize, userStackPages, pageSize]
    omega)
  refine ⟨_, t', hrun, ?_⟩
  have hbyte := hstores.stores.byte
  have hlenArray := length_arrayBytes argv
  have hlenStrings := length_stringBytes argv
  have hheldArray : t'.machine.Holds (arrayAddr argv) (arrayBytes argv) :=
    holds_of_stored _ fun w hlow hhigh => hbyte w (hstack w (by omega) (by omega))
  have hheldStrings : t'.machine.Holds (userStackTop - stringsSize argv) (stringBytes argv) := by
    -- the array is below the strings
    refine holds_of_stored t.machine.readByte fun w hlow hhigh => ?_
    rw [hbyte w (hstack w (by omega) (by omega))]
    exact if_neg (by omega)
  have hreads := readArgv_of_holds hheldStrings hheldArray hnul (by omega) (by omega)
    (by simp only [addressSpaceSize]; omega : argv.length < addressSpaceSize)
  have hlenZip : ((stringAddrs argv).zip argv).length = argv.length := by
    rw [List.length_zip, length_stringAddrs, Nat.min_self]
  have hbounds := stringRegions_bounds (by omega : stringsSize argv ≤ userStackTop)
  have hbelow : arrayAddr argv / 16 * 16 ≤ arrayAddr argv := Nat.div_mul_le_self _ _
  refine ⟨Nat.dvd_mul_left _ _, ?_, ?_, hbelow, ⟨_, hreads, ?_, ?_, ?_⟩, fun e he => ?_,
    fun w hlow hhigh => ?_, fun F hF => hstores.stores.memory hF,
    hstores.stores.cr3, hstores.stores.pmm⟩
  · exact Nat.dvd_sub (Nat.dvd_mul_left ..) (Nat.dvd_mul_left ..)
  · dsimp only
    omega
  · exact List.map_snd_zip (length_stringAddrs argv).ge
  · rw [regions, List.forall_mem_cons, List.forall_mem_map]
    refine ⟨⟨hbelow, by dsimp only; omega⟩, fun arg harg => ?_⟩
    have := hbounds arg harg
    dsimp only
    omega
  · rw [regions, List.pairwise_cons, List.pairwise_map, List.forall_mem_map]
    refine ⟨fun arg harg => .inl ?_, ?_⟩
    · have := (hbounds arg harg).1
      dsimp only
      omega
    · exact (stringRegions_apart (by omega)).imp .inl
  · rcases hstores.events e he with he | ⟨addr, count, heq, hlow, hhigh⟩
    · exact .inl he
    · exact .inr ⟨addr, count, heq, hbelow.trans hlow, hhigh⟩
  · dsimp only at hhigh
    rw [hbyte w (hstack w hlow (by omega))]
    exact hstores.outside w _ (.inl (by omega))

/-- Two arguments for the kernel that has just booted, after the stack was mapped. -/
theorem setupArgs_passed_largeVm : ∃ t stack t',
    Traced.mapPages ⟨largeVm.machine, []⟩ none stackFlags stackBottom userStackPages = some t ∧
      setupArgs t userStackTop [ramPath, [0x61]] = some (stack, t') ∧
      Passed t t' [ramPath, [0x61]] stack := by
  have hframes : FramesFor largeVm.machine (stackList ++ []) :=
    framesFor_of_card (by decide) (by rw [largeVm_card]; decide)
  obtain ⟨t, hmap, hrange, -⟩ := Traced.mapPages_added (t := ⟨largeVm.machine, []⟩) none
    largeVm_space (by decide : stackFlags < pageSize) hframes
  have hlen : ∀ arg ∈ [ramPath, [0x61]], arg.length ≤ 63 := by decide
  obtain ⟨stack, t', hrun, hpassed⟩ := setupArgs_passed hrange.space hrange.owned_new
    (by decide) hlen (by decide)
  exact ⟨t, stack, t', hmap, hrun, hpassed⟩

end WengShiOS.FileFormats.Elf
