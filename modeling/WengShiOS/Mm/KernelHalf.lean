import WengShiOS.Mm.BootTables

/-! # Runs of the virtual memory manager

What a step does to the translations of all address spaces, and what follows for every
run from the boot tables. The kernel half is the same in all address spaces. A page
that is mapped into the first GiB also appears in the kernel half, because the boot
code put one page directory into both; and a page that is mapped below entry 0 of the
PML4 appears in all address spaces, because that entry is copied. -/

namespace WengShiOS.Mm

open Math Pmm Finset

variable {s s' v : Nat} {p p' : List Nat}

/-! ### Names in the two halves -/

theorem tableName_of_head (hp : p.head? = some 511) :
    tableName s p = (none, if p.take 2 = [511, 510] then 0 :: 0 :: p.drop 2 else p) := by
  unfold tableName
  by_cases hdir : p.take 2 = [511, 510]
  · rw [if_pos hdir, if_pos hdir]
  · rw [if_neg hdir, if_neg hdir, if_pos (.inr hp)]

/-- In the kernel half a page has one name, in all address spaces. -/
theorem tableName_eq_iff (hp : p.head? = some 511) (hp' : p'.head? = some 511) :
    tableName s p = tableName s' p' ↔ p = p' := by
  rw [tableName_of_head hp, tableName_of_head hp']
  constructor
  · intro h
    obtain ⟨-, h⟩ := Prod.mk.inj h
    split_ifs at h with hdir hdir' hdir'
    · rw [eq_of_take_two hdir, eq_of_take_two hdir']
      simpa using h
    · -- one of the names would be in the first GiB
      rw [← h] at hp'
      simp at hp'
    · rw [h] at hp
      simp at hp
    · exact h
  · rintro rfl
    rfl

/-- In the lower half the pages below entry 0 belong to all address spaces. -/
theorem tableName_user (hv : v / 2 ^ 39 % 512 < 256) :
    tableName s (indices v) = (if v / 2 ^ 39 % 512 = 0 then none else some s, indices v) := by
  have hdir : ¬ (indices v).take 2 = [511, 510] := fun h => by
    have := (List.cons.inj h).1
    omega
  rw [tableName, if_neg hdir]
  by_cases hzero : v / 2 ^ 39 % 512 = 0
  · rw [if_pos hzero, if_pos (.inl (congrArg some hzero))]
  · have hhead : ¬ ((indices v).head? = some 0 ∨ (indices v).head? = some 511) := by
      rintro (h | h)
      · exact hzero (Option.some.inj h)
      · have := Option.some.inj h
        omega
    rw [if_neg hzero, if_neg hhead]

/-- Outside the first GiB no user page has the name of a kernel page. -/
theorem tableName_ne (hp : p.head? = some 511) (hv : v / 2 ^ 39 % 512 ≠ kernelPlm4Index)
    (hlow : v / 2 ^ 39 % 512 = 0 → v / 2 ^ 30 % 512 ≠ 0) :
    tableName s p ≠ tableName s' (indices v) := by
  intro h
  have hdir : ¬ (indices v).take 2 = [511, 510] := fun h => hv (List.cons.inj h).1
  have hhead : (indices v).head? = some (v / 2 ^ 39 % 512) := rfl
  rw [tableName_of_head hp, tableName, if_neg hdir] at h
  split_ifs at h with hdir' hshared hshared
  · obtain ⟨hfirst, hrest⟩ := List.cons.inj (Prod.mk.inj h).2
    exact hlow hfirst.symm (List.cons.inj hrest).1.symm
  · cases (Prod.mk.inj h).1
  · rw [(Prod.mk.inj h).2, hhead] at hp
    exact hv (Option.some.inj hp)
  · cases (Prod.mk.inj h).1

namespace Vm

variable {σ σ' : Vm} {a : VmAction}

/-- How an address space translates a page. -/
def translation (σ : Vm) (s : Nat) (p : List Nat) : Option (Nat × Nat) := view σ.machine.phys s p

/-- The translations after an action: a call for a page is for all pages of its name. -/
def translationAfter (σ : Vm) (a : VmAction) (s : Nat) (p : List Nat) : Option (Nat × Nat) :=
  match σ.call a with
  | some (v, t) =>
    if tableName s p = tableName σ.machine.cr3 (indices v) then t else σ.translation s p
  | none => σ.translation s p

structure Inv (σ : Vm) : Prop where
  layout : Layout σ.spaces σ.machine
  /-- pages that were mapped have no huge page on their way -/
  mapped : ∀ p ∈ σ.mapped, PagePath p ∧ Clear σ.machine.phys σ.machine.cr3 p

theorem Inv.of_boot (h : σ.Boot) : σ.Inv := by
  obtain ⟨phys, p4Table, hlow, hzero, hphys, hcr3, hspaces, hfree⟩ := h.zeroed
  refine ⟨?_, fun p hp => ?_⟩
  · rw [hspaces]
    exact (bootEntries_setupPageTables hlow hzero).layout hlow hphys hcr3 hfree h.frames
  · rw [h.mapped] at hp
    cases hp

/-- The kernel half is as the boot code and the calls for it have left it. -/
def KernelKept (σ : Vm) : Prop :=
  ∀ s ∈ σ.spaces, ∀ p, PagePath p → p.head? = some 511 → σ.translation s p = σ.kernelMap p

theorem KernelKept.of_boot (h : σ.Boot) : σ.KernelKept := by
  intro s hs p hp hhead
  obtain ⟨phys, p4Table, hlow, hzero, hphys, -, hspaces, -⟩ := h.zeroed
  rw [hspaces, List.mem_singleton] at hs
  rw [h.kernelMap, translation, hphys, hs]
  exact (bootEntries_setupPageTables hlow hzero).view_kernelHalf hlow hp hhead

/-! ### What a step does -/

/-- The result of an action that succeeds. -/
structure Done (σ : Vm) (a : VmAction) (σ' : Vm) : Prop where
  next : σ.next a = some σ'
  inv : σ'.Inv
  spaces : ∀ s ∈ σ.spaces, s ∈ σ'.spaces
  translation : ∀ s ∈ σ.spaces, ∀ p, PagePath p → σ'.translation s p = σ.translationAfter a s p

variable {m : Machine} {N : Nat}

theorem next_eq {spaces : List Nat} (h : σ.exec a = some (m, spaces)) :
    σ.next a = some ⟨m, spaces, σ.mappedAfter a, σ.kernelMapAfter a⟩ := by
  rw [Vm.next, h]
  rfl

theorem kernelMap_of_next (h : σ.next a = some σ') : σ'.kernelMap = σ.kernelMapAfter a := by
  obtain ⟨r, -, rfl⟩ := Option.map_eq_some_iff.mp h
  rfl

/-- The pages that were mapped stay as they are, and a new one joins them. -/
theorem Inv.mappedAfter (inv : σ.Inv)
    (hclear : ∀ p, PagePath p → Clear σ.machine.phys σ.machine.cr3 p → Clear m.phys m.cr3 p)
    (hnew : ∀ v t, σ.call a = some (v, some t) →
      PagePath (indices v) ∧ Clear m.phys m.cr3 (indices v)) :
    ∀ p ∈ σ.mappedAfter a, PagePath p ∧ Clear m.phys m.cr3 p := by
  have hold : ∀ p ∈ σ.mapped, PagePath p ∧ Clear m.phys m.cr3 p := fun p hp =>
    ⟨(inv.mapped p hp).1, hclear p (inv.mapped p hp).1 (inv.mapped p hp).2⟩
  unfold Vm.mappedAfter
  split
  case h_1 v t hcall =>
    intro p hp
    rcases List.mem_cons.mp hp with rfl | hp
    · exact hnew v t hcall
    · exact hold p hp
  case h_2 => exact hold

/-- A call for a page. -/
theorem Inv.done_of_remaps {t : Option (Nat × Nat)} {spaces : List Nat} (inv : σ.Inv)
    (r : Remaps σ.spaces σ.machine m v t) (hcall : σ.call a = some (v, t))
    (hexec : σ.exec a = some (m, spaces)) (hlayout : Layout spaces m)
    (hspaces : ∀ s ∈ σ.spaces, s ∈ spaces)
    (hnew : t ≠ none → PagePath (indices v) ∧ Clear m.phys m.cr3 (indices v)) :
    ∃ σ', σ.Done a σ' := by
  refine ⟨_, next_eq hexec, ⟨hlayout, inv.mappedAfter (fun p hp h => ?_) fun v' t' hcall' => ?_⟩,
    hspaces, fun s hs p hp => ?_⟩
  · rw [r.cr3]
    exact r.clear p hp h
  · obtain ⟨rfl, rfl⟩ : v = v' ∧ t = some t' := by simpa using hcall.symm.trans hcall'
    exact hnew (by simp)
  · rw [translationAfter, hcall]
    exact r.view s hs p hp

/-- An action that is no call for a page. -/
theorem Inv.done_of_call_none (inv : σ.Inv) (hexec : σ.exec a = some (m, σ.spaces))
    (hcall : σ.call a = none) (hphys : m.phys = σ.machine.phys) (hlayout : Layout σ.spaces m) :
    ∃ σ', σ.Done a σ' := by
  refine ⟨_, next_eq hexec, ⟨hlayout, inv.mappedAfter (fun p hp h => ?_) fun v' t' hcall' => ?_⟩,
    fun _ hs => hs, fun s hs p hp => ?_⟩
  · rw [← hphys] at h
    exact hlayout.clear_of_clear inv.layout.forest.active hlayout.forest.active hp h
  · rw [hcall] at hcall'
    cases hcall'
  · rw [translationAfter, hcall]
    change view m.phys s p = view σ.machine.phys s p
    rw [hphys]

/-- The PMM has a frame, which is not the error code. -/
theorem allocFrame_of_card (h : 0 < σ.machine.pmm.freeSet.card) :
    ∃ N ∈ σ.machine.pmm.freeSet,
      σ.machine.pmm.allocFrame = (N * frameSize, σ.machine.pmm.take N) ∧ N * frameSize ≠ noFrame := by
  obtain ⟨N, hN, halloc⟩ := allocFrame_eq (card_pos.mp h)
  exact ⟨N, hN, halloc, (noFrame_ne N).symm⟩

theorem call_createAddressSpace (h : 0 < σ.machine.pmm.freeSet.card) :
    σ.call .createAddressSpace = some (scratchVirt, none) := by
  obtain ⟨N, -, halloc, hne⟩ := allocFrame_of_card h
  simp only [call, halloc, if_neg hne]

theorem exec_createAddressSpace (hN : N < 2 ^ 40)
    (hrun : σ.machine.createAddressSpace = some (N * frameSize, m)) :
    σ.exec .createAddressSpace =
      some (m, if N * frameSize = 0 then σ.spaces else N :: σ.spaces) := by
  have hframe : frameOf (N * frameSize) = N := by
    rw [frameOf_eq]
    simp only [frameSize]
    omega
  rw [exec, hrun, Option.map_some]
  dsimp only
  rw [hframe]

/-- **Every allowed action succeeds**, and changes the translations as its call says. -/
theorem Inv.done (inv : σ.Inv) (h : σ.Allowed a) : ∃ σ', σ.Done a σ' := by
  have l := inv.layout
  cases a with
  | mapPage v physicalAddr flags =>
    obtain ⟨m, hrun, r, hclear⟩ := l.mapPage physicalAddr flags h.1 h.2
    refine inv.done_of_remaps r rfl ?_ r.layout (fun _ hs => hs) fun _ =>
      ⟨pagePath_indices h.1, r.cr3 ▸ hclear⟩
    rw [exec, hrun]
    rfl
  | allocAndMapPage v flags =>
    have hcard : σ.needs v + 1 ≤ σ.machine.pmm.freeSet.card := h.2
    obtain ⟨N, hN, halloc, hne⟩ := allocFrame_of_card (σ := σ) (by omega)
    have hneeds : σ.needs v ≤ (σ.machine.pmm.take N).freeSet.card := by
      rw [freeSet_take, card_erase_of_mem hN]
      omega
    obtain ⟨m, hrun, r, hclear⟩ := (l.take N).mapPage (N * frameSize) flags h.1 hneeds
    have r' : Remaps σ.spaces σ.machine m v (some (pageView (N * frameSize) flags)) := by
      refine ⟨r.layout, r.cr3, r.view, r.clear, fun hT => ?_, fun f hf => ?_⟩
      · refine (r.tables hT).imp_right fun hfree => ?_
        rw [freeSet_take] at hfree
        exact mem_of_mem_erase hfree
      · have hfree := r.free hf
        rw [freeSet_take] at hfree
        exact mem_of_mem_erase hfree
    refine inv.done_of_remaps r' ?_ ?_ r.layout (fun _ hs => hs) fun _ =>
      ⟨pagePath_indices h.1, r'.cr3 ▸ hclear⟩
    · simp only [call, halloc, if_neg hne]
    · simp only [exec, Machine.allocAndMapPage, halloc, if_neg hne, hrun, Option.map_some]
  | unmapPage v =>
    obtain ⟨hp, hclear⟩ := inv.mapped _ h
    have hv : v / 2 ^ 39 % 512 ≠ recursiveIndex := fun hv => hp.head (congrArg some hv)
    obtain ⟨m, hrun, r⟩ := l.unmapPage hv hclear
    refine inv.done_of_remaps r rfl ?_ r.layout (fun _ hs => hs) fun ht => absurd rfl ht
    rw [exec, hrun]
    rfl
  | createAddressSpace =>
    have hcard : σ.needs scratchVirt + 1 ≤ σ.machine.pmm.freeSet.card := h
    obtain ⟨N, hN, m, hrun, r, hlayout⟩ := l.createAddressSpace hcard
    refine inv.done_of_remaps r (call_createAddressSpace (by omega))
      (exec_createAddressSpace (l.forest.lt_of_free hN) hrun) ?_ (fun s hs => ?_) fun ht => absurd rfl ht
    · split_ifs
      · exact r.layout
      · exact hlayout
    · split_ifs
      · exact hs
      · exact List.mem_cons_of_mem _ hs
  | switchAddressSpace plm4Phys => exact inv.done_of_call_none rfl rfl rfl (l.switch h)
  | allocFrame =>
    refine inv.done_of_call_none rfl rfl rfl ?_
    by_cases hfree : σ.machine.pmm.freeSet.Nonempty
    · obtain ⟨N, -, halloc⟩ := allocFrame_eq hfree
      rw [halloc]
      exact l.take N
    · rw [allocFrame_of_freeSet_empty (not_nonempty_iff_eq_empty.mp hfree)]
      exact l
  | freeFrame physAddress =>
    refine inv.done_of_call_none rfl rfl rfl (l.with_pmm (fun hT hfree => ?_) ?_)
    · rcases mem_freeSet_freeFrame.mp hfree with hfree | ⟨rfl, -⟩
      · exact l.forest.used hT hfree
      · exact h _ hT.root _ hT.path hT.table
    · rw [totalFrames_freeFrame]
      exact l.forest.frames

/-- What is true of a step, since there is only one. -/
theorem Inv.done_of_step (inv : σ.Inv) (h : (system.restrict Allowed).step σ a σ') :
    σ.Done a σ' := by
  obtain ⟨σ₁, hdone⟩ := inv.done h.1
  obtain rfl : σ₁ = σ' := Option.some.inj (hdone.next.symm.trans h.2)
  exact hdone

theorem inv_of_reachable (h : (system.restrict Allowed).Reachable σ) : σ.Inv := by
  refine h.invariant Inv (fun _ hboot => .of_boot hboot) fun σ a σ' inv hstep => ?_
  exact (inv.done_of_step hstep).inv

/-! ### Runs -/

theorem missing_le (phys : Nat → Nat → Nat) (table : Nat) (p : List Nat) :
    missing phys table p ≤ p.length - 1 := by
  induction p generalizing table with
  | nil => exact le_rfl
  | cons i rest ih =>
    rw [missing, List.length_cons, Nat.add_sub_cancel]
    split_ifs
    · exact Nat.zero_le _
    · exact (ih _).trans (Nat.sub_le _ _)
    · exact le_rfl

theorem needs_le (σ : Vm) (v : Nat) : σ.needs v ≤ 3 := missing_le _ _ (indices v)

/-- The boot tables at 1 MiB, and eight free frames above them. -/
def bootVm : Vm where
  machine :=
    { phys := setupPageTables 0x100 fun _ _ => 0
      cr3 := 0x100
      pmm := ⟨fun byte => if byte < 34 then 0xFF else 0, 280, 272, 0⟩ }
  spaces := [0x100]
  mapped := []
  kernelMap := bootKernelMap

theorem bootVm_card : bootVm.machine.pmm.freeSet.card = 8 := by
  decide +kernel

theorem le_of_mem_clearBits {total : Nat}
    (hN : N ∈ clearBits (fun byte => if byte < 34 then 0xFF else 0) total) : 272 ≤ N := by
  have hused : ∀ N < 272, testBit (fun byte => if byte < 34 then 0xFF else 0) N = true := by
    decide +kernel
  by_contra hlt
  have := (mem_clearBits.mp hN).2
  rw [hused N (by omega)] at this
  cases this

theorem le_of_mem_bootVm (hN : N ∈ bootVm.machine.pmm.freeSet) : 272 ≤ N :=
  le_of_mem_clearBits hN

/-- The boot code on empty memory, with its tables at 1 MiB and the free frames above them. -/
theorem boot_of_tables (hphys : σ.machine.phys = setupPageTables 0x100 fun _ _ => 0)
    (hcr3 : σ.machine.cr3 = 0x100) (hspaces : σ.spaces = [0x100])
    (hfree : ∀ N ∈ σ.machine.pmm.freeSet, 272 ≤ N) (hframes : σ.machine.pmm.totalFrames ≤ 2 ^ 40)
    (hmapped : σ.mapped = []) (hkernelMap : σ.kernelMap = bootKernelMap) : σ.Boot where
  zeroed := by
    refine ⟨fun _ _ => 0, 0x100, by decide, fun _ _ _ _ => rfl, hphys, hcr3, hspaces,
      fun k hk h => ?_⟩
    have := hfree _ h
    omega
  frames := hframes
  mapped := hmapped
  kernelMap := hkernelMap

theorem bootVm_boot : bootVm.Boot :=
  boot_of_tables (by simp only [bootVm]) rfl rfl (fun _ => le_of_mem_bootVm) (by decide) rfl rfl

/-- The page at 4 MiB is part of the first GiB. -/
theorem bootVm_translation :
    bootVm.translation 0x100 (indices 0x400000) = some (0x400, 0b11) := by
  have hroot : 0x100 ∈ bootVm.spaces := List.mem_singleton.mpr rfl
  have hkernel : PagePath (indices 0xFFFFFFFF80400000) := pagePath_indices (by decide)
  have hname : tableName 0x100 (indices 0x400000) =
      tableName 0x100 (indices 0xFFFFFFFF80400000) := by decide
  calc bootVm.translation 0x100 (indices 0x400000)
      = bootVm.translation 0x100 (indices 0xFFFFFFFF80400000) :=
        (Inv.of_boot bootVm_boot).layout.view_eq hroot hroot (pagePath_indices (by decide)) hkernel
          hname
    _ = bootKernelMap (indices 0xFFFFFFFF80400000) :=
        KernelKept.of_boot bootVm_boot 0x100 hroot _ hkernel (by decide)
    _ = some (0x400, 0b11) := by decide

theorem bootVm_allowed (physicalAddr flags : Nat) (hv : v / 2 ^ 39 % 512 ≠ recursiveIndex) :
    bootVm.Allowed (.mapPage v physicalAddr flags) := by
  refine ⟨hv, (needs_le bootVm v).trans ?_⟩
  decide

/-- A page is mapped under all names that its call is for. -/
theorem Done.translation_of_name {physicalAddr flags : Nat}
    (hdone : σ.Done (.mapPage v physicalAddr flags) σ') (hs : s ∈ σ.spaces) (hp : PagePath p)
    (hname : tableName s p = tableName σ.machine.cr3 (indices v)) :
    σ'.translation s p = some (pageView physicalAddr flags) := by
  rw [hdone.translation s hs p hp]
  exact if_pos hname

/-- A second address space, with frames left for tables. -/
theorem exists_twoSpaces : ∃ σ s, (system.restrict Allowed).Reachable σ ∧ s ∈ σ.spaces ∧
    s ≠ σ.machine.cr3 ∧ 3 ≤ σ.machine.pmm.freeSet.card ∧
    σ.translation s (indices 0x400000) = some (0x400, 0b11) := by
  have inv := Inv.of_boot bootVm_boot
  have hallowed : bootVm.Allowed .createAddressSpace := by
    have := needs_le bootVm scratchVirt
    rw [Allowed, bootVm_card]
    omega
  obtain ⟨N, hN, m, hrun, r, hlayout⟩ := inv.layout.createAddressSpace hallowed
  have hge := le_of_mem_bootVm hN
  have hexec := exec_createAddressSpace (inv.layout.forest.lt_of_free hN) hrun
  rw [if_neg (by simp only [frameSize]; omega)] at hexec
  have hstep : (system.restrict Allowed).step bootVm .createAddressSpace
      ⟨m, N :: bootVm.spaces, _, _⟩ := ⟨hallowed, next_eq hexec⟩
  have hdone := inv.done_of_step hstep
  have hcr3 : m.cr3 = 0x100 := r.cr3
  have hp : PagePath (indices 0x400000) := pagePath_indices (by decide)
  refine ⟨_, N, .step (.init bootVm_boot) hstep, List.mem_cons_self .., ?_, ?_, ?_⟩
  · change N ≠ m.cr3
    omega
  · have := Machine.createAddressSpace_card hrun
    rw [bootVm_card] at this
    change 3 ≤ m.pmm.freeSet.card
    omega
  · have hold := hdone.translation 0x100 (List.mem_singleton.mpr rfl) _ hp
    rw [translationAfter, call_createAddressSpace (by rw [bootVm_card]; decide)] at hold
    dsimp only at hold
    rw [if_neg (by decide), bootVm_translation] at hold
    rw [← hold]
    refine hdone.inv.layout.view_eq (List.mem_cons_self ..)
      (List.mem_cons_of_mem _ (List.mem_singleton.mpr rfl)) hp hp ?_
    rfl

/-! ## The kernel half in all address spaces -/

/-- **The kernel half is the same in all address spaces**, and each of them maps its own
PML4. This holds in all runs whose pages are outside the recursive slot, and none of
their calls fails. -/
theorem kernelHalf_agrees (h : (system.restrict Allowed).Reachable σ) :
    (∀ s ∈ σ.spaces, ∀ s' ∈ σ.spaces, ∀ v, v / 2 ^ 39 % 512 = kernelPlm4Index →
      lookup σ.machine.phys s (indices v) = lookup σ.machine.phys s' (indices v)) ∧
    (∀ s ∈ σ.spaces, SelfMapped σ.machine.phys s) ∧
    ∀ a, σ.Allowed a → (σ.next a).isSome := by
  have inv := inv_of_reachable h
  refine ⟨fun s hs s' hs' v hv => ?_, inv.layout.forest.self, fun a ha => ?_⟩
  · have hp : PagePath (indices v) := pagePath_indices (by rw [hv]; decide)
    have hhead : (indices v).head? = some 511 := congrArg some hv
    exact inv.layout.lookup_eq hs hs' hp hp ((tableName_eq_iff hhead hhead).mpr rfl)
  · obtain ⟨σ', hdone⟩ := inv.done ha
    rw [hdone.next]
    rfl

/-- A second address space agrees with the first one. -/
theorem twoSpaces_agree : ∃ σ s, (system.restrict Allowed).Reachable σ ∧ s ∈ σ.spaces ∧
    s ≠ σ.machine.cr3 ∧
    (∀ s ∈ σ.spaces, ∀ s' ∈ σ.spaces, ∀ v, v / 2 ^ 39 % 512 = kernelPlm4Index →
      lookup σ.machine.phys s (indices v) = lookup σ.machine.phys s' (indices v)) ∧
    (∀ s ∈ σ.spaces, SelfMapped σ.machine.phys s) ∧
    ∀ a, σ.Allowed a → (σ.next a).isSome := by
  obtain ⟨σ, s, h, hs, hne, -⟩ := exists_twoSpaces
  exact ⟨σ, s, h, hs, hne, kernelHalf_agrees h⟩

/-! ## User pages and the kernel half -/

/-- The action is no call for a page below 1 GiB. -/
def AboveFirstGiB (σ : Vm) (a : VmAction) : Prop :=
  ∀ v t, σ.call a = some (v, t) → v / 2 ^ 39 % 512 = 0 → v / 2 ^ 30 % 512 ≠ 0

theorem translationAfter_kernel (hp : p.head? = some 511) (h : σ.AboveFirstGiB a)
    (hkept : σ.translation s p = σ.kernelMap p) :
    σ.translationAfter a s p = σ.kernelMapAfter a p := by
  unfold translationAfter kernelMapAfter
  cases hcall : σ.call a with
  | none => exact hkept
  | some c =>
    obtain ⟨v, t⟩ := c
    dsimp only
    by_cases hv : v / 2 ^ 39 % 512 = kernelPlm4Index
    · have hhead : (indices v).head? = some 511 := congrArg some hv
      rw [if_pos hv, Function.update_apply, hkept]
      exact if_congr (tableName_eq_iff hp hhead) rfl rfl
    · rw [if_neg hv, if_neg (tableName_ne hp hv (h v t hcall)), hkept]

theorem KernelKept.of_done (inv : σ.Inv) (hkept : σ.KernelKept) (h : σ.AboveFirstGiB a)
    (hdone : σ.Done a σ') : σ'.KernelKept := by
  intro s hs p hp hhead
  have hcr3 := inv.layout.forest.active
  -- any address space will do, so the current one
  have hname : tableName s p = tableName σ.machine.cr3 p := (tableName_eq_iff hhead hhead).mpr rfl
  calc σ'.translation s p
      = σ'.translation σ.machine.cr3 p :=
        hdone.inv.layout.view_eq hs (hdone.spaces _ hcr3) hp hp hname
    _ = σ.translationAfter a σ.machine.cr3 p := hdone.translation _ hcr3 p hp
    _ = σ.kernelMapAfter a p := translationAfter_kernel hhead h (hkept _ hcr3 p hp hhead)
    _ = σ'.kernelMap p := congrFun (kernelMap_of_next hdone.next).symm p

/-- **User pages above the first GiB do not disturb the kernel half**: in every run of
such calls it is translated as at boot, apart from the calls for its own pages. -/
theorem kernelHalf_kept
    (h : (system.restrict fun σ a => σ.Allowed a ∧ σ.AboveFirstGiB a).Reachable σ) :
    ∀ s ∈ σ.spaces, ∀ v, v / 2 ^ 39 % 512 = kernelPlm4Index →
      σ.translation s (indices v) = σ.kernelMap (indices v) := by
  have hinv : σ.Inv ∧ σ.KernelKept := by
    refine h.invariant (fun σ => σ.Inv ∧ σ.KernelKept)
      (fun _ hboot => ⟨.of_boot hboot, .of_boot hboot⟩) fun σ a σ' inv hstep => ?_
    have hdone := inv.1.done_of_step ⟨hstep.1.1, hstep.2⟩
    exact ⟨hdone.inv, inv.2.of_done inv.1 hstep.1.2 hdone⟩
  intro s hs v hv
  exact hinv.2 s hs _ (pagePath_indices (by rw [hv]; decide)) (congrArg some hv)

/-- The page is mapped at the start of the program break, and the kernel half is kept. -/
theorem brkPage_kernelHalf_kept : ∃ σ,
    (system.restrict fun σ a => σ.Allowed a ∧ σ.AboveFirstGiB a).Reachable σ ∧
    σ.translation 0x100 (indices 0x50000000000) = some (5, 0b111) ∧
    ∀ s ∈ σ.spaces, ∀ v, v / 2 ^ 39 % 512 = kernelPlm4Index →
      σ.translation s (indices v) = σ.kernelMap (indices v) := by
  have inv := Inv.of_boot bootVm_boot
  have hallowed := bootVm_allowed (v := 0x50000000000) 0x5000 (pageUser ||| pageWritable) (by decide)
  obtain ⟨σ, hdone⟩ := inv.done hallowed
  have habove : bootVm.AboveFirstGiB (.mapPage 0x50000000000 0x5000 (pageUser ||| pageWritable)) := by
    intro v t hcall
    obtain ⟨rfl, -⟩ := Prod.mk.inj (Option.some.inj hcall)
    decide
  refine ⟨σ, .step (.init bootVm_boot) ⟨⟨hallowed, habove⟩, hdone.next⟩, ?_,
    kernelHalf_kept (.step (.init bootVm_boot) ⟨⟨hallowed, habove⟩, hdone.next⟩)⟩
  exact (hdone.translation_of_name inv.layout.forest.active (pagePath_indices (by decide)) rfl).trans
    (by decide)

/-- A user page at 4 MiB moves the kernel's page 4 MiB above the start of its half. -/
theorem not_kernelHalf_kept : ∃ σ σ', Boot σ ∧
    (system.restrict Allowed).step σ (.mapPage 0x400000 0x5000 (pageUser ||| pageWritable)) σ' ∧
    σ.translation σ.machine.cr3 (indices 0xFFFFFFFF80400000) = some (0x400, 0b11) ∧
    σ'.translation σ.machine.cr3 (indices 0xFFFFFFFF80400000) = some (5, 0b111) ∧
    σ'.kernelMap (indices 0xFFFFFFFF80400000) = some (0x400, 0b11) := by
  have hallowed := bootVm_allowed (v := 0x400000) 0x5000 (pageUser ||| pageWritable) (by decide)
  have hcr3 := (Inv.of_boot bootVm_boot).layout.forest.active
  have hp : PagePath (indices 0xFFFFFFFF80400000) := pagePath_indices (by decide)
  obtain ⟨σ', hdone⟩ := (Inv.of_boot bootVm_boot).done hallowed
  have hname : tableName bootVm.machine.cr3 (indices 0xFFFFFFFF80400000) =
      tableName bootVm.machine.cr3 (indices 0x400000) := by decide
  refine ⟨bootVm, σ', bootVm_boot, ⟨hallowed, hdone.next⟩, ?_, ?_, ?_⟩
  · exact (KernelKept.of_boot bootVm_boot _ hcr3 _ hp (by decide)).trans (by decide)
  · exact (hdone.translation_of_name hcr3 hp hname).trans (by decide)
  · rw [kernelMap_of_next hdone.next]
    decide

/-! ## User pages and other address spaces -/

/-- **When a user page is private.** A page that is mapped in the lower half changes no
translation of another address space exactly if it is not below entry 0 of the PML4,
or there is no other address space, or the page was mapped like this before. -/
theorem userHalf_private_iff {physicalAddr flags : Nat}
    (h : (system.restrict Allowed).Reachable σ) (hv : v / 2 ^ 39 % 512 < 256)
    (hstep : (system.restrict Allowed).step σ (.mapPage v physicalAddr (pageUser ||| flags)) σ') :
    (∀ s ∈ σ.spaces, s ≠ σ.machine.cr3 → ∀ w, w / 2 ^ 39 % 512 < 256 →
      σ'.translation s (indices w) = σ.translation s (indices w)) ↔
    v / 2 ^ 39 % 512 ≠ 0 ∨ (∀ s ∈ σ.spaces, s = σ.machine.cr3) ∨
      σ.translation σ.machine.cr3 (indices v) =
        some (pageView physicalAddr (pageUser ||| flags)) := by
  have inv := inv_of_reachable h
  have hcr3 := inv.layout.forest.active
  have hdone := inv.done_of_step hstep
  have hpage : ∀ {w}, w / 2 ^ 39 % 512 < 256 → PagePath (indices w) := fun hw =>
    pagePath_indices (by rw [recursiveIndex]; omega)
  have hafter : ∀ s ∈ σ.spaces, ∀ w, w / 2 ^ 39 % 512 < 256 → σ'.translation s (indices w) =
      if tableName s (indices w) = tableName σ.machine.cr3 (indices v) then
        some (pageView physicalAddr (pageUser ||| flags)) else σ.translation s (indices w) :=
    fun s hs w hw => hdone.translation s hs _ (hpage hw)
  constructor
  · intro hprivate
    by_contra hnot
    simp only [not_or, not_not, not_forall] at hnot
    obtain ⟨hzero, ⟨s, hs, hne⟩, hnew⟩ := hnot
    -- entry 0 is shared, so the other address space gets the page too
    have hname : tableName s (indices v) = tableName σ.machine.cr3 (indices v) := by
      rw [tableName_user hv, tableName_user hv, if_pos hzero, if_pos hzero]
    have hsame := hprivate s hs hne v hv
    rw [hafter s hs v hv, if_pos hname] at hsame
    refine hnew (hsame.trans ?_).symm
    exact inv.layout.view_eq hs hcr3 (hpage hv) (hpage hv) hname
  · intro hcond s hs hne w hw
    rw [hafter s hs w hw]
    split_ifs with hname
    · rcases hcond with hzero | hone | hnew
      · -- the name of the page belongs to the current address space
        rw [tableName_user hw, tableName_user hv, if_neg hzero] at hname
        have howner := (Prod.mk.inj hname).1
        split_ifs at howner
        exact absurd (Option.some.inj howner) hne
      · exact absurd (hone s hs) hne
      · rw [← hnew]
        exact (inv.layout.view_eq hs hcr3 (hpage hw) (hpage hv) hname).symm
    · rfl

/-- Two address spaces, and a page of the program break that is mapped in one of them. -/
theorem brkPage_private : ∃ σ σ' s, (system.restrict Allowed).Reachable σ ∧ s ∈ σ.spaces ∧
    s ≠ σ.machine.cr3 ∧
    (system.restrict Allowed).step σ (.mapPage 0x50000000000 0x5000 (pageUser ||| pageWritable)) σ' ∧
    σ'.translation σ.machine.cr3 (indices 0x50000000000) = some (5, 0b111) ∧
    ∀ s ∈ σ.spaces, s ≠ σ.machine.cr3 → ∀ w, w / 2 ^ 39 % 512 < 256 →
      σ'.translation s (indices w) = σ.translation s (indices w) := by
  obtain ⟨σ, s, h, hs, hne, hcard, -⟩ := exists_twoSpaces
  have inv := inv_of_reachable h
  have hallowed : σ.Allowed (.mapPage 0x50000000000 0x5000 (pageUser ||| pageWritable)) :=
    ⟨by decide, (needs_le σ _).trans hcard⟩
  obtain ⟨σ', hdone⟩ := inv.done hallowed
  refine ⟨σ, σ', s, h, hs, hne, ⟨hallowed, hdone.next⟩, ?_, ?_⟩
  · exact (hdone.translation_of_name inv.layout.forest.active (pagePath_indices (by decide)) rfl).trans
      (by decide)
  · exact (userHalf_private_iff h (by decide) ⟨hallowed, hdone.next⟩).mpr (.inl (by decide))

/-- A program that is loaded at 4 MiB in one address space is mapped there in the other. -/
theorem not_userHalf_private : ∃ σ σ' s, (system.restrict Allowed).Reachable σ ∧ s ∈ σ.spaces ∧
    s ≠ σ.machine.cr3 ∧
    (system.restrict Allowed).step σ (.mapPage 0x400000 0x5000 (pageUser ||| pageWritable)) σ' ∧
    σ.translation s (indices 0x400000) = some (0x400, 0b11) ∧
    σ'.translation s (indices 0x400000) = some (5, 0b111) := by
  obtain ⟨σ, s, h, hs, hne, hcard, hbefore⟩ := exists_twoSpaces
  have inv := inv_of_reachable h
  have hallowed : σ.Allowed (.mapPage 0x400000 0x5000 (pageUser ||| pageWritable)) :=
    ⟨by decide, (needs_le σ _).trans hcard⟩
  obtain ⟨σ', hdone⟩ := inv.done hallowed
  refine ⟨σ, σ', s, h, hs, hne, ⟨hallowed, hdone.next⟩, hbefore, ?_⟩
  have hname : tableName s (indices 0x400000) = tableName σ.machine.cr3 (indices 0x400000) := by
    rfl
  exact (hdone.translation_of_name hs (pagePath_indices (by decide)) hname).trans (by decide)

/-! ## Page tables and free frames -/

/-- **The frames of the page tables.** In every state reached no table of an address space is
free in the PMM, and a table outside the parts that all address spaces share is at one place of
one address space. -/
theorem tables_owned {s T : Nat} {p : List Nat} (h : (system.restrict Allowed).Reachable σ)
    (hT : Named σ.machine.phys σ.spaces s p T) :
    T ∉ σ.machine.pmm.freeSet ∧
      (p.head? ≠ some 0 → p.head? ≠ some 511 →
        ∀ s' p', Named σ.machine.phys σ.spaces s' p' T → s' = s ∧ p' = p) := by
  have forest := (inv_of_reachable h).layout.forest
  refine ⟨forest.used hT, fun hzero hkernel s' p' hT' => ?_⟩
  have hname : tableName s p = (some s, p) := by
    rw [tableName, if_neg (fun htwo => ?_), if_neg (by simp [hzero, hkernel])]
    rw [eq_of_take_two htwo] at hkernel
    exact hkernel rfl
  have hsame : tableName s' p' = (some s, p) := (forest.distinct hT' hT).trans hname
  -- The tables of the shared parts have names without an address space.
  unfold tableName at hsame
  split_ifs at hsame <;> simp_all

/-- The PML4 of a second address space is in use, and is no other table. -/
theorem twoSpaces_owned : ∃ σ s, (system.restrict Allowed).Reachable σ ∧ s ∈ σ.spaces ∧
    s ≠ σ.machine.cr3 ∧ s ∉ σ.machine.pmm.freeSet ∧
    ∀ s' p', Named σ.machine.phys σ.spaces s' p' s → s' = s ∧ p' = [] := by
  obtain ⟨σ, s, h, hs, hne, -⟩ := exists_twoSpaces
  obtain ⟨hused, hone⟩ := tables_owned h (.nil hs)
  exact ⟨σ, s, h, hs, hne, hused, hone (by simp) (by simp)⟩

end Vm

end WengShiOS.Mm
