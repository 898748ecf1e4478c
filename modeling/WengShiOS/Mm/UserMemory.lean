import WengShiOS.Mm.TakenFrames
import WengShiOS.Mm.KernelHalf
import Mathlib.Algebra.Order.BigOperators.Group.Finset

/-! # The memory of a process

Pages of the user half that a process owns: each one is in a frame of its own, which is
neither a table nor free. Mapping one more page and storing a byte keep this, and change
only what they should: so the pages are a memory of bytes, whatever the page tables look
like.

The rights of a page are those of all entries on its way. Every table below the user half
is made by `ensureTable` and `splitHugePage`, which let user code through and let it
write, so it is the last entry that decides (`Space.allows`). -/

namespace WengShiOS.Mm

open Math Pmm Finset Machine

variable {spaces : List Nat} {m m' m'' : Machine} {s T F N i j v w n k : Nat} {p q : List Nat}
  {pages : Set Nat}

/-! ### Addresses and pages -/

/-- The number of pages of the user half. -/
def userPages : Nat := 2 ^ 35

/-- The indices of a page. -/
def pagePath (n : Nat) : List Nat := indices (n * pageSize)

theorem indices_eq_pagePath (v : Nat) : indices v = pagePath (v / pageSize) := (indices_page v).symm

theorem pagePath_injective {n' : Nat} (hn : n < 2 ^ 36) (hn' : n' < 2 ^ 36)
    (h : pagePath n = pagePath n') : n = n' := by
  simp only [pagePath, indices, pageSize, List.cons.injEq, and_true] at h
  omega

theorem head_pagePath (hn : n < userPages) : n * pageSize / 2 ^ 39 % 512 < 256 := by
  simp only [userPages, pageSize] at hn ⊢
  omega

theorem pagePath_user (hn : n < userPages) : PagePath (pagePath n) := by
  apply pagePath_indices
  have := head_pagePath hn
  simp only [recursiveIndex]
  omega

theorem tablePath_take (hn : n < userPages) (hk : k ≤ 3) : TablePath ((pagePath n).take k) := by
  have hpath : TablePath ((pagePath n).take 3) := (pagePath_user hn).tablePath rfl
  exact hpath.of_prefix (List.take_prefix_take_left hk)

/-- Different pages of the user half have different names. -/
theorem tableName_pagePath {n' : Nat} (hn : n < userPages) (hn' : n' < userPages)
    (h : tableName s (pagePath n) = tableName s (pagePath n')) : n = n' := by
  have hlt : userPages < 2 ^ 36 := by decide
  rw [pagePath, pagePath, tableName_user (head_pagePath hn), tableName_user (head_pagePath hn')] at h
  exact pagePath_injective (hn.trans hlt) (hn'.trans hlt) (Prod.mk.inj h).2

/-! ### Frames for pages and tables -/

/-- The tables on the way to the pages that are not there. -/
def absentTables (m : Machine) (pages : List Nat) : Finset (List Nat) :=
  {p ∈ pages.toFinset.biUnion fun n =>
    {(pagePath n).take 1, (pagePath n).take 2, (pagePath n).take 3} | tableAt m.phys m.cr3 p = none}

/-- There is a free frame for each of the pages of the user half, one after the other, and for
each table on their way that is not there. -/
structure FramesFor (m : Machine) (pages : List Nat) : Prop where
  user : ∀ n ∈ pages, n < userPages
  frames : pages.length + (absentTables m pages).card ≤ m.pmm.freeSet.card

theorem mem_absentTables {pages : List Nat} :
    p ∈ absentTables m pages ↔
      (∃ n ∈ pages, ∃ k, 1 ≤ k ∧ k ≤ 3 ∧ p = (pagePath n).take k) ∧
        tableAt m.phys m.cr3 p = none := by
  simp only [absentTables, mem_filter, mem_biUnion, List.mem_toFinset, mem_insert, mem_singleton]
  refine and_congr_left fun _ => exists_congr fun n => and_congr_right fun _ => ?_
  constructor
  · rintro (rfl | rfl | rfl)
    exacts [⟨1, by simp⟩, ⟨2, by simp⟩, ⟨3, by simp⟩]
  · rintro ⟨k, hlow, hhigh, rfl⟩
    interval_cases k <;> simp

/-- What is missing along a walk are the tables that are not there. -/
theorem missing_pagePath (m : Machine) (n : Nat) :
    missing m.phys m.cr3 (pagePath n) = (absentTables m [n]).card := by
  obtain ⟨a, b, c, d, hpath⟩ : ∃ a b c d, pagePath n = [a, b, c, d] := ⟨_, _, _, _, rfl⟩
  simp only [absentTables, hpath, List.toFinset_cons, List.toFinset_nil, insert_empty_eq,
    singleton_biUnion, List.take_succ_cons, List.take_zero]
  by_cases ha : pointsTo (m.phys m.cr3 a)
  · by_cases hb : pointsTo (m.phys (frameOf (m.phys m.cr3 a)) b)
    · by_cases hc : pointsTo (m.phys (frameOf (m.phys (frameOf (m.phys m.cr3 a)) b)) c) <;>
        simp [missing, tableAt, filter_insert, filter_singleton, ha, hb, hc]
    · simp [missing, tableAt, filter_insert, filter_singleton, ha, hb]
  · simp [missing, tableAt, filter_insert, filter_singleton, ha]

theorem FramesFor.missing_lt {pages : List Nat} (h : FramesFor m (n :: pages)) :
    missing m.phys m.cr3 (pagePath n) + 1 ≤ m.pmm.freeSet.card := by
  have hsub : absentTables m [n] ⊆ absentTables m (n :: pages) :=
    filter_subset_filter _ (biUnion_subset_biUnion_of_subset_left _ (by simp))
  have hcard := card_le_card hsub
  have hframes := h.frames
  rw [List.length_cons] at hframes
  rw [missing_pagePath]
  omega

/-- Four frames for each page are enough. -/
theorem framesFor_of_card {pages : List Nat} (huser : ∀ n ∈ pages, n < userPages)
    (h : 4 * pages.length ≤ m.pmm.freeSet.card) : FramesFor m pages := by
  have htables : (absentTables m pages).card ≤ pages.toFinset.card * 3 :=
    (card_filter_le _ _).trans (card_biUnion_le_card_mul _ _ _ fun _ _ => card_le_three)
  have hpages := pages.toFinset_card_le
  exact ⟨huser, by omega⟩

/-- One page is mapped, and no table is lost. -/
theorem FramesFor.of_cons {pages : List Nat} (h : FramesFor m (n :: pages))
    (hnamed : ∀ {p T}, TablePath p → tableAt m.phys m.cr3 p = some T → tableAt m'.phys m'.cr3 p ≠ none)
    (htables : ∀ k ≤ 3, tableAt m'.phys m'.cr3 ((pagePath n).take k) ≠ none)
    (hleft : ∀ extra, missing m.phys m.cr3 (pagePath n) + 1 + extra ≤ m.pmm.freeSet.card →
      extra ≤ m'.pmm.freeSet.card) : FramesFor m' pages := by
  have huser := List.forall_mem_cons.mp h.user
  refine ⟨huser.2, hleft _ ?_⟩
  -- a table that is not there afterwards is not on the way to this page
  have hsub : absentTables m [n] ∪ absentTables m' pages ⊆ absentTables m (n :: pages) := by
    intro p hp
    rcases mem_union.mp hp with hp | hp
    · obtain ⟨⟨n', hn', hk⟩, habsent⟩ := mem_absentTables.mp hp
      exact mem_absentTables.mpr ⟨⟨n', List.mem_cons.mpr (.inl (List.mem_singleton.mp hn')), hk⟩, habsent⟩
    · obtain ⟨⟨n', hn', k, hlow, hhigh, rfl⟩, habsent⟩ := mem_absentTables.mp hp
      refine mem_absentTables.mpr ⟨⟨n', List.mem_cons_of_mem _ hn', k, hlow, hhigh, rfl⟩, ?_⟩
      by_contra hsome
      obtain ⟨T, hT⟩ := Option.ne_none_iff_exists'.mp hsome
      exact hnamed (tablePath_take (huser.2 n' hn') hhigh) hT habsent
  have hdisj : Disjoint (absentTables m [n]) (absentTables m' pages) := by
    rw [disjoint_left]
    intro p hp hp'
    obtain ⟨⟨n', hn', k, -, hhigh, rfl⟩, -⟩ := mem_absentTables.mp hp
    obtain rfl := List.mem_singleton.mp hn'
    exact htables k hhigh (mem_absentTables.mp hp').2
  have hcard := card_le_card hsub
  rw [card_union_of_disjoint hdisj, ← missing_pagePath] at hcard
  have hframes := h.frames
  rw [List.length_cons] at hframes
  omega

/-! ### Rights -/

/-- Every entry on the way has the bit. -/
def allows (phys : Nat → Nat → Nat) (bit table : Nat) : List Nat → Bool
  | [] => true
  | [i] => (phys table i).testBit bit
  | i :: rest => (phys table i).testBit bit &&
      (pageSizeBit (phys table i) || allows phys bit (frameOf (phys table i)) rest)

/-- The tables of the user half let user code through and let it write. -/
def UserTables (spaces : List Nat) (m : Machine) : Prop :=
  ∀ s p T j, Named m.phys spaces s p T → p.length < 3 → j < 512 →
    (∀ a ∈ (p ++ [j]).head?, a < 256) → pointsTo (m.phys T j) →
    (m.phys T j).testBit 1 = true ∧ (m.phys T j).testBit 2 = true

theorem testBit_tableEntry (G : Nat) :
    (tableEntry G).testBit 1 = true ∧ (tableEntry G).testBit 2 = true := by
  simp only [tableEntry, Nat.testBit_or]
  constructor <;> simp [pagePresent, pageWritable, pageUser, Nat.testBit]

theorem UserTables.takesTables (h : UserTables spaces m) (t : TakesTables spaces m m') :
    UserTables spaces m' := by
  intro s p T j hT hlen hj huser hpoint
  rcases t.entry hT hlen hj hpoint with ⟨hold, hsame⟩ | ⟨G, -, -, heq⟩
  · rw [hsame] at hpoint ⊢
    exact h s p T j hold hlen hj huser hpoint
  · rw [heq]
    exact testBit_tableEntry G

/-- The address spaces of a kernel, as far as user code is concerned. -/
structure Space (spaces : List Nat) (m : Machine) : Prop where
  layout : Layout spaces m
  userTables : UserTables spaces m

/-! ### Every run has such address spaces -/

namespace Vm

variable {σ σ' : Vm} {a : VmAction}

theorem userTables_of_boot (h : σ.Boot) : UserTables σ.spaces σ.machine := by
  obtain ⟨phys, p4Table, hlow, hzero, hphys, -, hspaces, -⟩ := h.zeroed
  have b := bootEntries_setupPageTables hlow hzero
  rw [hspaces, UserTables, hphys]
  intro s p T j hT hlen hj huser hpoint
  have hroot : s = p4Table := List.mem_singleton.mp hT.root
  have hsmall : ∀ frame, (frame * frameSize ||| 0b111).testBit 1 = true ∧
      (frame * frameSize ||| 0b111).testBit 2 = true := by
    intro frame
    simp only [Nat.testBit_or]
    constructor <;> simp [Nat.testBit]
  rcases b.tableAt_cases hlow hT.path (hroot ▸ hT.table) with ⟨rfl, rfl⟩ | ⟨rfl, rfl⟩ | ⟨rfl, rfl⟩ |
    ⟨rfl, rfl⟩ | ⟨rfl, rfl⟩
  · have hlt := huser j rfl
    obtain rfl : j = 0 := by
      rcases (b.pointsTo_cases hj).1 hpoint with h | h | h <;> omega
    rw [b.p4 0 (by norm_num), if_pos rfl]
    exact hsmall _
  · obtain rfl := (b.pointsTo_cases hj).2.1 hpoint
    rw [b.p3Lo 0 (by norm_num), if_pos rfl]
    exact hsmall _
  · exact absurd (huser 511 rfl) (by norm_num)
  · exact absurd hpoint (b.pointsTo_cases hj).2.2.2
  · exact absurd (huser 511 rfl) (by norm_num)

theorem exec_of_next (h : σ.next a = some σ') : σ.exec a = some (σ'.machine, σ'.spaces) := by
  obtain ⟨⟨m, spaces⟩, hexec, rfl⟩ := Option.map_eq_some_iff.mp h
  exact hexec

/-- A new PML4 has the entry for the first 512 GiB, and no other one of the user half. -/
theorem userTables_cons {spaces : List Nat} {m : Machine} {N : Nat} (h : UserTables spaces m)
    (hcr3 : m.cr3 ∈ spaces) (hnew : NewPlm4 m N) : UserTables (N :: spaces) m := by
  intro s p T j hT hlen hj huser hpoint
  rcases hnew.named_cases hcr3 hT with ⟨-, rfl, rfl⟩ | ⟨s', hT', -⟩
  · have hlt := huser j rfl
    have hzero : j = 0 := by
      by_contra hne
      rw [hnew.empty j hj hne (by omega) (by omega)] at hpoint
      exact absurd hpoint (by decide)
    rw [hnew.copied j (.inl hzero)] at hpoint ⊢
    exact h _ _ _ _ (.nil hcr3) hlen hj huser hpoint
  · exact h _ _ _ _ hT' hlen hj huser hpoint

theorem userTables_of_exec {m : Machine} {spaces : List Nat}
    (h : some (m, spaces) = some (σ'.machine, σ'.spaces)) (hu : UserTables spaces m) :
    UserTables σ'.spaces σ'.machine := by
  obtain ⟨hm, hs⟩ := Prod.mk.inj (Option.some.inj h)
  rwa [← hm, ← hs]

theorem Inv.userTables_of_step (inv : σ.Inv) (hu : UserTables σ.spaces σ.machine)
    (h : (system.restrict Allowed).step σ a σ') : UserTables σ'.spaces σ'.machine := by
  obtain ⟨hallowed, hnext⟩ := h
  have l := inv.layout
  have hexec := exec_of_next hnext
  cases a with
  | mapPage v physicalAddr flags =>
    obtain ⟨m, hrun, maps⟩ := mapPage_maps physicalAddr flags l.forest hallowed.1
      (l.splittable (pagePath_indices hallowed.1)) hallowed.2
    rw [exec, hrun] at hexec
    exact userTables_of_exec hexec (hu.takesTables maps.takes)
  | allocAndMapPage v flags =>
    obtain ⟨N, hN, halloc, hne⟩ := allocFrame_of_card (σ := σ) (by have := hallowed.2; omega)
    have hmissing : σ.needs v ≤ (σ.machine.pmm.take N).freeSet.card := by
      have := hallowed.2
      rw [freeSet_take, card_erase_of_mem hN]
      omega
    obtain ⟨m, hrun, maps⟩ := mapPage_maps (N * frameSize) flags (l.take N).forest
      hallowed.1 ((l.take N).splittable (pagePath_indices hallowed.1)) hmissing
    simp only [exec, allocAndMapPage, halloc, if_neg hne, hrun, Option.map_some] at hexec
    exact userTables_of_exec hexec
      (UserTables.takesTables (m := { σ.machine with pmm := σ.machine.pmm.take N }) hu maps.takes)
  | unmapPage v =>
    obtain ⟨hp, hclear⟩ := inv.mapped _ hallowed
    rw [exec] at hexec
    rcases unmapPage_forest l.forest rfl hp hclear with ⟨hrun, -⟩ | ⟨G, hG, hrun⟩
    · rw [hrun] at hexec
      exact userTables_of_exec hexec hu
    · rw [hrun] at hexec
      exact userTables_of_exec hexec (hu.takesTables (l.forest.takesTables_setWord hG rfl))
  | createAddressSpace =>
    obtain ⟨N, hN, m, hrun, htakes, -, hnew⟩ := createAddressSpace_takes l.forest
      (l.splittable (pagePath_indices (by decide))) hallowed
    have hcr3 : m.cr3 ∈ σ.spaces := by
      obtain ⟨_, -, m₂, hrun₂, r, -⟩ := l.createAddressSpace hallowed
      obtain rfl : m = m₂ := (Prod.mk.inj (Option.some.inj (hrun.symm.trans hrun₂))).2
      rw [r.cr3]
      exact l.forest.active
    rw [exec_createAddressSpace (l.forest.lt_of_free hN) hrun] at hexec
    refine userTables_of_exec hexec ?_
    split_ifs
    · exact hu.takesTables htakes
    · exact userTables_cons (hu.takesTables htakes) hcr3 hnew
  | switchAddressSpace plm4Phys =>
    exact userTables_of_exec hexec hu
  | allocFrame =>
    exact userTables_of_exec hexec hu
  | freeFrame physAddress =>
    exact userTables_of_exec hexec hu

/-- In every run every address space is such. -/
theorem space_of_reachable (h : (system.restrict Allowed).Reachable σ) :
    Space σ.spaces σ.machine := by
  refine ⟨(inv_of_reachable h).layout, ?_⟩
  refine (h.invariant (fun σ => σ.Inv ∧ UserTables σ.spaces σ.machine) ?_ ?_).2
  · exact fun σ hboot => ⟨.of_boot hboot, userTables_of_boot hboot⟩
  · rintro σ a σ' ⟨inv, hu⟩ hstep
    exact ⟨(inv.done_of_step hstep).inv, inv.userTables_of_step hu hstep⟩

end Vm

/-- Behind tables of the user half the last entry decides. By induction on what is left of
the way behind the table `q`. -/
theorem Space.allows_from {leaf : Leaf} {bit : Nat} (h : Space spaces m)
    (hbit : bit = 1 ∨ bit = 2) {rest : List Nat} (hT : tableAt m.phys m.cr3 q = some T)
    (hp : PagePath (q ++ rest)) (huser : ∀ a ∈ (q ++ rest).head?, a < 256)
    (hclear : Clear m.phys m.cr3 (q ++ rest)) (hleaf : lookup m.phys T rest = some leaf)
    (hlast : leaf.entry.testBit bit = true) : allows m.phys bit T rest = true := by
  induction rest generalizing q T with
  | nil => cases hleaf
  | cons i rest ih =>
    cases rest with
    | nil =>
      rw [lookup] at hleaf
      split_ifs at hleaf
      cases hleaf
      exact hlast
    | cons j rest =>
      have hpres : present (m.phys T i) = true := by
        by_contra habsent
        rw [lookup, if_neg habsent] at hleaf
        cases hleaf
      have hps := hclear q i (j :: rest) T rfl (by simp) hT hpres
      have hnamed : Named m.phys spaces m.cr3 q T := ⟨h.layout.forest.active, hp.tablePath rfl, hT⟩
      have hbits := h.userTables _ _ _ _ hnamed (hp.length_init rfl (by simp)) (hp.lt i (by simp)) (by
        intro a ha
        apply huser a
        rw [List.append_cons, List.head?_append, Option.mem_def.mp ha]
        rfl) ⟨hpres, hps⟩
      have hthis : (m.phys T i).testBit bit = true := by
        rcases hbit with rfl | rfl
        · exact hbits.1
        · exact hbits.2
      rw [lookup_cons_of_pointsTo ⟨hpres, hps⟩ (by simp)] at hleaf
      have hnext : tableAt m.phys m.cr3 (q ++ [i]) = some (frameOf (m.phys T i)) := by
        rw [tableAt_concat hT, if_pos ⟨hpres, hps⟩]
      rw [List.append_cons] at hp huser hclear
      rw [allows, hthis, ih hnext hp huser hclear hleaf]
      · simp
      · simp

theorem Space.allows {leaf : Leaf} {bit : Nat} (h : Space spaces m) (hbit : bit = 1 ∨ bit = 2)
    (hn : n < userPages) (hclear : Clear m.phys m.cr3 (pagePath n))
    (hleaf : lookup m.phys m.cr3 (pagePath n) = some leaf) (hlast : leaf.entry.testBit bit = true) :
    allows m.phys bit m.cr3 (pagePath n) = true := by
  refine h.allows_from (q := []) hbit rfl (pagePath_user hn) ?_ hclear hleaf hlast
  intro a ha
  cases ha
  exact head_pagePath hn

/-! ### Owned pages -/

/-- How a page of the current address space is translated. -/
def pageAt (m : Machine) (n : Nat) : Option (Nat × Nat) := view m.phys m.cr3 (pagePath n)

/-- Pages of the user half, each in a frame of its own. -/
structure Owned (spaces : List Nat) (m : Machine) (pages : Set Nat) : Prop where
  user : ∀ n ∈ pages, n < userPages
  frame : ∀ n ∈ pages, ∃ F flags, pageAt m n = some (F, flags) ∧ F ∉ m.pmm.freeSet ∧
    Outside spaces m F
  clear : ∀ n ∈ pages, Clear m.phys m.cr3 (pagePath n)
  apart : ∀ n ∈ pages, ∀ n' ∈ pages, ∀ F flags flags', pageAt m n = some (F, flags) →
    pageAt m n' = some (F, flags') → n = n'

theorem Owned.empty (spaces : List Nat) (m : Machine) : Owned spaces m ∅ :=
  ⟨fun _ h => h.elim, fun _ h => h.elim, fun _ h => h.elim, fun _ h => h.elim⟩

/-- Another part of the kernel takes a frame. -/
theorem freeSet_allocFrame_subset (p : Pmm) : p.allocFrame.2.freeSet ⊆ p.freeSet := by
  by_cases hfree : p.freeSet.Nonempty
  · obtain ⟨N, -, halloc⟩ := allocFrame_eq hfree
    rw [halloc, freeSet_take]
    exact erase_subset _ _
  · rw [allocFrame_of_freeSet_empty (not_nonempty_iff_eq_empty.mp hfree)]

theorem Space.allocFrame (h : Space spaces m) :
    Space spaces { m with pmm := m.pmm.allocFrame.2 } := by
  refine ⟨?_, h.userTables⟩
  by_cases hfree : m.pmm.freeSet.Nonempty
  · obtain ⟨N, -, halloc⟩ := allocFrame_eq hfree
    rw [halloc]
    exact h.layout.take N
  · rw [allocFrame_of_freeSet_empty (not_nonempty_iff_eq_empty.mp hfree)]
    exact h.layout

theorem Owned.allocFrame (o : Owned spaces m pages) :
    Owned spaces { m with pmm := m.pmm.allocFrame.2 } pages where
  user := o.user
  frame n hn := by
    obtain ⟨F, flags, hF, hused, hout⟩ := o.frame n hn
    exact ⟨F, flags, hF, fun h => hused (freeSet_allocFrame_subset m.pmm h), hout⟩
  clear := o.clear
  apart := o.apart

/-- What `allocAndMapPage` does to the page `n`. -/
structure PageAdded (spaces : List Nat) (m m' : Machine) (n N flags : Nat) : Prop where
  space : Space spaces m'
  cr3 : m'.cr3 = m.cr3
  was_free : N ∈ m.pmm.freeSet
  not_free : N ∉ m'.pmm.freeSet
  outside : Outside spaces m' N
  page : pageAt m' n = some (N, (flags ||| pagePresent) &&& 31)
  clear : ∀ p, PagePath p → p = pagePath n ∨ Clear m.phys m.cr3 p → Clear m'.phys m'.cr3 p
  view : ∀ s ∈ spaces, ∀ p, PagePath p → tableName s p ≠ tableName m.cr3 (pagePath n) →
    view m'.phys s p = view m.phys s p
  tables : ∀ {s p T}, Named m'.phys spaces s p T → Named m.phys spaces s p T ∨ T ∈ m.pmm.freeSet
  memory : ∀ {F}, F ∉ m.pmm.freeSet → Outside spaces m F → m'.phys F = m.phys F
  free : m'.pmm.freeSet ⊆ m.pmm.freeSet
  supply : ∀ pages, FramesFor m (n :: pages) → FramesFor m' pages

theorem flags_pageView (N flags : Nat) :
    (pageView (N * frameSize) flags).2 = (flags ||| pagePresent) &&& 31 := by
  have hlow : N * frameSize / pageSize * pageSize &&& 31 = 0 := by
    rw [Nat.and_two_pow_sub_one_eq_mod _ 5]
    simp only [frameSize, pageSize]
    omega
  change (N * frameSize / pageSize * pageSize ||| flags ||| pagePresent) &&& 31 = _
  rw [Nat.or_assoc, Nat.and_or_distrib_right, hlow, Nat.zero_or]

variable {flags : Nat}

/-- `allocAndMapPage` for a page of the user half, with enough frames. -/
theorem Space.allocAndMapPage (h : Space spaces m) (hv : v / pageSize < userPages)
    (hflags : flags < pageSize)
    (hneeds : missing m.phys m.cr3 (indices v) + 1 ≤ m.pmm.freeSet.card) :
    ∃ N m', m.allocAndMapPage v flags = some (true, m') ∧
      PageAdded spaces m m' (v / pageSize) N flags := by
  have hhead : v / 2 ^ 39 % 512 ≠ recursiveIndex := by
    simp only [userPages, pageSize, recursiveIndex] at hv ⊢
    omega
  have hpath := indices_eq_pagePath v
  obtain ⟨N, hN, m', halloc, hmap, maps, hnot, hout, hview⟩ :=
    mapPage_allocFrame h.layout.forest hhead (h.layout.splittable (pagePath_indices hhead)) hneeds
      hflags
  -- the same run in terms of all address spaces
  have hmissing : missing m.phys m.cr3 (indices v) ≤ (m.pmm.take N).freeSet.card := by
    rw [freeSet_take, card_erase_of_mem hN]
    omega
  obtain ⟨m₂, hmap₂, r, hclear⟩ :=
    (h.layout.take N).mapPage (N * frameSize) flags hhead hmissing
  obtain rfl : m' = m₂ := Option.some.inj (hmap.symm.trans hmap₂)
  have huser : UserTables spaces { m with pmm := m.pmm.take N } := h.userTables
  have hcr3 : m'.cr3 = m.cr3 := maps.cr3
  refine ⟨N, m', ?_, ⟨r.layout, huser.takesTables maps.takes⟩, hcr3, hN, hnot, hout, ?_, ?_, ?_, ?_, ?_,
    ?_, ?_⟩
  · rw [Machine.allocAndMapPage, halloc]
    dsimp only
    rw [if_neg (noFrame_ne N).symm, hmap, Option.map_some]
  · rw [pageAt, ← hpath, hview, flags_pageView]
  · rintro p hp (rfl | hclear')
    · rw [hcr3, ← hpath]
      exact hclear
    · rw [hcr3]
      exact r.clear p hp hclear'
  · intro s hs p hp hne
    rw [← hpath] at hne
    rw [r.view s hs p hp, if_neg hne]
  · intro s p T hT
    exact (maps.takes.taken hT).imp_right fun hT => mem_of_mem_take hT.1
  · intro F hF hout
    exact maps.takes.memory (fun h => hF (mem_of_mem_take h)) hout
  · intro F hF
    exact mem_of_mem_take (maps.takes.free hF)
  · intro pages hpages
    have hactive := h.layout.forest.active
    refine hpages.of_cons (fun hp hT => ?_) (fun k hk => ?_) fun extra hle => maps.left extra ?_
    · rw [hcr3, (maps.named ⟨hactive, hp, hT⟩).table]
      exact Option.some_ne_none _
    · obtain ⟨G, hG⟩ := maps.table
      have htable : tableAt m'.phys m'.cr3 ((pagePath (v / pageSize)).take 3) = some G := by
        rw [hcr3, ← hpath]
        exact hG.table
      have htake := tableAt_take htable k
      rwa [List.take_take, Nat.min_eq_left hk] at htake
    · rw [hpath]
      change _ ≤ (m.pmm.take N).freeSet.card
      rw [freeSet_take, card_erase_of_mem hN]
      change missing m.phys m.cr3 (pagePath (v / pageSize)) + extra ≤ _
      omega

/-- The frames of other pages are still what they were. -/
theorem PageAdded.outside_of_outside (h : PageAdded spaces m m' n N flags) (hF : F ∉ m.pmm.freeSet)
    (hout : Outside spaces m F) : Outside spaces m' F := by
  intro s p hT
  rcases h.tables hT with hT | hfree
  · exact hout s p hT
  · exact hF hfree

theorem PageAdded.pageAt_of_ne (h : PageAdded spaces m m' n N flags) (hcr3 : m.cr3 ∈ spaces)
    (hn : n < userPages) (hk : k < userPages) (hne : k ≠ n) :
    pageAt m' k = pageAt m k := by
  rw [pageAt, pageAt, h.cr3]
  refine h.view _ hcr3 _ (pagePath_user hk) fun hname => hne ?_
  exact tableName_pagePath hk hn hname

/-- One more page, which may also be a page again. -/
theorem Owned.insert (o : Owned spaces m pages) (hcr3 : m.cr3 ∈ spaces) (hn : n < userPages)
    (h : PageAdded spaces m m' n N flags) :
    Owned spaces m' (insert n pages) := by
  have hold : ∀ k ∈ pages, k ≠ n → pageAt m' k = pageAt m k := fun k hk hne =>
    h.pageAt_of_ne hcr3 hn (o.user k hk) hne
  -- a frame that was there before is not the new one
  have hframe : ∀ k ∈ pages, k ≠ n → ∀ flags', pageAt m' k ≠ some (N, flags') := by
    intro k hk hne flags' heq
    obtain ⟨F, flags, hF, hused, -⟩ := o.frame k hk
    rw [hold k hk hne, hF] at heq
    obtain ⟨rfl, -⟩ := Prod.mk.inj (Option.some.inj heq)
    exact hused h.was_free
  refine ⟨?_, ?_, ?_, ?_⟩
  · rintro k (rfl | hk)
    · exact hn
    · exact o.user k hk
  · intro k hk
    by_cases hne : k = n
    · subst hne
      exact ⟨N, _, h.page, h.not_free, h.outside⟩
    · have hk := hk.resolve_left hne
      obtain ⟨F, flags, hF, hused, hout⟩ := o.frame k hk
      exact ⟨F, flags, (hold k hk hne).trans hF, fun hin => hused (h.free hin),
        h.outside_of_outside hused hout⟩
  · rintro k (rfl | hk)
    · exact h.clear _ (pagePath_user hn) (.inl rfl)
    · exact h.clear _ (pagePath_user (o.user k hk)) (.inr (o.clear k hk))
  · intro k hk k' hk' F flags flags' hF hF'
    by_cases hne : k = n
    · by_cases hne' : k' = n
      · rw [hne, hne']
      · rw [hne, h.page] at hF
        obtain ⟨rfl, -⟩ := Prod.mk.inj (Option.some.inj hF)
        exact absurd hF' (hframe k' (hk'.resolve_left hne') hne' _)
    · by_cases hne' : k' = n
      · rw [hne', h.page] at hF'
        obtain ⟨rfl, -⟩ := Prod.mk.inj (Option.some.inj hF')
        exact absurd hF (hframe k (hk.resolve_left hne) hne _)
      · have hk := hk.resolve_left hne
        have hk' := hk'.resolve_left hne'
        rw [hold k hk hne] at hF
        rw [hold k' hk' hne'] at hF'
        exact o.apart k hk k' hk' F flags flags' hF hF'

/-- What user code may do with a page. -/
structure Accessible (m : Machine) (n : Nat) (writable : Bool) : Prop where
  mapped : pageAt m n ≠ none
  user : allows m.phys 2 m.cr3 (pagePath n) = true
  write : writable = true → allows m.phys 1 m.cr3 (pagePath n) = true

theorem Owned.accessible {writable : Bool} (o : Owned spaces m pages) (h : Space spaces m)
    (hn : n ∈ pages) (hpage : pageAt m n = some (F, flags)) (huser : flags.testBit 2 = true)
    (hwrite : writable = true → flags.testBit 1 = true) :
    Accessible m n writable := by
  obtain ⟨leaf, hleaf, hview⟩ := Option.map_eq_some_iff.mp hpage
  have hflags : leaf.entry &&& 31 = flags := (Prod.mk.inj hview).2
  have hbits : ∀ bit < 5, leaf.entry.testBit bit = flags.testBit bit := by
    intro bit hbit
    rw [← hflags, Nat.testBit_and, Nat.testBit_two_pow_sub_one (n := 5)]
    simp [hbit]
  refine ⟨by simp [hpage], ?_, fun hw => ?_⟩
  · exact h.allows (.inr rfl) (o.user n hn) (o.clear n hn) hleaf ((hbits 2 (by norm_num)).trans huser)
  · exact h.allows (.inl rfl) (o.user n hn) (o.clear n hn) hleaf
      ((hbits 1 (by norm_num)).trans (hwrite hw))

/-- The last entry on the way has the bit, too. -/
theorem testBit_of_allows {phys : Nat → Nat → Nat} {bit : Nat} {leaf : Leaf}
    (h : Mm.allows phys bit T p = true) (hleaf : lookup phys T p = some leaf) :
    leaf.entry.testBit bit = true := by
  induction p generalizing T with
  | nil => cases hleaf
  | cons i rest ih =>
    cases rest with
    | nil =>
      rw [lookup] at hleaf
      split_ifs at hleaf
      cases hleaf
      exact h
    | cons j rest =>
      rw [Mm.allows, Bool.and_eq_true, Bool.or_eq_true] at h
      · rw [lookup] at hleaf
        split_ifs at hleaf with hpres hps hlen
        · cases hleaf
          exact h.1
        · exact ih (h.2.resolve_left hps) hleaf
      · simp

theorem Accessible.testBit (a : Accessible m n true) (hpage : pageAt m n = some (F, flags)) :
    flags.testBit 1 = true := by
  obtain ⟨leaf, hleaf, hview⟩ := Option.map_eq_some_iff.mp hpage
  have hflags : leaf.entry &&& 31 = flags := (Prod.mk.inj hview).2
  have hbit := testBit_of_allows (a.write rfl) hleaf
  rw [← hflags, Nat.testBit_and, hbit]
  rfl

/-! ### More pages -/

/-- What mapping pages does, one after the other: each one gets a frame that was free, and
nothing else changes. -/
structure Acquires (spaces : List Nat) (m m' : Machine) (pages : Set Nat) : Prop where
  space : Space spaces m'
  cr3 : m'.cr3 = m.cr3
  user : ∀ n ∈ pages, n < userPages
  fresh : ∀ n ∈ pages, ∃ N ∈ m.pmm.freeSet, ∃ flags, pageAt m' n = some (N, flags)
  view : ∀ s ∈ spaces, ∀ p, PagePath p →
    (∀ n ∈ pages, tableName s p ≠ tableName m.cr3 (pagePath n)) → view m'.phys s p = view m.phys s p
  owned : ∀ pages', Owned spaces m pages' → Owned spaces m' (pages' ∪ pages)
  tables : ∀ {s p T}, Named m'.phys spaces s p T → Named m.phys spaces s p T ∨ T ∈ m.pmm.freeSet
  memory : ∀ {F}, F ∉ m.pmm.freeSet → Outside spaces m F → m'.phys F = m.phys F
  free : m'.pmm.freeSet ⊆ m.pmm.freeSet

theorem Acquires.refl (h : Space spaces m) : Acquires spaces m m ∅ where
  space := h
  cr3 := rfl
  user _ hn := hn.elim
  fresh _ hn := hn.elim
  view _ _ _ _ _ := rfl
  owned pages' o := by rwa [Set.union_empty]
  tables := .inl
  memory _ _ := rfl
  free := subset_rfl

/-- The new pages are the process's own. -/
theorem Acquires.owned_new (a : Acquires spaces m m' pages) : Owned spaces m' pages := by
  have := a.owned ∅ (.empty spaces m)
  rwa [Set.empty_union] at this

theorem PageAdded.acquires (h : PageAdded spaces m m' n N flags) (hcr3 : m.cr3 ∈ spaces)
    (hn : n < userPages) : Acquires spaces m m' {n} where
  space := h.space
  cr3 := h.cr3
  user k hk := by
    obtain rfl := hk
    exact hn
  fresh k hk := by
    obtain rfl := hk
    exact ⟨N, h.was_free, _, h.page⟩
  view s hs p hp hne := h.view s hs p hp (hne n rfl)
  owned pages' o := by
    rw [Set.union_singleton]
    exact o.insert hcr3 hn h
  tables := h.tables
  memory := h.memory
  free := h.free

section Acquires

variable {pages' : Set Nat} (a : Acquires spaces m m' pages)
include a

/-- A frame in use that is no table stays so. -/
theorem Acquires.outside (hF : F ∉ m.pmm.freeSet) (hout : Outside spaces m F) :
    Outside spaces m' F := by
  intro s p hT
  rcases a.tables hT with hT | hfree
  · exact hout s p hT
  · exact hF hfree

theorem Acquires.pageAt_of_not_mem (hcr3 : m.cr3 ∈ spaces) (hk : k < userPages) (hnot : k ∉ pages) :
    pageAt m' k = pageAt m k := by
  rw [pageAt, pageAt, a.cr3]
  refine a.view _ hcr3 _ (pagePath_user hk) fun n hn hname => hnot ?_
  rw [tableName_pagePath hk (a.user n hn) hname]
  exact hn

/-- Some pages, and then others, which may also be pages again. -/
theorem Acquires.trans (b : Acquires spaces m' m'' pages') (hcr3 : m.cr3 ∈ spaces) :
    Acquires spaces m m'' (pages ∪ pages') where
  space := b.space
  cr3 := b.cr3.trans a.cr3
  user n hn := hn.elim (a.user n) (b.user n)
  fresh n hn := by
    by_cases hn' : n ∈ pages'
    · obtain ⟨N, hN, flags, hpage⟩ := b.fresh n hn'
      exact ⟨N, a.free hN, flags, hpage⟩
    · have hn := hn.resolve_right hn'
      rw [b.pageAt_of_not_mem (a.cr3 ▸ hcr3) (a.user n hn) hn']
      exact a.fresh n hn
  view s hs p hp hne := by
    rw [b.view s hs p hp fun n hn => a.cr3 ▸ hne n (.inr hn)]
    exact a.view s hs p hp fun n hn => hne n (.inl hn)
  owned pages₀ o := by
    rw [← Set.union_assoc]
    exact b.owned _ (a.owned _ o)
  tables hT := by
    rcases b.tables hT with hT | hfree
    · exact a.tables hT
    · exact .inr (a.free hfree)
  memory hF hout := by
    rw [b.memory (fun hin => hF (a.free hin)) (a.outside hF hout), a.memory hF hout]
  free := b.free.trans a.free

end Acquires

/-- The pages from `k` on, `n` of them. -/
def pageRange (k n : Nat) : Set Nat := Set.Ico k (k + n)

/-- A range of pages, with the same rights. -/
structure RangeAdded (spaces : List Nat) (m m' : Machine) (k n flags : Nat) : Prop
    extends Acquires spaces m m' (pageRange k n) where
  page : ∀ j ∈ pageRange k n, ∃ N, pageAt m' j = some (N, (flags ||| pagePresent) &&& 31)

theorem pageRange_zero (k : Nat) : pageRange k 0 = ∅ := by simp [pageRange]

theorem pageRange_succ (k n : Nat) : pageRange k (n + 1) = {k} ∪ pageRange (k + 1) n := by
  ext j
  simp only [pageRange, Set.mem_Ico, Set.mem_union, Set.mem_singleton_iff]
  omega

theorem RangeAdded.refl (h : Space spaces m) (k : Nat) :
    RangeAdded spaces m m k 0 flags where
  toAcquires := by
    rw [pageRange_zero]
    exact .refl h
  page j hj := absurd hj (by simp [pageRange])

/-- The first page, and then the others. -/
theorem RangeAdded.cons (hcr3 : m.cr3 ∈ spaces) (hk : k < userPages)
    (h : PageAdded spaces m m' k N flags) (r : RangeAdded spaces m' m'' (k + 1) n flags) :
    RangeAdded spaces m m'' k (n + 1) flags where
  toAcquires := by
    rw [pageRange_succ]
    exact (h.acquires hcr3 hk).trans r.toAcquires hcr3
  page j hj := by
    rw [pageRange_succ] at hj
    by_cases hrest : j ∈ pageRange (k + 1) n
    · exact r.page j hrest
    · obtain rfl := hj.resolve_right hrest
      rw [r.pageAt_of_not_mem (h.cr3 ▸ hcr3) hk hrest]
      exact ⟨N, h.page⟩

/-! ### Enough frames for a range -/

/-- There is a frame for each of `n` pages from `addr` on, and for the tables missing on
its way, when its turn comes. -/
def EnoughFrames (flags : Nat) (m : Machine) (addr : Nat) : Nat → Prop
  | 0 => True
  | n + 1 => missing m.phys m.cr3 (indices addr) + 1 ≤ m.pmm.freeSet.card ∧
      ∀ m', m.allocAndMapPage addr flags = some (true, m') →
        EnoughFrames flags m' (addr + pageSize) n

theorem allocAndMapPage_card {ok : Bool} (h : m.allocAndMapPage v flags = some (ok, m')) :
    m.pmm.freeSet.card ≤ m'.pmm.freeSet.card + 4 := by
  have halloc := card_allocFrame m.pmm
  unfold allocAndMapPage at h
  dsimp only at h
  split_ifs at h with hnone
  · obtain ⟨-, rfl⟩ := Prod.mk.inj (Option.some.inj h)
    dsimp only
    omega
  · obtain ⟨m₁, hmap, heq⟩ := Option.map_eq_some_iff.mp h
    obtain ⟨-, rfl⟩ := Prod.mk.inj heq
    have hcard := mapPage_card hmap
    dsimp only at hcard
    omega

/-- Four frames for each page are enough. -/
theorem enoughFrames_of_card {addr : Nat} (h : 4 * n ≤ m.pmm.freeSet.card) :
    EnoughFrames flags m addr n := by
  induction n generalizing m addr with
  | zero => trivial
  | succ n ih =>
    have hmissing : missing m.phys m.cr3 (indices addr) ≤ 3 := Vm.missing_le _ _ _
    refine ⟨by omega, fun m' hrun => ih ?_⟩
    have := allocAndMapPage_card hrun
    omega

/-- The first page of a range. -/
theorem Space.firstPage (h : Space spaces m) (hk : k + (n + 1) ≤ userPages)
    (hflags : flags < pageSize) (hframes : EnoughFrames flags m (k * pageSize) (n + 1)) :
    ∃ N m₁, m.allocAndMapPage (k * pageSize) flags = some (true, m₁) ∧
      PageAdded spaces m m₁ k N flags ∧ EnoughFrames flags m₁ ((k + 1) * pageSize) n := by
  obtain ⟨hneeds, hrest⟩ := hframes
  have hpage : k * pageSize / pageSize = k := Nat.mul_div_cancel k (by decide)
  obtain ⟨N, m₁, hrun, hadded⟩ := h.allocAndMapPage (v := k * pageSize) (by rw [hpage]; omega)
    hflags hneeds
  rw [hpage] at hadded
  refine ⟨N, m₁, hrun, hadded, ?_⟩
  rw [Nat.succ_mul]
  exact hrest m₁ hrun

end WengShiOS.Mm
