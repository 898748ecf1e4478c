import WengShiOS.Mm.AddressSpaceInvariant
import WengShiOS.Mm.SparseTables

/-! # Huge pages

`splitHugePage` and `unmapPage` where there are huge pages.

Splitting a 2 MiB page writes the 512 entries of a page table from the PMM. The base of
the huge page is taken with the mask for 4 KiB pages, which includes the PAT bit of the
entry, so the translations are kept exactly if that bit is clear. A 1 GiB page is split
by the same loop: it writes 4 KiB pages where 2 MiB pages belong, and 262144 of them,
far behind the end of the new table.

`unmapPage` does not look for huge pages. Behind the entry of one it takes the memory of
the huge page for a table and clears a word of it. -/

namespace WengShiOS.Mm

open Math Installable Machine

variable {m m' : Machine} {T G F i j k : Nat} {p q r rest : List Nat}

/-! ### Splitting -/

/-- What splitting the huge page in entry `i` of the table `q` should do: besides that
entry only a frame from the PMM is written, and every page inside of the huge page
translates as before. -/
def SplitKeeps (m m' : Machine) (q : List Nat) (T i : Nat) : Prop :=
  ∃ G ∈ m.pmm.freeSet,
    (∀ F, ∀ j < 512, m'.phys F j ≠ m.phys F j → F = G ∨ F = T ∧ j = i) ∧
    ∀ rest, PagePath (q ++ i :: rest) →
      view m'.phys m'.cr3 (q ++ i :: rest) = view m.phys m.cr3 (q ++ i :: rest)

/-- The page at position `j` of a 2 MiB page. -/
theorem view_hugePage (hT : tableAt m.phys m.cr3 q = some T) (hpres : present (m.phys T i) = true)
    (hps : pageSizeBit (m.phys T i) = true) (j : Nat) :
    view m.phys m.cr3 (q ++ [i, j]) =
      some (frameOf (m.phys T i) / 512 * 512 + j, m.phys T i &&& 31) := by
  rw [view, lookup_append hT (by simp)]
  simp [lookup, hpres, hps, Leaf.view, hugeFrame, digits]

/-- The page at position `j` of the table that takes its place. -/
theorem view_split {words : Nat → Nat} (h : Installable pathNaming [m.cr3] m q T i G)
    (hpres : present (m.phys T i) = true)
    (hwords : ∀ k < 512, words k = splitWord (m.phys T i) k) (hj : j < 512) :
    view (install m T i G words).phys m.cr3 (q ++ [i, j]) =
      some ((frameOf (m.phys T i) + j) % 2 ^ 40, m.phys T i &&& 31) := by
  obtain ⟨hwpres, hwflags, hwframe⟩ := splitWord_spec (m.phys T i) hj
  have hword : (install m T i G words).phys G j = splitWord (m.phys T i) j := by
    rw [← hwords j hj]
    exact congrFun h.installed_eq.2.1 j
  have htable : tableAt (install m T i G words).phys m.cr3 (q ++ [i]) = some G :=
    h.tableAt_concat h.named
  rw [view, List.append_cons, lookup_append htable (by simp), lookup, hword, hwpres, hpres,
    if_pos rfl]
  simp [Leaf.view, hwflags, hwframe]

/-- The table of 2 MiB entries is installed as the split of one of them. -/
theorem splitHugePage_install (t : Tree m) (hpath : TablePath (q ++ [i]))
    (hT : tableAt m.phys m.cr3 q = some T) (hps : pageSizeBit (m.phys T i) = true)
    (hfree : m.pmm.freeSet.Nonempty) :
    ∃ G words, Installable pathNaming [m.cr3] m q T i G ∧
      m.splitHugePage (virtOf q) i (virtOf (q ++ [i])) huge2MB =
        some (install m T i G words) ∧
      ∀ k < 512, words k = splitWord (m.phys T i) k := by
  have f := tree_iff_forest.mp t
  have hread := readWord_virtOf f.self_active (hpath.init rfl) hT (hpath.lt i (by simp))
  have hlacks : ¬ pointsTo (m.phys T i) := by
    intro h
    have := h.2
    rw [hps] at this
    cases this
  obtain ⟨G, hG, hnew, hwrite⟩ := newTable_eq f hfree hpath hT hlacks
  obtain ⟨words, hrun, hwords⟩ := hG.splitHugePage_eq hread hnew hwrite
  exact ⟨G, words, hG, hrun, hwords⟩

/-- **Splitting a 2 MiB page.** In every tree of page tables with a free frame, and for
every 2 MiB entry, `splitHugePage` writes the new page table and its entry, and keeps
every translation inside of the huge page, exactly if the base in the entry is aligned,
that is, if the PAT bit is clear. -/
theorem splitHugePage_keeps_iff (t : Tree m) (hpath : TablePath (q ++ [i])) (hlen : q.length = 2)
    (hT : tableAt m.phys m.cr3 q = some T) (hpres : present (m.phys T i) = true)
    (hps : pageSizeBit (m.phys T i) = true) (hfree : m.pmm.freeSet.Nonempty) :
    (∃ m', m.splitHugePage (virtOf q) i (virtOf (q ++ [i])) huge2MB = some m' ∧
      SplitKeeps m m' q T i) ↔ 512 ∣ frameOf (m.phys T i) := by
  obtain ⟨G, words, hG, hrun, hwords⟩ := splitHugePage_install t hpath hT hps hfree
  rw [hrun]
  have hpage : ∀ j < 512, PagePath (q ++ [i, j]) := by
    intro j hj
    refine ⟨by simp [hlen], ?_, ?_⟩
    · have hhead := hpath.head
      cases q with
      | nil => simp at hlen
      | cons a q => simpa using hhead
    · intro k hk
      rw [List.append_cons, List.mem_append] at hk
      rcases hk with hk | hk
      · exact hpath.lt k hk
      · rwa [List.mem_singleton.mp hk]
  constructor
  · rintro ⟨m', hm', hkeeps⟩
    cases hm'
    obtain ⟨-, -, -, hview⟩ := hkeeps
    -- the first page of the huge page shows where the new table begins
    have hfirst := hview [0] (hpage 0 (by norm_num))
    have hnew : view (install m T i G words).phys m.cr3 (q ++ [i, 0]) = _ :=
      view_split hG hpres hwords (by norm_num)
    have hframe := frameOf_lt (m.phys T i)
    have hsame := hnew.symm.trans (hfirst.trans (view_hugePage hT hpres hps 0))
    simp only [Option.some.injEq, Prod.mk.injEq, and_true, Nat.add_zero] at hsame
    omega
  · intro halign
    refine ⟨_, rfl, G, hG.free, ?_, ?_⟩
    · intro F j _ hne
      by_contra hother
      rw [not_or] at hother
      exact hne (hG.installed_eq.2.2 F j hother.1 hother.2)
    · intro rest hrest
      obtain ⟨j, rfl⟩ : ∃ j, rest = [j] := by
        have hlength := hrest.length
        rw [List.length_append, List.length_cons] at hlength
        exact List.length_eq_one_iff.mp (by omega)
      have hframe := frameOf_lt (m.phys T i)
      have hj : j < 512 := hrest.lt j (by simp)
      have hnew : view (install m T i G words).phys m.cr3 (q ++ [i, j]) = _ :=
        view_split hG hpres hwords hj
      refine hnew.trans (Eq.trans ?_ (view_hugePage hT hpres hps j).symm)
      congr 2
      omega

/-- An ordinary 2 MiB page. -/
theorem hugeMachine_keeps :
    ∃ m', (hugeMachine 0x200083).splitHugePage (virtOf [0, 0]) 0 (virtOf [0, 0, 0]) huge2MB =
      some m' ∧ SplitKeeps (hugeMachine 0x200083) m' [0, 0] 3 0 := by
  have hentry : (hugeMachine 0x200083).phys 3 0 = 0x200083 := by simp [hugeMachine]
  refine (splitHugePage_keeps_iff (hugeMachine_tree (by decide))
    ⟨by decide, by decide, by decide⟩ rfl ?_ ?_ ?_ ?_).mpr ?_
  · decide +kernel
  · decide
  · decide
  · decide
  · rw [hentry]
    decide

/-! ### A 1 GiB page -/

/-- A loop of stores ends where one of them fails. -/
theorem fill_eq_none {m₁ : Machine} {table n : Nat} {value : Nat → Nat} (hk : k < n)
    (h : m.fill table k value = some m₁) (hnone : m₁.writeWord table k (value k) = none) :
    m.fill table n value = none := by
  obtain ⟨rest, hrest⟩ : ∃ rest, List.range n = List.range k ++ k :: rest := by
    refine ⟨List.range' (k + 1) (n - (k + 1)), ?_⟩
    have happend : List.range' 0 k ++ List.range' (0 + k) (n - (k + 1) + 1) =
        List.range' 0 (k + (n - (k + 1) + 1)) := List.range'_append_1
    rw [Nat.zero_add, show k + (n - (k + 1) + 1) = n by omega] at happend
    rw [List.range_eq_range', List.range_eq_range', ← List.range'_succ, happend]
  unfold fill at h ⊢
  rw [hrest, List.foldlM_append, h]
  simp [hnone]

/-- One 1 GiB page at virtual address 0. -/
def gigaMachine : Machine :=
  .ofEntries [(1, 0, 0x2007), (1, recursiveIndex, 0x1003), (2, 0, 0x83)] 1 ⟨fun _ => 0x0F, 8, 4, 0⟩

theorem gigaMachine_freeSet : gigaMachine.pmm.freeSet = {4, 5, 6, 7} := by
  decide

theorem gigaMachine_tree : Tree gigaMachine := by
  apply tree_ofEntries [([], 1), ([0], 2)]
  · exact ⟨by decide, by decide +kernel⟩
  · exact ⟨by decide +kernel, by decide +kernel⟩
  · decide
  · intro n hn
    revert n
    decide
  · norm_num

/-- Store number 512 goes to the directory of the next GiB, which is not there. -/
theorem gigaMachine_splitHugePage :
    gigaMachine.splitHugePage (virtOf [0]) 0 (virtOf [0, 0]) huge1GB = none := by
  have f := tree_iff_forest.mp gigaMachine_tree
  have hpath : TablePath ([0] ++ [0]) := ⟨by decide, by decide, by decide⟩
  have hT : tableAt gigaMachine.phys gigaMachine.cr3 [0] = some 2 := by decide +kernel
  have hfree : gigaMachine.pmm.freeSet.Nonempty := by
    decide
  obtain ⟨G, hG, hnew, hwrite⟩ := newTable_eq f hfree hpath hT (by decide +kernel)
  obtain ⟨zeros, hzero, -⟩ := hG.zeroPage_linked
  obtain ⟨words, hfill, -⟩ := hG.fill_install zeros (splitWord (gigaMachine.phys 2 0))
  have hread := readWord_virtOf f.self_active (hpath.init rfl) hT (hpath.lt 0 (by simp))
  have hnext : (install gigaMachine 2 0 G words).access
      (wrap (virtOf [0, 0] + 8 * 512)) = none := by
    have hG4 : 4 ≤ G := by
      have hmem := hG.free
      rw [gigaMachine_freeSet] at hmem
      simp only [Finset.mem_insert, Finset.mem_singleton] at hmem
      omega
    have hkept : ∀ F j, F < 4 → ¬ (F = 2 ∧ j = 0) →
        installed gigaMachine.phys 2 0 G words F j = gigaMachine.phys F j :=
      fun F j hF hne => hG.installed_eq.2.2 F j (by omega) hne
    have hself : SelfMapped (installed gigaMachine.phys 2 0 G words) 1 := hG.self f.active
    have hpoint : pointsTo (installed gigaMachine.phys 2 0 G words 1 0) := by
      rw [hkept 1 0 (by norm_num) (by norm_num)]
      decide +kernel
    -- the walk reads the PML4 three times and then entry 1 of the second table
    have hwalk : lookup (installed gigaMachine.phys 2 0 G words) 1
        [recursiveIndex, recursiveIndex, 0, 1] = none := by
      rw [lookup_cons_of_pointsTo hself.1 (by simp), hself.2,
        lookup_cons_of_pointsTo hself.1 (by simp), hself.2,
        lookup_cons_of_pointsTo hpoint (by simp), hkept 1 0 (by norm_num) (by norm_num),
        show frameOf (gigaMachine.phys 1 0) = 2 by decide +kernel, lookup,
        hkept 2 1 (by norm_num) (by norm_num)]
      decide +kernel
    change (if canonical _ then (lookup (installed gigaMachine.phys 2 0 G words) 1
      [recursiveIndex, recursiveIndex, 0, 1]).map Leaf.frame else none) = none
    rw [hwalk, Option.map_none, ite_self]
  have hzero' : (linked gigaMachine 2 0 G).zeroPage (virtOf [0, 0]) =
      some (install gigaMachine 2 0 G zeros) := hzero
  rw [splitHugePage, hread, Option.bind_some, hnew]
  dsimp only
  rw [hwrite, Option.bind_some, hzero', Option.bind_some]
  refine fill_eq_none (by decide : 512 < huge1GB / pageSize) hfill ?_
  rw [writeWord, hnext, Option.map_none]

/-- With the PAT bit set, the first page of a 2 MiB page moves by one frame. And a page
fault ends the split of a 1 GiB page, whose addresses were mapped before. -/
theorem not_splitHugePage_keeps :
    (Tree (hugeMachine 0x201083) ∧ ∃ m',
      (hugeMachine 0x201083).splitHugePage (virtOf [0, 0]) 0 (virtOf [0, 0, 0]) huge2MB = some m' ∧
      ((hugeMachine 0x201083).walk 0).map Leaf.view = some (0x200, 3) ∧
      (m'.walk 0).map Leaf.view = some (0x201, 3)) ∧
    Tree gigaMachine ∧ (gigaMachine.walk 0x1000).map Leaf.view = some (1, 3) ∧
      gigaMachine.splitHugePage (virtOf [0]) 0 (virtOf [0, 0]) huge1GB = none := by
  have htree : Tree (hugeMachine 0x201083) := hugeMachine_tree (by decide)
  have hentry : (hugeMachine 0x201083).phys 3 0 = 0x201083 := by simp [hugeMachine]
  have hT : tableAt (hugeMachine 0x201083).phys (hugeMachine 0x201083).cr3 [0, 0] = some 3 := by
    decide +kernel
  obtain ⟨G, words, hG, hrun, hwords⟩ := splitHugePage_install htree
    (⟨by decide, by decide, by decide⟩ : TablePath ([0, 0] ++ [0])) hT
    (by rw [hentry]; decide) (by rw [hugeMachine_freeSet]; decide)
  have hview := view_split hG (by rw [hentry]; decide) hwords (by norm_num : 0 < 512)
  refine ⟨⟨htree, _, hrun, by decide +kernel, ?_⟩, gigaMachine_tree, by decide +kernel,
    gigaMachine_splitHugePage⟩
  refine Eq.trans hview ?_
  decide

/-! ### Unmapping -/

/-- A list of indices that goes through the recursive slot leads to a table with a
shorter name. -/
theorem exists_tablePath (hself : SelfMapped m.phys m.cr3) (hlen : p.length ≤ 3)
    (hlt : ∀ i ∈ p, i < 512) (hT : tableAt m.phys m.cr3 p = some T) :
    ∃ q, TablePath q ∧ tableAt m.phys m.cr3 q = some T ∧ (q = p ∨ q.length < p.length) := by
  induction p with
  | nil => exact ⟨[], .nil, hT, .inl rfl⟩
  | cons i rest ih =>
    by_cases hi : i = recursiveIndex
    · subst hi
      rw [tableAt_cons_of_pointsTo hself.1, hself.2] at hT
      rw [List.length_cons] at hlen
      obtain ⟨q, hq, hqT, hshort⟩ := ih (by omega) (fun j hj => hlt j (by simp [hj])) hT
      refine ⟨q, hq, hqT, .inr ?_⟩
      rw [List.length_cons]
      rcases hshort with rfl | hshort
      · exact Nat.lt_succ_self _
      · omega
    · exact ⟨i :: rest, ⟨hlen, by simpa using hi, hlt⟩, hT, .inl rfl⟩

/-- Only one walk reads a given entry of a page table, the recursive slot included. -/
theorem Tree.eq_of_through (t : Tree m) (hq : TablePath q) (hlen : q.length = 3)
    (hT : tableAt m.phys m.cr3 q = some T) (hp : p.length = 4) (hlt : ∀ i ∈ p, i < 512)
    (hthrough : Through m.phys m.cr3 p T i) : p = q ++ [i] := by
  obtain ⟨r, rest, rfl, hr⟩ := hthrough
  rw [List.length_append, List.length_cons] at hp
  obtain ⟨q', hq', hq'T, hshort⟩ :=
    exists_tablePath t.self (by omega) (fun j hj => hlt j (by simp [hj])) hr
  obtain rfl := t.distinct _ _ _ hq' hq hq'T hT
  -- the name has three indices, so it is not shorter
  rcases hshort with rfl | hshort
  · obtain rfl := List.length_eq_zero_iff.mp (by omega : rest.length = 0)
    rfl
  · omega

/-- What `unmapPage` should do: the page has no translation any more, every other page
translates as before, and only page tables are written. -/
structure RemovesPage (m : Machine) (v : Nat) (m' : Machine) : Prop where
  removed : m'.walk v = none
  others : ∀ w, indices w ≠ indices v → m'.walk w = m.walk w
  written : ∀ F j, m'.phys F j ≠ m.phys F j → ∃ p, TablePath p ∧ tableAt m.phys m.cr3 p = some F

theorem removesPage_of_clear {v : Nat} (t : Tree m) (hv : v / 2 ^ 39 % 512 ≠ recursiveIndex)
    (hclear : Clear m.phys m.cr3 (indices v)) :
    ∃ m', m.unmapPage v = some m' ∧ RemovesPage m v m' := by
  obtain ⟨a, b, c, d, hind⟩ : ∃ a b c d, indices v = [a, b, c, d] := ⟨_, _, _, _, rfl⟩
  have hp : PagePath [a, b, c, d] := hind ▸ pagePath_indices hv
  have f := tree_iff_forest.mp t
  rcases unmapPage_forest f hind hp (hind ▸ hclear) with ⟨hrun, hwalk⟩ | ⟨T, hnamed, hrun⟩
  · refine ⟨m, hrun, ?_, fun w _ => rfl, fun F j h => absurd rfl h⟩
    rw [walk, hind, hwalk]
  · obtain ⟨hroot, hpath, hT⟩ := hnamed
    have hnamed : Named m.phys [m.cr3] m.cr3 [a, b, c] T := ⟨hroot, hpath, hT⟩
    refine ⟨_, hrun, ?_, ?_, ?_⟩
    · rw [walk, hind]
      exact (f.lookup_setWord (i := d) (w := 0) hnamed rfl hroot).1 [a, b, c] hpath hT
    · intro w hne
      apply (walk_congr (sameAlong_setWord ?_)).2
      intro hthrough
      exact hne ((t.eq_of_through hpath rfl hT rfl (indices_lt w) hthrough).trans hind.symm)
    · intro F j hne
      refine ⟨[a, b, c], hpath, ?_⟩
      rw [hT]
      congr 1
      by_contra hF
      exact hne (by simp [setWord, Function.update_of_ne (Ne.symm hF)])

/-! ### Unmapping part of a huge page -/

/-- At most one word is written, and it becomes zero. -/
theorem unmapPage_store {v : Nat} (h : m.unmapPage v = some m') :
    m' = m ∨ ∃ F j, m' = m.setWord F j 0 := by
  obtain ⟨a, b, c, d, hind⟩ : ∃ a b c d, indices v = [a, b, c, d] := ⟨_, _, _, _, rfl⟩
  obtain ⟨e₄, -, h⟩ := Option.bind_eq_some_iff.mp h
  split_ifs at h
  · obtain ⟨e₃, -, h⟩ := Option.bind_eq_some_iff.mp h
    split_ifs at h
    · obtain ⟨e₂, -, h⟩ := Option.bind_eq_some_iff.mp h
      split_ifs at h
      · obtain ⟨F, -, rfl⟩ := Option.map_eq_some_iff.mp h
        exact .inr ⟨F, _, rfl⟩
      · exact .inl (Option.some.inj h).symm
    · exact .inl (Option.some.inj h).symm
  · exact .inl (Option.some.inj h).symm

/-- All pages that share their way with a page of a huge page are mapped. -/
theorem lookup_of_not_clear {a b c d : Nat}
    (hreserved : present (m.phys m.cr3 a) = true → pageSizeBit (m.phys m.cr3 a) = false)
    (hhuge : ¬ Clear m.phys m.cr3 [a, b, c, d]) :
    tableAt m.phys m.cr3 [a, b, c] = none ∧ ∀ k, lookup m.phys m.cr3 [a, b, c, k] ≠ none := by
  simp only [Clear, not_forall, Bool.not_eq_false] at hhuge
  obtain ⟨r, j, rest, T, hsplit, hrest, hT, hpres, hps⟩ := hhuge
  have hpoint : ¬ pointsTo (m.phys T j) := by
    simp [pointsTo, hps]
  rcases r with _ | ⟨_, _ | ⟨_, _ | ⟨_, r⟩⟩⟩
  · -- not in the PML4
    obtain ⟨rfl, -⟩ := List.cons.inj hsplit
    obtain rfl : m.cr3 = T := by simpa using hT
    rw [hreserved hpres] at hps
    cases hps
  · obtain ⟨rfl, rfl, -⟩ := hsplit
    refine ⟨?_, fun k => ?_⟩
    · change tableAt m.phys m.cr3 ([a] ++ [b, c]) = none
      rw [tableAt_append, hT, Option.bind_some, tableAt, if_neg hpoint]
    · change lookup m.phys m.cr3 ([a] ++ [b, c, k]) ≠ none
      rw [lookup_append hT (by simp)]
      simp [lookup, hpres, hps]
  · obtain ⟨rfl, rfl, rfl, -⟩ := hsplit
    refine ⟨?_, fun k => ?_⟩
    · change tableAt m.phys m.cr3 ([a, b] ++ [c]) = none
      rw [tableAt_concat hT, if_neg hpoint]
    · change lookup m.phys m.cr3 ([a, b] ++ [c, k]) ≠ none
      rw [lookup_append hT (by simp)]
      simp [lookup, hpres, hps]
  · have hlength := congrArg List.length hsplit
    have := List.length_pos_iff.mpr hrest
    simp only [List.length_append, List.length_cons, List.length_nil] at hlength
    omega

/-- A store of zero on the way to a page that a table above the page table holds takes
away every page with the same way. -/
theorem walk_setWord_zero {a b c d : Nat} (t : Tree m) (hp : PagePath [a, b, c, d])
    (hnone : tableAt m.phys m.cr3 [a, b, c] = none)
    (hthrough : Through m.phys m.cr3 [a, b, c, d] F j) (k : Nat) :
    lookup (m.setWord F j 0).phys m.cr3 [a, b, c, k] = none := by
  obtain ⟨r, rest, hsplit, hr⟩ := hthrough
  have hpath : TablePath r := hp.tablePath hsplit
  have f := tree_iff_forest.mp t
  have hF := f.named_active hpath hr
  obtain ⟨rest', hsplit'⟩ : ∃ rest', [a, b, c, k] = r ++ j :: rest' := by
    rcases List.eq_nil_or_concat rest with rfl | ⟨rest, x, rfl⟩
    · obtain ⟨rfl, -⟩ := List.append_inj' (show [a, b, c] ++ [d] = r ++ [j] from hsplit) rfl
      rw [hnone] at hr
      cases hr
    · have hsplit : [a, b, c] ++ [d] = (r ++ j :: rest) ++ [x] := by simpa using hsplit
      refine ⟨rest ++ [k], ?_⟩
      rw [← List.cons_append, ← List.append_assoc, ← (List.append_inj' hsplit rfl).1]
      rfl
  have hkept : tableAt (m.setWord F j 0).phys m.cr3 r = some F := by
    rw [(walk_congr (sameAlong_setWord (f.not_through hF hF.root (fun _ _ _ => hpath.init)
      le_rfl))).1, hr]
  rw [hsplit', lookup_append hkept (by simp)]
  apply lookup_of_not_present
  simp [setWord, present_eq]

/-- **`unmapPage` removes exactly one page** if, and only if, there is no huge page on
the way to it. In a PML4 the page-size bit is reserved. -/
theorem unmapPage_removes_iff {v : Nat} (t : Tree m) (hv : v / 2 ^ 39 % 512 ≠ recursiveIndex)
    (hreserved : present (m.phys m.cr3 (v / 2 ^ 39 % 512)) = true →
      pageSizeBit (m.phys m.cr3 (v / 2 ^ 39 % 512)) = false) :
    (∃ m', m.unmapPage v = some m' ∧ RemovesPage m v m') ↔
      Clear m.phys m.cr3 (indices v) := by
  constructor
  · rintro ⟨m', hrun, hm'⟩
    by_contra hhuge
    obtain ⟨a, b, c, d, hind⟩ : ∃ a b c d, indices v = [a, b, c, d] := ⟨_, _, _, _, rfl⟩
    have hp : PagePath [a, b, c, d] := hind ▸ pagePath_indices hv
    have ha : v / 2 ^ 39 % 512 = a := (List.cons.inj hind).1
    rw [ha] at hreserved
    obtain ⟨hnone, hmapped⟩ := lookup_of_not_clear hreserved (hind ▸ hhuge)
    have hwalk := hm'.removed
    rw [walk, hind] at hwalk
    rcases unmapPage_store hrun with rfl | ⟨F, j, rfl⟩
    · exact hmapped d hwalk
    · by_cases hthrough : Through m.phys m.cr3 [a, b, c, d] F j
      · -- another page of the huge page is gone as well
        obtain ⟨k, hk, hkd⟩ : ∃ k < 512, k ≠ d := by
          by_cases hd : d = 0
          · exact ⟨1, by norm_num, by omega⟩
          · exact ⟨0, by norm_num, by omega⟩
        have hlt := hp.lt
        have hw := (tableVirt_spec (hlt a (by simp)) (hlt b (by simp)) (hlt c (by simp)) hk
          (k := 0) (by norm_num)).2.2.1
        have hsame := hm'.others (tableVirt a b c k + 8 * 0) (by rw [hw, hind]; simp [hkd])
        rw [walk, walk, hw] at hsame
        exact hmapped k (hsame.symm.trans (walk_setWord_zero t hp hnone hthrough k))
      · exact hmapped d ((walk_congr (sameAlong_setWord hthrough)).2.symm.trans hwalk)
  · exact removesPage_of_clear t hv

/-- One page at virtual address 0, in frame 5. -/
def pageMachine : Machine :=
  .ofEntries [(1, 0, 0x2007), (1, recursiveIndex, 0x1003), (2, 0, 0x3007), (3, 0, 0x4007),
    (4, 0, 0x5007)] 1 ⟨fun _ => 0x3F, 8, 6, 0⟩

theorem pageMachine_tree : Tree pageMachine := by
  apply tree_ofEntries [([], 1), ([0], 2), ([0, 0], 3), ([0, 0, 0], 4)]
  · exact ⟨by decide, by decide +kernel⟩
  · exact ⟨by decide +kernel, by decide +kernel⟩
  · decide
  · intro n hn
    revert n
    decide
  · norm_num

/-- The page goes away, and with it nothing else. -/
theorem pageMachine_removes : pageMachine.walk 0 = some ⟨0x5007, 5⟩ ∧
    ∃ m', pageMachine.unmapPage 0 = some m' ∧ RemovesPage pageMachine 0 m' := by
  have hT : tableAt pageMachine.phys pageMachine.cr3 [0, 0, 0] = some 4 := by decide +kernel
  refine ⟨by decide +kernel, (unmapPage_removes_iff pageMachine_tree (by decide) ?_).mpr ?_⟩
  · decide +kernel
  · exact clear_of_table hT

/-- To unmap the first page of a 2 MiB page clears a word of its memory, and the page
stays. -/
theorem not_unmapPage_removes : Tree (hugeMachine 0x200083) ∧
    (hugeMachine 0x200083).unmapPage 0 = some ((hugeMachine 0x200083).setWord 0x200 0 0) ∧
    ((hugeMachine 0x200083).setWord 0x200 0 0).walk 0 = some ⟨0x200083, 0x200⟩ := by
  refine ⟨hugeMachine_tree (by decide), ?_, by decide +kernel⟩
  have h₄ : (hugeMachine 0x200083).readWord (virtOf []) 0 = some 0x2007 := by decide +kernel
  have h₃ : (hugeMachine 0x200083).readWord (virtOf [0]) 0 = some 0x3007 := by decide +kernel
  have h₂ : (hugeMachine 0x200083).readWord (virtOf [0, 0]) 0 = some 0x200083 := by decide +kernel
  -- what should be the page table is the first frame of the page
  have haccess : (hugeMachine 0x200083).access (wrap (virtOf [0, 0, 0] + 8 * 0)) = some 0x200 := by
    decide +kernel
  have hoffset : wrap (virtOf [0, 0, 0] + 8 * 0) % 4096 / 8 = 0 := by decide +kernel
  rw [unmapPage_eq (by decide : indices 0 = [0, 0, 0, 0]), h₄, Option.bind_some, if_pos (by decide),
    h₃, Option.bind_some, if_pos (by decide), h₂, Option.bind_some, if_pos (by decide),
    writeWord, haccess, hoffset, Option.map_some]

end WengShiOS.Mm
