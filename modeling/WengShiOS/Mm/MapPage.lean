import WengShiOS.Mm.TableForest

/-! # `mapPage` adds one translation

One address space whose tables form a tree: the forest in which every name means
another table. There the final store of `mapPage` changes exactly one translation. -/

namespace WengShiOS.Mm

open Math Machine

variable {m m' : Machine} {T G i j k e : Nat} {p q r rest : List Nat}

/-- The page tables form a tree: the recursive slot apart, different names of tables
are different frames, none of which the PMM takes for free. Physical addresses have
52 bits. -/
structure Tree (m : Machine) : Prop where
  self : SelfMapped m.phys m.cr3
  distinct : ∀ p q T, TablePath p → TablePath q → tableAt m.phys m.cr3 p = some T →
    tableAt m.phys m.cr3 q = some T → p = q
  used : ∀ p T, TablePath p → tableAt m.phys m.cr3 p = some T → T ∉ m.pmm.freeSet
  frames : m.pmm.totalFrames ≤ 2 ^ 40

/-- A table is identified by the indices alone. -/
def pathNaming : Naming (List Nat) where
  name _ p := p
  length_eq := congrArg List.length
  concat i h := congrArg (· ++ [i]) h

theorem tree_iff_forest : Tree m ↔ Forest pathNaming [m.cr3] m := by
  constructor
  · intro t
    have hroot : ∀ {s p T}, Named m.phys [m.cr3] s p T → tableAt m.phys m.cr3 p = some T :=
      fun h => List.mem_singleton.mp h.root ▸ h.table
    refine ⟨List.mem_singleton.mpr rfl, fun s hs => List.mem_singleton.mp hs ▸ t.self,
      fun h h' => ?_, fun h => t.used _ _ h.path (hroot h), t.frames⟩
    exact t.distinct _ _ _ h.path h'.path (hroot h) (hroot h')
  · intro f
    exact ⟨f.self_active, fun p q T hp hq hT hT' =>
        f.distinct (f.named_active hp hT) (f.named_active hq hT'),
      fun p T hp hT => f.used (f.named_active hp hT), f.frames⟩

/-- **`mapPage` realises exactly one translation.** The page of `v` then translates to
`paddr` with the given flags, every other page outside the recursive slot translates
as before, and the tables are still a tree. -/
theorem mapPage_translates {v paddr flags : Nat} (t : Tree m)
    (hv : v / 2 ^ 39 % 512 ≠ recursiveIndex) (hdvd : pageSize ∣ paddr) (hlt : paddr < 2 ^ 52)
    (hflags : flags &&& (pageWritable ||| pageUser ||| pageCacheDisable) = flags)
    (hmissing : missing m.phys m.cr3 (indices v) ≤ m.pmm.freeSet.card)
    (hsplit : Splittable m.phys m.cr3 (indices v)) :
    ∃ m', m.mapPage v paddr flags = some m' ∧ Tree m' ∧
      m'.walk v = some ⟨paddr ||| flags ||| pagePresent, paddr / pageSize⟩ ∧
      ∀ w, w / 2 ^ 39 % 512 ≠ recursiveIndex → indices w ≠ indices v →
        (m'.walk w).map Leaf.view = (m.walk w).map Leaf.view := by
  obtain ⟨a, b, c, d, hind⟩ : ∃ a b c d, indices v = [a, b, c, d] := ⟨_, _, _, _, rfl⟩
  have hp : PagePath [a, b, c, d] := hind ▸ pagePath_indices hv
  rw [hind] at hmissing hsplit
  obtain ⟨m₃, G, f, g, -, hG, hrun, -⟩ :=
    mapPage_forest paddr flags (tree_iff_forest.mp t) hind hp hmissing hsplit
  obtain ⟨hentry, hframe⟩ := pageEntry_spec hdvd hlt hflags
  obtain ⟨hnew, hold⟩ := f.lookup_setWord (i := d) (w := pageEntry paddr flags) hG rfl hG.root
  have hcr3 : (m₃.setWord G d (pageEntry paddr flags)).cr3 = m.cr3 := g.cr3
  refine ⟨_, hrun, tree_iff_forest.mpr ?_, ?_, fun w hw hne => ?_⟩
  · rw [hcr3]
    exact f.setWord hG rfl
  · rw [walk, hind, hcr3]
    refine (hnew [a, b, c] hG.path hG.table).trans ?_
    rw [present_pageEntry, if_pos rfl, hentry, ← hentry, hframe]
  · have hpw := pagePath_indices hw
    have hsame := hold _ hpw fun r hr hrG => by
      -- a second name of the page table is the same name
      have hnamed : Named m₃.phys [m.cr3] m.cr3 r G := ⟨hG.root, hpw.tablePath hr, hrG⟩
      obtain rfl : r = [a, b, c] := f.distinct hnamed hG
      exact hne (hr.trans hind.symm)
    rw [walk, walk, hcr3]
    calc (lookup (m₃.setWord G d (pageEntry paddr flags)).phys m.cr3 (indices w)).map Leaf.view
        = view m₃.phys m.cr3 (indices w) := congrArg (Option.map Leaf.view) hsame
      _ = view m.phys m.cr3 (indices w) := g.view _ (List.mem_singleton.mpr rfl) _ hpw

/-! ### The base of a huge page

Bit 12 of a 2 MiB entry is its PAT bit and not part of the address, but
`splitHugePage` takes the base with the mask for 4 KiB pages. -/

/-- The pages of a split 2 MiB page count on from bits 51 to 12 of its entry. -/
theorem mapPage_hugePage {a b c d : Nat} (v paddr flags j : Nat) (t : Tree m)
    (hind : indices v = [a, b, c, d]) (hv : v / 2 ^ 39 % 512 ≠ recursiveIndex)
    (hT : tableAt m.phys m.cr3 [a, b] = some T)
    (hpres : present (m.phys T c) = true) (hps : pageSizeBit (m.phys T c) = true)
    (hfree : m.pmm.freeSet.Nonempty) (hj : j < 512) (hne : j ≠ d) :
    ∃ m', m.mapPage v paddr flags = some m' ∧
      (lookup m'.phys m'.cr3 [a, b, c, j]).map Leaf.view =
        some ((frameOf (m.phys T c) + j) % 2 ^ 40, m.phys T c &&& 31) := by
  have f := tree_iff_forest.mp t
  have hp : PagePath [a, b, c, d] := hind ▸ pagePath_indices hv
  have hq : TablePath [a, b, c] := hp.tablePath (r := [a, b, c]) rfl
  obtain ⟨hpa, hTa⟩ := tableAt_cons_eq_some.mp hT
  obtain ⟨hpb, -⟩ := tableAt_cons_eq_some.mp hTa
  have ha : tableAt m.phys m.cr3 [a] = some (frameOf (m.phys m.cr3 a)) :=
    tableAt_cons_of_pointsTo hpa
  obtain ⟨G, words, hG, hrun, hwords⟩ := ensureTable_of_hugePage f hq hT hpres hps hfree
  have hforest := hG.forest_install words (.inl rfl)
  have htables : ensureTables m a b c = some (Installable.install m T c G words) := by
    rw [ensureTables, ensureTable_of_pointsTo f (hq.of_prefix ⟨[b, c], rfl⟩) rfl hpa,
      Option.bind_some, ensureTable_of_pointsTo f (hq.of_prefix ⟨[c], rfl⟩) ha hpb,
      Option.bind_some]
    exact hrun
  have hlast : Named (installed m.phys T c G words) [m.cr3] m.cr3 [a, b, c] G :=
    ⟨f.active, hq, hG.tableAt_concat hG.named⟩
  have hwrite := writeWord_virtOf hforest.self_active hq hlast.table (hp.lt d (by simp))
    (pageEntry paddr flags)
  refine ⟨_, by rw [mapPage_eq hind, htables, Option.bind_some, hwrite], ?_⟩
  obtain ⟨hwpres, hwflags, hwframe⟩ := splitWord_spec (m.phys T c) hj
  have htable := hforest.tableAt_setWord (i := d) (w := pageEntry paddr flags) hlast rfl f.active hq
  have hword : ((Installable.install m T c G words).setWord G d
      (pageEntry paddr flags)).phys G j = splitWord (m.phys T c) j := by
    rw [setWord_phys_of_ne hne, ← hwords j hj]
    exact congrFun hG.installed_eq.2.1 j
  change (lookup _ m.cr3 ([a, b, c] ++ [j])).map Leaf.view = _
  rw [lookup_append (htable.trans hlast.table) (by simp), lookup, hword, hwpres, hpres, if_pos rfl]
  simp [Leaf.view, hwflags, hwframe]

/-- One 2 MiB page at virtual address 0, with the given entry. -/
def hugeMachine (entry : Nat) : Machine where
  phys f i :=
    if f = 1 ∧ i = 0 then 0x2007
    else if f = 1 ∧ i = recursiveIndex then 0x1003
    else if f = 2 ∧ i = 0 then 0x3007
    else if f = 3 ∧ i = 0 then entry
    else 0
  cr3 := 1
  pmm := ⟨fun _ => 0x0F, 8, 4, 0⟩

theorem hugeMachine_tableAt (hps : pageSizeBit e = true) (hp : TablePath p)
    (hT : tableAt (hugeMachine e).phys 1 p = some T) :
    p = [] ∧ T = 1 ∨ p = [0] ∧ T = 2 ∨ p = [0, 0] ∧ T = 3 := by
  have hzero : ¬ pointsTo 0 := by decide
  have h1 : ∀ i, i ≠ recursiveIndex → pointsTo ((hugeMachine e).phys 1 i) → i = 0 :=
    fun i hi h => by
      by_contra h0
      simp [hugeMachine, h0, hi, hzero] at h
  have h2 : ∀ i, pointsTo ((hugeMachine e).phys 2 i) → i = 0 := fun i h => by
    by_contra h0
    simp [hugeMachine, h0, hzero] at h
  have h3 : ∀ i, ¬ pointsTo ((hugeMachine e).phys 3 i) := fun i h => by
    by_cases h0 : i = 0
    · subst h0
      have := h.2
      simp [hugeMachine, hps] at this
    · simp [hugeMachine, h0, hzero] at h
  have hf1 : frameOf ((hugeMachine e).phys 1 0) = 2 := by simp [hugeMachine, frameOf_eq]
  have hf2 : frameOf ((hugeMachine e).phys 2 0) = 3 := by simp [hugeMachine, frameOf_eq]
  match p with
  | [] => exact .inl ⟨rfl, by simpa using hT.symm⟩
  | a :: rest =>
    obtain ⟨hpa, hT⟩ := tableAt_cons_eq_some.mp hT
    obtain rfl := h1 a (by simpa using hp.head) hpa
    rw [hf1] at hT
    match rest with
    | [] => exact .inr (.inl ⟨rfl, by simpa using hT.symm⟩)
    | b :: rest =>
      obtain ⟨hpb, hT⟩ := tableAt_cons_eq_some.mp hT
      obtain rfl := h2 b hpb
      rw [hf2] at hT
      match rest with
      | [] => exact .inr (.inr ⟨rfl, by simpa using hT.symm⟩)
      | c :: rest => exact absurd (tableAt_cons_eq_some.mp hT).1 (h3 c)

theorem hugeMachine_tree (hps : pageSizeBit e = true) : Tree (hugeMachine e) where
  self := by
    refine ⟨?_, ?_⟩ <;> simp [hugeMachine, pointsTo, present_eq, pageSizeBit_eq, frameOf_eq,
      recursiveIndex]
  distinct p q T hp hq hT hT' := by
    rcases hugeMachine_tableAt hps hp hT with ⟨rfl, rfl⟩ | ⟨rfl, rfl⟩ | ⟨rfl, rfl⟩ <;>
      rcases hugeMachine_tableAt hps hq hT' with ⟨rfl, h⟩ | ⟨rfl, h⟩ | ⟨rfl, h⟩ <;> simp_all
  used p T hp hT := by
    have : T ≤ 3 := by
      rcases hugeMachine_tableAt hps hp hT with ⟨-, rfl⟩ | ⟨-, rfl⟩ | ⟨-, rfl⟩ <;> omega
    change T ∉ clearBits (fun _ => 0x0F) 8
    interval_cases T <;> decide
  frames := by simp [hugeMachine]

theorem hugeMachine_freeSet : (hugeMachine e).pmm.freeSet = {4, 5, 6, 7} := by
  change clearBits (fun _ => 0x0F) 8 = _
  decide

/-- Mapping a page into an ordinary 2 MiB page splits it. -/
theorem hugeMachine_translates :
    (Tree (hugeMachine 0x200083) ∧
      Splittable (hugeMachine 0x200083).phys (hugeMachine 0x200083).cr3 (indices 0)) ∧
    ∃ m', (hugeMachine 0x200083).mapPage 0 0x5000 pageWritable = some m' ∧ Tree m' ∧
      m'.walk 0 = some ⟨0x5000 ||| pageWritable ||| pagePresent, 0x5000 / pageSize⟩ ∧
      ∀ w, w / 2 ^ 39 % 512 ≠ recursiveIndex → indices w ≠ indices 0 →
        (m'.walk w).map Leaf.view = ((hugeMachine 0x200083).walk w).map Leaf.view := by
  have htree : Tree (hugeMachine 0x200083) := hugeMachine_tree (by decide)
  have hsplit : Splittable (hugeMachine 0x200083).phys (hugeMachine 0x200083).cr3 (indices 0) := by
    simp [indices, Splittable, hugeMachine, present_eq, pageSizeBit_eq, frameOf_eq]
  refine ⟨⟨htree, hsplit⟩, mapPage_translates htree (by decide) (by decide) (by norm_num) (by decide)
    ?_ hsplit⟩
  decide

/-- With the PAT bit set, every other page of the 2 MiB page moves by one frame. -/
theorem not_mapPage_translates :
    Tree (hugeMachine 0x201083) ∧
      missing (hugeMachine 0x201083).phys (hugeMachine 0x201083).cr3 (indices 0) ≤
        (hugeMachine 0x201083).pmm.freeSet.card ∧
      ∃ m', (hugeMachine 0x201083).mapPage 0 0x5000 pageWritable = some m' ∧
        ((hugeMachine 0x201083).walk 0x1000).map Leaf.view = some (0x201, 3) ∧
        (m'.walk 0x1000).map Leaf.view = some (0x202, 3) := by
  have htree : Tree (hugeMachine 0x201083) := hugeMachine_tree (by decide)
  have hentry : (hugeMachine 0x201083).phys 3 0 = 0x201083 := by simp [hugeMachine]
  have hT : tableAt (hugeMachine 0x201083).phys (hugeMachine 0x201083).cr3 [0, 0] = some 3 := by
    decide +kernel
  obtain ⟨m', hrun, hview⟩ := mapPage_hugePage 0 0x5000 pageWritable 1 htree
    (by decide : indices 0 = [0, 0, 0, 0]) (by decide) hT (by rw [hentry]; decide)
    (by rw [hentry]; decide) (by rw [hugeMachine_freeSet]; decide) (by norm_num) (by norm_num)
  refine ⟨htree, by rw [hugeMachine_freeSet]; decide +kernel, m', hrun, by decide +kernel, ?_⟩
  have hind : indices 0x1000 = [0, 0, 0, 1] := by decide
  rw [walk, hind, hview, hentry]
  decide

end WengShiOS.Mm
