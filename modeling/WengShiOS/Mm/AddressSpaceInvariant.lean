import WengShiOS.Mm.AddressSpace

/-! # Which tables the address spaces share

A table below entry 0 or 511 of a PML4 is the same in all address spaces, and the page
directory that the boot code put below `[0, 0]` and `[511, 510]` is one table. With
these names identified, every other table has one name (`spaceNaming`). So a call for
a page changes the translations of exactly those pages that have its name, in
whichever address space they are (`Remaps.view`). -/

namespace WengShiOS.Mm

open Math Machine Function Pmm Finset

variable {spaces : List Nat} {m m' m'' : Machine} {phys phys' : Nat → Nat → Nat}
  {s s' T G F N i j k v a b c d : Nat} {p q r rest : List Nat}

/-! ### Names of tables and pages -/

/-- The name of a table or page; `none` for those that belong to all address spaces. -/
def tableName (s : Nat) (p : List Nat) : Option Nat × List Nat :=
  if p.take 2 = [511, 510] then (none, 0 :: 0 :: p.drop 2)
  else if p.head? = some 0 ∨ p.head? = some 511 then (none, p)
  else (some s, p)

theorem eq_of_take_two (h : p.take 2 = [i, j]) : p = i :: j :: p.drop 2 := by
  conv_lhs => rw [← List.take_append_drop 2 p, h]
  rfl

theorem length_tableName (s : Nat) (p : List Nat) : (tableName s p).2.length = p.length := by
  unfold tableName
  split_ifs with h
  · conv_rhs => rw [eq_of_take_two h]
    rfl
  · rfl
  · rfl

/-- From the third index on, names grow with the indices. -/
theorem tableName_concat (s i : Nat) (hp : 2 ≤ p.length) :
    tableName s (p ++ [i]) = ((tableName s p).1, (tableName s p).2 ++ [i]) := by
  obtain ⟨a, b, r, rfl⟩ : ∃ a b r, p = a :: b :: r := by
    match p, hp with
    | a :: b :: r, _ => exact ⟨a, b, r, rfl⟩
  unfold tableName
  by_cases hdir : (a :: b :: r).take 2 = [511, 510]
  · have hdir' : (a :: b :: r ++ [i]).take 2 = [511, 510] := hdir
    rw [if_pos hdir, if_pos hdir']
    rfl
  · have hdir' : ¬ (a :: b :: r ++ [i]).take 2 = [511, 510] := hdir
    rw [if_neg hdir, if_neg hdir']
    by_cases hhead : (a :: b :: r).head? = some 0 ∨ (a :: b :: r).head? = some 511
    · have hhead' : (a :: b :: r ++ [i]).head? = some 0 ∨ (a :: b :: r ++ [i]).head? = some 511 := hhead
      rw [if_pos hhead, if_pos hhead']
    · have hhead' : ¬ ((a :: b :: r ++ [i]).head? = some 0 ∨
          (a :: b :: r ++ [i]).head? = some 511) := hhead
      rw [if_neg hhead, if_neg hhead']

def spaceNaming : Naming (Option Nat × List Nat) where
  name := tableName
  length_eq {s s' p p'} h := by
    rw [← length_tableName s p, ← length_tableName s' p', h]
  concat {s s' p p'} i h := by
    have hlen : p.length = p'.length := by rw [← length_tableName s p, ← length_tableName s' p', h]
    match p, p', hlen with
    | [], [], _ =>
      obtain rfl : s = s' := by simpa [tableName] using h
      rfl
    | [a], [a'], _ =>
      -- an entry of a PML4, which is shared or belongs to one address space
      by_cases hshared : a = 0 ∨ a = 511
      · by_cases hshared' : a' = 0 ∨ a' = 511
        · obtain rfl : a = a' := by simpa [tableName, hshared, hshared'] using h
          simp [tableName, hshared]
        · simp [tableName, hshared, hshared'] at h
      · by_cases hshared' : a' = 0 ∨ a' = 511
        · simp [tableName, hshared, hshared'] at h
        · obtain ⟨rfl, rfl⟩ : s = s' ∧ a = a' := by simpa [tableName, hshared, hshared'] using h
          rfl
    | a :: b :: r, a' :: b' :: r', _ =>
      rw [tableName_concat s i (by simp), tableName_concat s' i (by simp), h]

/-! ### The tables of all address spaces -/

/-- The address spaces share what is below entries 0 and 511, one directory has two
names, and only this directory has 2 MiB pages. -/
structure Layout (spaces : List Nat) (m : Machine) : Prop where
  forest : Forest spaceNaming spaces m
  shared : ∀ s ∈ spaces, ∀ i, i = 0 ∨ i = 511 →
    pointsTo (m.phys s i) ∧ m.phys s i = m.phys m.cr3 i
  directory : ∃ D, tableAt m.phys m.cr3 [0, 0] = some D ∧ tableAt m.phys m.cr3 [511, 510] = some D
  huge : ∀ {s p T j}, Named m.phys spaces s p T → p.length < 3 → j < 512 →
    present (m.phys T j) = true → pageSizeBit (m.phys T j) = true →
    (p = [0, 0] ∨ p = [511, 510]) ∧ 512 ∣ frameOf (m.phys T j)

/-- The address space in which a name is looked up. -/
def home (m : Machine) (n : Option Nat × List Nat) : Nat := n.1.getD m.cr3

theorem walk_cons_congr (rest : List Nat) (h : phys s i = phys s' i) :
    tableAt phys s (i :: rest) = tableAt phys s' (i :: rest) ∧
      (rest ≠ [] → pointsTo (phys s i) →
        lookup phys s (i :: rest) = lookup phys s' (i :: rest)) := by
  refine ⟨by rw [tableAt, tableAt, h], fun hrest hpoint => ?_⟩
  rw [lookup_cons_of_pointsTo hpoint hrest, lookup_cons_of_pointsTo (h ▸ hpoint) hrest, h]

/-- A walk depends on the name only. -/
theorem Layout.walk_tableName (l : Layout spaces m) (hs : s ∈ spaces) (p : List Nat) :
    tableAt m.phys s p = tableAt m.phys (home m (tableName s p)) (tableName s p).2 ∧
      (3 ≤ p.length →
        lookup m.phys s p = lookup m.phys (home m (tableName s p)) (tableName s p).2) := by
  unfold tableName
  split_ifs with hdir hhead
  · -- the directory with two names
    obtain ⟨D, hlow, hhigh⟩ := l.directory
    have hp := eq_of_take_two hdir
    generalize p.drop 2 = rest at hp
    subst hp
    obtain ⟨hpoint, hentry⟩ := l.shared s hs 511 (.inr rfl)
    obtain ⟨htable, hlookup⟩ := walk_cons_congr (510 :: rest) hentry
    refine ⟨?_, fun hlen => ?_⟩
    · rw [htable]
      change tableAt m.phys m.cr3 ([511, 510] ++ rest) = tableAt m.phys m.cr3 ([0, 0] ++ rest)
      rw [tableAt_append, tableAt_append, hlow, hhigh]
    · have hrest : rest ≠ [] := by
        rintro rfl
        simp at hlen
      rw [hlookup (by simp) hpoint]
      change lookup m.phys m.cr3 ([511, 510] ++ rest) = lookup m.phys m.cr3 ([0, 0] ++ rest)
      rw [lookup_append hhigh hrest, lookup_append hlow hrest]
  · obtain ⟨i, rest, rfl⟩ : ∃ i rest, p = i :: rest := by
      cases p with
      | nil => simp at hhead
      | cons i rest => exact ⟨i, rest, rfl⟩
    obtain ⟨hpoint, hentry⟩ := l.shared s hs i (by simpa using hhead)
    obtain ⟨htable, hlookup⟩ := walk_cons_congr rest hentry
    refine ⟨htable, fun hlen => hlookup ?_ hpoint⟩
    rintro rfl
    simp at hlen
  · exact ⟨rfl, fun _ => rfl⟩

variable {p' : List Nat} {κ : Type}

section

variable (l : Layout spaces m) (hs : s ∈ spaces) (hs' : s' ∈ spaces)
include l hs hs'

theorem Layout.tableAt_eq (h : tableName s p = tableName s' p') :
    tableAt m.phys s p = tableAt m.phys s' p' := by
  rw [(l.walk_tableName hs p).1, (l.walk_tableName hs' p').1, h]

theorem Layout.lookup_eq (hp : PagePath p) (hp' : PagePath p')
    (h : tableName s p = tableName s' p') :
    lookup m.phys s p = lookup m.phys s' p' := by
  rw [(l.walk_tableName hs p).2 (by simp [hp.length]),
    (l.walk_tableName hs' p').2 (by simp [hp'.length]), h]

theorem Layout.view_eq (hp : PagePath p) (hp' : PagePath p') (h : tableName s p = tableName s' p') :
    view m.phys s p = view m.phys s' p' := congrArg (Option.map Leaf.view) (l.lookup_eq hs hs' hp hp' h)

end

/-- All huge pages on the way to a page can be split. -/
theorem Layout.splittable (l : Layout spaces m) (hp : PagePath [a, b, c, d]) :
    Splittable m.phys m.cr3 [a, b, c, d] := by
  have hlt : a < 512 ∧ b < 512 ∧ c < 512 := by
    have := hp.lt
    simp only [List.mem_cons, List.not_mem_nil, or_false, forall_eq_or_imp, forall_eq] at this
    exact ⟨this.1, this.2.1, this.2.2.1⟩
  have hnil : Named m.phys spaces m.cr3 [] m.cr3 := .nil l.forest.active
  intro hpa
  have hpsa : pageSizeBit (m.phys m.cr3 a) = false := by
    by_contra hps
    have := (l.huge hnil (by simp) hlt.1 hpa (by simpa using hps)).1
    simp at this
  have hta : Named m.phys spaces m.cr3 [a] (frameOf (m.phys m.cr3 a)) :=
    ⟨l.forest.active, hp.tablePath (r := [a]) rfl, tableAt_cons_of_pointsTo ⟨hpa, hpsa⟩⟩
  refine ⟨hpsa, fun hpb => ?_⟩
  have hpsb : pageSizeBit (m.phys (frameOf (m.phys m.cr3 a)) b) = false := by
    by_contra hps
    have := (l.huge hta (by simp) hlt.2.1 hpb (by simpa using hps)).1
    simp at this
  have htb : Named m.phys spaces m.cr3 [a, b] (frameOf (m.phys (frameOf (m.phys m.cr3 a)) b)) := by
    refine ⟨l.forest.active, hp.tablePath (r := [a, b]) rfl, ?_⟩
    rw [tableAt_cons_of_pointsTo ⟨hpa, hpsa⟩, tableAt_cons_of_pointsTo ⟨hpb, hpsb⟩]
    rfl
  exact ⟨hpsb, fun hpc hpsc => (l.huge htb (by simp) hlt.2.2 hpc hpsc).2⟩

/-- No huge page is on the way to a page. -/
def Clear (phys : Nat → Nat → Nat) (s : Nat) (p : List Nat) : Prop :=
  ∀ r j rest T, p = r ++ j :: rest → rest ≠ [] → tableAt phys s r = some T →
    present (phys T j) = true → pageSizeBit (phys T j) = false

theorem Layout.grows (l : Layout spaces m) (f : Forest spaceNaming spaces m')
    (g : Grows spaces m m') : Layout spaces m' where
  forest := f
  shared s hs i hi := by
    obtain ⟨hpoint, hentry⟩ := l.shared s hs i hi
    have hcr3 := g.kept (.nil l.forest.active) (hentry ▸ hpoint)
    rw [g.kept (.nil hs) hpoint, g.cr3, hcr3]
    exact ⟨hpoint, hentry⟩
  directory := by
    obtain ⟨D, hlow, hhigh⟩ := l.directory
    have hpath : TablePath [0, 0] ∧ TablePath [511, 510] :=
      ⟨⟨by decide, by decide, by decide⟩, ⟨by decide, by decide, by decide⟩⟩
    rw [g.cr3]
    exact ⟨D, (g.named (l.forest.named_active hpath.1 hlow)).table,
      (g.named (l.forest.named_active hpath.2 hhigh)).table⟩
  huge h hlen hj hpres hps := by
    obtain ⟨hold, hentry⟩ := g.huge h hlen hj hpres hps
    rw [hentry] at hpres hps ⊢
    exact l.huge hold hlen hj hpres hps

theorem PagePath.length_init (hp : PagePath p) (hsplit : p = r ++ j :: rest) (hrest : rest ≠ []) :
    r.length < 3 := by
  have hlen := hp.length
  have := List.length_pos_iff.mpr hrest
  rw [hsplit, List.length_append, List.length_cons] at hlen
  omega

/-- Added tables bring no huge pages. -/
theorem Grows.clear (g : Grows spaces m m') (hs : s ∈ spaces) (hp : PagePath p)
    (h : Clear m.phys s p) : Clear m'.phys s p := by
  intro r j rest T hsplit hrest hT hpres
  by_contra hps
  obtain ⟨hold, hentry⟩ := g.huge ⟨hs, hp.tablePath hsplit, hT⟩ (hp.length_init hsplit hrest)
    (hp.lt j (by simp [hsplit])) hpres (by simpa using hps)
  rw [hentry] at hpres hps
  exact hps (h r j rest T hsplit hrest hold.table hpres)

/-! ### Calls for one page -/

/-- What a call for the page of `v` does: the translation of every page with this name
becomes `t`, in all address spaces, and no other translation changes. -/
structure Remaps (spaces : List Nat) (m m' : Machine) (v : Nat) (t : Option (Nat × Nat)) : Prop where
  layout : Layout spaces m'
  cr3 : m'.cr3 = m.cr3
  view : ∀ s ∈ spaces, ∀ p, PagePath p → view m'.phys s p =
    if tableName s p = tableName m.cr3 (indices v) then t else view m.phys s p
  clear : ∀ p, PagePath p → Clear m.phys m.cr3 p → Clear m'.phys m.cr3 p
  tables : ∀ {s p T}, Named m'.phys spaces s p T → Named m.phys spaces s p T ∨ T ∈ m.pmm.freeSet
  free : m'.pmm.freeSet ⊆ m.pmm.freeSet

section PageTableEntry

variable {w : Nat} (l : Layout spaces m) (hG : Named m.phys spaces s [a, b, c] G)

include l hG

theorem Layout.setWord : Layout spaces (m.setWord G d w) := by
  have hkeep : ∀ {s' p F j}, Named m.phys spaces s' p F → p.length < 3 →
      (m.setWord G d w).phys F j = m.phys F j := fun h hlen => l.forest.setWord_phys hG rfl h hlen
  have hcr3 : (m.setWord G d w).cr3 = m.cr3 := rfl
  refine ⟨l.forest.setWord hG rfl, fun s' hs i hi => ?_, ?_, fun {s' p T j} h hlen hj hpres hps => ?_⟩
  · rw [hcr3, hkeep (.nil hs) (by simp), hkeep (.nil l.forest.active) (by simp)]
    exact l.shared s' hs i hi
  · obtain ⟨D, hlow, hhigh⟩ := l.directory
    refine ⟨D, ?_, ?_⟩
    · rw [hcr3, l.forest.tableAt_setWord hG rfl l.forest.active ⟨by decide, by decide, by decide⟩,
        hlow]
    · rw [hcr3, l.forest.tableAt_setWord hG rfl l.forest.active ⟨by decide, by decide, by decide⟩,
        hhigh]
  · have hold := (l.forest.named_setWord hG rfl).mp h
    rw [hkeep hold hlen] at hpres hps ⊢
    exact l.huge hold hlen hj hpres hps

/-- Storing an entry of a page table is a call for the page of the entry. -/
theorem Layout.remaps_setWord (hs : s = m.cr3) (hind : indices v = [a, b, c, d]) :
    Remaps spaces m (m.setWord G d w) v
      (if present w then some (Leaf.view ⟨w, frameOf w⟩) else none) where
  layout := l.setWord hG
  cr3 := rfl
  view s' hs' p hp := by
    obtain ⟨hnew, hold⟩ := l.forest.lookup_setWord (i := d) (w := w) hG rfl hs'
    have hname : tableName m.cr3 (indices v) =
        ((tableName s [a, b, c]).1, (tableName s [a, b, c]).2 ++ [d]) := by
      rw [hind, ← hs]
      exact tableName_concat s d (p := [a, b, c]) (by simp)
    by_cases hsame : tableName s' p = tableName m.cr3 (indices v)
    · -- the page has the name of the entry, so its page table is the same
      rw [if_pos hsame]
      obtain ⟨r, d', rfl⟩ : ∃ r d', p = r ++ [d'] := by
        have hne : p ≠ [] := by
          rintro rfl
          exact absurd hp.length (by simp)
        exact ⟨_, _, (List.dropLast_append_getLast hne).symm⟩
      have hr : 2 ≤ r.length := by
        have := hp.length
        rw [List.length_append, List.length_singleton] at this
        omega
      rw [tableName_concat s' d' hr, hname, Prod.mk.injEq] at hsame
      obtain ⟨hfst, hconcat⟩ := hsame
      obtain ⟨hsnd, hlast⟩ := List.append_inj' hconcat rfl
      obtain rfl : d' = d := by simpa using hlast
      have htable := l.tableAt_eq hs' hG.root (Prod.ext hfst hsnd)
      rw [view, hnew r (hp.tablePath rfl) (htable.trans hG.table)]
      split_ifs <;> rfl
    · rw [if_neg hsame, view, view, hold p hp fun r hsplit hr => hsame ?_]
      have hdistinct := l.forest.distinct ⟨hs', hp.tablePath hsplit, hr⟩ hG
      rw [hsplit, hind, ← hs]
      exact spaceNaming.concat d hdistinct
  clear p hp h r j rest T hsplit hrest hT hpres := by
    have hold : Named m.phys spaces m.cr3 r T :=
      (l.forest.named_setWord hG rfl).mp ⟨l.forest.active, hp.tablePath hsplit, hT⟩
    rw [l.forest.setWord_phys hG rfl hold (hp.length_init hsplit hrest)] at hpres ⊢
    exact h r j rest T hsplit hrest hold.table hpres
  tables h := .inl ((l.forest.named_setWord hG rfl).mp h)
  free := subset_rfl

end PageTableEntry

/-- Tables are added before the call. -/
theorem Grows.remaps {t : Option (Nat × Nat)} (hs : m.cr3 ∈ spaces) (g : Grows spaces m m')
    (h : Remaps spaces m' m'' v t) : Remaps spaces m m'' v t where
  layout := h.layout
  cr3 := h.cr3.trans g.cr3
  view s hs p hp := by rw [h.view s hs p hp, g.cr3, g.view s hs p hp]
  clear p hp hclear := by
    rw [← g.cr3]
    exact h.clear p hp (g.clear (g.cr3 ▸ hs) hp (g.cr3 ▸ hclear))
  tables hT := by
    rcases h.tables hT with hT | hT
    · exact g.tables hT
    · exact .inr (g.free hT)
  free := h.free.trans g.free

/-- There is no huge page on the way to a page that has a page table. -/
theorem clear_of_table (hG : tableAt phys s q = some G) : Clear phys s (q ++ [d]) := by
  intro r j rest T hsplit hrest hT _
  obtain ⟨rest', d', rfl⟩ : ∃ rest' d', rest = rest' ++ [d'] :=
    ⟨_, _, (List.dropLast_append_getLast hrest).symm⟩
  rw [← List.cons_append, ← List.append_assoc] at hsplit
  obtain ⟨rfl, -⟩ := List.append_inj' hsplit rfl
  exact (pointsTo_of_tableAt hG hT).2

/-- The huge pages are in a directory that all address spaces share. -/
theorem Layout.clear_of_clear (l : Layout spaces m) (hs : s ∈ spaces) (hs' : s' ∈ spaces)
    (hp : PagePath p) (h : Clear m.phys s p) : Clear m.phys s' p := by
  intro r j rest T hsplit hrest hT hpres
  by_contra hps
  obtain ⟨hdir, -⟩ := l.huge ⟨hs', hp.tablePath hsplit, hT⟩ (hp.length_init hsplit hrest)
    (hp.lt j (by simp [hsplit])) hpres (by simpa using hps)
  have hname : tableName s' r = tableName s r := by
    rcases hdir with rfl | rfl <;> rfl
  rw [l.tableAt_eq hs' hs hname] at hT
  exact hps (h r j rest T hsplit hrest hT hpres)

theorem Layout.mapPage (physicalAddr flags : Nat) (l : Layout spaces m)
    (hv : v / 2 ^ 39 % 512 ≠ recursiveIndex)
    (hneeds : missing m.phys m.cr3 (indices v) ≤ m.pmm.freeSet.card) :
    ∃ m', m.mapPage v physicalAddr flags = some m' ∧
      Remaps spaces m m' v (some (pageView physicalAddr flags)) ∧ Clear m'.phys m.cr3 (indices v) := by
  obtain ⟨a, b, c, d, hind⟩ : ∃ a b c d, indices v = [a, b, c, d] := ⟨_, _, _, _, rfl⟩
  have hp : PagePath [a, b, c, d] := hind ▸ pagePath_indices hv
  rw [hind] at hneeds
  obtain ⟨m₁, G, f, g, -, hG, hrun, -⟩ :=
    mapPage_forest physicalAddr flags l.forest hind hp hneeds (l.splittable hp)
  have l₁ := l.grows f g
  have hremaps := l₁.remaps_setWord (w := pageEntry physicalAddr flags) hG g.cr3.symm hind
  rw [present_pageEntry, if_pos rfl] at hremaps
  refine ⟨_, hrun, g.remaps l.forest.active hremaps, ?_⟩
  rw [hind, ← g.cr3]
  exact hremaps.clear _ hp (clear_of_table (q := [a, b, c]) (g.cr3 ▸ hG.table))

/-- `unmapPage` in terms of the names of the tables. -/
theorem unmapPage_eq (hind : indices v = [a, b, c, d]) :
    m.unmapPage v = (m.readWord (virtOf []) a).bind fun entry =>
      if present entry then (m.readWord (virtOf [a]) b).bind fun entry =>
        if present entry then (m.readWord (virtOf [a, b]) c).bind fun entry =>
          if present entry then m.writeWord (virtOf [a, b, c]) d 0 else some m
        else some m
      else some m := by
  rw [← indices_page] at hind
  simp only [indices, List.cons.injEq, and_true] at hind
  obtain ⟨ha, hb, hc, hd⟩ := hind
  simp only [unmapPage, ha, hb, hc, hd]
  rfl

/-- `unmapPage` for a page without a huge page on its way: a page table is missing and
nothing happens, or the entry is cleared. -/
theorem unmapPage_forest {ν : Naming κ} (f : Forest ν spaces m) (hind : indices v = [a, b, c, d])
    (hp : PagePath [a, b, c, d]) (hclear : Clear m.phys m.cr3 [a, b, c, d]) :
    m.unmapPage v = some m ∧ lookup m.phys m.cr3 [a, b, c, d] = none ∨
      ∃ G, Named m.phys spaces m.cr3 [a, b, c] G ∧ m.unmapPage v = some (m.setWord G d 0) := by
  have hread : ∀ {q T i}, TablePath q → tableAt m.phys m.cr3 q = some T → i < 512 →
      m.readWord (virtOf q) i = some (m.phys T i) := readWord_virtOf f.self_active
  have hlt : ∀ {i}, i ∈ [a, b, c, d] → i < 512 := fun h => hp.lt _ h
  rw [unmapPage_eq hind, hread .nil rfl (hlt (by simp)), Option.bind_some]
  by_cases hpa : present (m.phys m.cr3 a) = true
  swap
  · rw [if_neg hpa]
    exact .inl ⟨rfl, lookup_of_not_present (by simpa using hpa)⟩
  have hta : tableAt m.phys m.cr3 [a] = some (frameOf (m.phys m.cr3 a)) :=
    tableAt_cons_of_pointsTo ⟨hpa, hclear [] a [b, c, d] _ rfl (by simp) rfl hpa⟩
  rw [if_pos hpa, hread (hp.tablePath (r := [a]) rfl) hta (hlt (by simp)), Option.bind_some]
  set T₁ := frameOf (m.phys m.cr3 a)
  by_cases hpb : present (m.phys T₁ b) = true
  swap
  · rw [if_neg hpb]
    refine .inl ⟨rfl, ?_⟩
    change lookup m.phys m.cr3 ([a] ++ [b, c, d]) = none
    rw [lookup_append hta (by simp)]
    exact lookup_of_not_present (by simpa using hpb)
  have hpointb : pointsTo (m.phys T₁ b) := ⟨hpb, hclear [a] b [c, d] _ rfl (by simp) hta hpb⟩
  have htb : tableAt m.phys m.cr3 ([a] ++ [b]) = some (frameOf (m.phys T₁ b)) := by
    rw [tableAt_concat hta, if_pos hpointb]
  rw [if_pos hpb, hread (hp.tablePath (r := [a, b]) rfl) htb (hlt (by simp)), Option.bind_some]
  set T₂ := frameOf (m.phys T₁ b)
  by_cases hpc : present (m.phys T₂ c) = true
  swap
  · rw [if_neg hpc]
    refine .inl ⟨rfl, ?_⟩
    change lookup m.phys m.cr3 (([a] ++ [b]) ++ [c, d]) = none
    rw [lookup_append htb (by simp)]
    exact lookup_of_not_present (by simpa using hpc)
  have hpointc : pointsTo (m.phys T₂ c) := ⟨hpc, hclear [a, b] c [d] _ rfl (by simp) htb hpc⟩
  have htc : tableAt m.phys m.cr3 ([a] ++ [b] ++ [c]) = some (frameOf (m.phys T₂ c)) := by
    rw [tableAt_concat htb, if_pos hpointc]
  have hq : TablePath [a, b, c] := hp.tablePath (r := [a, b, c]) rfl
  rw [if_pos hpc]
  exact .inr ⟨_, ⟨f.active, hq, htc⟩,
    writeWord_virtOf f.self_active hq htc (hlt (by simp)) 0⟩

theorem Layout.unmapPage (l : Layout spaces m) (hv : v / 2 ^ 39 % 512 ≠ recursiveIndex)
    (hclear : Clear m.phys m.cr3 (indices v)) :
    ∃ m', m.unmapPage v = some m' ∧ Remaps spaces m m' v none := by
  obtain ⟨a, b, c, d, hind⟩ : ∃ a b c d, indices v = [a, b, c, d] := ⟨_, _, _, _, rfl⟩
  have hp : PagePath [a, b, c, d] := hind ▸ pagePath_indices hv
  rcases unmapPage_forest l.forest hind hp (hind ▸ hclear) with ⟨hrun, hnone⟩ | ⟨G, hG, hrun⟩
  · refine ⟨m, hrun, l, rfl, fun s hs p hpage => ?_, fun _ _ h => h, .inl, subset_rfl⟩
    split_ifs with hsame
    · rw [l.view_eq hs l.forest.active hpage (pagePath_indices hv) hsame, hind, view, hnone]
      rfl
    · rfl
  · exact ⟨_, hrun, l.remaps_setWord (w := 0) hG rfl hind⟩

/-! ### A frame outside the tables -/

/-- The frame is no table of any address space. -/
def Outside (spaces : List Nat) (m : Machine) (N : Nat) : Prop := ∀ s p, ¬ Named m.phys spaces s p N

/-- The machine with other contents of a frame. -/
def Machine.withFrame (m : Machine) (N : Nat) (words : Nat → Nat) : Machine :=
  { m with phys := Function.update m.phys N words }

section WithFrame

variable {words : Nat → Nat} (hout : Outside spaces m N)

include hout

theorem Outside.ne (hF : Named m.phys spaces s p F) : F ≠ N := by
  rintro rfl
  exact hout s p hF

theorem Outside.withFrame_phys (words : Nat → Nat) (hF : Named m.phys spaces s p F) :
    (m.withFrame N words).phys F = m.phys F := update_of_ne (hout.ne hF) _ _

theorem Outside.sameAlong (hs : s ∈ spaces) (hpaths : ∀ r j rest, p = r ++ j :: rest → TablePath r) :
    SameAlong m.phys (m.withFrame N words).phys s p := fun r j rest _ hsplit hF =>
  congrFun (hout.withFrame_phys _ ⟨hs, hpaths r j rest hsplit, hF⟩) j

theorem Outside.tableAt_withFrame (hs : s ∈ spaces) (hp : TablePath p) :
    tableAt (m.withFrame N words).phys s p = tableAt m.phys s p :=
  (walk_congr (hout.sameAlong hs fun _ _ _ => hp.init)).1

theorem Outside.named_withFrame :
    Named (m.withFrame N words).phys spaces s p T ↔ Named m.phys spaces s p T := by
  constructor
  · rintro ⟨hs, hp, hT⟩
    exact ⟨hs, hp, hout.tableAt_withFrame hs hp ▸ hT⟩
  · rintro ⟨hs, hp, hT⟩
    exact ⟨hs, hp, (hout.tableAt_withFrame hs hp).symm ▸ hT⟩

theorem Outside.view_withFrame (words : Nat → Nat) (hs : s ∈ spaces) (hp : PagePath p) :
    view (m.withFrame N words).phys s p = view m.phys s p :=
  congrArg (Option.map Leaf.view) (walk_congr (hout.sameAlong hs fun _ _ _ => hp.tablePath)).2

theorem Outside.clear (hs : s ∈ spaces) (hp : PagePath p) (h : Clear m.phys s p) :
    Clear (m.withFrame N words).phys s p := by
  intro r j rest T hsplit hrest hT hpres
  have hold : Named m.phys spaces s r T := hout.named_withFrame.mp ⟨hs, hp.tablePath hsplit, hT⟩
  rw [hout.withFrame_phys _ hold] at hpres ⊢
  exact h r j rest T hsplit hrest hold.table hpres

theorem Outside.forest {κ : Type} {ν : Naming κ} (f : Forest ν spaces m) :
    Forest ν spaces (m.withFrame N words) where
  active := f.active
  self s hs := by
    rw [SelfMapped, hout.withFrame_phys _ (.nil hs)]
    exact f.self s hs
  distinct h h' := f.distinct (hout.named_withFrame.mp h) (hout.named_withFrame.mp h')
  used h := f.used (hout.named_withFrame.mp h)
  frames := f.frames

theorem Outside.layout (l : Layout spaces m) : Layout spaces (m.withFrame N words) := by
  have hroot : ∀ {s}, s ∈ spaces → (m.withFrame N words).phys s = m.phys s := fun hs =>
    hout.withFrame_phys _ (.nil hs)
  have hcr3 : (m.withFrame N words).cr3 = m.cr3 := rfl
  refine ⟨hout.forest l.forest, fun s hs i hi => ?_, ?_, fun h hlen hj hpres hps => ?_⟩
  · rw [hcr3, hroot hs, hroot l.forest.active]
    exact l.shared s hs i hi
  · obtain ⟨D, hlow, hhigh⟩ := l.directory
    refine ⟨D, ?_, ?_⟩
    · rw [hcr3, hout.tableAt_withFrame l.forest.active ⟨by decide, by decide, by decide⟩, hlow]
    · rw [hcr3, hout.tableAt_withFrame l.forest.active ⟨by decide, by decide, by decide⟩, hhigh]
  · have hold := hout.named_withFrame.mp h
    rw [hout.withFrame_phys _ hold] at hpres hps ⊢
    exact l.huge hold hlen hj hpres hps

end WithFrame

/-- The PMM may change as long as it has no table for free. -/
theorem Forest.with_pmm {ν : Naming κ} {pmm : Pmm} (f : Forest ν spaces m)
    (hfree : ∀ {s p T}, Named m.phys spaces s p T → T ∉ pmm.freeSet)
    (hframes : pmm.totalFrames ≤ 2 ^ 40) : Forest ν spaces { m with pmm } :=
  ⟨f.active, f.self, f.distinct, hfree, hframes⟩

theorem Forest.take {ν : Naming κ} (f : Forest ν spaces m) (N : Nat) :
    Forest ν spaces { m with pmm := m.pmm.take N } := by
  refine f.with_pmm (fun hT => ?_) f.frames
  rw [freeSet_take]
  exact fun h => f.used hT (mem_of_mem_erase h)

theorem Layout.with_pmm {pmm : Pmm} (l : Layout spaces m)
    (hfree : ∀ {s p T}, Named m.phys spaces s p T → T ∉ pmm.freeSet)
    (hframes : pmm.totalFrames ≤ 2 ^ 40) : Layout spaces { m with pmm } :=
  ⟨l.forest.with_pmm hfree hframes, l.shared, l.directory, l.huge⟩

theorem Layout.take (l : Layout spaces m) (N : Nat) :
    Layout spaces { m with pmm := m.pmm.take N } :=
  ⟨l.forest.take N, l.shared, l.directory, l.huge⟩

/-- Every address space may be the current one. -/
theorem Layout.switch {cr3 : Nat} (l : Layout spaces m) (hcr3 : cr3 ∈ spaces) :
    Layout spaces { m with cr3 } := by
  refine ⟨⟨hcr3, l.forest.self, l.forest.distinct, l.forest.used, l.forest.frames⟩,
    fun s hs i hi => ?_, ?_, l.huge⟩
  · obtain ⟨hpoint, hentry⟩ := l.shared s hs i hi
    exact ⟨hpoint, hentry.trans (l.shared cr3 hcr3 i hi).2.symm⟩
  · obtain ⟨D, hlow, hhigh⟩ := l.directory
    refine ⟨D, ?_, ?_⟩
    · exact (l.tableAt_eq hcr3 l.forest.active (p := [0, 0]) rfl).trans hlow
    · exact (l.tableAt_eq hcr3 l.forest.active (p := [511, 510]) rfl).trans hhigh

/-! ### A new address space -/

/-- A frame with the entries of a new PML4. -/
structure NewPlm4 (m : Machine) (N : Nat) : Prop where
  self : SelfMapped m.phys N
  copied : ∀ i, i = 0 ∨ i = 511 → m.phys N i = m.phys m.cr3 i
  empty : ∀ i < 512, i ≠ 0 → i ≠ 510 → i ≠ 511 → m.phys N i = 0

/-- The tables of the new address space are those it shares with the current one. -/
theorem NewPlm4.named_cases (h : NewPlm4 m N) (hcr3 : m.cr3 ∈ spaces)
    (hT : Named m.phys (N :: spaces) s p T) :
    (s = N ∧ p = [] ∧ T = N) ∨
      ∃ s', Named m.phys spaces s' p T ∧ tableName s p = tableName s' p := by
  rcases List.mem_cons.mp hT.root with rfl | hs
  swap
  · exact .inr ⟨s, ⟨hs, hT.path, hT.table⟩, rfl⟩
  cases p with
  | nil => exact .inl ⟨rfl, rfl, (Option.some.inj hT.table).symm⟩
  | cons i rest =>
    have hi := hT.path.lt i (by simp)
    have hne : i ≠ 510 := by
      rintro rfl
      exact hT.path.head rfl
    have hpoint := (tableAt_cons_eq_some.mp hT.table).1
    have hshared : i = 0 ∨ i = 511 := by
      by_contra hnot
      rw [not_or] at hnot
      rw [h.empty i hi hnot.1 hne hnot.2] at hpoint
      exact absurd hpoint (by decide)
    refine .inr ⟨m.cr3, ⟨hcr3, hT.path, ?_⟩, ?_⟩
    · rw [← (walk_cons_congr rest (h.copied i hshared)).1, hT.table]
    · simp [tableName, hshared]

theorem Layout.cons (l : Layout spaces m) (hout : Outside spaces m N) (hused : N ∉ m.pmm.freeSet)
    (h : NewPlm4 m N) : Layout (N :: spaces) m where
  forest :=
    { active := List.mem_cons_of_mem _ l.forest.active
      self := fun s hs => by
        rcases List.mem_cons.mp hs with rfl | hs
        · exact h.self
        · exact l.forest.self s hs
      distinct := fun hT hT' => by
        rcases h.named_cases l.forest.active hT with ⟨rfl, rfl, rfl⟩ | ⟨s₁, h₁, hname⟩
        · rcases h.named_cases l.forest.active hT' with ⟨rfl, rfl, -⟩ | ⟨s₂, h₂, -⟩
          · rfl
          · exact absurd h₂ (hout _ _)
        · rcases h.named_cases l.forest.active hT' with ⟨-, -, rfl⟩ | ⟨s₂, h₂, hname'⟩
          · exact absurd h₁ (hout _ _)
          · exact hname.trans ((l.forest.distinct h₁ h₂).trans hname'.symm)
      used := fun hT => by
        rcases h.named_cases l.forest.active hT with ⟨-, -, rfl⟩ | ⟨s₁, h₁, -⟩
        · exact hused
        · exact l.forest.used h₁
      frames := l.forest.frames }
  shared s hs i hi := by
    rcases List.mem_cons.mp hs with rfl | hs
    · rw [h.copied i hi]
      exact ⟨(l.shared _ l.forest.active i hi).1, rfl⟩
    · exact l.shared s hs i hi
  directory := l.directory
  huge {s p T j} hT hlen hj hpres hps := by
    rcases h.named_cases l.forest.active hT with ⟨-, rfl, rfl⟩ | ⟨s₁, h₁, -⟩
    · -- the entries of a new PML4 point to tables or are empty
      exfalso
      by_cases hshared : j = 0 ∨ j = 511
      · rw [h.copied j hshared, (l.shared _ l.forest.active j hshared).1.2] at hps
        cases hps
      · rw [not_or] at hshared
        by_cases hrec : j = 510
        · subst hrec
          exact Bool.false_ne_true (h.self.1.2.symm.trans hps)
        · rw [h.empty j hj hshared.1 hrec hshared.2] at hpres
          cases hpres
    · exact l.huge h₁ hlen hj hpres hps

/-- The frame of a new PML4. -/
theorem Forest.lt_of_free {ν : Naming κ} (f : Forest ν spaces m) (hN : N ∈ m.pmm.freeSet) :
    N < 2 ^ 40 :=
  (mem_clearBits.mp hN).1.trans_le f.frames

theorem indices_scratchVirt : indices scratchVirt = [511, 511, 48, 0] := by decide

theorem scratchVirt_eq : scratchVirt = tableVirt 511 511 48 0 := by decide

/-- While the scratch page maps a frame, all its words are accessible there. -/
theorem Forest.access_scratch {ν : Naming κ} {flags : Nat} (f : Forest ν spaces m)
    (hout : Outside spaces m N) (hview : view m.phys m.cr3 (indices scratchVirt) = some (N, flags))
    (words : Nat → Nat) (hk : k < 512) :
    (m.withFrame N words).access (wrap (scratchVirt + 8 * k)) = some N ∧
      wrap (scratchVirt + 8 * k) % 4096 / 8 = k := by
  have h511 : 511 < 512 := by decide
  have h48 : 48 < 512 := by decide
  have h0 : 0 < 512 := by decide
  obtain ⟨hwrap, hcanon, hind, hoff⟩ := tableVirt_spec h511 h511 h48 h0 hk
  rw [← scratchVirt_eq] at hwrap hcanon hind hoff
  rw [hwrap]
  refine ⟨?_, hoff⟩
  have hp : PagePath (indices scratchVirt) := pagePath_indices (by decide)
  rw [← hout.view_withFrame words f.active hp] at hview
  obtain ⟨leaf, hleaf, hframe⟩ := Option.map_eq_some_iff.mp hview
  rw [access, if_pos hcanon, walk, hind, ← indices_scratchVirt]
  change (lookup (m.withFrame N words).phys m.cr3 (indices scratchVirt)).map Leaf.frame = some N
  rw [hleaf]
  exact congrArg some (Prod.ext_iff.mp hframe).1

/-- The contents of the new PML4, as `createAddressSpace` writes them. -/
def plm4Words (m : Machine) (N : Nat) : Nat → Nat :=
  Function.update (Function.update (Function.update (fun i => if i < 512 then 0 else m.phys N i)
    0 (m.phys m.cr3 0)) recursiveIndex (N * frameSize ||| pagePresent ||| pageWritable))
    kernelPlm4Index (m.phys m.cr3 kernelPlm4Index)

/-- Storing an entry of a page table does not touch a new PML4. -/
theorem NewPlm4.setWord {w : Nat} (h : NewPlm4 m N) (hN : N ≠ G) (hcr3 : m.cr3 ≠ G) :
    NewPlm4 (m.setWord G d w) N := by
  have hphys : ∀ {F}, F ≠ G → (m.setWord G d w).phys F = m.phys F := fun hF =>
    update_of_ne hF _ _
  refine ⟨?_, fun i hi => ?_, fun i hi h0 hr hk => ?_⟩
  · rw [SelfMapped, hphys hN]
    exact h.self
  · change (m.setWord G d w).phys N i = (m.setWord G d w).phys m.cr3 i
    rw [hphys hN, hphys hcr3]
    exact h.copied i hi
  · rw [hphys hN]
    exact h.empty i hi h0 hr hk

theorem newPlm4_withFrame (hN : N < 2 ^ 40) (hne : m.cr3 ≠ N) :
    NewPlm4 (m.withFrame N (plm4Words m N)) N := by
  have hwords : (m.withFrame N (plm4Words m N)).phys N = plm4Words m N := update_self ..
  have hcr3 : (m.withFrame N (plm4Words m N)).phys m.cr3 = m.phys m.cr3 :=
    update_of_ne hne _ _
  have hrec : plm4Words m N recursiveIndex = N * frameSize ||| (pagePresent ||| pageWritable) := by
    rw [← Nat.or_assoc]
    simp [plm4Words, recursiveIndex, kernelPlm4Index]
  refine ⟨?_, fun i hi => ?_, fun i hi h0 hr hk => ?_⟩
  · rw [SelfMapped, hwords, hrec]
    have hflags : pagePresent ||| pageWritable < 128 := by decide
    obtain ⟨hpres, hps, hframe⟩ := frame_or_spec hN hflags (by decide)
    exact ⟨⟨hpres, hps⟩, hframe⟩
  · change (m.withFrame N (plm4Words m N)).phys N i = (m.withFrame N (plm4Words m N)).phys m.cr3 i
    rw [hwords, hcr3]
    rcases hi with rfl | rfl <;> simp [plm4Words, recursiveIndex, kernelPlm4Index]
  · rw [hwords]
    simp [plm4Words, recursiveIndex, kernelPlm4Index, h0, hr, hk, hi]

section Scratch

variable {κ : Type} {ν : Naming κ} {words : Nat → Nat} {flags : Nat} (f : Forest ν spaces m)
  (hout : Outside spaces m N) (hview : view m.phys m.cr3 (indices scratchVirt) = some (N, flags))

include f hout

theorem Forest.readWord_pml4Virt (hi : i < 512) :
    (m.withFrame N words).readWord pml4Virt i = some (m.phys m.cr3 i) := by
  have f' : Forest ν spaces (m.withFrame N words) := hout.forest f
  have hread := readWord_virtOf (p := []) (k := i) f'.self_active .nil rfl hi
  rw [← hout.withFrame_phys words (.nil f.active)]
  exact hread

include hview

theorem Forest.writeWord_scratch (hk : k < 512) (value : Nat) :
    (m.withFrame N words).writeWord scratchVirt k value =
      some (m.withFrame N (Function.update words k value)) := by
  obtain ⟨haccess, hoff⟩ := f.access_scratch hout hview words hk
  rw [Machine.writeWord, haccess, hoff]
  simp [Machine.withFrame, Machine.setWord]

theorem Forest.fill_scratch :
    m.fill scratchVirt 512 (fun _ => 0) =
      some (m.withFrame N fun i => if i < 512 then 0 else m.phys N i) :=
  fill_eq le_rfl (fun _ => 0) fun words _ => f.access_scratch hout hview words

/-- The stores through the scratch page. -/
theorem Forest.write_plm4 {α : Type} (rest : Machine → Option α) :
    ((m.fill scratchVirt 512 fun _ => 0).bind fun m =>
      (m.readWord pml4Virt 0).bind fun low =>
      (m.writeWord scratchVirt 0 low).bind fun m =>
      (m.writeWord scratchVirt recursiveIndex (N * frameSize ||| pagePresent ||| pageWritable)).bind
        fun m =>
      (m.readWord pml4Virt kernelPlm4Index).bind fun high =>
      (m.writeWord scratchVirt kernelPlm4Index high).bind rest) =
        rest (m.withFrame N (plm4Words m N)) := by
  rw [f.fill_scratch hout hview, Option.bind_some, f.readWord_pml4Virt hout (by decide),
    Option.bind_some, f.writeWord_scratch hout hview (by decide), Option.bind_some,
    f.writeWord_scratch hout hview (by decide), Option.bind_some,
    f.readWord_pml4Virt hout (by decide), Option.bind_some,
    f.writeWord_scratch hout hview (by decide), Option.bind_some, plm4Words]

end Scratch

/-- `createAddressSpace` makes one more address space, and clears the scratch page. -/
theorem Layout.createAddressSpace (l : Layout spaces m)
    (hneeds : missing m.phys m.cr3 (indices scratchVirt) + 1 ≤ m.pmm.freeSet.card) :
    ∃ N ∈ m.pmm.freeSet, ∃ m', m.createAddressSpace = some (N * frameSize, m') ∧
      Remaps spaces m m' scratchVirt none ∧ Layout (N :: spaces) m' := by
  have hv : scratchVirt / 2 ^ 39 % 512 ≠ recursiveIndex := by decide
  have hp : PagePath (indices scratchVirt) := pagePath_indices hv
  obtain ⟨N, hN, halloc⟩ := allocFrame_eq (card_pos.mp (by omega : 0 < m.pmm.freeSet.card))
  have hlt := l.forest.lt_of_free hN
  have l₁ := l.take N
  have hneeds₁ : missing m.phys m.cr3 (indices scratchVirt) ≤ (m.pmm.take N).freeSet.card := by
    rw [freeSet_take, card_erase_of_mem hN]
    omega
  -- the scratch page maps the new frame, which is not a table
  obtain ⟨m₂, hmap, r₂, hclear₂⟩ := l₁.mapPage (N * frameSize) pageWritable hv hneeds₁
  have l₂ := r₂.layout
  have hout : Outside spaces m₂ N := fun s p hT => by
    rcases r₂.tables hT with hT | hT
    · exact l.forest.used hT hN
    · rw [freeSet_take] at hT
      exact ne_of_mem_erase hT rfl
  have hview : view m₂.phys m₂.cr3 (indices scratchVirt) =
      some (N, (pageView (N * frameSize) pageWritable).2) := by
    have haddr : N * frameSize < 2 ^ 52 := by
      simp only [frameSize]
      omega
    have hframe : frameOf (pageEntry (N * frameSize) pageWritable) = N * frameSize / pageSize :=
      (pageEntry_spec (Dvd.intro_left N rfl) haddr (by decide)).2
    rw [r₂.view _ l₂.forest.active _ hp, r₂.cr3, if_pos rfl]
    refine congrArg some (Prod.ext ?_ rfl)
    exact hframe.trans (Nat.mul_div_cancel N (by decide))
  -- it is filled, and unmapped again
  set m₃ := m₂.withFrame N (plm4Words m₂ N) with hm₃
  have l₃ : Layout spaces m₃ := hout.layout l₂
  have hview₃ : view m₃.phys m₃.cr3 (indices scratchVirt) =
      some (N, (pageView (N * frameSize) pageWritable).2) :=
    (hout.view_withFrame _ l₂.forest.active hp).trans hview
  have hcr3 : m₃.cr3 = m.cr3 := r₂.cr3
  have hclear : Clear m₃.phys m₃.cr3 (indices scratchVirt) :=
    hout.clear l₂.forest.active hp (hcr3 ▸ hclear₂)
  obtain ⟨G, hG, hunmap⟩ : ∃ G, Named m₃.phys spaces m₃.cr3 [511, 511, 48] G ∧
      m₃.unmapPage scratchVirt = some (m₃.setWord G 0 0) := by
    rcases unmapPage_forest l₃.forest indices_scratchVirt (indices_scratchVirt ▸ hp)
      (indices_scratchVirt ▸ hclear) with ⟨-, hnone⟩ | h
    · rw [indices_scratchVirt, view, hnone] at hview₃
      cases hview₃
    · exact h
  have r₄ : Remaps spaces m₃ (m₃.setWord G 0 0) scratchVirt none :=
    l₃.remaps_setWord (w := 0) hG rfl indices_scratchVirt
  have hfree : (m.pmm.take N).freeSet ⊆ m.pmm.freeSet := by
    rw [freeSet_take]
    exact erase_subset _ _
  refine ⟨N, hN, _, ?_, ⟨r₄.layout, r₂.cr3, fun s hs p hpage => ?_, fun p hpage h => ?_,
    fun hT => ?_, r₂.free.trans hfree⟩, r₄.layout.cons (fun s p hT => ?_) (fun h => ?_) ?_⟩
  · rw [Machine.createAddressSpace, halloc]
    dsimp only
    rw [if_neg (noFrame_ne N).symm, hmap, Option.bind_some, l₂.forest.write_plm4 hout hview, ← hm₃,
      hunmap]
    rfl
  · rw [r₄.view s hs p hpage, hcr3, hout.view_withFrame _ hs hpage, r₂.view s hs p hpage]
    split_ifs <;> rfl
  · rw [← hcr3]
    exact r₄.clear p hpage (hout.clear l₂.forest.active hpage (r₂.cr3 ▸ r₂.clear p hpage h))
  · rcases r₄.tables hT with hT | hT
    · rcases r₂.tables (hout.named_withFrame.mp hT) with hT | hT
      · exact .inl hT
      · exact .inr (hfree hT)
    · exact .inr (hfree (r₂.free hT))
  · exact hout s p (hout.named_withFrame.mp ((l₃.forest.named_setWord hG rfl).mp hT))
  · have htaken := r₂.free h
    rw [freeSet_take] at htaken
    exact ne_of_mem_erase htaken rfl
  · have hGN : G ≠ N := hout.ne (hout.named_withFrame.mp hG)
    have hGcr3 : m₃.cr3 ≠ G := fun h =>
      absurd (l₃.forest.length_eq ⟨l₃.forest.active, .nil, congrArg some h⟩ hG) (by simp)
    exact (newPlm4_withFrame hlt (hout.ne (.nil l₂.forest.active))).setWord hGN.symm hGcr3

end WengShiOS.Mm
