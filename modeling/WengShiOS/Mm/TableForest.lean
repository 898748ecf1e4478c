import WengShiOS.Mm.PageTree

/-! # Page tables that share tables

An address space is the frame of its PML4. Several of them may share tables, and one
of them may have several names for a table; a `Naming` says which names may mean the
same table. All names of a table have the same length, so no table is above itself.

`mapPage` in such a forest: each of the three tables on the way is there, or is taken
from the PMM and installed, empty or as the split of a 2 MiB page. Installing a table
keeps every translation of every address space (`Grows`), and the final store changes
the walks that end in the same entry of the same page table (`Forest.lookup_setWord`). -/

namespace WengShiOS.Mm

open Math Function Finset Machine Pmm

/-- How the tables of the address spaces are identified: by the PML4 and the indices
that lead to them, except that some of these names are the same. -/
structure Naming (κ : Type) where
  name : Nat → List Nat → κ
  length_eq : ∀ {s s' p p'}, name s p = name s' p' → p.length = p'.length
  concat : ∀ {s s' p p'} (i : Nat), name s p = name s' p' → name s (p ++ [i]) = name s' (p' ++ [i])

variable {κ : Type} {ν : Naming κ} {roots : List Nat} {m m' m'' : Machine}
  {phys phys' : Nat → Nat → Nat} {s s' T G F i j k : Nat} {p q r rest : List Nat}

/-- The indices `p` lead to the table `T` in the address space `s`. -/
structure Named (phys : Nat → Nat → Nat) (roots : List Nat) (s : Nat) (p : List Nat) (T : Nat) :
    Prop where
  root : s ∈ roots
  path : TablePath p
  table : tableAt phys s p = some T

/-- The address spaces of a machine. Each one maps its own PML4, a table has one name
up to the naming, and is not free in the PMM. Physical addresses have 52 bits. -/
structure Forest (ν : Naming κ) (roots : List Nat) (m : Machine) : Prop where
  active : m.cr3 ∈ roots
  self : ∀ s ∈ roots, SelfMapped m.phys s
  distinct : ∀ {s s' p p' T}, Named m.phys roots s p T → Named m.phys roots s' p' T →
    ν.name s p = ν.name s' p'
  used : ∀ {s p T}, Named m.phys roots s p T → T ∉ m.pmm.freeSet
  frames : m.pmm.totalFrames ≤ 2 ^ 40

/-- The indices of a page outside the recursive slot. -/
structure PagePath (p : List Nat) : Prop where
  length : p.length = 4
  head : p.head? ≠ some recursiveIndex
  lt : ∀ i ∈ p, i < 512

/-- What the walk along `p` yields, as far as the processor uses it. -/
def view (phys : Nat → Nat → Nat) (root : Nat) (p : List Nat) : Option (Nat × Nat) :=
  (lookup phys root p).map Leaf.view

/-- The number of tables that are missing along a walk. -/
def missing (phys : Nat → Nat → Nat) (table : Nat) : List Nat → Nat
  | [] => 0
  | i :: rest =>
    if rest = [] then 0
    else if pointsTo (phys table i) then missing phys (frameOf (phys table i)) rest
    else rest.length

/-- There is no huge page on the way, except for a 2 MiB page with an aligned base. -/
def Splittable (phys : Nat → Nat → Nat) (table : Nat) : List Nat → Prop
  | [] | [_] => True
  | [i, _] => present (phys table i) = true → pageSizeBit (phys table i) = true →
      512 ∣ frameOf (phys table i)
  | i :: rest => present (phys table i) = true →
      pageSizeBit (phys table i) = false ∧ Splittable phys (frameOf (phys table i)) rest

/-! ### Names -/

theorem TablePath.nil : TablePath [] := ⟨by simp, by simp, by simp⟩

theorem TablePath.of_prefix (hp : TablePath p) (hr : r <+: p) : TablePath r where
  length := hr.length_le.trans hp.length
  head := by
    obtain ⟨s, rfl⟩ := hr
    cases r with
    | nil => simp
    | cons i r => simpa using hp.head
  lt i hi := hp.lt i (hr.subset hi)

/-- The tables on the way to an entry of a page have names. -/
theorem PagePath.tablePath (hp : PagePath p) (hr : p = r ++ i :: rest) : TablePath r where
  length := by
    have := hp.length
    rw [hr, List.length_append, List.length_cons] at this
    omega
  head := by
    have := hp.head
    rw [hr] at this
    cases r with
    | nil => simp
    | cons i r => simpa using this
  lt j hj := hp.lt j (by simp [hr, hj])

theorem TablePath.init (hp : TablePath p) (hr : p = r ++ i :: rest) : TablePath r :=
  hp.of_prefix ⟨i :: rest, hr.symm⟩

/-- The entries on the way to a table point to tables. -/
theorem pointsTo_of_tableAt (hT : tableAt phys s (r ++ j :: rest) = some T)
    (hF : tableAt phys s r = some F) : pointsTo (phys F j) := by
  rw [tableAt_append, hF] at hT
  exact (tableAt_cons_eq_some.mp hT).1

theorem Named.nil (hs : s ∈ roots) : Named phys roots s [] s := ⟨hs, .nil, rfl⟩

theorem Forest.length_eq {p' : List Nat} (f : Forest ν roots m) (h : Named m.phys roots s p T)
    (h' : Named m.phys roots s' p' T) : p.length = p'.length :=
  ν.length_eq (f.distinct h h')

theorem Forest.self_active (f : Forest ν roots m) : SelfMapped m.phys m.cr3 := f.self _ f.active

theorem Forest.named_active (f : Forest ν roots m) (hq : TablePath q)
    (hT : tableAt m.phys m.cr3 q = some T) : Named m.phys roots m.cr3 q T := ⟨f.active, hq, hT⟩

/-! ### Changing one entry -/

/-- The walk along `p` reads the entry `i` of the table `T`. -/
def Through (phys : Nat → Nat → Nat) (s : Nat) (p : List Nat) (T i : Nat) : Prop :=
  ∃ r rest, p = r ++ i :: rest ∧ tableAt phys s r = some T

/-- A change of one entry is seen only by the walks through it. -/
theorem sameAlong_of_not_through
    (hphys : ∀ r j rest F, p = r ++ j :: rest → tableAt phys s r = some F → ¬ (F = T ∧ j = i) →
      phys' F j = phys F j) (hp : ¬ Through phys s p T i) : SameAlong phys phys' s p := by
  intro r j rest F hsplit hF
  refine hphys r j rest F hsplit hF ?_
  rintro ⟨rfl, rfl⟩
  exact hp ⟨r, rest, hsplit, hF⟩

/-- The walk to a table does not read an entry at its own level or below. -/
theorem Forest.not_through (f : Forest ν roots m) (hT : Named m.phys roots s q T)
    (hs : s' ∈ roots) (hpaths : ∀ r j rest, p = r ++ j :: rest → TablePath r)
    (hlen : p.length ≤ q.length) : ¬ Through m.phys s' p T i := by
  rintro ⟨r, rest, hsplit, hr⟩
  have hlength := f.length_eq ⟨hs, hpaths r i rest hsplit, hr⟩ hT
  rw [hsplit, List.length_append, List.length_cons] at hlen
  omega

/-! ### Installing a table -/

/-- The entry of a table in frame `G`. -/
def tableEntry (G : Nat) : Nat := G * frameSize ||| pagePresent ||| pageWritable ||| pageUser

/-- The memory in which the entry `i` of table `T` points to the frame `G`, with the
given contents. -/
def installed (phys : Nat → Nat → Nat) (T i G : Nat) (words : Nat → Nat) : Nat → Nat → Nat :=
  Function.update (Function.update phys T (Function.update (phys T) i (tableEntry G))) G words

/-- A free frame may become the table that entry `i` of the table `q` lacks. -/
structure Installable (ν : Naming κ) (roots : List Nat) (m : Machine) (q : List Nat) (T i G : Nat) :
    Prop where
  forest : Forest ν roots m
  path : TablePath (q ++ [i])
  table : tableAt m.phys m.cr3 q = some T
  lacks : ¬ pointsTo (m.phys T i)
  free : G ∈ m.pmm.freeSet

/-- What is kept when tables are added. -/
structure Grows (roots : List Nat) (m m' : Machine) : Prop where
  cr3 : m'.cr3 = m.cr3
  view : ∀ s ∈ roots, ∀ p, PagePath p → view m'.phys s p = view m.phys s p
  /-- tables are not taken away -/
  kept : ∀ {s p T j}, Named m.phys roots s p T → pointsTo (m.phys T j) → m'.phys T j = m.phys T j
  /-- new tables were free frames -/
  tables : ∀ {s p T}, Named m'.phys roots s p T → Named m.phys roots s p T ∨ T ∈ m.pmm.freeSet
  /-- there are no new huge pages -/
  huge : ∀ {s p T j}, Named m'.phys roots s p T → p.length < 3 → j < 512 →
    present (m'.phys T j) = true → pageSizeBit (m'.phys T j) = true →
    Named m.phys roots s p T ∧ m'.phys T j = m.phys T j
  free : m'.pmm.freeSet ⊆ m.pmm.freeSet

theorem Grows.refl (roots : List Nat) (m : Machine) : Grows roots m m :=
  ⟨rfl, fun _ _ _ _ => rfl, fun _ _ => rfl, .inl, fun h _ _ _ _ => ⟨h, rfl⟩, subset_rfl⟩

/-- A table keeps its names. -/
theorem Grows.named (g : Grows roots m m') (h : Named m.phys roots s p T) :
    Named m'.phys roots s p T := by
  refine ⟨h.root, h.path, ?_⟩
  have hsame : SameAlong m.phys m'.phys s p := fun r j rest F hsplit hF =>
    g.kept ⟨h.root, h.path.init hsplit, hF⟩ (pointsTo_of_tableAt (hsplit ▸ h.table) hF)
  rw [(walk_congr hsame).1, h.table]

theorem Grows.trans (g : Grows roots m m') (g' : Grows roots m' m'') : Grows roots m m'' where
  cr3 := g'.cr3.trans g.cr3
  view s hs p hp := (g'.view s hs p hp).trans (g.view s hs p hp)
  kept h hpoint := by
    have hfirst := g.kept h hpoint
    rw [← hfirst]
    exact g'.kept (g.named h) (hfirst ▸ hpoint)
  tables h := by
    rcases g'.tables h with h | h
    · exact g.tables h
    · exact .inr (g.free h)
  huge h hlen hj hpres hps := by
    obtain ⟨h', heq⟩ := g'.huge h hlen hj hpres hps
    obtain ⟨h'', heq'⟩ := g.huge h' hlen hj (heq ▸ hpres) (heq ▸ hps)
    exact ⟨h'', heq.trans heq'⟩
  free := g'.free.trans g.free

/-- What is written when tables are added: besides tables only frames that were free, and
a new entry points to a frame that the PMM gave away. -/
structure TakesTables (roots : List Nat) (m m' : Machine) : Prop where
  taken : ∀ {s p T}, Named m'.phys roots s p T →
    Named m.phys roots s p T ∨ T ∈ m.pmm.freeSet ∧ T ∉ m'.pmm.freeSet
  entry : ∀ {s p T j}, Named m'.phys roots s p T → p.length < 3 → j < 512 →
    pointsTo (m'.phys T j) → Named m.phys roots s p T ∧ m'.phys T j = m.phys T j ∨
      ∃ G ∈ m.pmm.freeSet, G ∉ m'.pmm.freeSet ∧ m'.phys T j = tableEntry G
  memory : ∀ {F}, F ∉ m.pmm.freeSet → (∀ s p, ¬ Named m.phys roots s p F) → m'.phys F = m.phys F
  free : m'.pmm.freeSet ⊆ m.pmm.freeSet

theorem TakesTables.refl (roots : List Nat) (m : Machine) : TakesTables roots m m :=
  ⟨.inl, fun h _ _ _ => .inl ⟨h, rfl⟩, fun _ _ => rfl, subset_rfl⟩

theorem TakesTables.trans (h : TakesTables roots m m') (h' : TakesTables roots m' m'') :
    TakesTables roots m m'' where
  taken hT := by
    rcases h'.taken hT with hT | ⟨hfree, hnot⟩
    · exact (h.taken hT).imp_right fun ⟨hfree, hnot⟩ => ⟨hfree, fun hin => hnot (h'.free hin)⟩
    · exact .inr ⟨h.free hfree, hnot⟩
  entry hT hlen hj hpoint := by
    rcases h'.entry hT hlen hj hpoint with ⟨hold, hsame⟩ | ⟨G, hG, hnot, heq⟩
    · rw [hsame] at hpoint ⊢
      refine (h.entry hold hlen hj hpoint).imp_right ?_
      rintro ⟨G, hG, hnot, heq⟩
      exact ⟨G, hG, fun hin => hnot (h'.free hin), heq⟩
    · exact .inr ⟨G, h.free hG, hnot, heq⟩
  memory {F} hF hout := by
    have hout' : ∀ s p, ¬ Named m'.phys roots s p F := by
      intro s p hT
      rcases h.taken hT with hT | ⟨hfree, -⟩
      · exact hout s p hT
      · exact hF hfree
    rw [h'.memory (fun hin => hF (h.free hin)) hout', h.memory hF hout]
  free := h'.free.trans h.free

namespace Installable

variable {words : Nat → Nat}

section

variable (h : Installable ν roots m q T i G)
include h

theorem named : Named m.phys roots m.cr3 q T :=
  h.forest.named_active (h.path.init rfl) h.table

theorem lt : G < 2 ^ 40 :=
  (mem_clearBits.mp h.free).1.trans_le h.forest.frames

theorem ne (hF : Named m.phys roots s r F) : F ≠ G := by
  rintro rfl
  exact h.forest.used hF h.free

theorem installed_eq :
    installed m.phys T i G words T i = tableEntry G ∧ installed m.phys T i G words G = words ∧
      ∀ F j, F ≠ G → ¬ (F = T ∧ j = i) → installed m.phys T i G words F j = m.phys F j := by
  have hTG : T ≠ G := h.ne h.named
  refine ⟨by simp [installed, hTG], by simp [installed], fun F j hF hTi => ?_⟩
  rw [installed, update_of_ne hF]
  by_cases hFT : F = T
  · subst hFT
    rw [update_self, update_of_ne fun hj => hTi ⟨rfl, hj⟩]
  · rw [update_of_ne hFT]

theorem sameAlong (hs : s ∈ roots) (hpaths : ∀ r j rest, p = r ++ j :: rest → TablePath r)
    (hp : ¬ Through m.phys s p T i) :
    SameAlong m.phys (installed m.phys T i G words) s p :=
  sameAlong_of_not_through (fun r j rest F hsplit hF =>
    h.installed_eq.2.2 F j (h.ne ⟨hs, hpaths r j rest hsplit, hF⟩)) hp

/-- The new table follows every name of the table above it. -/
theorem tableAt_concat (hr : Named m.phys roots s r T) :
    tableAt (installed m.phys T i G words) s (r ++ [i]) = some G := by
  have hlen := h.forest.length_eq hr h.named
  have hpaths : ∀ r' j rest, r = r' ++ j :: rest → TablePath r' := fun _ _ _ => hr.path.init
  have hsame : SameAlong m.phys (installed m.phys T i G words) s r :=
    h.sameAlong hr.root hpaths (h.forest.not_through h.named hr.root hpaths hlen.le)
  have htable : tableAt (installed m.phys T i G words) s r = some T := by
    rw [(walk_congr hsame).1, hr.table]
  obtain ⟨hpres, hps, hframe⟩ := tableEntry_spec h.lt
  have hentry : installed m.phys T i G words T i = tableEntry G := h.installed_eq.1
  have hpoint : pointsTo (installed m.phys T i G words T i) := hentry ▸ ⟨hpres, hps⟩
  rw [Mm.tableAt_concat htable, if_pos hpoint, hentry]
  exact congrArg some hframe

end

/-- The words of the new table are empty, or it is a page table of 4 KiB pages. -/
def NoTables (q : List Nat) (words : Nat → Nat) : Prop :=
  q.length = 2 ∨ ∀ j < 512, present (words j) = false

/-- The tables after the installation are the old ones and the new one. -/
theorem named_cases (h : Installable ν roots m q T i G) (hw : NoTables q words)
    (hF : Named (installed m.phys T i G words) roots s p F) :
    (∃ r, p = r ++ [i] ∧ Named m.phys roots s r T ∧ F = G) ∨ Named m.phys roots s p F := by
  by_cases hthrough : Through m.phys s p T i
  · obtain ⟨r, rest, rfl, hr⟩ := hthrough
    have hnamed : Named m.phys roots s r T := ⟨hF.root, hF.path.init rfl, hr⟩
    have htable := hF.table
    rw [List.append_cons, tableAt_append, h.tableAt_concat hnamed] at htable
    cases rest with
    | nil => exact .inl ⟨r, rfl, hnamed, (Option.some.inj htable).symm⟩
    | cons j rest =>
      -- below the new table there is nothing
      rcases hw with hlen | hw
      · have hlong := hF.path.length
        rw [List.length_append, List.length_cons, List.length_cons,
          h.forest.length_eq hnamed h.named] at hlong
        omega
      · have hpoint := (tableAt_cons_eq_some.mp htable).1.1
        rw [h.installed_eq.2.1, hw j (hF.path.lt j (by simp))] at hpoint
        cases hpoint
  · refine .inr ⟨hF.root, hF.path, ?_⟩
    rw [← (walk_congr (h.sameAlong hF.root (fun _ _ _ => hF.path.init) hthrough)).1, hF.table]

/-- The machine with the table installed. -/
def install (m : Machine) (T i G : Nat) (words : Nat → Nat) : Machine :=
  { m with phys := installed m.phys T i G words, pmm := m.pmm.take G }

theorem self (h : Installable ν roots m q T i G) (hs : s ∈ roots) :
    SelfMapped (installed m.phys T i G words) s := by
  have hentry : installed m.phys T i G words s recursiveIndex = m.phys s recursiveIndex := by
    refine h.installed_eq.2.2 _ _ (h.ne (.nil hs)) ?_
    rintro ⟨rfl, rfl⟩
    -- a PML4 has no other names, and the slot is not one for tables
    obtain rfl := List.length_eq_zero_iff.mp (h.forest.length_eq (.nil hs) h.named).symm
    exact h.path.head rfl
  have hself := h.forest.self s hs
  rw [SelfMapped] at hself ⊢
  rwa [hentry]

theorem forest_install (words : Nat → Nat) (h : Installable ν roots m q T i G)
    (hw : NoTables q words) : Forest ν roots (install m T i G words) where
  active := h.forest.active
  self _ := h.self
  frames := h.forest.frames
  used hF := by
    change _ ∉ (m.pmm.take G).freeSet
    rw [freeSet_take, mem_erase, not_and]
    intro hne
    rcases h.named_cases hw hF with ⟨-, -, -, rfl⟩ | hF
    · exact absurd rfl hne
    · exact h.forest.used hF
  distinct hF hF' := by
    rcases h.named_cases hw hF with ⟨r, rfl, hr, hG⟩ | hold
    · rcases h.named_cases hw hF' with ⟨r', rfl, hr', -⟩ | hold'
      · exact ν.concat i (h.forest.distinct hr hr')
      · exact absurd hG (h.ne hold')
    · rcases h.named_cases hw hF' with ⟨-, -, -, hG⟩ | hold'
      · exact absurd hG (h.ne hold)
      · exact h.forest.distinct hold hold'

/-- Translations are kept if those through the new table are. -/
theorem view_install (h : Installable ν roots m q T i G)
    (hnew : ∀ rest, q.length + 1 + rest.length = 4 → (∀ j ∈ rest, j < 512) →
      view (installed m.phys T i G words) G rest = view m.phys T (i :: rest))
    (hs : s ∈ roots) (hp : PagePath p) :
    view (installed m.phys T i G words) s p = view m.phys s p := by
  by_cases hthrough : Through m.phys s p T i
  · obtain ⟨r, rest, rfl, hr⟩ := hthrough
    have hnamed : Named m.phys roots s r T := ⟨hs, hp.tablePath rfl, hr⟩
    have hlen := hp.length
    rw [List.length_append, List.length_cons, h.forest.length_eq hnamed h.named] at hlen
    have hrest : rest ≠ [] := by
      rintro rfl
      have := h.path.length
      rw [List.length_append, List.length_singleton] at this
      simp only [List.length_nil] at hlen
      omega
    have hafter : view (installed m.phys T i G words) s (r ++ i :: rest) =
        view (installed m.phys T i G words) G rest := by
      rw [view, view, List.append_cons, lookup_append (h.tableAt_concat hnamed) hrest]
    rw [hafter, hnew rest (by omega) fun j hj => hp.lt j (by simp [hj]), view, view,
      lookup_append hr (by simp)]
  · rw [view, view,
      (walk_congr (h.sameAlong hs (fun _ _ _ => hp.tablePath) hthrough)).2]

theorem grows (h : Installable ν roots m q T i G) (hw : NoTables q words)
    (hnew : ∀ rest, q.length + 1 + rest.length = 4 → (∀ j ∈ rest, j < 512) →
      view (installed m.phys T i G words) G rest = view m.phys T (i :: rest)) :
    Grows roots m (install m T i G words) where
  cr3 := rfl
  view s hs p hp := h.view_install hnew hs hp
  kept hF hpoint := by
    refine h.installed_eq.2.2 _ _ (h.ne hF) ?_
    rintro ⟨rfl, rfl⟩
    exact h.lacks hpoint
  tables hF := by
    rcases h.named_cases hw hF with ⟨-, -, -, rfl⟩ | hold
    · exact .inr h.free
    · exact .inl hold
  huge {s p F j} hF hlen hj hpres hps := by
    change present (installed m.phys T i G words F j) = true at hpres
    change pageSizeBit (installed m.phys T i G words F j) = true at hps
    rcases h.named_cases hw hF with ⟨r, rfl, hr, rfl⟩ | hold
    · rw [List.length_append, List.length_singleton, h.forest.length_eq hr h.named] at hlen
      rw [h.installed_eq.2.1] at hpres
      rcases hw with hq | hw
      · omega
      · rw [hw j hj] at hpres
        cases hpres
    · refine ⟨hold, h.installed_eq.2.2 F j (h.ne hold) ?_⟩
      rintro ⟨rfl, rfl⟩
      rw [h.installed_eq.1] at hps
      exact absurd hps (by rw [tableEntry, (tableEntry_spec h.lt).2.1]; decide)
  free := by
    change (m.pmm.take G).freeSet ⊆ m.pmm.freeSet
    rw [freeSet_take]
    exact erase_subset _ _

theorem takesTables (h : Installable ν roots m q T i G) (hw : NoTables q words) :
    TakesTables roots m (install m T i G words) where
  taken hF := by
    rcases h.named_cases hw hF with ⟨-, -, -, rfl⟩ | hold
    · refine .inr ⟨h.free, ?_⟩
      change _ ∉ (m.pmm.take _).freeSet
      rw [freeSet_take]
      exact notMem_erase _ _
    · exact .inl hold
  entry {s p F j} hF hlen hj hpoint := by
    change pointsTo (installed m.phys T i G words F j) at hpoint
    rcases h.named_cases hw hF with ⟨r, rfl, hr, rfl⟩ | hold
    · -- the new table is a page table, or it is empty
      rw [List.length_append, List.length_singleton, h.forest.length_eq hr h.named] at hlen
      rw [h.installed_eq.2.1] at hpoint
      rcases hw with hq | hw
      · omega
      · have hpres := hpoint.1
        rw [hw j hj] at hpres
        cases hpres
    · by_cases hTi : F = T ∧ j = i
      · obtain ⟨rfl, rfl⟩ := hTi
        refine .inr ⟨G, h.free, ?_, h.installed_eq.1⟩
        change G ∉ (m.pmm.take G).freeSet
        rw [freeSet_take]
        exact notMem_erase _ _
      · exact .inl ⟨hold, h.installed_eq.2.2 F j (h.ne hold) hTi⟩
  memory {F} hF hout := by
    funext j
    refine h.installed_eq.2.2 F j (fun hG => hF (hG ▸ h.free)) ?_
    rintro ⟨rfl, -⟩
    exact hout _ _ h.named
  free := by
    change (m.pmm.take G).freeSet ⊆ m.pmm.freeSet
    rw [freeSet_take]
    exact erase_subset _ _

/-! ### Filling the new table -/

/-- The machine after the entry of the new table is written. -/
def linked (m : Machine) (T i G : Nat) : Machine :=
  { m with pmm := m.pmm.take G }.setWord T i (tableEntry G)

theorem linked_eq : linked m T i G = install m T i G ((linked m T i G).phys G) := by
  change _ = { m with phys := update (linked m T i G).phys G _, pmm := m.pmm.take G }
  rw [update_eq_self]
  rfl

/-- The new table is filled, whatever it holds, through its own address. -/
theorem fill_install (h : Installable ν roots m q T i G) (before : Nat → Nat) (value : Nat → Nat) :
    ∃ words, (install m T i G before).fill (virtOf (q ++ [i])) 512 value =
      some (install m T i G words) ∧ ∀ j < 512, words j = value j := by
  have hidem : ∀ words, update (install m T i G before).phys G words =
      installed m.phys T i G words := fun words => by simp [install, installed]
  have hfill := fill_virtOf (m := install m T i G before) (G := G) (n := 512) le_rfl value
    h.path fun words => by rw [hidem]; exact ⟨h.self h.forest.active, h.tableAt_concat h.named⟩
  rw [hidem] at hfill
  exact ⟨_, hfill, fun j hj => if_pos hj⟩

theorem zeroPage_linked (h : Installable ν roots m q T i G) :
    ∃ words, (linked m T i G).zeroPage (virtOf (q ++ [i])) = some (install m T i G words) ∧
      ∀ j < 512, words j = 0 := by
  rw [linked_eq]
  exact h.fill_install _ fun _ => 0

/-- The frame of the new table comes from the PMM. -/
theorem newTable_eq (f : Forest ν roots m) (hfree : m.pmm.freeSet.Nonempty)
    (hpath : TablePath (q ++ [i])) (hT : tableAt m.phys m.cr3 q = some T)
    (hlacks : ¬ pointsTo (m.phys T i)) :
    ∃ G, Installable ν roots m q T i G ∧
      m.newTable = (tableEntry G, { m with pmm := m.pmm.take G }) ∧
      { m with pmm := m.pmm.take G }.writeWord (virtOf q) i (tableEntry G) =
        some (linked m T i G) := by
  obtain ⟨G, hG, halloc⟩ := allocFrame_eq hfree
  refine ⟨G, ⟨f, hpath, hT, hlacks, hG⟩, by rw [newTable, halloc]; rfl, ?_⟩
  exact writeWord_virtOf (m := { m with pmm := m.pmm.take G }) f.self_active
    (hpath.init rfl) hT (hpath.lt i (by simp)) _

end Installable

/-! ### `ensureTable` -/

/-- What `ensureTable` establishes: the table `q ++ [i]` exists, nothing is lost, and
the rest of the way is no worse than before. -/
structure Ensured (ν : Naming κ) (roots : List Nat) (m m' : Machine) (q : List Nat) (T i G : Nat) :
    Prop where
  forest : Forest ν roots m'
  grows : Grows roots m m'
  table : tableAt m'.phys m'.cr3 (q ++ [i]) = some G
  missing : ∀ s extra, PagePath (q ++ [i] ++ s) →
    missing m.phys T (i :: s) + extra ≤ m.pmm.freeSet.card →
    missing m'.phys G s + extra ≤ m'.pmm.freeSet.card
  splittable : ∀ s, PagePath (q ++ [i] ++ s) → Splittable m.phys T (i :: s) →
    Splittable m'.phys G s

section

variable (h : ∀ j ∈ p.head?, present (phys F j) = false)
include h

/-- The entries of an empty table. -/
theorem lookup_of_not_present :
    lookup phys F p = none := by
  match p with
  | [] => rfl
  | [j] => simp [lookup, h j rfl]
  | j :: k :: rest => simp [lookup, h j rfl]

theorem missing_of_not_present :
    missing phys F p = p.length - 1 := by
  cases p with
  | nil => rfl
  | cons j rest =>
    have hpoint : ¬ pointsTo (phys F j) := fun hp => by
      have := hp.1
      rw [h j rfl] at this
      cases this
    rw [missing, if_neg hpoint]
    split_ifs with hs <;> simp [hs]

theorem splittable_of_not_present :
    Splittable phys F p := by
  match p with
  | [] => trivial
  | [j] => trivial
  | [j, k] => intro hp; simp [h j rfl] at hp
  | j :: k :: l :: rest => intro hp; simp [h j rfl] at hp

end

/-- A table that is missing is taken from the PMM and emptied. -/
theorem Installable.ensured_empty {words : Nat → Nat} (h : Installable ν roots m q T i G)
    (habsent : present (m.phys T i) = false) (hwords : ∀ j < 512, words j = 0) :
    Ensured ν roots m (Installable.install m T i G words) q T i G := by
  have hw : ∀ j < 512, present (words j) = false := fun j hj => by rw [hwords j hj]; rfl
  have hhead : ∀ s : List Nat, (∀ j ∈ s, j < 512) →
      ∀ j ∈ s.head?, present (installed m.phys T i G words G j) = false := fun s hs j hj => by
    rw [h.installed_eq.2.1]
    exact hw j (hs j (List.mem_of_mem_head? hj))
  have hlt : ∀ s, PagePath (q ++ [i] ++ s) → ∀ j ∈ s, j < 512 := fun s hs j hj =>
    hs.lt j (List.mem_append_right _ hj)
  refine ⟨h.forest_install words (.inr hw), h.grows (.inr hw) fun s _ hs => ?_,
    h.tableAt_concat h.named, fun s extra hs hle => ?_,
    fun s hs _ => splittable_of_not_present (hhead s (hlt s hs))⟩
  · rw [view, view, lookup_of_not_present (hhead s hs),
      lookup_of_not_present (by simpa using habsent)]
  · rw [missing_of_not_present (by simpa using habsent)] at hle
    have hmiss := missing_of_not_present (hhead s (hlt s hs))
    change missing (installed m.phys T i G words) G s + extra ≤ (m.pmm.take G).freeSet.card
    rw [hmiss, freeSet_take, card_erase_of_mem h.free]
    have htable := h.path.length
    have hpage := hs.length
    simp only [List.length_append, List.length_cons, List.length_nil] at hle htable hpage
    omega

/-! ### Splitting a 2 MiB page -/

/-- The `j`-th entry that `splitHugePage` writes. -/
def splitWord (e j : Nat) : Nat :=
  wrap ((e &&& addrMask) + j * pageSize) |||
    (e &&& (pagePresent ||| pageWritable ||| pageUser ||| pagePwt ||| pageCacheDisable))

theorem and_addrMask (e : Nat) : e &&& addrMask = frameOf e * pageSize := by
  have hmod : (e &&& addrMask) % 2 ^ 12 = 0 := by
    rw [Nat.and_mod_two_pow, show addrMask % 2 ^ 12 = 0 by decide, Nat.and_zero]
  rw [frameOf, pageSize]
  omega

theorem frameOf_lt (e : Nat) : frameOf e < 2 ^ 40 := by
  rw [frameOf_eq]
  exact Nat.mod_lt _ (by norm_num)

/-- It keeps the flags, and counts on from the frame in the entry. -/
theorem splitWord_spec (e : Nat) (hj : j < 512) :
    present (splitWord e j) = present e ∧ splitWord e j &&& 31 = e &&& 31 ∧
      frameOf (splitWord e j) = (frameOf e + j) % 2 ^ 40 := by
  have hlt := frameOf_lt e
  have hflags : e &&& (pagePresent ||| pageWritable ||| pageUser ||| pagePwt ||| pageCacheDisable) =
      e % 2 ^ 5 := by
    rw [← Nat.and_two_pow_sub_one_eq_mod]
    rfl
  have hlow : e % 2 ^ 5 < pageSize := by simp only [pageSize]; omega
  have hword : splitWord e j = (frameOf e + j) * pageSize + e % 2 ^ 5 := by
    rw [splitWord, hflags, and_addrMask, ← Nat.add_mul, wrap_of_lt (by simp only [pageSize]; omega),
      mul_pageSize_or hlow]
  have h31 : ∀ n, n &&& 31 = n % 2 ^ 5 := fun n => Nat.and_two_pow_sub_one_eq_mod n 5
  rw [hword, present_eq, present_eq, h31, h31]
  generalize frameOf e = f at hlt ⊢
  rw [frameOf_eq]
  simp only [pageSize]
  refine ⟨decide_eq_decide.mpr (by omega), by omega, by omega⟩

/-- A split 2 MiB page translates as before if its base is aligned. -/
theorem Installable.ensured_split {words : Nat → Nat} (h : Installable ν roots m q T i G)
    (hlen : q.length = 2) (hpres : present (m.phys T i) = true)
    (hps : pageSizeBit (m.phys T i) = true) (halign : 512 ∣ frameOf (m.phys T i))
    (hwords : ∀ j < 512, words j = splitWord (m.phys T i) j) :
    Ensured ν roots m (Installable.install m T i G words) q T i G := by
  have hone : ∀ s, PagePath (q ++ [i] ++ s) → s.length = 1 := fun s hs => by
    have hlength := hs.length
    simp only [List.length_append, hlen, List.length_singleton] at hlength
    omega
  refine ⟨h.forest_install words (.inl hlen), h.grows (.inl hlen) fun s hs hlt => ?_,
    h.tableAt_concat h.named, fun s extra hs hle => ?_, fun s hs _ => ?_⟩
  · obtain ⟨j, rfl⟩ := List.length_eq_one_iff.mp (by omega : s.length = 1)
    have hj : j < 512 := hlt j (by simp)
    obtain ⟨hwpres, hwflags, hwframe⟩ := splitWord_spec (m.phys T i) hj
    have hframe := frameOf_lt (m.phys T i)
    have hhuge : hugeFrame (m.phys T i) [j] = frameOf (splitWord (m.phys T i) j) := by
      simp only [hugeFrame, digits, List.length_singleton, pow_one, List.foldl_cons, List.foldl_nil,
        hwframe]
      omega
    simp only [view, lookup, h.installed_eq.2.1, hwords j hj, hwpres, hpres, hps, if_true,
      List.length_nil, Nat.zero_lt_two, Option.map_some, Leaf.view, hwflags, hhuge]
  · obtain ⟨j, rfl⟩ := List.length_eq_one_iff.mp (hone s hs)
    have hpoint : ¬ pointsTo (m.phys T i) := fun hpoint => by
      rw [hpoint.2] at hps
      cases hps
    simp only [missing, if_neg hpoint, List.cons_ne_nil, if_false, if_true] at hle ⊢
    change 0 + extra ≤ (m.pmm.take G).freeSet.card
    rw [freeSet_take, card_erase_of_mem h.free]
    simp only [List.length_singleton] at hle
    omega
  · obtain ⟨j, rfl⟩ := List.length_eq_one_iff.mp (hone s hs)
    trivial

/-! ### The way down -/

/-- What `splitHugePage` leaves behind in a 2 MiB entry of the table `q`. -/
theorem Installable.splitHugePage_eq (h : Installable ν roots m q T i G)
    (hread : m.readWord (virtOf q) i = some (m.phys T i))
    (hnew : m.newTable = (tableEntry G, { m with pmm := m.pmm.take G }))
    (hwrite : { m with pmm := m.pmm.take G }.writeWord (virtOf q) i (tableEntry G) =
      some (Installable.linked m T i G)) :
    ∃ words, m.splitHugePage (virtOf q) i (virtOf (q ++ [i])) huge2MB =
        some (Installable.install m T i G words) ∧
      ∀ k < 512, words k = splitWord (m.phys T i) k := by
  have hcount : huge2MB / pageSize = 512 := by simp [huge2MB, pageSize]
  obtain ⟨zeros, hzero, -⟩ := h.zeroPage_linked
  obtain ⟨words, hfill, hwords⟩ := h.fill_install zeros (splitWord (m.phys T i))
  refine ⟨words, ?_, hwords⟩
  rw [splitHugePage, hread, Option.bind_some, hnew]
  dsimp only
  rw [hwrite, Option.bind_some, hzero, Option.bind_some, hcount]
  exact hfill

theorem Installable.emptyTable_eq (h : Installable ν roots m q T i G) (hugePageSize : Nat)
    (hread : m.readWord (virtOf q) i = some (m.phys T i))
    (habsent : present (m.phys T i) = false)
    (hnew : m.newTable = (tableEntry G, { m with pmm := m.pmm.take G }))
    (hwrite : { m with pmm := m.pmm.take G }.writeWord (virtOf q) i (tableEntry G) =
      some (Installable.linked m T i G)) :
    ∃ words, m.ensureTable (virtOf q) i (virtOf (q ++ [i])) hugePageSize =
        some (Installable.install m T i G words) ∧ ∀ k < 512, words k = 0 := by
  obtain ⟨words, hzero, hwords⟩ := h.zeroPage_linked
  refine ⟨words, ?_, hwords⟩
  rw [ensureTable, hread, Option.bind_some, habsent, if_neg Bool.false_ne_true, hnew]
  dsimp only
  rw [hwrite, Option.bind_some]
  exact hzero

section

variable (f : Forest ν roots m) (hpath : TablePath (q ++ [i]))
  (hT : tableAt m.phys m.cr3 q = some T)
include f hpath hT

/-- A table that is there is left alone. -/
theorem ensureTable_of_pointsTo {child hugePageSize : Nat} (hpoint : pointsTo (m.phys T i)) :
    m.ensureTable (virtOf q) i child hugePageSize = some m := by
  rw [ensureTable,
    readWord_virtOf f.self_active (hpath.init rfl) hT (hpath.lt i (by simp)),
    Option.bind_some, if_pos hpoint.1, hpoint.2, if_neg Bool.false_ne_true]

/-- A huge page is split into a table from the PMM. -/
theorem ensureTable_of_hugePage (hpres : present (m.phys T i) = true)
    (hps : pageSizeBit (m.phys T i) = true) (hfree : m.pmm.freeSet.Nonempty) :
    ∃ G words, Installable ν roots m q T i G ∧
      m.ensureTable (virtOf q) i (virtOf (q ++ [i])) huge2MB =
        some (Installable.install m T i G words) ∧
      ∀ k < 512, words k = splitWord (m.phys T i) k := by
  have hread := readWord_virtOf f.self_active (hpath.init rfl) hT (hpath.lt i (by simp))
  have hlacks : ¬ pointsTo (m.phys T i) := fun h => by
    have := h.2
    rw [hps] at this
    cases this
  obtain ⟨G, hG, hnew, hwrite⟩ := Installable.newTable_eq f hfree hpath hT hlacks
  obtain ⟨words, hrun, hwords⟩ := hG.splitHugePage_eq hread hnew hwrite
  have hne : huge2MB ≠ 0 := by simp [huge2MB, pageSize]
  refine ⟨G, words, hG, ?_, hwords⟩
  rw [ensureTable, hread, Option.bind_some, if_pos hpres, if_pos hps, if_neg hne, hrun]

end

/-- `ensureTable` for the entry `i` of the table `q`, on a way where it can succeed. -/
theorem ensureTable_ensured {s : List Nat} (hugePageSize : Nat) (f : Forest ν roots m)
    (hp : PagePath (q ++ [i] ++ s)) (hs : s ≠ []) (hT : tableAt m.phys m.cr3 q = some T)
    (hmissing : missing m.phys T (i :: s) ≤ m.pmm.freeSet.card)
    (hsplit : Splittable m.phys T (i :: s)) (hhuge : q.length = 2 → hugePageSize = huge2MB) :
    ∃ m' G, m.ensureTable (virtOf q) i (virtOf (q ++ [i])) hugePageSize = some m' ∧
      Ensured ν roots m m' q T i G ∧ TakesTables roots m m' := by
  have hpath : TablePath (q ++ [i]) := by
    obtain ⟨j, s, rfl⟩ := List.exists_cons_of_ne_nil hs
    exact hp.tablePath rfl
  by_cases hpoint : pointsTo (m.phys T i)
  · have htable : tableAt m.phys m.cr3 (q ++ [i]) = some (frameOf (m.phys T i)) := by
      rw [tableAt_concat hT, if_pos hpoint]
    refine ⟨m, _, ensureTable_of_pointsTo f hpath hT hpoint, ⟨f, .refl roots m, htable,
      fun s' extra hs' hle => ?_, fun s' hs' hok => ?_⟩, .refl roots m⟩
    · cases s' with
      | nil => simpa [missing] using hle
      | cons j s' => simpa [missing, hpoint] using hle
    · rcases s' with _ | ⟨j, _ | ⟨k, s'⟩⟩
      · trivial
      · trivial
      · exact (hok hpoint.1).2
  · have hfree : m.pmm.freeSet.Nonempty := by
      rw [missing, if_neg hs, if_neg hpoint] at hmissing
      exact card_pos.mp (hmissing.trans_lt' (List.length_pos_iff.mpr hs))
    by_cases hpres : present (m.phys T i) = true
    · -- a huge page: only a 2 MiB page is on the way
      have hps : pageSizeBit (m.phys T i) = true := by
        simpa [pointsTo, hpres] using hpoint
      obtain ⟨j, rfl⟩ : ∃ j, s = [j] := by
        rcases s with _ | ⟨j, _ | ⟨k, s⟩⟩
        · exact absurd rfl hs
        · exact ⟨j, rfl⟩
        · have := (hsplit hpres).1
          rw [hps] at this
          cases this
      have hlen : q.length = 2 := by
        have := hp.length
        simp only [List.length_append, List.length_singleton] at this
        omega
      obtain ⟨G, words, hG, hrun, hwords⟩ := ensureTable_of_hugePage f hpath hT hpres hps hfree
      exact ⟨_, G, hhuge hlen ▸ hrun,
        hG.ensured_split hlen hpres hps (hsplit hpres hps) hwords, hG.takesTables (.inl hlen)⟩
    · have habsent : present (m.phys T i) = false := by simpa using hpres
      have hread := readWord_virtOf f.self_active (hpath.init rfl) hT (hpath.lt i (by simp))
      obtain ⟨G, hG, hnew, hwrite⟩ := Installable.newTable_eq f hfree hpath hT hpoint
      obtain ⟨words, hrun, hwords⟩ := hG.emptyTable_eq hugePageSize hread habsent hnew hwrite
      have hempty : ∀ j < 512, present (words j) = false := fun j hj => by rw [hwords j hj]; rfl
      exact ⟨_, G, hrun, hG.ensured_empty habsent hwords, hG.takesTables (.inr hempty)⟩

/-- The three tables on the way to a page. -/
def ensureTables (m : Machine) (a b c : Nat) : Option Machine :=
  (m.ensureTable (virtOf []) a (virtOf ([] ++ [a])) 0).bind fun m =>
    (m.ensureTable (virtOf [a]) b (virtOf ([a] ++ [b])) huge1GB).bind fun m =>
      m.ensureTable (virtOf [a, b]) c (virtOf ([a, b] ++ [c])) huge2MB

variable {a b c d v : Nat}

/-- Three tables are ensured, and the last one is found. -/
theorem ensureTables_eq (f : Forest ν roots m) (hp : PagePath [a, b, c, d])
    (hmissing : missing m.phys m.cr3 [a, b, c, d] ≤ m.pmm.freeSet.card)
    (hsplit : Splittable m.phys m.cr3 [a, b, c, d]) :
    ∃ m' G, ensureTables m a b c = some m' ∧ Forest ν roots m' ∧ Grows roots m m' ∧
      TakesTables roots m m' ∧ tableAt m'.phys m'.cr3 [a, b, c] = some G ∧
      ∀ extra, missing m.phys m.cr3 [a, b, c, d] + extra ≤ m.pmm.freeSet.card →
        extra ≤ m'.pmm.freeSet.card := by
  obtain ⟨m₁, T₁, hrun₁, e₁, t₁⟩ := ensureTable_ensured (q := []) (s := [b, c, d]) 0 f hp (by simp) rfl
    hmissing hsplit (by simp)
  obtain ⟨m₂, T₂, hrun₂, e₂, t₂⟩ := ensureTable_ensured (q := [a]) (s := [c, d]) huge1GB e₁.forest hp
    (by simp) e₁.table (e₁.missing _ 0 hp hmissing) (e₁.splittable _ hp hsplit) (by simp)
  obtain ⟨m₃, T₃, hrun₃, e₃, t₃⟩ := ensureTable_ensured (q := [a, b]) (s := [d]) huge2MB e₂.forest hp
    (by simp) e₂.table (e₂.missing _ 0 hp (e₁.missing _ 0 hp hmissing))
    (e₂.splittable _ hp (e₁.splittable _ hp hsplit)) fun _ => rfl
  refine ⟨m₃, T₃, ?_, e₃.forest, (e₁.grows.trans e₂.grows).trans e₃.grows,
    (t₁.trans t₂).trans t₃, e₃.table, fun extra hle => ?_⟩
  · rw [ensureTables, hrun₁, Option.bind_some, hrun₂, Option.bind_some, hrun₃]
  · have hlast := e₃.missing _ extra hp (e₂.missing _ extra hp (e₁.missing _ extra hp hle))
    rwa [missing, if_pos rfl, Nat.zero_add] at hlast

/-! ### The last entry -/

section LastEntry

variable {w : Nat} (f : Forest ν roots m) (hT : Named m.phys roots s q T) (hlen : q.length = 3)

/-- A store into one entry is seen only by the walks through it. -/
theorem sameAlong_setWord (hp : ¬ Through m.phys s' p T i) :
    SameAlong m.phys (m.setWord T i w).phys s' p := by
  refine sameAlong_of_not_through (fun _ j _ F _ _ hne => ?_) hp
  by_cases hF : F = T
  · subst hF
    exact setWord_phys_of_ne fun hj => hne ⟨rfl, hj⟩
  · simp [setWord, update_of_ne hF]

include f hT hlen

/-- An entry of a page table leads to no table, so all tables keep their names. -/
theorem Forest.tableAt_setWord (hs : s' ∈ roots) (hp : TablePath p) :
    tableAt (m.setWord T i w).phys s' p = tableAt m.phys s' p :=
  (walk_congr (sameAlong_setWord
    (f.not_through hT hs (fun _ _ _ => hp.init) (hlen.symm ▸ hp.length)))).1

theorem Forest.named_setWord : Named (m.setWord T i w).phys roots s' p F ↔
    Named m.phys roots s' p F := by
  constructor
  · rintro ⟨hs, hp, hF⟩
    exact ⟨hs, hp, f.tableAt_setWord hT hlen hs hp ▸ hF⟩
  · rintro ⟨hs, hp, hF⟩
    exact ⟨hs, hp, (f.tableAt_setWord hT hlen hs hp).symm ▸ hF⟩

/-- The tables above the page tables are not written. -/
theorem Forest.setWord_phys (hF : Named m.phys roots s' p F) (hp : p.length < 3) :
    (m.setWord T i w).phys F j = m.phys F j := by
  have hne : F ≠ T := by
    rintro rfl
    have := f.length_eq hF hT
    omega
  simp [setWord, update_of_ne hne]

theorem Forest.setWord : Forest ν roots (m.setWord T i w) where
  active := f.active
  self s' hs := by
    have hself := f.self s' hs
    rw [SelfMapped] at hself ⊢
    rwa [f.setWord_phys hT hlen (.nil hs) (by simp)]
  distinct hF hF' := f.distinct ((f.named_setWord hT hlen).mp hF) ((f.named_setWord hT hlen).mp hF')
  used hF := f.used ((f.named_setWord hT hlen).mp hF)
  frames := f.frames

/-- The walks through the entry end there, and no other walk notices. -/
theorem Forest.lookup_setWord (hs : s' ∈ roots) :
    (∀ r, TablePath r → tableAt m.phys s' r = some T →
      lookup (m.setWord T i w).phys s' (r ++ [i]) =
        if present w then some ⟨w, frameOf w⟩ else none) ∧
    ∀ p, PagePath p → (∀ r, p = r ++ [i] → tableAt m.phys s' r ≠ some T) →
      lookup (m.setWord T i w).phys s' p = lookup m.phys s' p := by
  refine ⟨fun r hr hrT => ?_, fun p hp hnot => ?_⟩
  · have htable := f.tableAt_setWord (i := i) (w := w) hT hlen hs hr
    rw [lookup_append (htable.trans hrT) (by simp)]
    simp [lookup, Machine.setWord]
  · refine (walk_congr (sameAlong_setWord ?_)).2
    rintro ⟨r, rest, hsplit, hr⟩
    have hlength := hp.length
    rw [hsplit, List.length_append, List.length_cons,
      f.length_eq ⟨hs, hp.tablePath hsplit, hr⟩ hT] at hlength
    obtain rfl := List.length_eq_zero_iff.mp (by omega : rest.length = 0)
    exact hnot r hsplit hr

/-- A store into a page table. -/
theorem Forest.takesTables_setWord : TakesTables roots m (m.setWord T i w) where
  taken hF := .inl ((f.named_setWord hT hlen).mp hF)
  entry hF hlen' _ _ := by
    have hold := (f.named_setWord hT hlen).mp hF
    exact .inl ⟨hold, f.setWord_phys hT hlen hold hlen'⟩
  memory {F} _ hout := by
    have hne : F ≠ T := by
      rintro rfl
      exact hout _ _ hT
    exact update_of_ne hne _ _
  free := subset_rfl

end LastEntry

/-! ### `mapPage` -/

theorem indices_lt (v : Nat) : ∀ i ∈ indices v, i < 512 := by
  intro i hi
  simp only [indices, List.mem_cons, List.not_mem_nil, or_false] at hi
  rcases hi with rfl | rfl | rfl | rfl <;> exact Nat.mod_lt _ (by norm_num)

theorem pagePath_indices (hv : v / 2 ^ 39 % 512 ≠ recursiveIndex) :
    PagePath (indices v) where
  length := rfl
  head := by simpa [indices] using hv
  lt := indices_lt v

/-- Rounding an address down to its page keeps the indices. -/
theorem indices_page (v : Nat) : indices (v / pageSize * pageSize) = indices v := by
  simp only [indices, pageSize, List.cons.injEq, and_true]
  exact ⟨by omega, by omega, by omega, by omega⟩

/-- The entry that `mapPage` writes. -/
def pageEntry (physicalAddr flags : Nat) : Nat :=
  physicalAddr / pageSize * pageSize ||| flags ||| pagePresent

theorem present_pageEntry (physicalAddr flags : Nat) :
    present (pageEntry physicalAddr flags) = true := by
  rw [present, pageEntry, Nat.testBit_or]
  simp [pagePresent]

/-- The entry for a page: the address and the flags do not overlap. -/
theorem pageEntry_spec {paddr flags : Nat} (hdvd : pageSize ∣ paddr) (hlt : paddr < 2 ^ 52)
    (hflags : flags &&& (pageWritable ||| pageUser ||| pageCacheDisable) = flags) :
    pageEntry paddr flags = paddr ||| flags ||| pagePresent ∧
      frameOf (pageEntry paddr flags) = paddr / pageSize := by
  have hsmall : flags < 2 ^ 5 := by
    have hle := Nat.and_le_right (n := flags) (m := pageWritable ||| pageUser ||| pageCacheDisable)
    rw [hflags] at hle
    exact hle.trans_lt (by decide)
  have hor : flags ||| pagePresent < 2 ^ 5 := Nat.or_lt_two_pow hsmall (by decide)
  obtain ⟨f, rfl⟩ := hdvd
  rw [pageEntry, Nat.div_mul_cancel (Dvd.intro f rfl)]
  refine ⟨rfl, ?_⟩
  rw [Nat.or_assoc, Nat.mul_comm, mul_pageSize_or (hor.trans (by simp [pageSize]))]
  generalize flags ||| pagePresent = g at hor
  rw [frameOf_eq]
  simp only [pageSize] at hlt ⊢
  omega

/-- `mapPage` in terms of the names of the tables. -/
theorem mapPage_eq {physicalAddr flags : Nat} (hv : indices v = [a, b, c, d]) :
    m.mapPage v physicalAddr flags = (ensureTables m a b c).bind fun m =>
      m.writeWord (virtOf [a, b, c]) d (pageEntry physicalAddr flags) := by
  rw [← indices_page] at hv
  simp only [indices, List.cons.injEq, and_true] at hv
  obtain ⟨ha, hb, hc, hd⟩ := hv
  simp only [mapPage, ha, hb, hc, hd, ensureTables, Option.bind_assoc]
  rfl

/-- **`mapPage` in a forest.** Tables are added, and then one entry is written. -/
theorem mapPage_forest (physicalAddr flags : Nat) (f : Forest ν roots m)
    (hind : indices v = [a, b, c, d]) (hp : PagePath [a, b, c, d])
    (hmissing : missing m.phys m.cr3 [a, b, c, d] ≤ m.pmm.freeSet.card)
    (hsplit : Splittable m.phys m.cr3 [a, b, c, d]) :
    ∃ m' G, Forest ν roots m' ∧ Grows roots m m' ∧ TakesTables roots m m' ∧
      Named m'.phys roots m.cr3 [a, b, c] G ∧
      m.mapPage v physicalAddr flags = some (m'.setWord G d (pageEntry physicalAddr flags)) ∧
      ∀ extra, missing m.phys m.cr3 [a, b, c, d] + extra ≤ m.pmm.freeSet.card →
        extra ≤ m'.pmm.freeSet.card := by
  have hq : TablePath [a, b, c] := hp.tablePath (r := [a, b, c]) rfl
  obtain ⟨m', G, hrun, f', g, t, hG, hleft⟩ := ensureTables_eq f hp hmissing hsplit
  refine ⟨m', G, f', g, t, ⟨f.active, hq, g.cr3 ▸ hG⟩, ?_, hleft⟩
  rw [mapPage_eq hind, hrun, Option.bind_some,
    writeWord_virtOf f'.self_active hq hG (hp.lt d (by simp))]

end WengShiOS.Mm
