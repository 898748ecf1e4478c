import WengShiOS.Mm.MapPage

/-! # Page tables with few entries

A machine whose memory is zero but for a list of entries. A list of names that holds the
PML4, and with a table every table its entries point to, holds every table
(`mem_names_of_tableAt`); such a list is checked by evaluation. -/

namespace WengShiOS.Mm

variable {entries : List (Nat × Nat × Nat)} {names : List (List Nat × Nat)} {cr3 T : Nat}
  {pmm : Pmm} {p : List Nat}

/-- The word at index `i` of frame `f`, if the triple `(f, i, w)` is in the list. -/
def sparseWord (entries : List (Nat × Nat × Nat)) (f i : Nat) : Nat :=
  ((entries.find? fun e => e.1 == f && e.2.1 == i).map fun e => e.2.2).getD 0

def Machine.ofEntries (entries : List (Nat × Nat × Nat)) (cr3 : Nat) (pmm : Pmm) : Machine where
  phys := sparseWord entries
  cr3 := cr3
  pmm := pmm

/-- A word that is not zero is in the list. -/
theorem mem_of_sparseWord_ne_zero {f i : Nat} (h : sparseWord entries f i ≠ 0) :
    (f, i, sparseWord entries f i) ∈ entries := by
  unfold sparseWord at h ⊢
  cases hfind : entries.find? fun e => e.1 == f && e.2.1 == i with
  | none => simp [hfind] at h
  | some e =>
    have hmem := List.mem_of_find?_eq_some hfind
    have hkey := List.find?_some hfind
    simp only [Bool.and_eq_true, beq_iff_eq] at hkey
    obtain ⟨rfl, rfl⟩ := hkey
    exact hmem

/-- The names are those of the tables: the PML4 is there, and below each table the ones
that its entries point to. -/
structure NamesTables (entries : List (Nat × Nat × Nat)) (cr3 : Nat)
    (names : List (List Nat × Nat)) : Prop where
  root : ([], cr3) ∈ names
  child : ∀ n ∈ names, ∀ e ∈ entries, e.1 = n.2 → n.1.length < 3 → pointsTo e.2.2 →
    (n.1 = [] → e.2.1 ≠ recursiveIndex) → (n.1 ++ [e.2.1], frameOf e.2.2) ∈ names

theorem mem_names_of_tableAt (h : NamesTables entries cr3 names) (hp : TablePath p)
    (hT : tableAt (sparseWord entries) cr3 p = some T) : (p, T) ∈ names := by
  induction p using List.reverseRecOn generalizing T with
  | nil =>
    obtain rfl : cr3 = T := by simpa using hT
    exact h.root
  | append_singleton q i ih =>
    rw [tableAt_append] at hT
    obtain ⟨S, hS, hT⟩ := Option.bind_eq_some_iff.mp hT
    obtain ⟨hpoint, hT⟩ := tableAt_cons_eq_some.mp hT
    cases hT
    have hne : sparseWord entries S i ≠ 0 := by
      intro hzero
      rw [hzero] at hpoint
      exact absurd hpoint (by decide)
    have hlength := hp.length
    rw [List.length_append, List.length_singleton] at hlength
    refine h.child _ (ih (hp.init rfl) hS) _ (mem_of_sparseWord_ne_zero hne) rfl
      (by simp only; omega) hpoint ?_
    intro hq hi
    apply hp.head
    simp only at hq hi
    rw [hq, hi]
    rfl

/-- Tables in different frames, none of them free, are a tree. -/
theorem tree_ofEntries (names : List (List Nat × Nat)) (h : NamesTables entries cr3 names)
    (hself : SelfMapped (sparseWord entries) cr3) (hnodup : (names.map Prod.snd).Nodup)
    (hused : ∀ n ∈ names, n.2 ∉ pmm.freeSet) (hframes : pmm.totalFrames ≤ 2 ^ 40) :
    Tree (Machine.ofEntries entries cr3 pmm) where
  self := hself
  distinct p q T hp hq hT hT' := by
    have hmem := mem_names_of_tableAt h hp hT
    have hmem' := mem_names_of_tableAt h hq hT'
    exact congrArg Prod.fst (List.inj_on_of_nodup_map hnodup hmem hmem' rfl)
  used p T hp hT := hused _ (mem_names_of_tableAt h hp hT)
  frames := hframes

end WengShiOS.Mm
