import WengShiOS.Mm.HeapInvariant
import WengShiOS.Mm.Vmm
import Mathlib.Data.List.Infix

/-! # Page tables as a tree

A table is named by the indices that lead to it. In a tree different names mean
different frames, so a store into a table changes only the walks that pass through
that very entry (`walk_congr`); and the recursive slot makes every table accessible
at the address the kernel computes from its name (`walk_virtOf`). -/

namespace WengShiOS.Mm

open Math Function

variable {phys phys' : Nat → Nat → Nat} {F T G i j k e : Nat} {p q r rest : List Nat}

/-! ### Entries -/

theorem frameOf_eq (e : Nat) : frameOf e = e / 2 ^ 12 % 2 ^ 40 := by
  have hmask : addrMask >>> 12 = 2 ^ 40 - 1 := by decide
  rw [frameOf, pageSize, show (4096 : Nat) = 2 ^ 12 by rfl, ← Nat.shiftRight_eq_div_pow,
    ← Nat.shiftRight_eq_div_pow, Nat.shiftRight_and_distrib, hmask,
    Nat.and_two_pow_sub_one_eq_mod]

theorem present_eq (e : Nat) : present e = decide (e % 2 = 1) := by
  rw [present, Nat.testBit_zero]

theorem pageSizeBit_eq (e : Nat) : pageSizeBit e = decide (e / 2 ^ 7 % 2 = 1) := by
  rw [pageSizeBit, Nat.testBit_eq_decide_div_mod_eq]

/-- Flags are added to a page-aligned address. -/
theorem mul_pageSize_or (hj : j < pageSize) : k * pageSize ||| j = k * pageSize + j := by
  rw [pageSize, show (4096 : Nat) = 2 ^ 12 by rfl, Nat.mul_comm]
  exact (Nat.two_pow_add_eq_or_of_lt hj k).symm

/-- A frame with flags below the page-size bit. -/
theorem frame_or_spec {flags : Nat} (hG : G < 2 ^ 40) (hflags : flags < 128)
    (hpresent : flags % 2 = 1) :
    present (G * frameSize ||| flags) = true ∧ pageSizeBit (G * frameSize ||| flags) = false ∧
      frameOf (G * frameSize ||| flags) = G := by
  have he : G * frameSize ||| flags = G * 4096 + flags :=
    mul_pageSize_or (hflags.trans (by decide))
  simp only [he, present_eq, pageSizeBit_eq, frameOf_eq, decide_eq_true_eq, decide_eq_false_iff_not]
  refine ⟨by omega, by omega, by omega⟩

/-- The entry of a new table points to its frame and is no leaf. -/
theorem tableEntry_spec (hG : G < 2 ^ 40) :
    let e := G * frameSize ||| pagePresent ||| pageWritable ||| pageUser
    present e = true ∧ pageSizeBit e = false ∧ frameOf e = G := by
  rw [Nat.or_assoc, Nat.or_assoc]
  exact frame_or_spec hG (by decide) (by decide)

/-! ### Table addresses -/

theorem shiftLeft_or_shiftLeft {a b m n : Nat} (hmn : n ≤ m) (hb : b < 2 ^ (m - n)) :
    a <<< m ||| b <<< n = (a * 2 ^ (m - n) + b) <<< n := by
  obtain ⟨d, rfl⟩ := Nat.exists_eq_add_of_le hmn
  rw [Nat.add_sub_cancel_left] at hb ⊢
  rw [Nat.add_comm n d, Nat.shiftLeft_add, ← Nat.shiftLeft_or_distrib, Nat.shiftLeft_eq a,
    Nat.mul_comm, ← Nat.two_pow_add_eq_or_of_lt hb a]

/-- The computed address has the given indices, and is canonical. -/
theorem tableVirt_spec {i₄ i₃ i₂ i₁ : Nat} (h₄ : i₄ < 512) (h₃ : i₃ < 512) (h₂ : i₂ < 512)
    (h₁ : i₁ < 512) (hk : k < 512) :
    wrap (tableVirt i₄ i₃ i₂ i₁ + 8 * k) = tableVirt i₄ i₃ i₂ i₁ + 8 * k ∧
      canonical (tableVirt i₄ i₃ i₂ i₁ + 8 * k) ∧
      indices (tableVirt i₄ i₃ i₂ i₁ + 8 * k) = [i₄, i₃, i₂, i₁] ∧
      (tableVirt i₄ i₃ i₂ i₁ + 8 * k) % 4096 / 8 = k := by
  obtain ⟨n, hn⟩ : ∃ n, n = ((i₄ * 512 + i₃) * 512 + i₂) * 512 + i₁ := ⟨_, rfl⟩
  have haddr : i₄ <<< 39 ||| i₃ <<< 30 ||| i₂ <<< 21 ||| i₁ <<< 12 = n * 4096 := by
    rw [shiftLeft_or_shiftLeft (by omega) (by simpa using h₃),
      shiftLeft_or_shiftLeft (by omega) (by simpa using h₂),
      shiftLeft_or_shiftLeft (by omega) (by simpa using h₁), Nat.shiftLeft_eq]
    norm_num [hn]
  have hvirt : tableVirt i₄ i₃ i₂ i₁ =
      if i₄ < 256 then n * 4096 else 0xFFFF000000000000 + n * 4096 := by
    rw [tableVirt, haddr, canonicalize, Nat.testBit_eq_decide_div_mod_eq]
    by_cases h : i₄ < 256
    · rw [if_pos h, if_neg (by rw [decide_eq_true_eq]; omega)]
    · have hhigh : 0xFFFF000000000000 = 2 ^ 48 * 0xFFFF := by norm_num
      have hlow : n * 4096 < 2 ^ 48 := by omega
      have hbit : decide (n * 4096 / 2 ^ 47 % 2 = 1) = true := by
        rw [decide_eq_true_eq]
        omega
      rw [if_neg h, if_pos hbit, Nat.or_comm, hhigh, ← Nat.two_pow_add_eq_or_of_lt hlow]
  have hlt : (if i₄ < 256 then n * 4096 else 0xFFFF000000000000 + n * 4096) + 8 * k < 2 ^ 64 := by
    split_ifs <;> omega
  rw [hvirt]
  refine ⟨wrap_of_lt hlt, ?_, ?_, ?_⟩
  · unfold canonical
    split_ifs with h <;> omega
  · simp only [indices, List.cons.injEq, and_true]
    split_ifs with h
    · exact ⟨by omega, by omega, by omega, by omega⟩
    · exact ⟨by omega, by omega, by omega, by omega⟩
  · split_ifs <;> omega

/-! ### Walks and tables -/

/-- An entry that points to a table. -/
def pointsTo (e : Nat) : Prop := present e = true ∧ pageSizeBit e = false

instance (e : Nat) : Decidable (pointsTo e) := inferInstanceAs (Decidable (_ ∧ _))

/-- The table a list of indices leads to. -/
def tableAt (phys : Nat → Nat → Nat) (table : Nat) : List Nat → Option Nat
  | [] => some table
  | i :: rest =>
    if pointsTo (phys table i) then tableAt phys (frameOf (phys table i)) rest else none

@[simp] theorem tableAt_nil : tableAt phys F [] = some F := rfl

theorem tableAt_cons_of_pointsTo (h : pointsTo (phys F i)) :
    tableAt phys F (i :: rest) = tableAt phys (frameOf (phys F i)) rest := if_pos h

theorem tableAt_cons_eq_some :
    tableAt phys F (i :: rest) = some T ↔
      pointsTo (phys F i) ∧ tableAt phys (frameOf (phys F i)) rest = some T := by
  rw [tableAt]
  split_ifs with h <;> simp [h]

theorem tableAt_append : tableAt phys F (p ++ q) = (tableAt phys F p).bind (tableAt phys · q) := by
  induction p generalizing F with
  | nil => rfl
  | cons i rest ih =>
    rw [List.cons_append, tableAt, tableAt]
    split_ifs
    · exact ih
    · rfl

/-- The tables on the way to a table. -/
theorem tableAt_take (h : tableAt phys F p = some T) (k : Nat) : tableAt phys F (p.take k) ≠ none := by
  intro hnone
  rw [← List.take_append_drop k p, tableAt_append, hnone] at h
  cases h

theorem tableAt_concat (h : tableAt phys F q = some T) :
    tableAt phys F (q ++ [i]) = if pointsTo (phys T i) then some (frameOf (phys T i)) else none := by
  rw [tableAt_append, h]
  rfl

theorem lookup_cons_of_pointsTo (h : pointsTo (phys F i)) (hrest : rest ≠ []) :
    lookup phys F (i :: rest) = lookup phys (frameOf (phys F i)) rest := by
  cases rest with
  | nil => exact absurd rfl hrest
  | cons j rest => simp [lookup, h.1, h.2]

/-- A walk goes on from the table its first indices lead to. -/
theorem lookup_append (h : tableAt phys F p = some T) (hq : q ≠ []) :
    lookup phys F (p ++ q) = lookup phys T q := by
  induction p generalizing F with
  | nil =>
    obtain rfl : F = T := by simpa using h
    rfl
  | cons i rest ih =>
    obtain ⟨hpoint, hrest⟩ := tableAt_cons_eq_some.mp h
    rw [List.cons_append, lookup_cons_of_pointsTo hpoint (by simp [hq]), ih hrest]

/-- The entries that a walk along `p` reads are the same in both memories. -/
def SameAlong (phys phys' : Nat → Nat → Nat) (F : Nat) (p : List Nat) : Prop :=
  ∀ r i s T, p = r ++ i :: s → tableAt phys F r = some T → phys' T i = phys T i

theorem SameAlong.tail (h : SameAlong phys phys' F (i :: rest)) (hpoint : pointsTo (phys F i)) :
    SameAlong phys phys' (frameOf (phys F i)) rest := fun r j s T hp hT =>
  h (i :: r) j s T (by rw [hp]; rfl) (by rw [tableAt_cons_of_pointsTo hpoint, hT])

/-- Only the entries on its way matter to a walk. -/
theorem walk_congr (h : SameAlong phys phys' F p) :
    tableAt phys' F p = tableAt phys F p ∧ lookup phys' F p = lookup phys F p := by
  induction p generalizing F with
  | nil => exact ⟨rfl, rfl⟩
  | cons i rest ih =>
    have hentry : phys' F i = phys F i := h [] i rest F rfl rfl
    by_cases hpoint : pointsTo (phys F i)
    · have hpoint' : pointsTo (phys' F i) := hentry ▸ hpoint
      obtain ⟨htable, hlookup⟩ := ih (h.tail hpoint)
      refine ⟨?_, ?_⟩
      · rw [tableAt_cons_of_pointsTo hpoint, tableAt_cons_of_pointsTo hpoint', hentry, htable]
      · cases rest with
        | nil => simp [lookup, hentry]
        | cons j rest =>
          rw [lookup_cons_of_pointsTo hpoint (by simp), lookup_cons_of_pointsTo hpoint' (by simp),
            hentry, hlookup]
    · refine ⟨by rw [tableAt, tableAt, hentry, if_neg hpoint, if_neg hpoint], ?_⟩
      cases rest with
      | nil => simp [lookup, hentry]
      | cons j rest =>
        simp only [pointsTo, not_and, Bool.not_eq_false] at hpoint
        rw [lookup, lookup, hentry]
        split_ifs with h₁ h₂
        · rfl
        · rfl
        · exact absurd (hpoint h₁) h₂
        · rfl

/-! ### The recursive slot -/

/-- The slot 510 of the PML4 points to the PML4. -/
def SelfMapped (phys : Nat → Nat → Nat) (cr3 : Nat) : Prop :=
  pointsTo (phys cr3 recursiveIndex) ∧ frameOf (phys cr3 recursiveIndex) = cr3

/-- The address at which the kernel accesses a table. -/
def virtOf : List Nat → Nat
  | [] => pml4Virt
  | [i₄] => pdptVirt i₄
  | [i₄, i₃] => pdVirt i₄ i₃
  | i₄ :: i₃ :: i₂ :: _ => ptVirt i₄ i₃ i₂

/-- The name of a table: at most three indices, and not through the recursive slot. -/
structure TablePath (p : List Nat) : Prop where
  length : p.length ≤ 3
  head : p.head? ≠ some recursiveIndex
  lt : ∀ i ∈ p, i < 512

namespace Machine

variable {m m' : Machine}

theorem setWord_phys_of_ne {F w : Nat} (hj : j ≠ i) : (m.setWord F i w).phys F j = m.phys F j := by
  simp [setWord, hj]

section

variable (hself : SelfMapped m.phys m.cr3) (hp : TablePath p) (hT : tableAt m.phys m.cr3 p = some T)
  (hk : k < 512)
include hself hp hT hk

/-- The walk of a computed address ends in the table that it names. -/
theorem walk_virtOf :
    m.access (wrap (virtOf p + 8 * k)) = some T ∧ wrap (virtOf p + 8 * k) % 4096 / 8 = k := by
  obtain ⟨hpoint, hcr3⟩ := hself
  have hrec : recursiveIndex < 512 := by decide
  -- three steps or fewer stay in the PML4, then the name itself is followed
  have key : ∀ i₄ i₃ i₂ i₁, i₄ < 512 → i₃ < 512 → i₂ < 512 → i₁ < 512 →
      (lookup m.phys m.cr3 [i₄, i₃, i₂, i₁]).map Leaf.frame = some T →
      m.access (wrap (tableVirt i₄ i₃ i₂ i₁ + 8 * k)) = some T ∧
        wrap (tableVirt i₄ i₃ i₂ i₁ + 8 * k) % 4096 / 8 = k := by
    intro i₄ i₃ i₂ i₁ h₄ h₃ h₂ h₁ hwalk
    obtain ⟨hwrap, hcanon, hind, hoff⟩ := tableVirt_spec h₄ h₃ h₂ h₁ hk
    rw [hwrap]
    exact ⟨by rw [access, if_pos hcanon, walk, hind, hwalk], hoff⟩
  have hstep : ∀ rest : List Nat, rest ≠ [] →
      lookup m.phys m.cr3 (recursiveIndex :: rest) = lookup m.phys m.cr3 rest := fun rest hrest => by
    rw [lookup_cons_of_pointsTo hpoint hrest, hcr3]
  have hlast : ∀ q i, tableAt m.phys m.cr3 (q ++ [i]) = some T →
      (lookup m.phys m.cr3 (q ++ [i])).map Leaf.frame = some T := fun q i hq => by
    cases hS : tableAt m.phys m.cr3 q with
    | none => simp [tableAt_append, hS] at hq
    | some S =>
      rw [tableAt_concat hS] at hq
      split_ifs at hq with hpt
      rw [lookup_append hS (by simp), lookup, if_pos hpt.1]
      simpa using hq
  have hlt := hp.lt
  match p, hp.length with
  | [], _ =>
    obtain rfl : m.cr3 = T := by simpa using hT
    refine key _ _ _ _ hrec hrec hrec hrec ?_
    rw [hstep _ (by simp), hstep _ (by simp), hstep _ (by simp), lookup, if_pos hpoint.1]
    simp [hcr3]
  | [a], _ =>
    refine key _ _ _ _ hrec hrec hrec (hlt a (by simp)) ?_
    rw [hstep _ (by simp), hstep _ (by simp), hstep _ (by simp)]
    exact hlast [] a hT
  | [a, b], _ =>
    refine key _ _ _ _ hrec hrec (hlt a (by simp)) (hlt b (by simp)) ?_
    rw [hstep _ (by simp), hstep _ (by simp)]
    exact hlast [a] b hT
  | [a, b, c], _ =>
    refine key _ _ _ _ hrec (hlt a (by simp)) (hlt b (by simp)) (hlt c (by simp)) ?_
    rw [hstep _ (by simp)]
    exact hlast [a, b] c hT

theorem readWord_virtOf :
    m.readWord (virtOf p) k = some (m.phys T k) := by
  obtain ⟨haccess, hoff⟩ := walk_virtOf hself hp hT hk
  rw [readWord, haccess, hoff]
  rfl

theorem writeWord_virtOf (value : Nat) :
    m.writeWord (virtOf p) k value = some (m.setWord T k value) := by
  obtain ⟨haccess, hoff⟩ := walk_virtOf hself hp hT hk
  rw [writeWord, haccess, hoff]
  rfl

end

/-- A frame that is accessible whatever it contains is filled word by word. -/
theorem fill_eq {table n : Nat} (hn : n ≤ 512) (value : Nat → Nat)
    (haccess : ∀ words, ∀ k < 512,
      ({ m with phys := update m.phys G words } : Machine).access (wrap (table + 8 * k)) =
        some G ∧ wrap (table + 8 * k) % 4096 / 8 = k) :
    m.fill table n value = some { m with
      phys := update m.phys G fun i => if i < n then value i else m.phys G i } := by
  induction n with
  | zero => simp [fill]
  | succ n ih =>
    have hprev := ih (by omega)
    unfold fill at hprev ⊢
    rw [List.range_succ, List.foldlM_append, hprev]
    obtain ⟨hframe, hoff⟩ := haccess (fun i => if i < n then value i else m.phys G i) n (by omega)
    simp only [Option.bind_eq_bind, Option.bind_some, List.foldlM_cons, List.foldlM_nil, writeWord,
      hframe, hoff, Option.map_some, Option.pure_def, setWord, update_self,
      update_idem, Option.some.injEq]
    congr 2
    funext i
    by_cases hi : i = n
    · simp [hi]
    · simp only [update_of_ne hi]
      have : i < n ↔ i < n + 1 := by omega
      simp only [this]

/-- A table that can be found whatever it contains is filled word by word. -/
theorem fill_virtOf {n : Nat} (hn : n ≤ 512) (value : Nat → Nat) (hp : TablePath p)
    (hfind : ∀ words, SelfMapped (update m.phys G words) m.cr3 ∧
      tableAt (update m.phys G words) m.cr3 p = some G) :
    m.fill (virtOf p) n value = some { m with
      phys := update m.phys G fun i => if i < n then value i else m.phys G i } :=
  fill_eq hn value fun words _ => walk_virtOf (hfind words).1 hp (hfind words).2

end Machine

end WengShiOS.Mm
