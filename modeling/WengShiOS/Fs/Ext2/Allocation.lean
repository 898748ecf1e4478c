import WengShiOS.Fs.Ext2.Access

/-! # Allocation

What a run of the allocators does, whatever accesses fail. A run either finds nothing
and changes nothing, or it has set a bit and counted it; a group's counter is checked
before it is decremented, so it never wraps and an allocation always shows in it. -/

namespace WengShiOS.Fs.Ext2

open Math Math.Prog FsInstance

variable {v u v' : Volume} {trace : List Event} {A : Allocator} {group group' : Nat}

/-! ### The counters -/

section Counters

variable (fs : FsInstance)

theorem groupFreeBlocks_setGroupFreeBlocks (value : Nat) :
    (fs.setGroupFreeBlocks group value).groupFreeBlocks group' =
      if group' = group then value % 2 ^ 16 else fs.groupFreeBlocks group' := by
  unfold groupFreeBlocks setGroupFreeBlocks
  split_ifs with h
  · rw [h, readLE_writeLE]
    norm_num
  · refine readLE_writeLE_of_apart ?_
    simp only [Apart, groupDescSize]
    omega

theorem groupFreeInodes_setGroupFreeInodes (value : Nat) :
    (fs.setGroupFreeInodes group value).groupFreeInodes group' =
      if group' = group then value % 2 ^ 16 else fs.groupFreeInodes group' := by
  unfold groupFreeInodes setGroupFreeInodes
  split_ifs with h
  · rw [h, readLE_writeLE]
    norm_num
  · refine readLE_writeLE_of_apart ?_
    simp only [Apart, groupDescSize]
    omega

theorem groupFreeInodes_setGroupFreeBlocks (value : Nat) :
    (fs.setGroupFreeBlocks group value).groupFreeInodes = fs.groupFreeInodes := by
  funext g
  refine readLE_writeLE_of_apart ?_
  simp only [Apart, groupDescSize]
  omega

theorem groupFreeBlocks_lt : fs.groupFreeBlocks group < 2 ^ 16 := by
  have h : fs.groupFreeBlocks group < 256 ^ 2 := readLE_lt
  exact h

theorem groupFreeInodes_lt : fs.groupFreeInodes group < 2 ^ 16 := by
  have h : fs.groupFreeInodes group < 256 ^ 2 := readLE_lt
  exact h

/-- Blocks and inodes are counted apart. -/
theorem groupFreeInodes_takeBlock (group : Nat) :
    (fs.takeBlock group).groupFreeInodes = fs.groupFreeInodes :=
  groupFreeInodes_setGroupFreeBlocks fs _

end Counters

/-- Taking one from a group whose counter is not 0 lowers that counter and no other. -/
structure Allocator.Counts (A : Allocator) : Prop where
  take : ∀ (fs : FsInstance) (group group' : Nat), A.freeCount fs group ≠ 0 →
    A.freeCount (A.take fs group) group' =
      if group' = group then A.freeCount fs group - 1 else A.freeCount fs group'

/-- `count--` of a 16-bit counter that is not 0. -/
theorem decrement_eq {count : Nat} (h0 : count ≠ 0) (hlt : count < 2 ^ 16) :
    (count + 2 ^ 16 - 1) % 2 ^ 16 = count - 1 := by
  omega

theorem blockAllocator_counts : blockAllocator.Counts where
  take fs group group' h0 := by
    have hpos : fs.groupFreeBlocks group ≠ 0 := h0
    change (fs.setGroupFreeBlocks group _).groupFreeBlocks group' = _
    rw [groupFreeBlocks_setGroupFreeBlocks, decrement_eq hpos (groupFreeBlocks_lt fs)]
    rfl

theorem inodeAllocator_counts : inodeAllocator.Counts where
  take fs group group' h0 := by
    have hpos : fs.groupFreeInodes group ≠ 0 := h0
    change (fs.setGroupFreeInodes group _).groupFreeInodes group' = _
    rw [groupFreeInodes_setGroupFreeInodes, decrement_eq hpos (groupFreeInodes_lt fs)]
    rfl

/-- No group has more than before, and one has fewer. -/
structure Fewer (count count' : Nat → Nat) : Prop where
  le : ∀ group, count' group ≤ count group
  lt : ∃ group, count' group < count group

theorem Fewer.trans {c₁ c₂ c₃ : Nat → Nat} (h : Fewer c₁ c₂) (h' : Fewer c₂ c₃) : Fewer c₁ c₃ where
  le group := (h'.le group).trans (h.le group)
  lt := by
    obtain ⟨group, hlt⟩ := h.lt
    exact ⟨group, (h'.le group).trans_lt hlt⟩

theorem Fewer.trans_eq {c₁ c₂ c₃ : Nat → Nat} (h : Fewer c₁ c₂) (h' : c₃ = c₂) : Fewer c₁ c₃ :=
  h' ▸ h

theorem Fewer.ne {c₁ c₂ : Nat → Nat} (h : Fewer c₁ c₂) : c₂ ≠ c₁ := by
  obtain ⟨group, hlt⟩ := h.lt
  intro heq
  exact absurd (congrFun heq group) hlt.ne

theorem Allocator.Counts.fewer (hA : A.Counts) {fs : FsInstance} (h0 : A.freeCount fs group ≠ 0) :
    Fewer (A.freeCount fs) (A.freeCount (A.take fs group)) where
  le g := by
    rw [hA.take fs group g h0]
    split_ifs with hg
    · rw [hg]
      exact Nat.sub_le ..
    · exact le_rfl
  lt := by
    refine ⟨group, ?_⟩
    rw [hA.take fs group group h0, if_pos rfl]
    omega

/-! ### Claiming a bit -/

theorem runs_claimBit {b limit : Nat} {r : Option Nat} (h : (claimBit b limit).Runs v trace r u) :
    (r = none ∧ u = v ∧ (AllOk trace → findClear (v.block b) limit 0 = none)) ∨
      ∃ bit, r = some bit ∧ findClear (v.block b) limit 0 = some bit ∧
        u = v.setBlock b (setBit (v.block b) bit) := by
  rcases runs_withBuffer.mp (runs_getState_bind.mp h) with ⟨rfl, rfl, rfl⟩ | ⟨tail, rfl, hbody⟩
  · exact .inl ⟨rfl, rfl, by simp⟩
  rcases runs_readBlock_bind.mp hbody with ⟨rest, rfl, hrest⟩ | ⟨rest, rfl, hrest⟩
  · obtain ⟨rfl, rfl, rfl⟩ := runs_pure.mp hrest
    exact .inl ⟨rfl, rfl, by simp⟩
  dsimp only at hrest
  cases hbit : findClear (v.block b) limit 0 with
  | none =>
    rw [hbit] at hrest
    obtain ⟨rfl, rfl, rfl⟩ := runs_pure.mp hrest
    exact .inl ⟨rfl, rfl, fun _ => rfl⟩
  | some bit =>
    rw [hbit] at hrest
    rcases runs_writeBlock_bind.mp hrest with ⟨last, rfl, hlast⟩ | ⟨last, rfl, hlast⟩
    · obtain ⟨rfl, rfl, rfl⟩ := runs_pure.mp hlast
      exact .inl ⟨rfl, rfl, by simp⟩
    · obtain ⟨rfl, rfl, rfl⟩ := runs_pure.mp hlast
      exact .inr ⟨bit, rfl, rfl, rfl⟩

theorem runs_updateCounters {update : FsInstance → FsInstance} {r : Unit}
    (h : (updateCounters update).Runs v trace r u) : u.state = update v.state := by
  obtain ⟨first, rest, done, w, -, hput, hwrites⟩ := runs_bind.mp (runs_getState_bind.mp h)
  obtain ⟨-, rfl⟩ := runs_putState.mp hput
  have hrest : Keeps id (do let _ ← writeGroupDescriptors; let _ ← writeSuperblock; pure ()) :=
    .bind (writeGroupDescriptors_inherits keeps_inherited) fun _ =>
      .bind (writeSuperblock_inherits keeps_inherited) fun _ => .pure _
  exact hrest hwrites

/-- The group has nothing to give: it does not exist, its counter is 0, or no bit is clear. -/
def Allocator.NoRoom (A : Allocator) (v : Volume) (group : Nat) : Prop :=
  v.state.groupCount ≤ group ∨ A.freeCount v.state group = 0 ∨
    findClear (v.block (A.bitmap v.state group)) (A.limit v.state group) 0 = none

/-- From `v` the allocator has set a bit of the group and counted it. -/
structure Allocator.Claims (A : Allocator) (v : Volume) (g bit : Nat) (rest : List Event)
    (u : Volume) : Prop where
  group : g < v.state.groupCount
  count : A.freeCount v.state g ≠ 0
  found : findClear (v.block (A.bitmap v.state g)) (A.limit v.state g) 0 = some bit
  update : (updateCounters (A.take · g)).Runs
    (v.setBlock (A.bitmap v.state g) (setBit (v.block (A.bitmap v.state g)) bit)) rest () u

theorem Allocator.Claims.state {bit : Nat} {rest : List Event} (h : A.Claims v group bit rest u) :
    u.state = A.take v.state group :=
  runs_updateCounters h.update

theorem runs_allocInGroup {r : Nat} (h : (A.allocInGroup group).Runs v trace r u) :
    (r = 0 ∧ u = v ∧ (AllOk trace → A.NoRoom v group)) ∨
      ∃ bit first rest, trace = first ++ rest ∧
        r = A.number v.state group bit ∧ A.Claims v group bit rest u := by
  have hbody := runs_getState_bind.mp h
  by_cases hgroup : v.state.groupCount ≤ group
  · rw [if_pos hgroup] at hbody
    obtain ⟨rfl, rfl, rfl⟩ := runs_pure.mp hbody
    exact .inl ⟨rfl, rfl, fun _ => .inl hgroup⟩
  rw [if_neg hgroup] at hbody
  by_cases hcount : A.freeCount v.state group = 0
  · rw [if_pos hcount] at hbody
    obtain ⟨rfl, rfl, rfl⟩ := runs_pure.mp hbody
    exact .inl ⟨rfl, rfl, fun _ => .inr (.inl hcount)⟩
  rw [if_neg hcount] at hbody
  obtain ⟨first, rest, bit, w', rfl, hclaim, hrest⟩ := runs_bind.mp hbody
  rcases runs_claimBit hclaim with ⟨rfl, rfl, hnone⟩ | ⟨bit, rfl, hfound, rfl⟩
  · obtain ⟨rfl, rfl, rfl⟩ := runs_pure.mp hrest
    rw [List.append_nil]
    exact .inl ⟨rfl, rfl, fun hok => .inr (.inr (hnone hok))⟩
  · obtain ⟨update, last, done, w'', rfl, hupdate, hlast⟩ := runs_bind.mp hrest
    obtain ⟨rfl, rfl, rfl⟩ := runs_pure.mp hlast
    exact .inr ⟨bit, first, update, by simp, rfl, by omega, hcount, hfound, hupdate⟩

theorem Allocator.Claims.not_noRoom {bit : Nat} {rest : List Event}
    (h : A.Claims v group bit rest u) : ¬ A.NoRoom v group := by
  rintro (hgroup | hcount | hnone)
  · exact absurd h.group (by omega)
  · exact h.count hcount
  · rw [h.found] at hnone
    cases hnone

/-- A run of the loop over the groups that changes nothing has found nothing; otherwise
one of them had room and the counters are lower. -/
theorem runs_allocLoop (hA : A.Counts) {n r : Nat} (h : (A.allocLoop n group).Runs v trace r u) :
    (r = 0 ∧ u = v ∧ (AllOk trace → ∀ g, group ≤ g → g < group + n → A.NoRoom v g)) ∨
      (Fewer (A.freeCount v.state) (A.freeCount u.state) ∧
        ∃ g < v.state.groupCount, ¬ A.NoRoom v g) := by
  induction n generalizing group v trace with
  | zero =>
    obtain ⟨rfl, rfl, rfl⟩ := runs_pure.mp h
    exact .inl ⟨rfl, rfl, fun _ g hle hlt => by omega⟩
  | succ n ih =>
    obtain ⟨first, rest, found, w, rfl, hfirst, hrest⟩ := runs_bind.mp h
    rcases runs_allocInGroup hfirst with ⟨rfl, rfl, hroom⟩ | ⟨bit, a, b, rfl, -, hclaim⟩
    · -- nothing in this group, so the result is that of the groups after it
      rcases ih hrest with ⟨rfl, rfl, hroom'⟩ | hfewer
      · refine .inl ⟨rfl, rfl, fun hok g hle hlt => ?_⟩
        obtain ⟨hok, hok'⟩ := allOk_append.mp hok
        rcases Nat.eq_or_lt_of_le hle with rfl | hlt'
        · exact hroom hok
        · exact hroom' hok' g hlt' (by omega)
      · exact .inr hfewer
    · have hfewer : Fewer (A.freeCount v.state) (A.freeCount w.state) := by
        rw [hclaim.state]
        exact hA.fewer hclaim.count
      refine .inr ⟨?_, group, hclaim.group, hclaim.not_noRoom⟩
      split_ifs at hrest with hzero
      · obtain ⟨-, -, rfl⟩ := runs_pure.mp hrest
        exact hfewer
      · -- a claimed number that is 0 does not end the loop
        rcases ih hrest with ⟨-, rfl, -⟩ | ⟨hfewer', -⟩
        · exact hfewer
        · exact hfewer.trans hfewer'

/-- No group has anything to give. -/
def Allocator.Full (A : Allocator) (v : Volume) : Prop :=
  ∀ g < v.state.groupCount, A.NoRoom v g

theorem runs_alloc_cases (hA : A.Counts) {r : Nat} (h : A.alloc.Runs v trace r u) :
    (r = 0 ∧ u = v ∧ (AllOk trace → A.Full v)) ∨
      (Fewer (A.freeCount v.state) (A.freeCount u.state) ∧ ¬ A.Full v) := by
  rcases runs_allocLoop hA (runs_getState_bind.mp h) with ⟨hr, hu, hroom⟩ | ⟨hfewer, g, hg, hnot⟩
  · exact .inl ⟨hr, hu, fun hok g hg => hroom hok g (Nat.zero_le g) (by omega)⟩
  · exact .inr ⟨hfewer, fun hfull => hnot (hfull g hg)⟩

end WengShiOS.Fs.Ext2
