import WengShiOS.Fs.Ext2.Allocation
import WengShiOS.Fs.Ext2.Image

/-! # When `create` fails

`create` takes an inode before it does anything that can fail for want of space, and
none of its later exits gives the inode back. So a failed call has left everything as it
was exactly if it did not come to take one. Which accesses fail is given by a pattern; with
it, whether an inode is taken can be read off the volume before the call. -/

namespace WengShiOS.Fs.Ext2

open Math Math.Prog

variable {v u v' : Volume} {trace : List Event} {pattern : Nat → Bool} {A : Allocator}
  {group : Nat}

/-- Whether a bit of the bitmap gets set, and after how many accesses: for the buffer, for the
block, and for the block with the bit. -/
def claimAttempt (pattern : Nat → Bool) (bitmap : Bytes) (limit : Nat) : Bool × Nat :=
  if !pattern 0 then (false, 1)
  else if !pattern 1 || (findClear bitmap limit 0).isNone then (false, 2)
  else (pattern 2, 3)

/-- None of the `n` groups from `group` on gives anything: its counter is 0, no bit is clear,
or an access fails. -/
def Allocator.refuses (A : Allocator) (v : Volume) : (Nat → Bool) → (n group : Nat) → Bool
  | _, 0, _ => true
  | pattern, n + 1, group =>
    if A.freeCount v.state group = 0 then A.refuses v pattern n (group + 1)
    else
      let (claimed, accesses) := claimAttempt pattern (v.block (A.bitmap v.state group))
        (A.limit v.state group)
      !claimed && A.refuses v (later pattern accesses) n (group + 1)

theorem run_claimBit (pattern : Nat → Bool) (v : Volume) (b limit : Nat) :
    ((claimBit b limit).run pattern v).1.isSome = (claimAttempt pattern (v.block b) limit).1 ∧
      ((claimBit b limit).run pattern v).2.2.length =
        (claimAttempt pattern (v.block b) limit).2 := by
  have hblock : window v.disk (sectorSize * (b * (v.state.blockSize / sectorSize)))
      (sectorSize * (v.state.blockSize / sectorSize)) = v.block b := rfl
  unfold claimAttempt
  simp only [claimBit, withBuffer, readBlock, writeBlock, getState, alloc, readSectors,
    writeSectors, free, Bind.bind, Pure.pure, Prog.bind, run]
  cases h0 : pattern 0 with
  | false => simp [run]
  | true =>
    cases h1 : pattern 1 with
    | false => simp [run, Prog.bind, h1]
    | true =>
      cases hbit : findClear (v.block b) limit 0 with
      | none => simp [run, Prog.bind, h1, hblock, hbit]
      | some bit => cases h2 : pattern 2 <;> simp [run, Prog.bind, h1, h2, hblock, hbit]

/-- A group that has something takes a bit if the attempt tells so. -/
theorem run_allocInGroup {r : Nat} (hgroup : group < v.state.groupCount)
    (hcount : A.freeCount v.state group ≠ 0)
    (h : (A.allocInGroup group).run pattern v = (r, u, trace)) :
    let attempt := claimAttempt pattern (v.block (A.bitmap v.state group)) (A.limit v.state group)
    (attempt.1 = false → r = 0 ∧ u = v ∧ trace.length = attempt.2) ∧
      (attempt.1 = true → u.state = A.take v.state group) := by
  intro attempt
  rw [Allocator.allocInGroup, run_getState_bind, if_neg (by omega), if_neg hcount] at h
  obtain ⟨bit, w, first, rest, hclaim, hrest, rfl⟩ := run_bind_cases h
  obtain ⟨hsome, hlength⟩ :=
    run_claimBit pattern v (A.bitmap v.state group) (A.limit v.state group)
  rw [hclaim] at hsome hlength
  rcases runs_claimBit (runs_of_run hclaim) with ⟨rfl, rfl, -⟩ | ⟨bit, rfl, -, rfl⟩
  · cases hrest
    refine ⟨fun _ => ⟨rfl, rfl, ?_⟩, fun htrue => ?_⟩
    · rw [List.append_nil]
      exact hlength
    · cases hsome.trans htrue
  · refine ⟨fun hfalse => ?_, fun _ => ?_⟩
    · cases hsome.trans hfalse
    · obtain ⟨done, w', first', rest', hupdate, hlast, rfl⟩ := run_bind_cases hrest
      cases hlast
      exact runs_updateCounters (runs_of_run hupdate)

/-- The loop over the groups takes something unless all of them refuse. -/
theorem run_allocLoop (hA : A.Counts) {n r : Nat} (hn : group + n ≤ v.state.groupCount)
    (h : (A.allocLoop n group).run pattern v = (r, u, trace)) :
    (A.refuses v pattern n group = true → r = 0 ∧ u = v) ∧
      (A.refuses v pattern n group = false →
        Fewer (A.freeCount v.state) (A.freeCount u.state)) := by
  induction n generalizing group pattern trace with
  | zero =>
    cases h
    exact ⟨fun _ => ⟨rfl, rfl⟩, nofun⟩
  | succ n ih =>
    obtain ⟨found, w, first, rest, hfirst, hrest, rfl⟩ := run_bind_cases h
    rw [Allocator.refuses]
    by_cases hcount : A.freeCount v.state group = 0
    · have hnone : (A.allocInGroup group).run pattern v = (0, v, []) := by
        rw [Allocator.allocInGroup, run_getState_bind, if_neg (by omega), if_pos hcount]
        rfl
      cases hnone.symm.trans hfirst
      rw [if_pos hcount]
      exact ih (by omega) hrest
    rw [if_neg hcount]
    obtain ⟨hfails, htakes⟩ := run_allocInGroup (by omega) hcount hfirst
    cases hattempt : (claimAttempt pattern (v.block (A.bitmap v.state group))
      (A.limit v.state group)).1 with
    | false =>
      obtain ⟨rfl, rfl, hlength⟩ := hfails hattempt
      rw [hlength] at hrest
      simpa [hattempt] using ih (by omega) hrest
    | true =>
      have hfewer : Fewer (A.freeCount v.state) (A.freeCount w.state) := by
        rw [htakes hattempt]
        exact hA.fewer hcount
      refine ⟨by simp [hattempt], fun _ => ?_⟩
      split_ifs at hrest with hfound
      · cases hrest
        exact hfewer
      · -- a claimed number that is 0 does not end the loop
        rcases runs_allocLoop hA (runs_of_run hrest) with ⟨-, rfl, -⟩ | ⟨hfewer', -⟩
        · exact hfewer
        · exact hfewer.trans hfewer'

/-- With these answers `create` comes to no inode: its parent cannot be opened or is no
directory, the name exists, or no group gives an inode. -/
def noInode (path : CString) (pattern : Nat → Bool) (v : Volume) : Bool :=
  match (openParent path).run pattern v with
  | (none, _) => true
  | (some parent, _, opened) =>
    !parent.inode.isDir ||
      let (existing, _, looked) :=
        (lookupInDir parent.inode parent.name).run (later pattern opened.length) v
      existing ≠ 0 || inodeAllocator.refuses v
        (later (later pattern opened.length) looked.length) v.state.groupCount 0

/-- The part of `create` that ends with `allocInode` changes nothing, or has taken an
inode. -/
theorem run_createTarget {path : CString} {r : Option (Parent × Nat)}
    (h : (createTarget path).run pattern v = (r, u, trace)) :
    (noInode path pattern v = true → r = none ∧ u = v) ∧
      (noInode path pattern v = false →
        Fewer v.state.groupFreeInodes u.state.groupFreeInodes) := by
  obtain ⟨parent, w, opened, rest, hparent, hrest, rfl⟩ := run_bind_cases h
  obtain ⟨rfl, -⟩ := openParent_inherits readOnly_inherited path (runs_of_run hparent)
  rw [noInode, hparent]
  cases parent with
  | none =>
    cases hrest
    exact ⟨fun _ => ⟨rfl, rfl⟩, nofun⟩
  | some parent =>
    dsimp only at hrest ⊢
    cases hdir : parent.inode.isDir with
    | false =>
      rw [hdir] at hrest
      cases hrest
      exact ⟨fun _ => ⟨rfl, rfl⟩, nofun⟩
    | true =>
      rw [hdir, if_neg (by decide)] at hrest
      obtain ⟨existing, w', looked, last, hlookup, hlast, rfl⟩ := run_bind_cases hrest
      obtain ⟨rfl, -⟩ := lookupInDir_inherits readOnly_inherited _ _ (runs_of_run hlookup)
      rw [hlookup]
      split_ifs at hlast with hexists
      · cases hlast
        exact ⟨fun _ => ⟨rfl, rfl⟩, by simp [hexists]⟩
      obtain ⟨newInodeNum, w'', taken, tail, halloc, htail, rfl⟩ := run_bind_cases hlast
      obtain ⟨hrefused, htaken⟩ := run_allocLoop inodeAllocator_counts (by omega) halloc
      simp only [Bool.not_true, Bool.false_or, hexists, decide_false]
      refine ⟨fun hnone => ?_, fun hsome => ?_⟩
      · obtain ⟨rfl, rfl⟩ := hrefused hnone
        cases htail
        exact ⟨rfl, rfl⟩
      · -- what follows the allocation only returns
        split_ifs at htail <;>
        · cases htail
          exact htaken hsome

/-- **A failed `create` changes nothing exactly if it takes no inode.** Whatever accesses
fail: if `create` returns false, the volume in memory and on the disk is as before when the
call comes to no inode, and otherwise the number of free inodes is not. -/
theorem create_failed_unchanged_iff {path : CString} {isDirectory : Bool}
    (h : (create path isDirectory).run pattern v = (false, v', trace)) :
    (v' = v ↔ noInode path pattern v = true) ∧
      (noInode path pattern v = false →
        v'.state.groupFreeInodes ≠ v.state.groupFreeInodes) := by
  obtain ⟨target, u, first, rest, htarget, hrest, rfl⟩ := run_bind_cases h
  obtain ⟨hnone, hsome⟩ := run_createTarget htarget
  -- the rest of `create` does not touch the counters of inodes
  have hkeeps : v'.state.groupFreeInodes = u.state.groupFreeInodes := by
    cases target with
    | none => rw [(runs_pure.mp (runs_of_run hrest)).2.2]
    | some target =>
      exact createInode_inherits keeps_inherited
        (fun group => updateCounters_keeps (groupFreeInodes_takeBlock · group)) _ _ _
        (runs_of_run hrest)
  have hne : noInode path pattern v = false →
      v'.state.groupFreeInodes ≠ v.state.groupFreeInodes := by
    intro hfalse
    rw [hkeeps]
    exact (hsome hfalse).ne
  refine ⟨⟨fun heq => ?_, fun htrue => ?_⟩, hne⟩
  · by_contra hfalse
    exact hne (Bool.not_eq_true _ ▸ hfalse) (by rw [heq])
  · obtain ⟨rfl, rfl⟩ := hnone htrue
    cases hrest
    rfl

/-- `create` of a name that exists fails before it takes an inode. -/
theorem create_existing_unchanged :
    ((create [dot] false).run (fun _ => true) smallVolume).1 = false ∧
      ((create [dot] false).run (fun _ => true) smallVolume).2.1 = smallVolume := by
  have hfail : ((create [dot] false).run (fun _ => true) smallVolume).1 = false := by
    decide +kernel
  have hnone : noInode [dot] (fun _ => true) smallVolume = true := by decide +kernel
  exact ⟨hfail, (create_failed_unchanged_iff (Prod.ext hfail rfl)).1.mpr hnone⟩

/-- The small image with no free block: the counters are 0 and all 63 bits are set. -/
def fullDisk : Bytes := stores [⟨4, 1036, 0⟩, ⟨2, 2060, 0⟩, ⟨8, 3072, 2 ^ 63 - 1⟩] smallDisk

/-- On a full volume a new directory gets an inode and no block; the call fails and the
inode stays taken, though no access has failed. -/
theorem not_create_failed_unchanged :
    ∃ (v v' : Volume) (trace : List Event) (path : CString),
      (create path true).run (fun _ => true) v = (false, v', trace) ∧
        v.state.groupFreeInodes 0 = 6 ∧ v'.state.groupFreeInodes 0 = 5 := by
  have hfail : ((create [0x64] true).run (fun _ => true) (mounted fullDisk)).1 = false := by
    decide +kernel
  exact ⟨mounted fullDisk, _, _, [0x64], Prod.ext hfail rfl, by decide +kernel, by decide +kernel⟩

end WengShiOS.Fs.Ext2
