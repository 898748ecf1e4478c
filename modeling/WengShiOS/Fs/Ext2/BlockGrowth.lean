import WengShiOS.Fs.Ext2.Check

/-! # Asking for a block extends the map at one point

`inodeBlockAt` and `inodeBlockAtOrAlloc` follow the same map, and where it has no block the
second puts a free one, with an indirect block before it if that is missing. -/

namespace WengShiOS.Fs.Ext2

open Math Math.Prog Inode

variable {v u : Volume} {inode inode' : Inode} {index r : Nat} {trace : List Event}

/-- What asking for block `index` of a file does, if the answer is block `b`. -/
structure ExtendsMap (v : Volume) (inode : Inode) (index b : Nat) (inode' : Inode) (u : Volume) :
    Prop where
  mapped : ((inodeBlockAt inode' index).exec u).1 = b
  others : ∀ j, j ≠ index →
    ((inodeBlockAt inode' j).exec u).1 = ((inodeBlockAt inode j).exec v).1
  present : ((inodeBlockAt inode index).exec v).1 ≠ 0 → inode' = inode ∧ u = v
  fresh : ((inodeBlockAt inode index).exec v).1 = 0 →
    v.geo.InVolume b ∧ v.used b = false ∧ ¬ v.IsOf inode b
  taken : ((inodeBlockAt inode index).exec v).1 = 0 →
    v.freeBlocks.card - u.freeBlocks.card = if 12 ≤ index ∧ inode.block 12 = 0 then 2 else 1
  sectors : ((inodeBlockAt inode index).exec v).1 = 0 → inode'.sectors = (inode.sectors +
    (v.freeBlocks.card - u.freeBlocks.card) * (v.state.blockSize / 512)) % 2 ^ 32

/-! ### The field `blocks` -/

theorem Inode.sectors_addSectors (blockSize : Nat) :
    (inode.addSectors blockSize).sectors = (inode.sectors + blockSize / 512) % 2 ^ 32 :=
  readLE_writeLE

theorem Inode.sectors_setBlock (i value : Nat) : (inode.setBlock i value).sectors = inode.sectors :=
  readLE_writeLE_of_apart (.inr (by omega))

theorem Inode.sectors_mod : inode.sectors % 2 ^ 32 = inode.sectors :=
  Nat.mod_eq_of_lt readLE_lt

theorem Ensured.sectors (h : Ensured v inode trace true inode' u) : inode'.sectors =
    (inode.sectors + (if inode.block 12 = 0 then 1 else 0) * (v.state.blockSize / 512)) %
      2 ^ 32 := by
  cases h with
  | present h12 => rw [if_neg h12, Nat.zero_mul, Nat.add_zero, sectors_mod]
  | zeroed h12 | stale h12 =>
    rw [sectors_addSectors, sectors_setBlock, if_pos h12, Nat.one_mul]

theorem Entered.sectors (h : Entered v inode index trace r inode' u) (hr : r ≠ 0)
    (hentry : readLE 4 (v.block (inode.block 12)) (4 * index) = 0) :
    inode'.sectors = (inode.sectors + v.state.blockSize / 512) % 2 ^ 32 := by
  cases h with
  | failed | full => exact absurd rfl hr
  | present hne => exact absurd hentry hne
  | stored | lost => exact sectors_addSectors _

section

variable (hv : v.Ok) (ho : v.Owns inode)
  (h : (inodeBlockAtOrAlloc inode index).Runs v trace (r, inode') u)
include hv ho h

theorem sectors_of_runs (hr : r ≠ 0) (hok : AllOk trace) (hempty : v.mapAt inode index = 0) :
    inode'.sectors =
      (inode.sectors + v.cost inode index * (v.state.blockSize / 512)) % 2 ^ 32 := by
  have hbody := runs_getState_bind.mp h
  rw [Volume.cost, if_pos hempty]
  by_cases hdirect : index < 12
  · rw [if_pos hdirect, if_neg (not_not.mpr ((if_pos hdirect).symm.trans hempty))] at hbody
    obtain ⟨first, rest, newBlock, w, -, -, hrest⟩ := runs_bind.mp hbody
    split_ifs at hrest with hzero
    · obtain ⟨-, heq, -⟩ := runs_pure.mp hrest
      cases heq
      exact absurd rfl hr
    · obtain ⟨-, heq, -⟩ := runs_pure.mp hrest
      cases heq
      rw [if_neg (by omega), Nat.one_mul, sectors_addSectors, sectors_setBlock]
  have hindex : 12 ≤ index := by omega
  rw [if_neg hdirect] at hbody
  split_ifs at hbody with hrange
  · obtain ⟨-, heq, -⟩ := runs_pure.mp hbody
    cases heq
    exact absurd rfl hr
  obtain ⟨first, rest, ⟨ok, inode₁⟩, w, rfl, hensure, hrest⟩ := runs_bind.mp hbody
  have hens := ensured_of_runs hv hensure
  cases ok with
  | false =>
    obtain ⟨-, heq, -⟩ := runs_pure.mp hrest
    cases heq
    exact absurd rfl hr
  | true =>
    have htab : TableWritten v inode₁ first := .of_allOk (allOk_append.mp hok).1
    have hent := entered_of_runs (hens.volume_ok hv) hrest
    have hsize := (hens.filled hv ho htab).splice.frame.blockSize
    have hin : Volume.InRange w index := by
      change index < 12 + w.state.blockSize / 4
      have : ¬ v.state.blockSize / 4 ≤ index - 12 := hrange
      omega
    have hentry := (Volume.mapAt_entry hindex hin (hens.table_ne_zero hv)).symm.trans
      ((hens.mapAt hv htab index).trans hempty)
    rw [hent.sectors hr hentry, hens.sectors, hsize, Nat.mod_add_mod, Nat.add_assoc,
      Nat.add_comm (_ * _), Nat.add_mul, Nat.one_mul]
    simp only [hindex, true_and]

theorem extendsMap_of_runs (hok : AllOk trace) (hr : r ≠ 0) :
    ExtendsMap v inode index r inode' u := by
  have hasked := asked_of_runs hv ho h (.of_allOk hok)
  have hresult : r = u.mapAt inode' index := hasked.result hr
  have hcost : v.freeBlocks.card - u.freeBlocks.card = v.cost inode index := by
    have := hasked.spent hok hr
    omega
  constructor
  all_goals simp only [exec_inodeBlockAt]
  · exact hresult.symm
  · exact hasked.others
  · intro hne
    rcases runs_inodeBlockAtOrAlloc h with ⟨hu, hinode, -⟩ | ⟨-, -, hzero, -⟩
    · exact ⟨hinode, hu⟩
    · exact absurd hzero hne
  · intro hzero
    have hmap : u.mapAt inode' index ≠ 0 := hresult ▸ hr
    have hfree : v.used r = false := hresult ▸ hasked.filled.splice.fresh (.data index) hzero hmap
    have hin := (hasked.filled.splice.owns.usable_data hmap).inVolume
    rw [hasked.filled.splice.frame.geo, ← hresult] at hin
    exact ⟨hin, hfree, ho.not_isOf_of_free hfree⟩
  · intro hzero
    rw [hcost, Volume.cost, if_pos hzero]
    split_ifs <;> rfl
  · intro hzero
    rw [hcost]
    exact sectors_of_runs hv ho h hr hok hzero

end

/-- **The two block maps agree, and asking for a block extends the map at one point.** -/
theorem inodeBlockAtOrAlloc_extends (hv : v.Ok) (ho : v.Owns inode)
    (hr : ((inodeBlockAtOrAlloc inode index).exec v).1.1 ≠ 0) :
    ExtendsMap v inode index ((inodeBlockAtOrAlloc inode index).exec v).1.1
      ((inodeBlockAtOrAlloc inode index).exec v).1.2
      ((inodeBlockAtOrAlloc inode index).exec v).2 := by
  obtain ⟨trace, hok, h⟩ := exists_runs_exec (inodeBlockAtOrAlloc inode index) v
  exact extendsMap_of_runs hv ho h hok hr

/-- The first block behind the direct ones of a file of one block: it gets an indirect block
too. -/
theorem inodeBlockAtOrAlloc_extends_fileVolume :
    ExtendsMap fileVolume (fileVolume.inodeAt 11) 12
      ((inodeBlockAtOrAlloc (fileVolume.inodeAt 11) 12).exec fileVolume).1.1
      ((inodeBlockAtOrAlloc (fileVolume.inodeAt 11) 12).exec fileVolume).1.2
      ((inodeBlockAtOrAlloc (fileVolume.inodeAt 11) 12).exec fileVolume).2 :=
  inodeBlockAtOrAlloc_extends fileVolume_consistent.ok (fileVolume_consistent.owns 11 fileVolume_live)
    (by decide +kernel)

end WengShiOS.Fs.Ext2
