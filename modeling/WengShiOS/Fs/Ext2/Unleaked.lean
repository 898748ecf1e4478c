import WengShiOS.Fs.Ext2.Write

/-! # Blocks are not lost

Between taking a block and referring to it the driver can fail, and then the block is lost.
If nothing fails, every block that a function took for a file is one of the file's blocks
when it returns. -/

namespace WengShiOS.Fs.Ext2

open Math Math.Prog Volume

variable {v u w : Volume} {inode inode' : Inode} {trace : List Event} {i b n index offset written : Nat}
  {data : List UInt8} {handle : Handle} {patch : Nat → Option UInt8}

/-- Every block that was taken between `v` and `u` is one of the file. -/
def Unleaked (v u : Volume) (inode' : Inode) : Prop :=
  ∀ b, v.geo.InVolume b → v.used b = false → u.used b = true → u.IsOf inode' b

theorem Unleaked.refl : Unleaked v v inode := by
  intro b _ hfree hused
  rw [hfree] at hused
  cases hused

/-- What the first part took the file still has after the second. -/
theorem Unleaked.trans (h : Unleaked v w inode) (hgeo : w.geo = v.geo)
    (hkept : ∀ b, w.IsOf inode b → u.IsOf inode' b) (h' : Unleaked w u inode') :
    Unleaked v u inode' := by
  intro b hin hfree hused
  cases hmid : w.used b with
  | true => exact hkept b (h b hin hfree hmid)
  | false => exact h' b (hgeo ▸ hin) hmid hused

/-- The one block that was taken is one of the file. -/
theorem Took.unleaked (h : Took v b w) (hused : ∀ b', v.geo.InVolume b' → u.used b' = w.used b')
    (hof : u.IsOf inode' b) : Unleaked v u inode' := by
  intro b' hin hfree hnow
  rw [hused b' hin, h.used b' hin, hfree, Bool.or_false, decide_eq_true_eq] at hnow
  exact hnow ▸ hof

theorem Ensured.unleaked {ok : Bool} (h : Ensured v inode trace ok inode' u) (hv : v.Ok)
    (hok : AllOk trace) : Unleaked v u inode' := by
  cases h with
  | present => exact .refl
  | full => exact .refl
  | leaked h12 htook hfailed => exact absurd hok hfailed
  | zeroed h12 htook =>
    have hmeta := htook.frame.geo ▸ htook.not_isMetadata hv
    refine htook.unleaked (fun b' hin => ?_) ⟨.table, ?_, ?_⟩
    · exact (htook.ok hv).used_setBlock hmeta (htook.frame.geo ▸ hin)
    · rw [slot_table, block_setBlock_table _ hv htook]
      exact htook.ne_zero hv
    · rw [slot_table, block_setBlock_table _ hv htook]
  | stale h12 htook hlost => cases hok _ hlost

theorem Entered.unleaked {r : Nat} (h : Entered v inode (index - 12) trace r inode' u) (hv : v.Ok)
    (ho : v.Owns inode) (hindex : 12 ≤ index) (hin : v.InRange index) (h12 : inode.block 12 ≠ 0)
    (hok : AllOk trace) : Unleaked v u inode' := by
  cases h with
  | failed hfailed => exact absurd hok hfailed
  | present => exact .refl
  | full => exact .refl
  | stored hentry htook =>
    have hmeta := htook.frame.geo ▸ (ho.usable .table h12).not_isMetadata
    obtain ⟨-, hmap⟩ := filled_entry v.state.blockSize hv ho htook hindex hin h12
      ((mapAt_entry hindex hin h12).trans hentry)
    refine htook.unleaked (fun b' hb' => ?_) ⟨.data index, ?_, ?_⟩
    · exact (htook.ok hv).used_setBlock hmeta (htook.frame.geo ▸ hb')
    · rw [slot_data, hmap, if_pos rfl]
      exact htook.ne_zero hv
    · rw [slot_data, hmap, if_pos rfl]
  | lost htook hlost => cases hok _ hlost

theorem inodeBlockAtOrAlloc_unleaked (hv : v.Ok) (ho : v.Owns inode) {r : Nat}
    (h : (inodeBlockAtOrAlloc inode index).Runs v trace (r, inode') u) (hok : AllOk trace) :
    Unleaked v u inode' := by
  have hbody := runs_getState_bind.mp h
  by_cases hdirect : index < 12
  · rw [if_pos hdirect] at hbody
    by_cases hblock : inode.block index ≠ 0
    · rw [if_pos hblock] at hbody
      obtain ⟨-, -, rfl⟩ := runs_pure.mp hbody
      exact .refl
    rw [if_neg hblock] at hbody
    obtain ⟨first, rest, newBlock, w, rfl, halloc, hrest⟩ := runs_bind.mp hbody
    rcases runs_allocBlock hv halloc with ⟨rfl, rfl, -⟩ | ⟨hne, htook⟩
    · obtain ⟨-, -, rfl⟩ := runs_pure.mp hrest
      exact .refl
    · rw [if_neg hne] at hrest
      obtain ⟨-, hr, rfl⟩ := runs_pure.mp hrest
      cases hr
      obtain ⟨-, hmap⟩ := filled_direct v.state.blockSize hv ho htook hdirect (not_not.mp hblock)
      refine htook.unleaked (fun _ _ => rfl) ⟨.data index, ?_, ?_⟩
      · rw [slot_data, hmap, if_pos rfl]
        exact hne
      · rw [slot_data, hmap, if_pos rfl]
  rw [if_neg hdirect] at hbody
  by_cases hrange : v.state.ptrsPerBlock ≤ index - 12
  · rw [if_pos hrange] at hbody
    obtain ⟨-, -, rfl⟩ := runs_pure.mp hbody
    exact .refl
  rw [if_neg hrange] at hbody
  obtain ⟨first, rest, ⟨ok, inode₁⟩, w, rfl, hensure, hrest⟩ := runs_bind.mp hbody
  obtain ⟨hokfirst, hokrest⟩ := allOk_append.mp hok
  have hens := ensured_of_runs hv hensure
  have hfirst := hens.unleaked hv hokfirst
  cases ok with
  | false =>
    obtain ⟨-, hr, rfl⟩ := runs_pure.mp hrest
    obtain ⟨-, rfl⟩ := Prod.mk.inj hr
    exact hfirst
  | true =>
    have hw := hens.volume_ok hv
    have hfilled := hens.filled hv ho (.of_allOk hokfirst)
    have hin : InRange w index := by
      change index < 12 + w.state.blockSize / 4
      rw [hfilled.splice.frame.blockSize]
      have : ¬ v.state.blockSize / 4 ≤ index - 12 := hrange
      omega
    have h12 := hens.table_ne_zero hv
    have hent := entered_of_runs hw hrest
    obtain ⟨hsecond, -⟩ := hent.filled hw hfilled.splice.owns (by omega) hin h12 (.of_allOk hokrest)
    refine hfirst.trans hfilled.splice.frame.geo (fun b hb => hsecond.splice.isOf hb) ?_
    exact hent.unleaked hw hfilled.splice.owns (by omega) hin h12 hokrest

/-- The loop of `write`: by induction on the passes, each of which takes a block for the file
and stores into it. -/
theorem writeLoop_unleaked {fuel : Nat} (hv : v.Ok) (ho : v.Owns inode)
    (hreach : v.Reaches (offset + written)) (hok : AllOk trace)
    (h : (writeLoop offset data fuel inode written).Runs v trace (n, inode') u) :
    Unleaked v u inode' := by
  induction fuel generalizing v inode written trace with
  | zero =>
    obtain ⟨-, -, rfl⟩ := runs_pure.mp h
    exact .refl
  | succ fuel ih =>
    rw [writeLoop] at h
    by_cases hlt : written < data.length
    swap
    · rw [if_neg hlt] at h
      obtain ⟨-, -, rfl⟩ := runs_pure.mp h
      exact .refl
    rw [if_pos hlt] at h
    obtain ⟨first, rest, ⟨b, inode₁⟩, w, rfl, hask, hrest⟩ := runs_bind.mp (runs_getState_bind.mp h)
    dsimp only at hrest
    obtain ⟨hpos, hblock⟩ := hreach.eq hv
    rw [hpos, hblock] at hask
    rw [hpos] at hrest
    obtain ⟨hokfirst, hokrest⟩ := allOk_append.mp hok
    have hasked := asked_of_runs hv ho hask (.of_allOk hokfirst)
    have hfirst := inodeBlockAtOrAlloc_unleaked hv ho hask hokfirst
    by_cases hb : b = 0
    · rw [if_pos hb] at hrest
      obtain ⟨-, hr, rfl⟩ := runs_pure.mp hrest
      obtain ⟨-, rfl⟩ := Prod.mk.inj hr
      exact hfirst
    rw [if_neg hb] at hrest
    obtain ⟨mid, last, ok, w', rfl, hchunk, hlast⟩ := runs_bind.mp hrest
    obtain ⟨hokmid, hoklast⟩ := allOk_append.mp hokrest
    cases ok with
    | false =>
      rcases runs_writeChunk hchunk with ⟨-, -, hfailed⟩ | ⟨htrue, -⟩
      · exact absurd hokmid hfailed
      · cases htrue
    | true =>
      have hfilled := hasked.filled
      have hsize : w.state.blockSize = v.state.blockSize := hfilled.splice.frame.blockSize
      have hresult := hasked.result hb
      subst hresult
      rw [← hsize] at hb hchunk hlast
      obtain ⟨hsplice, -, hfree, -⟩ := splice_pass hfilled.splice.ok hfilled.splice.owns hb
        (Nat.min_le_left ..) (Nat.min_le_right ..) hchunk
      have hreach' : Reaches w' (offset + (written + min (w.state.blockSize -
          (offset + written) % w.state.blockSize) (data.length - written))) :=
        hsplice.frame.reaches (reaches_pass hfilled.splice.ok (inRange_of_mapAt hb)
          (Nat.min_le_left ..))
      have hrest := ih hsplice.ok hsplice.owns hreach' hoklast hlast
      have hwrote := runs_writeLoop hsplice.ok hsplice.owns hreach' (by omega) hlast
        (.of_allOk hoklast)
      -- the chunk itself takes nothing
      have hstored : Unleaked w w' inode₁ := by
        intro b' hin hnot hused
        have hmem : b' ∈ freeBlocks w := mem_freeBlocks.mpr ⟨hin, hnot⟩
        rw [← hfree, mem_freeBlocks, hused] at hmem
        cases hmem.2
      refine hfirst.trans hfilled.splice.frame.geo (fun b' hb' => ?_)
        (hstored.trans hsplice.frame.geo (fun b' hb' => hwrote.splice.isOf hb') hrest)
      exact hwrote.splice.isOf (hsplice.isOf hb')

/-- **A call of `write` without failures** loses no block. -/
theorem exec_write_unleaked (hc : v.Consistent) (hi : v.Live i)
    (hhandle : handle.fsPrivate = ⟨i, v.inodeAt i⟩) (hreach : v.Reaches offset)
    (data : List UInt8) : Unleaked v ((write handle offset data).exec v).2
      (inodeAt ((write handle offset data).exec v).2 i) := by
  obtain ⟨trace, hok, h⟩ := exists_runs_exec (write handle offset data) v
  rcases runs_write h with ⟨-, -, -, hfailed⟩ |
    ⟨n, inode', first, rest, w, ok, rfl, hloop, hhandle', hres, hinode⟩
  · exact absurd hok hfailed
  obtain ⟨-, hok⟩ := allOk_cons.mp hok
  obtain ⟨hokfirst, hokrest⟩ := allOk_append.mp hok
  rw [hhandle] at hloop hinode
  have hreach0 : v.Reaches (offset + 0) := hreach
  have hwrote := runs_writeLoop hc.ok (hc.owns i hi) hreach0 (Nat.zero_le _) hloop
    (.of_allOk hokfirst)
  have hloopUnleaked := writeLoop_unleaked hc.ok (hc.owns i hi) hreach0 hokfirst hloop
  rcases runs_writeInode hwrote.splice.ok (hwrote.splice.frame.geo ▸ hi.hasInode) hinode with
    ⟨-, hu⟩ | ⟨-, -, hfailed⟩
  swap
  · exact absurd hokrest hfailed
  have hsaved : Saved v i (slicePatch offset data 0 n) (u64 (offset + n)) w inode'
      ((write handle offset data).exec v).2 := ⟨hwrote.splice, hwrote.counted, hu⟩
  intro b hin hfree hused
  rw [hsaved.used hc hi hin] at hused
  obtain ⟨s, hs, rfl⟩ := hloopUnleaked b hin hfree hused
  rw [hsaved.inodeAt_self hc hi]
  exact ⟨s, by rwa [hsaved.slot hc hi s], (hsaved.slot hc hi s).symm⟩

end WengShiOS.Fs.Ext2
