import WengShiOS.Mm.HeapWindows

/-! # Requests of any size

`kmalloc` takes any 64-bit size and computes with it modulo `2^64`. Rounding up loses the
request if it is within 15 of `2^64`: the block that is returned then has next to no room.
The check of `growHeap` against the limit of the heap is a sum that wraps for requests
beyond the distance from the heap to `2^64`: the pages from there on are mapped as well. -/

namespace WengShiOS.Mm

open Math HeapState

namespace Heap

variable {h h' : Heap} {block size request fuel ptr : Nat} {blocks : List (Nat × Block)}
  (mapped : Nat → Bool)

/-! ### The block behind the pointer -/

/-- The block in front of the pointer is in use and has room for the request. -/
def Delivers (h : Heap) (ptr size : Nat) : Prop :=
  h.free (wrapSub ptr headerSize) = false ∧ size ≤ h.size (wrapSub ptr headerSize)

theorem alignUp_alignment_lt (n : Nat) :
    alignUp n alignment < 2 ^ 64 ∧ alignUp (alignUp n alignment) alignment = alignUp n alignment := by
  unfold alignUp wrap alignment
  omega

/-- Rounding up does not lose anything, unless it wraps. -/
theorem le_alignUp_alignment (hsize : size ≤ 2 ^ 64 - alignment) :
    size ≤ alignUp size alignment := by
  unfold alignUp wrap
  simp only [alignment] at *
  omega

theorem alignUp_alignment_of_wrap (hsize : 2 ^ 64 - alignment < size) (hlt : size < 2 ^ 64) :
    alignUp size alignment = 0 := by
  unfold alignUp wrap
  simp only [alignment] at *
  omega

/-- Whatever the memory holds, a block that the search returns is free and fits. -/
theorem findFit_fits (hstart : block < 2 ^ 64) {found : Nat} (hfound : found ≠ 0)
    (h' : h.findFit size fuel block = some found) :
    found < 2 ^ 64 ∧ h.free found = true ∧ size ≤ h.size found := by
  induction fuel generalizing block with
  | zero => cases h'
  | succ fuel ih =>
    rw [findFit] at h'
    split_ifs at h' with hnull hfit
    · exact absurd (Option.some.inj h').symm hfound
    · cases h'
      exact ⟨hstart, hfit⟩
    · exact ih readLE_lt h'

theorem mapPages_firstBlock (pages : Nat) :
    (mapPages mapped pages h).2.firstBlock = h.firstBlock := by
  induction pages generalizing h with
  | zero => rfl
  | succ pages ih =>
    rw [mapPages]
    split_ifs
    · exact ih
    · rfl

theorem growHeap_firstBlock (n : Nat) : (h.growHeap mapped n).2.firstBlock = h.firstBlock := by
  rw [growHeap]
  split_ifs
  · rfl
  · exact mapPages_firstBlock mapped _

/-- The stores that end `take` go to the header of the block, after all others. -/
theorem take_delivers (hlt : size < 2 ^ 64) (hfit : size ≤ h.size block) :
    (h.take block size).free block = false ∧ size ≤ (h.take block size).size block ∧
      (size + headerSize + alignment < 2 ^ 64 →
        (h.take block size).size block < size + headerSize + alignment) := by
  have hfree : ∀ g : Heap, (g.setFree block false).free block = false := by
    intro g
    simp [free, setFree, writeLE, overlay, byteOf]
  have hsize : ∀ g : Heap, (g.setFree block false).size block = g.size block := by
    intro g
    exact readLE_writeLE_of_apart (.inr le_rfl)
  refine ⟨hfree _, ?_⟩
  rw [take, hsize]
  split_ifs with hsplit
  · have hsplit : (h.split block size).size block = size := by
      exact readLE_writeLE_of_lt (by norm_num; omega)
    rw [hsplit]
    refine ⟨le_rfl, fun _ => ?_⟩
    simp [headerSize]
    omega
  · refine ⟨hfit, fun hwrap => ?_⟩
    rw [wrap_of_lt hwrap] at hsplit
    omega

/-- A pointer from `kmalloc` stands behind a block that has the rounded size, and not much
more if that is small. -/
theorem kmallocLoop_delivers (hfirst : h.firstBlock < 2 ^ 64) (hptr : ptr ≠ 0)
    (hrun : kmallocLoop mapped fuel h request = some (ptr, h')) :
    h'.Delivers ptr (alignUp request alignment) ∧
      (alignUp request alignment + headerSize + alignment < 2 ^ 64 →
        h'.size (wrapSub ptr headerSize) < alignUp request alignment + headerSize + alignment) := by
  induction fuel generalizing h request with
  | zero => cases hrun
  | succ fuel ih =>
    rw [kmallocLoop] at hrun
    split_ifs at hrun with h0
    · exact absurd (Prod.mk.inj (Option.some.inj hrun)).1.symm hptr
    obtain ⟨hlt, hidem⟩ := alignUp_alignment_lt request
    obtain ⟨block, hfit, hrun⟩ := Option.bind_eq_some_iff.mp hrun
    split_ifs at hrun with hblock
    · -- a block of the list is given away
      cases hrun
      obtain ⟨hblt, -, hfits⟩ := findFit_fits hfirst hblock hfit
      have hback : wrapSub (wrap (block + headerSize)) headerSize = block := by
        unfold wrapSub wrap headerSize
        omega
      obtain ⟨hused, hroom, hless⟩ := take_delivers hlt hfits
      rw [Delivers, hback]
      exact ⟨⟨hused, hroom⟩, hless⟩
    · rcases hgrow : h.growHeap mapped (growAmount (alignUp request alignment)) with ⟨ok, grown⟩
      rw [hgrow] at hrun
      cases ok with
      | false => exact absurd (Prod.mk.inj (Option.some.inj hrun)).1.symm hptr
      | true =>
        -- the recursive call has the rounded size
        obtain ⟨added, hadd, hrec⟩ := Option.bind_eq_some_iff.mp hrun
        have hsame : added.firstBlock = h.firstBlock := by
          obtain ⟨tail, -, rfl⟩ := Option.map_eq_some_iff.mp hadd
          have hfirst' := growHeap_firstBlock mapped (growAmount (alignUp request alignment)) (h := h)
          rw [hgrow] at hfirst'
          exact hfirst'
        have hrest := ih (hsame ▸ hfirst) hrec
        rwa [hidem] at hrest

/-- **The size of an allocation.** Whatever the heap holds, the block behind a pointer that
`kmalloc` returns is in use and has room for the request just if rounding the request up to
16 bytes does not wrap. -/
theorem kmalloc_delivers_iff (hfirst : h.firstBlock < 2 ^ 64) (hlt : size < 2 ^ 64)
    (hrun : h.kmalloc mapped size = some (ptr, h')) (hptr : ptr ≠ 0) :
    h'.Delivers ptr size ↔ size ≤ 2 ^ 64 - alignment := by
  obtain ⟨⟨hused, hroom⟩, hless⟩ := kmallocLoop_delivers mapped hfirst hptr hrun
  constructor
  · rintro ⟨-, hsize⟩
    by_contra hbig
    rw [alignUp_alignment_of_wrap (by omega) hlt] at hless
    have := hless (by simp [headerSize, alignment])
    simp only [headerSize, alignment] at *
    omega
  · intro hsize
    exact ⟨hused, (le_alignUp_alignment hsize).trans hroom⟩

/-- A hundred bytes from the heap after boot. -/
theorem kmalloc_delivers_hundred :
    ∃ ptr h', heapBootState.heap.kmalloc (fun _ => true) 100 = some (ptr, h') ∧ ptr ≠ 0 ∧
      h'.Delivers ptr 100 := by
  have hboot : (heapBootState.heap.kmalloc (fun _ => true) 100).map Prod.fst =
    some (heapStart + headerSize) := by decide +kernel
  obtain ⟨⟨ptr, h'⟩, hrun, hptr⟩ := Option.map_eq_some_iff.mp hboot
  have hne : ptr ≠ 0 := by
    rw [show ptr = heapStart + headerSize from hptr]
    decide
  exact ⟨ptr, h', hrun, hne,
    (kmalloc_delivers_iff _ (by decide +kernel) (by norm_num) hrun hne).mpr (by decide)⟩

/-- A request for `2^64 - 1` bytes is rounded to 0 and gets a block without room. -/
theorem not_kmalloc_delivers :
    ∃ ptr h', heapBootState.heap.kmalloc (fun _ => true) (2 ^ 64 - 1) = some (ptr, h') ∧
      ptr ≠ 0 ∧ h'.size (wrapSub ptr headerSize) = 0 ∧ ¬ h'.Delivers ptr (2 ^ 64 - 1) := by
  have hboot : (heapBootState.heap.kmalloc (fun _ => true) (2 ^ 64 - 1)).map
      (fun r => (r.1, r.2.size (wrapSub r.1 headerSize))) = some (heapStart + headerSize, 0) := by
    decide +kernel
  obtain ⟨⟨ptr, h'⟩, hrun, hres⟩ := Option.map_eq_some_iff.mp hboot
  obtain ⟨hptr, hsize⟩ := Prod.mk.inj hres
  refine ⟨ptr, h', hrun, ?_, hsize, ?_⟩
  · rw [show ptr = heapStart + headerSize from hptr]
    decide
  · rintro ⟨-, hroom⟩
    rw [show h'.size (wrapSub ptr headerSize) = 0 from hsize] at hroom
    norm_num at hroom

/-! ### The limit of the heap -/

/-- From this size on, the end of the heap after growing may lie beyond `2^64`. -/
def requestLimit : Nat :=
  2 ^ 64 - heapStart - heapMaxSize - pageSize - headerSize - alignment

/-- A request that is larger than the heap can be, but for which no sum wraps, is refused
at once. -/
theorem Layout.kmalloc_of_large (l : Layout h blocks) (hlarge : heapMaxSize < size)
    (hlimit : size < requestLimit) :
    h.kmalloc mapped size = some (0, h) ∧ kmallocLog mapped loopBound h size = [] := by
  obtain ⟨fuel, hfuel⟩ : ∃ f, loopBound = f + 1 := ⟨loopBound - 1, by decide⟩
  have hlength := l.length_lt
  simp only [requestLimit, heapMaxSize, heapStart, pageSize, headerSize, alignment] at hlimit hlarge
  have hround : size ≤ alignUp size alignment ∧ alignUp size alignment < size + alignment := by
    unfold alignUp wrap alignment
    omega
  have hround' : growAmount (alignUp size alignment) = alignUp size alignment + headerSize := by
    rw [growAmount, wrap_of_lt, if_neg]
    all_goals
      simp only [headerSize, alignment] at *
      omega
  have hnull : h.findFit (alignUp size alignment) fuel h.firstBlock = some 0 := by
    rw [l.first]
    rcases findFit_cases (alignUp size alignment) fuel l.linked (fun b hb => l.addr_ne_zero hb)
        (by omega) with ⟨hnull, -⟩ | ⟨pre, a, blk, post, heq, -, -, hfit, -⟩
    · exact hnull
    · -- a block of the heap is smaller than the heap
      have hbounds := l.bounds (a, blk) (by simp [heq])
      have hstart := hbounds.start
      have hfinish := hbounds.finish
      have hend := l.mappedEnd
      simp only [heapMaxSize] at *
      omega
  have hrefused : h.growHeap mapped (growAmount (alignUp size alignment)) = (false, h) ∧
      growHeapLog mapped h (growAmount (alignUp size alignment)) = [] := by
    obtain ⟨b, hb⟩ := List.exists_mem_of_ne_nil _ l.nonempty
    have hbounds := l.bounds b hb
    have hstart := hbounds.start
    have hfinish := hbounds.finish
    have hend := l.mappedEnd
    obtain ⟨-, hpage, hpage'⟩ := alignUp_spec (alignUp size alignment + headerSize) pageSize
      (by simp [pageSize]) (by simp only [pageSize, headerSize, alignment] at *; omega)
    have hover : heapStart + heapMaxSize < wrap (h.mappedEnd +
        alignUp (alignUp size alignment + headerSize) pageSize) := by
      rw [wrap_of_lt]
      all_goals
        simp only [pageSize, headerSize, heapStart, heapMaxSize, alignment] at *
        omega
    rw [growHeap, growHeapLog, hround']
    exact ⟨if_pos hover, if_pos hover⟩
  have h0 : size ≠ 0 := by omega
  rw [kmalloc, hfuel]
  constructor
  · rw [kmallocLoop_of_findFit_null mapped h0 hnull, hrefused.1]
  · simp only [kmallocLog, if_neg h0, if_pos hnull, hrefused]
    rfl

/-- The loop of `growHeap` maps `k` pages and stops at the first one that cannot be mapped. -/
theorem mapPages_until {k pages : Nat} (hk : k < pages)
    (hlt : h.mappedEnd + k * pageSize < 2 ^ 64)
    (hmapped : ∀ j < k, mapped (h.mappedEnd + j * pageSize) = true)
    (hstop : mapped (h.mappedEnd + k * pageSize) = false) :
    mapPages mapped pages h = (false, { h with mappedEnd := h.mappedEnd + k * pageSize }) ∧
      ∀ j < k, h.mappedEnd + j * pageSize ∈ mapPagesLog mapped pages h := by
  induction k generalizing h pages with
  | zero =>
    obtain ⟨pages, rfl⟩ := Nat.exists_eq_succ_of_ne_zero hk.ne'
    simp only [Nat.zero_mul, Nat.add_zero] at hstop ⊢
    rw [mapPages, if_neg (by simp [hstop])]
    exact ⟨rfl, fun j hj => absurd hj (Nat.not_lt_zero j)⟩
  | succ k ih =>
    obtain ⟨pages, rfl⟩ := Nat.exists_eq_succ_of_ne_zero (Nat.zero_lt_of_lt hk).ne'
    have hfirst : mapped h.mappedEnd = true := by simpa using hmapped 0 k.succ_pos
    have hwrap : wrap (h.mappedEnd + pageSize) = h.mappedEnd + pageSize := by
      refine wrap_of_lt (lt_of_le_of_lt ?_ hlt)
      rw [Nat.succ_mul]
      omega
    have hshift : ∀ j, h.mappedEnd + pageSize + j * pageSize = h.mappedEnd + (j + 1) * pageSize := by
      intro j
      rw [Nat.succ_mul]
      omega
    have hlt' : h.mappedEnd + pageSize + k * pageSize < 2 ^ 64 := by
      rw [hshift]
      exact hlt
    have hmapped' : ∀ j < k, mapped (h.mappedEnd + pageSize + j * pageSize) = true := by
      intro j hj
      rw [hshift]
      exact hmapped (j + 1) (by omega)
    have hstop' : mapped (h.mappedEnd + pageSize + k * pageSize) = false := by
      rw [hshift]
      exact hstop
    obtain ⟨hrest, hlog⟩ := ih (h := { h with mappedEnd := h.mappedEnd + pageSize })
      (Nat.lt_of_succ_lt_succ hk) hlt' hmapped' hstop'
    rw [mapPages, mapPagesLog, if_pos hfirst, if_pos hfirst, hwrap]
    refine ⟨hrest.trans ?_, fun j hj => ?_⟩
    · rw [hshift]
    · cases j with
      | zero => simp
      | succ j =>
        rw [← hshift]
        exact List.mem_cons_of_mem _ (hlog j (by omega))

end Heap

/-! ### Runs with requests of any size -/

/-- A step whose requests may have any 64-bit size. -/
def HeapState.nextAny (s : HeapState) : HeapAction → Option HeapState
  | .kmalloc size mapped =>
    if size < 2 ^ 64 then
      (s.heap.kmalloc mapped size).map fun (ptr, heap) =>
        ⟨heap, if ptr = 0 then s.live else (ptr, size) :: s.live⟩
    else none
  | .kfree ptr => s.next (.kfree ptr)
  | .store addr value => s.next (.store addr value)

namespace HeapGrowth

open Heap

variable {s s' : HeapGrowth} {a : HeapAction}

def nextAny (s : HeapGrowth) (a : HeapAction) : Option HeapGrowth :=
  (s.state.nextAny a).map fun t => ⟨t, s.pages ++ s.state.mappedPages a⟩

/-- The runs with requests of any size, and the pages they map. -/
def anySize : System HeapGrowth HeapAction := .ofNext nextAny system.init

/-- No sum that `kmalloc` computes for the request wraps. -/
def BelowLimit : HeapAction → Prop
  | .kmalloc size _ => size < requestLimit
  | .kfree _ => True
  | .store _ _ => True

instance : DecidablePred BelowLimit
  | .kmalloc size _ => inferInstanceAs (Decidable (size < requestLimit))
  | .kfree _ => .isTrue trivial
  | .store _ _ => .isTrue trivial

/-- The heap keeps its representation, and its pages are those below the mapped end. -/
structure Bounded (s : HeapGrowth) : Prop where
  inv : ∃ blocks, s.state.Inv blocks
  logged : Logged heapStart s.state.heap.mappedEnd s.pages

/-- A step is one of the runs with bounded requests, or a request that is refused. -/
theorem nextAny_cases (hs : s.Bounded) (ha : BelowLimit a) (hstep : s.nextAny a = some s') :
    s.next a = some s' ∨ s' = s := by
  obtain ⟨t, ht, rfl⟩ := Option.map_eq_some_iff.mp hstep
  obtain ⟨blocks, inv⟩ := hs.inv
  cases a with
  | kmalloc size mapped =>
    simp only [HeapState.nextAny] at ht
    split_ifs at ht with hlt
    rcases Nat.lt_or_ge heapMaxSize size with hlarge | hsmall
    · obtain ⟨hrun, hlog⟩ := inv.layout.kmalloc_of_large mapped hlarge ha
      rw [hrun] at ht
      cases ht
      refine .inr ?_
      rw [mappedPages, hlog, List.append_nil]
      rfl
    · refine .inl (Option.map_eq_some_iff.mpr ⟨t, ?_, rfl⟩)
      rw [← ht]
      exact if_pos hsmall
  | kfree ptr => exact .inl hstep
  | store addr value => exact .inl hstep

theorem Bounded.step (hs : s.Bounded) (ha : BelowLimit a) (hstep : s.nextAny a = some s') :
    s'.Bounded := by
  rcases nextAny_cases hs ha hstep with hnext | rfl
  · obtain ⟨t, ht, rfl⟩ := Option.map_eq_some_iff.mp hnext
    obtain ⟨blocks, inv⟩ := hs.inv
    exact ⟨inv.next ht, logged_next inv hs.logged hnext⟩
  · exact hs

/-- **The limit of the heap.** In every run in which no request reaches the limit beyond
which sums wrap, the heap ends at most 64 MiB above its start, every page that was mapped
lies there, and a request larger than 64 MiB returns null. -/
theorem heap_within_limit (h : (anySize.restrict fun _ => BelowLimit).Reachable s) :
    s.state.heap.mappedEnd ≤ heapStart + heapMaxSize ∧
      (∀ page ∈ s.pages, heapStart ≤ page ∧ page + pageSize ≤ heapStart + heapMaxSize) ∧
      ∀ size mapped, heapMaxSize < size → size < requestLimit →
        s.state.heap.kmalloc mapped size = some (0, s.state.heap) := by
  have hs : s.Bounded := by
    refine h.invariant Bounded (fun s hinit => ?_) ?_
    swap
    · intro s a s' hs hstep
      exact hs.step hstep.1 hstep.2
    have hreach : system.Reachable s := .init hinit
    exact ⟨inv_of_reachable (reachable_state hreach), HeapGrowth.logged hreach⟩
  obtain ⟨blocks, inv⟩ := hs.inv
  refine ⟨inv.layout.mappedEnd, fun page hpage => ?_, fun size mapped hlarge hlimit =>
    (inv.layout.kmalloc_of_large mapped hlarge hlimit).1⟩
  obtain ⟨hlo, hhi, hdvd⟩ := (hs.logged.mem page).mp hpage
  have hend := inv.layout.mappedEnd
  obtain ⟨k, hk⟩ := inv.layout.page
  obtain ⟨j, rfl⟩ := hdvd
  refine ⟨hlo, ?_⟩
  have hjk : j < k := by
    rw [hk] at hhi
    exact Nat.lt_of_mul_lt_mul_left hhi
  have := Nat.mul_le_mul_left pageSize hjk
  rw [Nat.mul_succ] at this
  omega

/-- A request that fits and one that is larger than the heap. -/
@[irreducible] def refusedState : HeapGrowth :=
  (runActions (guarded nextAny fun _ => BelowLimit) boot
    [.kmalloc 100 fun _ => true, .kmalloc (2 ^ 27) fun _ => true]).get (by decide +kernel)

theorem refusedState_reachable : (anySize.restrict fun _ => BelowLimit).Reachable refusedState := by
  unfold refusedState
  exact reachable_get_guarded _ boot_init _

theorem refusedState_within_limit :
    refusedState.state.live = [(heapStart + headerSize, 100)] ∧
      refusedState.state.heap.mappedEnd ≤ heapStart + heapMaxSize ∧
      (∀ page ∈ refusedState.pages,
        heapStart ≤ page ∧ page + pageSize ≤ heapStart + heapMaxSize) ∧
      ∀ size mapped, heapMaxSize < size → size < requestLimit →
        refusedState.state.heap.kmalloc mapped size = some (0, refusedState.state.heap) :=
  ⟨by decide +kernel, heap_within_limit refusedState_reachable⟩

/-- The pages up to the limit of the heap, and the first one behind it. -/
def onePastLimit (page : Nat) : Bool := page ≤ heapStart + heapMaxSize

/-- Where no block fits, a request of 1 GiB is not refused: its pages are mapped, here until
memory runs out one page behind the limit. -/
theorem kmalloc_past_limit {h : Heap} {fuel : Nat}
    (hend : h.mappedEnd = heapStart + heapInitialSize)
    (hnull : h.findFit (2 ^ 30) fuel h.firstBlock = some 0) :
    kmallocLoop onePastLimit (fuel + 1) h (2 ^ 30) =
        some (0, { h with mappedEnd := heapStart + heapMaxSize + pageSize }) ∧
      heapStart + heapMaxSize ∈ kmallocLog onePastLimit (fuel + 1) h (2 ^ 30) := by
  have hsize : alignUp (2 ^ 30) alignment = 2 ^ 30 := by decide
  have hbytes : alignUp (growAmount (2 ^ 30)) pageSize = 262145 * pageSize := by decide
  -- the sum wraps, so there seems to be room
  have hroom : ¬ heapStart + heapMaxSize < wrap (h.mappedEnd + 262145 * pageSize) := by
    rw [hend]
    decide
  have hpages : h.mappedEnd + 16369 * pageSize = heapStart + heapMaxSize + pageSize := by
    rw [hend]
    decide
  obtain ⟨hmap, hlog⟩ := mapPages_until (h := h) onePastLimit (k := 16369)
    (Nat.lt_of_lt_of_eq (by norm_num) (Nat.mul_div_cancel 262145 (by decide : 0 < pageSize)).symm)
    (by rw [hpages]; decide) (fun j hj => by
      have : h.mappedEnd + j * pageSize ≤ heapStart + heapMaxSize := by
        simp only [pageSize] at hpages ⊢
        omega
      simpa [onePastLimit] using this) (by rw [hpages]; decide)
  rw [hpages] at hmap
  have hgrow : h.growHeap onePastLimit (growAmount (2 ^ 30)) =
      (false, { h with mappedEnd := heapStart + heapMaxSize + pageSize }) := by
    rw [growHeap, hbytes, if_neg hroom]
    exact hmap
  have hpage : heapStart + heapMaxSize ∈ growHeapLog onePastLimit h (growAmount (2 ^ 30)) := by
    rw [growHeapLog, hbytes, if_neg hroom]
    have hlast := hlog 16368 (by norm_num)
    have heq : h.mappedEnd + 16368 * pageSize = heapStart + heapMaxSize := by
      omega
    rwa [heq] at hlast
  constructor
  · rw [kmallocLoop_of_findFit_null onePastLimit (by norm_num) (by rw [hsize]; exact hnull), hsize,
      hgrow]
  · refine mem_kmallocLog_of_growHeap _ (by norm_num) ?_ ?_
    · exact hnull
    · exact hpage

/-- After boot, a request of 1 GiB makes the heap outgrow its limit, and a request of
`2^64 - 1` bytes does not return null. -/
theorem not_heap_within_limit :
    (∃ s, anySize.Reachable s ∧ heapStart + heapMaxSize < s.state.heap.mappedEnd ∧
      heapStart + heapMaxSize ∈ s.pages) ∧
    ∃ ptr h', heapBootState.heap.kmalloc (fun _ => true) (2 ^ 64 - 1) = some (ptr, h') ∧
      ptr ≠ 0 := by
  constructor
  · obtain ⟨fuel, hfuel⟩ : ∃ f, loopBound = f + 1 := ⟨loopBound - 1, by decide⟩
    have hnull : heapBootState.heap.findFit (2 ^ 30) fuel heapBootState.heap.firstBlock = some 0 := by
      obtain rfl : fuel = loopBound - 1 := by omega
      decide +kernel
    obtain ⟨hrun, hlog⟩ := kmalloc_past_limit (by decide +kernel) hnull
    have hnext : heapBootState.nextAny (.kmalloc (2 ^ 30) onePastLimit) =
        some ⟨{ heapBootState.heap with mappedEnd := heapStart + heapMaxSize + pageSize },
          heapBootState.live⟩ := by
      simp only [HeapState.nextAny, if_pos (show 2 ^ 30 < 2 ^ 64 by norm_num), Heap.kmalloc, hfuel,
        hrun]
      rfl
    refine ⟨_, .step (.init boot_init) (Option.map_eq_some_iff.mpr ⟨_, hnext, rfl⟩), ?_, ?_⟩
    · exact Nat.lt_add_of_pos_right (by decide)
    · refine List.mem_append_right _ ?_
      rw [HeapState.mappedPages, hfuel]
      exact hlog
  · have hboot : (heapBootState.heap.kmalloc (fun _ => true) (2 ^ 64 - 1)).map Prod.fst =
      some (heapStart + headerSize) := by decide +kernel
    obtain ⟨⟨ptr, h'⟩, hrun, hptr⟩ := Option.map_eq_some_iff.mp hboot
    refine ⟨ptr, h', hrun, ?_⟩
    rw [show ptr = heapStart + headerSize from hptr]
    decide

end HeapGrowth

end WengShiOS.Mm
