import WengShiOS.Mm.AddressSpace
import WengShiOS.Mm.HeapSafety

/-! # The heap on its frames

`kmalloc` together with the frames and page tables it consumes: `growHeap` asks the
physical memory manager for each page through `VMM::allocAndMapPage`, and whether that
succeeds is no longer given from outside. For requests up to the size of the heap every
call is a call of the heap alone, for some choice of the pages that can be mapped.

A request that is refused should cost nothing. It does cost something whenever a frame
was free: `growHeap` advances the mapped end page by page and does not go back, and for
sizes close to 2^64, where the rounding wraps, even a growth that succeeds ends in null. -/

namespace WengShiOS.Mm

open Math Machine Heap

/-- The heap and the machine whose memory it lies in. -/
structure KernelHeap where
  heap : Heap
  machine : Machine

namespace KernelHeap

open Heap

/-! ### The code -/

/-- The loop of `growHeap`, for the pages that are left. -/
def mapPages : Nat → KernelHeap → Option (Bool × KernelHeap)
  | 0, k => some (true, k)
  | pages + 1, k =>
    (k.machine.allocAndMapPage k.heap.mappedEnd pageWritable).bind fun (ok, machine) =>
      if ok then
        mapPages pages ⟨{ k.heap with mappedEnd := wrap (k.heap.mappedEnd + pageSize) }, machine⟩
      else some (false, { k with machine })

def growHeap (k : KernelHeap) (minBytes : Nat) : Option (Bool × KernelHeap) :=
  let bytesNeeded := alignUp minBytes pageSize
  if heapStart + heapMaxSize < wrap (k.heap.mappedEnd + bytesNeeded) then some (false, k)
  else mapPages (bytesNeeded / pageSize) k

/-- `kmalloc`, with a bound on the iterations of its loops and on its recursion. -/
def kmallocLoop : Nat → KernelHeap → Nat → Option (Nat × KernelHeap)
  | 0, _, _ => none
  | fuel + 1, k, request =>
    if request = 0 then some (0, k)
    else
      let size := alignUp request alignment
      (k.heap.findFit size fuel k.heap.firstBlock).bind fun block =>
        if block ≠ 0 then
          some (wrap (block + headerSize), { k with heap := k.heap.take block size })
        else
          (k.growHeap (growAmount size)).bind fun (ok, grown) =>
            if ok then
              (grown.heap.addBlock k.heap.mappedEnd fuel).bind fun heap =>
                kmallocLoop fuel { grown with heap } size
            else some (0, grown)

def kmalloc (k : KernelHeap) (size : Nat) : Option (Nat × KernelHeap) :=
  kmallocLoop loopBound k size

variable {k k' : KernelHeap} {m m' : Machine} {blocks : List (Nat × Block)} {ok : Bool}
  {pages fuel request ptr : Nat}

/-- The frames in use. -/
def usedFrames (k : KernelHeap) : Nat := k.machine.pmm.usedFrames

/-! ### Frames -/

/-- Without a free frame nothing happens; with one, at least that one is taken. -/
theorem allocAndMapPage_cases {v flags : Nat} (h : m.allocAndMapPage v flags = some (ok, m')) :
    m.pmm.freeSet = ∅ ∧ ok = false ∧ m' = m ∨
      m.pmm.freeSet ≠ ∅ ∧ ok = true ∧ m.pmm.usedFrames < m'.pmm.usedFrames := by
  by_cases hfree : m.pmm.freeSet = ∅
  · have hnone := Pmm.allocFrame_of_freeSet_empty hfree
    simp only [allocAndMapPage, hnone, if_true, Option.some.injEq, Prod.mk.injEq] at h
    exact .inl ⟨hfree, h.1.symm, h.2.symm⟩
  · obtain ⟨frame, -, halloc⟩ := Pmm.allocFrame_eq (Finset.nonempty_iff_ne_empty.mpr hfree)
    simp only [allocAndMapPage, halloc, if_neg (Pmm.noFrame_ne frame).symm] at h
    obtain ⟨m₁, hmap, heq⟩ := Option.map_eq_some_iff.mp h
    cases heq
    have hle := (mapPage_takesFrames hmap).usedFrames_le
    exact .inr ⟨hfree, rfl, Nat.lt_of_succ_le hle⟩

theorem mapPages_usedFrames_le (h : mapPages pages k = some (ok, k')) :
    k.usedFrames ≤ k'.usedFrames := by
  induction pages generalizing k with
  | zero =>
    obtain ⟨-, rfl⟩ := Prod.mk.inj (Option.some.inj h)
    exact le_rfl
  | succ pages ih =>
    obtain ⟨⟨ok₁, m₁⟩, hpage, hrest⟩ := Option.bind_eq_some_iff.mp h
    rcases allocAndMapPage_cases hpage with ⟨-, rfl, rfl⟩ | ⟨-, rfl, hlt⟩
    · obtain ⟨-, rfl⟩ := Prod.mk.inj (Option.some.inj hrest)
      exact le_rfl
    · exact hlt.le.trans (ih hrest)

/-- The first page decides whether the loop takes a frame at all. -/
theorem mapPages_succ_cases (h : mapPages (pages + 1) k = some (ok, k')) :
    k.machine.pmm.freeSet = ∅ ∧ ok = false ∧ k' = k ∨
      k.machine.pmm.freeSet ≠ ∅ ∧ k.usedFrames < k'.usedFrames := by
  obtain ⟨⟨ok₁, m₁⟩, hpage, hrest⟩ := Option.bind_eq_some_iff.mp h
  rcases allocAndMapPage_cases hpage with ⟨hfree, rfl, rfl⟩ | ⟨hfree, rfl, hlt⟩
  · obtain ⟨hok, hk⟩ := Prod.mk.inj (Option.some.inj hrest)
    exact .inl ⟨hfree, hok.symm, hk.symm⟩
  · exact .inr ⟨hfree, lt_of_lt_of_le hlt (mapPages_usedFrames_le hrest)⟩

/-- The limit refuses the request before a page is mapped. -/
def Refused (k : KernelHeap) (request : Nat) : Prop :=
  heapStart + heapMaxSize < wrap (k.heap.mappedEnd +
    alignUp (growAmount (alignUp request alignment)) pageSize)

instance (k : KernelHeap) (request : Nat) : Decidable (k.Refused request) :=
  inferInstanceAs (Decidable (_ < _))

theorem growHeap_usedFrames_le {n : Nat} (h : k.growHeap n = some (ok, k')) :
    k.usedFrames ≤ k'.usedFrames := by
  unfold growHeap at h
  dsimp only at h
  split_ifs at h
  · obtain ⟨-, rfl⟩ := Prod.mk.inj (Option.some.inj h)
    exact le_rfl
  · exact mapPages_usedFrames_le h

/-- What a call has done that found no block. -/
theorem kmallocLoop_of_grown (h0 : request ≠ 0)
    (hnull : k.heap.findFit (alignUp request alignment) fuel k.heap.firstBlock = some 0)
    (h : kmallocLoop (fuel + 1) k request = some (ptr, k')) :
    ∃ ok grown, k.growHeap (growAmount (alignUp request alignment)) = some (ok, grown) ∧
      (ok = false ∧ ptr = 0 ∧ k' = grown ∨
        ok = true ∧ ∃ heap, grown.heap.addBlock k.heap.mappedEnd fuel = some heap ∧
          kmallocLoop fuel { grown with heap } (alignUp request alignment) = some (ptr, k')) := by
  simp only [kmallocLoop, if_neg h0, hnull, Option.bind_some, ne_eq, not_true_eq_false,
    if_false] at h
  obtain ⟨⟨ok, grown⟩, hgrow, h⟩ := Option.bind_eq_some_iff.mp h
  refine ⟨ok, grown, hgrow, ?_⟩
  cases ok with
  | false =>
    obtain ⟨hptr, hk⟩ := Prod.mk.inj (Option.some.inj h)
    exact .inl ⟨rfl, hptr.symm, hk.symm⟩
  | true =>
    obtain ⟨heap, hadd, hrun⟩ := Option.bind_eq_some_iff.mp h
    exact .inr ⟨rfl, heap, hadd, hrun⟩

theorem kmallocLoop_of_found {block : Nat} (h0 : request ≠ 0) (hblock : block ≠ 0)
    (hfound : k.heap.findFit (alignUp request alignment) fuel k.heap.firstBlock = some block) :
    kmallocLoop (fuel + 1) k request = some (wrap (block + headerSize),
      { k with heap := k.heap.take block (alignUp request alignment) }) := by
  simp only [kmallocLoop, if_neg h0, hfound, Option.bind_some, ne_eq, hblock, not_false_eq_true,
    if_true]

theorem kmallocLoop_usedFrames_le (h : kmallocLoop fuel k request = some (ptr, k')) :
    k.usedFrames ≤ k'.usedFrames := by
  induction fuel generalizing k request with
  | zero => cases h
  | succ fuel ih =>
    by_cases h0 : request = 0
    · rw [kmallocLoop, if_pos h0] at h
      obtain ⟨-, rfl⟩ := Prod.mk.inj (Option.some.inj h)
      exact le_rfl
    · cases hfind : k.heap.findFit (alignUp request alignment) fuel k.heap.firstBlock with
      | none =>
        simp only [kmallocLoop, if_neg h0, hfind, Option.bind_none] at h
        cases h
      | some block =>
        by_cases hblock : block = 0
        · subst hblock
          obtain ⟨ok, grown, hgrow, ⟨-, -, rfl⟩ | ⟨-, heap, -, hrun⟩⟩ :=
            kmallocLoop_of_grown h0 hfind h
          · exact growHeap_usedFrames_le hgrow
          · have hle := ih hrun
            exact (growHeap_usedFrames_le hgrow).trans hle
        · rw [kmallocLoop_of_found h0 hblock hfind] at h
          obtain ⟨-, rfl⟩ := Prod.mk.inj (Option.some.inj h)
          exact le_rfl

/-! ### Calls of the heap alone -/

/-- The pages that were mapped are those below the mapped end. -/
theorem mapPages_simulates (hle : k.heap.mappedEnd + pages * pageSize ≤ heapStart + heapMaxSize)
    (h : mapPages pages k = some (ok, k')) :
    k.heap.mappedEnd ≤ k'.heap.mappedEnd ∧
      ∀ e, k'.heap.mappedEnd ≤ e → (ok = false → e = k'.heap.mappedEnd) →
        Heap.mapPages (fun page => page < e) pages k.heap = (ok, k'.heap) := by
  induction pages generalizing k with
  | zero =>
    cases h
    exact ⟨le_rfl, fun _ _ _ => rfl⟩
  | succ pages ih =>
    obtain ⟨⟨ok₁, m₁⟩, hpage, hrest⟩ := Option.bind_eq_some_iff.mp h
    cases ok₁ with
    | false =>
      cases hrest
      refine ⟨le_rfl, fun e _ hend => ?_⟩
      obtain rfl : e = k.heap.mappedEnd := hend rfl
      simp [Heap.mapPages]
    | true =>
      have hwrap := wrap_nextPage hle
      obtain ⟨hmono, hrun⟩ := ih (by
        simp only [hwrap, Nat.succ_mul] at hle ⊢
        omega) hrest
      simp only [hwrap] at hmono hrun
      refine ⟨by omega, fun e he hend => ?_⟩
      have hmapped : k.heap.mappedEnd < e := by
        simp only [pageSize] at hmono
        omega
      simp only [Heap.mapPages, hmapped, decide_true, if_true, hwrap]
      exact hrun e he hend

theorem growHeap_simulates {n : Nat} (hmax : k.heap.mappedEnd ≤ heapStart + heapMaxSize)
    (hn : n ≤ 2 * heapMaxSize) (h : k.growHeap n = some (ok, k')) :
    k.heap.mappedEnd ≤ k'.heap.mappedEnd ∧
      ∀ e, k'.heap.mappedEnd ≤ e → (ok = false → e = k'.heap.mappedEnd) →
        k.heap.growHeap (fun page => page < e) n = (ok, k'.heap) := by
  obtain ⟨hdvd, -, hwrap⟩ := alignUp_pages hmax hn
  simp only [growHeap, Heap.growHeap, hwrap] at h ⊢
  split_ifs at h ⊢ with hroom
  · cases h
    exact ⟨le_rfl, fun _ _ _ => rfl⟩
  · refine mapPages_simulates ?_ h
    rw [Nat.div_mul_cancel hdvd]
    omega

/-- A call for at most the size of the heap is a call of the heap alone, in which the
pages below the final mapped end can be mapped. -/
theorem kmallocLoop_simulates (hmax : k.heap.mappedEnd ≤ heapStart + heapMaxSize)
    (hpage : pageSize ∣ k.heap.mappedEnd) (hreq : request ≤ heapMaxSize)
    (h : kmallocLoop fuel k request = some (ptr, k')) :
    k.heap.mappedEnd ≤ k'.heap.mappedEnd ∧
      Heap.kmallocLoop (fun page => page < k'.heap.mappedEnd) fuel k.heap request =
        some (ptr, k'.heap) := by
  induction fuel generalizing k request with
  | zero => cases h
  | succ fuel ih =>
    by_cases h0 : request = 0
    · rw [kmallocLoop, if_pos h0] at h
      cases h
      exact ⟨le_rfl, by rw [Heap.kmallocLoop, if_pos h0]⟩
    cases hfind : k.heap.findFit (alignUp request alignment) fuel k.heap.firstBlock with
    | none =>
      simp only [kmallocLoop, if_neg h0, hfind, Option.bind_none] at h
      cases h
    | some block =>
      by_cases hblock : block = 0
      · subst hblock
        obtain ⟨-, -, hsize, -⟩ := alignUp_alignment hreq
        have hamount := (growAmount_eq hsize).2
        rw [kmallocLoop_of_findFit_null _ h0 hfind]
        obtain ⟨ok, grown, hgrow, hrest⟩ := kmallocLoop_of_grown h0 hfind h
        obtain ⟨hmono, hheap⟩ := growHeap_simulates hmax hamount hgrow
        rcases hrest with ⟨rfl, rfl, rfl⟩ | ⟨rfl, heap, hadd, hrun⟩
        · rw [hheap _ le_rfl fun _ => rfl]
          exact ⟨hmono, rfl⟩
        · -- the heap of the recursive call is as large as the grown one
          obtain ⟨n, hn, -, hmax', hpage', -⟩ := growHeap_eq
            (fun page => page < grown.heap.mappedEnd) hmax hpage hamount
          rw [hheap _ le_rfl (by simp)] at hn
          obtain rfl : grown.heap.mappedEnd = n := congrArg mappedEnd hn
          have hend : heap.mappedEnd = grown.heap.mappedEnd := addBlock_mappedEnd hadd
          obtain ⟨hmono', hrun'⟩ := ih (k := { grown with heap }) (hend.trans_le hmax')
            (hend ▸ hpage') hsize hrun
          replace hmono' : grown.heap.mappedEnd ≤ k'.heap.mappedEnd := hend ▸ hmono'
          rw [hheap _ hmono' (by simp)]
          exact ⟨hmono.trans hmono', by simpa only [hadd, Option.bind_some] using hrun'⟩
      · rw [kmallocLoop_of_found h0 hblock hfind] at h
        cases h
        exact ⟨(take_mappedEnd _ _).ge, kmallocLoop_of_findFit _ h0 hblock hfind⟩

/-- The list stays well formed on the machine as well, and the call returns null or a
block of its own. -/
theorem kmalloc_spec (l : k.heap.Layout blocks) (hco : Coalesced blocks)
    (hreq : request ≤ heapMaxSize) (h : k.kmalloc request = some (ptr, k')) :
    ∃ blocks', k'.heap.Layout blocks' ∧ Coalesced blocks' ∧
      KeepsUsed k.heap k'.heap blocks blocks' ∧
      (ptr = 0 ∧ blocks' = blocks ∨
        Allocated blocks blocks' ptr request ∧ OnlyUsed blocks blocks' ptr) := by
  have hrun := (kmallocLoop_simulates l.mappedEnd l.page hreq h).2
  obtain ⟨ptr', h', blocks', hrun', l', hco', hkeep, hcases⟩ :=
    l.kmallocLoop (fun page => page < k'.heap.mappedEnd) hco l.length_lt hreq
  obtain ⟨rfl, rfl⟩ := Prod.mk.inj (Option.some.inj (hrun'.symm.trans hrun))
  exact ⟨blocks', l', hco', hkeep, hcases.imp_right fun h => ⟨h.1, h.2.1⟩⟩

/-! ### A list with a block that fits -/

/-- A search that can find a block does not end in null, and neither does the call. -/
theorem ne_null_of_fits {b : Nat × Block} (h0 : request ≠ 0)
    (hfirst : k.heap.firstBlock = firstAddr blocks 0) (hlinked : Linked k.heap.node 0 blocks 0)
    (haddr : ∀ b ∈ blocks, b.1 ≠ 0 ∧ b.1 + headerSize < 2 ^ 64) (hfuel : blocks.length < fuel)
    (hb : b ∈ blocks) (hfree : b.2.free = true) (hfit : alignUp request alignment ≤ b.2.size)
    (h : kmallocLoop (fuel + 1) k request = some (ptr, k')) : ptr ≠ 0 := by
  rcases findFit_cases (alignUp request alignment) fuel hlinked (fun b hb => (haddr b hb).1) hfuel with
    ⟨-, hnone⟩ | ⟨pre, a, blk, post, heq, hfound, -⟩
  · exact absurd ⟨hfree, hfit⟩ (hnone b hb)
  · obtain ⟨ha, hlt⟩ := haddr (a, blk) (by simp [heq])
    rw [← hfirst] at hfound
    rw [kmallocLoop_of_found h0 ha hfound, wrap_of_lt hlt] at h
    obtain ⟨rfl, -⟩ := Prod.mk.inj (Option.some.inj h)
    simp [headerSize]

theorem alignUp_of_dvd {n : Nat} (hdvd : alignment ∣ n) (hle : n + alignment ≤ 2 ^ 64) :
    alignUp n alignment = n := by
  obtain ⟨hdvd', hle', hlt'⟩ := alignUp_spec n alignment (by simp [alignment]) hle
  simp only [alignment] at *
  omega

/-- A growth of no pages is the result of a rounding that wrapped: the size is within
4 KiB of 2^64, and the block that is made of no pages claims to be larger still. -/
theorem size_of_no_pages
    (hzero : alignUp (growAmount (alignUp request alignment)) pageSize / pageSize = 0) :
    alignUp request alignment ≠ 0 ∧ alignUp request alignment + 48 ≤ 2 ^ 64 := by
  obtain ⟨size, hsize⟩ : ∃ size, size = alignUp request alignment := ⟨_, rfl⟩
  have h16 : alignment ∣ size := hsize ▸ Nat.dvd_mul_left ..
  have hlt : size < 2 ^ 64 := by
    have hmod : wrap (request + alignment - 1) < 2 ^ 64 := Nat.mod_lt _ (by norm_num)
    rw [hsize, alignUp]
    exact (Nat.div_mul_le_self _ _).trans_lt hmod
  rw [← hsize] at hzero ⊢
  have hpages : wrap (growAmount size + pageSize - 1) / pageSize = 0 := by
    rw [alignUp, Nat.mul_div_cancel _ (by simp [pageSize])] at hzero
    exact hzero
  have hsmall : wrap (growAmount size + pageSize - 1) < pageSize :=
    (Nat.div_eq_zero_iff_lt (by simp [pageSize])).mp hpages
  unfold growAmount at hsmall
  split_ifs at hsmall with hgrow <;>
    simp only [wrap, headerSize, pageSize, alignment] at * <;> omega

/-- If no block fits and no page is needed, the search that follows finds the new block. -/
theorem ne_null_of_no_pages (l : k.heap.Layout blocks) (hfuel : blocks.length + 4 ≤ fuel + 1)
    (h0 : request ≠ 0)
    (hnull : k.heap.findFit (alignUp request alignment) fuel k.heap.firstBlock = some 0)
    (hlimit : ¬ k.Refused request)
    (hzero : alignUp (growAmount (alignUp request alignment)) pageSize / pageSize = 0)
    (h : kmallocLoop (fuel + 1) k request = some (ptr, k')) : ptr ≠ 0 := by
  obtain ⟨fuel, rfl⟩ : ∃ f, fuel = f + 1 := ⟨fuel - 1, by omega⟩
  obtain ⟨hpos, hle⟩ := size_of_no_pages hzero
  have hgrown : k.growHeap (growAmount (alignUp request alignment)) = some (true, k) := by
    have hmap : mapPages (alignUp (growAmount (alignUp request alignment)) pageSize / pageSize) k =
        some (true, k) := by
      rw [hzero]
      rfl
    exact (if_neg hlimit).trans hmap
  obtain ⟨ok, grown, hgrow, hrest⟩ := kmallocLoop_of_grown h0 hnull h
  obtain ⟨rfl, rfl⟩ := Prod.mk.inj (Option.some.inj (hgrown.symm.trans hgrow))
  obtain ⟨-, heap, hadd, hrun⟩ := hrest.resolve_left (by simp)
  obtain ⟨h', hadd', hfirst, hlinked, -⟩ := l.addBlock_linked (fuel + 1) k.heap.mappedEnd (by omega)
  have heta : ({ k.heap with mappedEnd := k.heap.mappedEnd } : Heap) = k.heap := rfl
  rw [heta, hadd] at hadd'
  obtain rfl : heap = h' := Option.some.inj hadd'
  have hidem : alignUp (alignUp request alignment) alignment = alignUp request alignment :=
    alignUp_of_dvd (Nat.dvd_mul_left ..) (by simp only [alignment] at hle ⊢; omega)
  have hmax := l.mappedEnd
  have hend : k.heap.mappedEnd ≠ 0 ∧ k.heap.mappedEnd + headerSize < 2 ^ 64 := by
    obtain ⟨b, hb⟩ := List.exists_mem_of_ne_nil _ l.nonempty
    have := (l.bounds b hb).finish
    simp only [heapStart, heapMaxSize, headerSize] at *
    omega
  refine ne_null_of_fits (k := { k with heap }) (b := (k.heap.mappedEnd,
    ⟨wrapSub (wrapSub k.heap.mappedEnd k.heap.mappedEnd) headerSize, true⟩)) hpos ?_ hlinked ?_ ?_
    (by simp) rfl ?_ hrun
  · rw [hfirst]
    cases blocks with
    | nil => exact absurd rfl l.nonempty
    | cons b rest => rfl
  · intro b hb
    rcases List.mem_append.mp hb with hb | hb
    · exact ⟨l.addr_ne_zero hb, by have := l.addr_lt hb; omega⟩
    · obtain rfl := List.mem_singleton.mp hb
      exact hend
  · simp only [List.length_append, List.length_singleton]
    omega
  · simp only [wrapSub, wrap, headerSize]
    omega

/-! ### Refused requests -/

/-- The pages by which the heap grows for a request. -/
def pagesNeeded (request : Nat) : Nat :=
  alignUp (growAmount (alignUp request alignment)) pageSize / pageSize

/-- A request that costs nothing: no free block is large enough, and the heap cannot grow by
a single page. -/
def Denied (k : KernelHeap) (request : Nat) : Prop :=
  request = 0 ∨
    k.heap.findFit (alignUp request alignment) loopBound k.heap.firstBlock = some 0 ∧
      (k.Refused request ∨ k.machine.pmm.freeSet = ∅ ∧ 0 < pagesNeeded request)

/-- A call that returns null was denied, or has taken a frame. -/
theorem kmallocLoop_null_cases (l : k.heap.Layout blocks) (hfuel : loopBound ≤ fuel)
    (h : kmallocLoop fuel k request = some (0, k')) :
    k' = k ∧ k.Denied request ∨
      request ≠ 0 ∧ ¬ k.Refused request ∧ k.machine.pmm.freeSet ≠ ∅ ∧
        k.usedFrames < k'.usedFrames := by
  have hlen := l.length_lt
  obtain ⟨fuel, rfl⟩ : ∃ f, fuel = f + 1 := ⟨fuel - 1, by omega⟩
  by_cases h0 : request = 0
  · rw [kmallocLoop, if_pos h0] at h
    obtain ⟨-, rfl⟩ := Prod.mk.inj (Option.some.inj h)
    exact .inl ⟨rfl, .inl h0⟩
  -- no block fits, since a block that fits is returned
  have haddr : ∀ b ∈ blocks, b.1 ≠ 0 ∧ b.1 + headerSize < 2 ^ 64 := fun b hb =>
    ⟨l.addr_ne_zero hb, by have := l.addr_lt hb; omega⟩
  rcases findFit_cases (alignUp request alignment) fuel l.linked (fun b hb => l.addr_ne_zero hb)
      (by omega) with ⟨hnull, hnone⟩ | ⟨pre, a, blk, post, rfl, -, hfree, hfit, -⟩
  swap
  · exact absurd rfl (ne_null_of_fits h0 l.first l.linked haddr (by omega)
      (by simp : (a, blk) ∈ pre ++ (a, blk) :: post) hfree hfit h)
  have hsearch := (l.findFit_null_iff _ (by omega : blocks.length < loopBound)).mpr hnone
  rw [← l.first] at hnull
  obtain ⟨ok, grown, hgrow, hrest⟩ := kmallocLoop_of_grown h0 hnull h
  have hused : grown.usedFrames ≤ k'.usedFrames := by
    rcases hrest with ⟨-, -, rfl⟩ | ⟨-, heap, -, hrun⟩
    · exact le_rfl
    · have hle := kmallocLoop_usedFrames_le hrun
      exact hle
  by_cases hlimit : k.Refused request
  · have hrefused : k.growHeap (growAmount (alignUp request alignment)) = some (false, k) :=
      if_pos hlimit
    obtain ⟨rfl, rfl⟩ := Prod.mk.inj (Option.some.inj (hrefused.symm.trans hgrow))
    obtain ⟨-, -, rfl⟩ := hrest.resolve_right (by simp)
    exact .inl ⟨rfl, .inr ⟨hsearch, .inl hlimit⟩⟩
  · obtain ⟨pages, hpages⟩ : ∃ pages, pagesNeeded request = pages + 1 :=
      Nat.exists_eq_succ_of_ne_zero fun hzero =>
        ne_null_of_no_pages l (by omega) h0 hnull hlimit hzero h rfl
    have hmap : mapPages (pages + 1) k = some (ok, grown) := by
      rw [← hpages, ← hgrow]
      exact (if_neg hlimit).symm
    rcases mapPages_succ_cases hmap with ⟨hfree, rfl, rfl⟩ | ⟨hfree, hlt⟩
    · obtain ⟨-, -, rfl⟩ := hrest.resolve_right (by simp)
      exact .inl ⟨rfl, .inr ⟨hsearch, .inr ⟨hfree, by omega⟩⟩⟩
    · exact .inr ⟨h0, hlimit, hfree, by omega⟩

/-- A request that is denied returns null, and that is all. -/
theorem Denied.kmalloc (l : k.heap.Layout blocks) (h : k.Denied request) :
    k.kmalloc request = some (0, k) := by
  have hlen := l.length_lt
  obtain ⟨fuel, hfuel⟩ : ∃ fuel, loopBound = fuel + 1 := ⟨loopBound - 1, by omega⟩
  rw [KernelHeap.kmalloc, hfuel]
  by_cases h0 : request = 0
  · rw [kmallocLoop, if_pos h0]
  obtain ⟨hsearch, hgrow⟩ := h.resolve_left h0
  have hnull : k.heap.findFit (alignUp request alignment) fuel k.heap.firstBlock = some 0 := by
    rw [l.findFit_null_iff _ (by omega)] at hsearch ⊢
    exact hsearch
  have hgrown : k.growHeap (growAmount (alignUp request alignment)) = some (false, k) := by
    by_cases hlimit : k.Refused request
    · exact if_pos hlimit
    · obtain ⟨hfree, hpages⟩ := hgrow.resolve_left hlimit
      obtain ⟨pages, hpages⟩ := Nat.exists_eq_succ_of_ne_zero hpages.ne'
      have hmap : mapPages (pagesNeeded request) k = some (false, k) := by
        rw [hpages, mapPages, allocAndMapPage, Pmm.allocFrame_of_freeSet_empty hfree]
        rfl
      exact (if_neg hlimit).trans hmap
  simp only [kmallocLoop, if_neg h0, hnull, Option.bind_some, ne_eq, not_true_eq_false, if_false,
    hgrown]
  rfl

/-- The block list, the mapped end and the number of frames in use are as before. -/
structure Unchanged (k k' : KernelHeap) (blocks : List (Nat × Block)) : Prop where
  layout : k'.heap.Layout blocks
  mappedEnd : k'.heap.mappedEnd = k.heap.mappedEnd
  usedFrames : k'.usedFrames = k.usedFrames

theorem Unchanged.refl (l : k.heap.Layout blocks) : Unchanged k k blocks := ⟨l, rfl, rfl⟩

/-- **What a refused request leaves behind.** If `kmalloc` returns null, then the heap and
the frames in use are as before exactly if the size was 0, the limit refused the growth
or no frame was free to begin with. -/
theorem kmalloc_null_unchanged_iff (l : k.heap.Layout blocks) (hfuel : loopBound ≤ fuel)
    (h : kmallocLoop fuel k request = some (0, k')) :
    Unchanged k k' blocks ↔
      request = 0 ∨ k.Refused request ∨ k.machine.pmm.freeSet = ∅ := by
  rcases kmallocLoop_null_cases l hfuel h with ⟨rfl, hdenied⟩ | ⟨h0, hlimit, hfree, hlt⟩
  · refine iff_of_true (.refl l) ?_
    exact hdenied.imp_right fun hdenied => hdenied.2.imp_right And.left
  · constructor
    · intro same
      have := same.usedFrames
      omega
    · rintro (hz | hr | he)
      · exact absurd hz h0
      · exact absurd hr hlimit
      · exact absurd he hfree

/-- The tables for the first 2 MiB of the heap exist, and `bitmap` says which of eight
frames are in use. -/
def heapMachine (bitmap : UInt8) : Machine where
  phys f i :=
    if f = 1 ∧ i = 511 then 0x2007
    else if f = 1 ∧ i = recursiveIndex then 0x1003
    else if f = 2 ∧ i = 511 then 0x3007
    else if f = 3 ∧ i = 0 then 0x4007
    else 0
  cr3 := 1
  pmm := ⟨fun _ => bitmap, 8, if bitmap = 0xFF then 8 else 7, 0⟩

/-- After `Heap::init`, with no frame left. -/
def fullHeap : KernelHeap := ⟨heapBootState.heap, heapMachine 0xFF⟩

theorem bootHeap_layout :
    heapBootState.heap.Layout [(heapStart, ⟨heapInitialSize - headerSize, true⟩)] := by
  obtain ⟨-, mem, mapped, hinit⟩ := heapBootState_init
  exact (init_layout hinit).1

theorem fullHeap_null : ∃ k', fullHeap.kmalloc 70000 = some (0, k') := by
  have hrun : (fullHeap.kmalloc 70000).map Prod.fst = some 0 := by decide +kernel
  obtain ⟨⟨ptr, k'⟩, hk, rfl⟩ := Option.map_eq_some_iff.mp hrun
  exact ⟨k', hk⟩

theorem fullHeap_unchanged : ∃ blocks k', fullHeap.kmalloc 70000 = some (0, k') ∧
    Unchanged fullHeap k' blocks := by
  obtain ⟨k', hk⟩ := fullHeap_null
  have hempty : fullHeap.machine.pmm.freeSet = ∅ := by decide
  exact ⟨_, k', hk, (kmalloc_null_unchanged_iff bootHeap_layout le_rfl hk).mpr (.inr (.inr hempty))⟩

/-- One frame is left where 18 are needed: it is mapped behind the heap, and lost. -/
theorem not_kmalloc_null_unchanged : ∃ k blocks k', k.heap.Layout blocks ∧
    k.kmalloc 70000 = some (0, k') ∧ ¬ Unchanged k k' blocks := by
  obtain ⟨k, hk⟩ : ∃ k : KernelHeap, k = ⟨heapBootState.heap, heapMachine 0xDF⟩ := ⟨_, rfl⟩
  have hrun : (k.kmalloc 70000).map (fun r => (r.1, r.2.usedFrames)) = some (0, 8) := by
    rw [hk]
    decide +kernel
  obtain ⟨⟨ptr, k'⟩, hcall, heq⟩ := Option.map_eq_some_iff.mp hrun
  obtain ⟨rfl, hused⟩ := Prod.mk.inj heq
  have hlayout : k.heap.Layout [(heapStart, ⟨heapInitialSize - headerSize, true⟩)] := by
    rw [hk]
    exact bootHeap_layout
  refine ⟨k, _, k', hlayout, hcall, fun same => ?_⟩
  have hbefore : k.usedFrames = 7 := by
    rw [hk]
    rfl
  have hsame := same.usedFrames
  dsimp only at hused
  omega

end KernelHeap

end WengShiOS.Mm
