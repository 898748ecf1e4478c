import WengShiOS.Mm.HeapSafety

/-! # No byte of the heap is lost

As long as no growth fails part-way, the blocks and their headers cover the mapped
heap without a gap, and the used blocks are those of the live allocations. Free
neighbours are merged, so once everything has been released a single free block is
left, whatever the order of the releases.

A growth that fails after some pages does lose them: the mapped end has moved, and the
next growth starts its block behind the pages. -/

namespace WengShiOS.Mm

open Math

namespace Heap

variable {h : Heap} {blocks : List (Nat × Block)} {fuel : Nat}

/-! ### The totals -/

/-- The loop of `totalAllocated` and of `totalFree`. The first number bounds its
iterations. -/
def totalLoop (h : Heap) (free : Bool) : Nat → Nat → Nat → Option Nat
  | 0, _, _ => none
  | fuel + 1, total, b =>
    if b = 0 then some total
    else h.totalLoop free fuel (if h.free b = free then wrap (total + h.size b) else total)
      (h.next b)

def totalAllocated (h : Heap) : Option Nat := h.totalLoop false loopBound 0 h.firstBlock

def totalFree (h : Heap) : Option Nat := h.totalLoop true loopBound 0 h.firstBlock

/-- The payload bytes of the blocks that are free, or of those that are not. -/
def sizes (free : Bool) : List (Nat × Block) → Nat
  | [] => 0
  | b :: blocks => (if b.2.free = free then b.2.size else 0) + sizes free blocks

theorem sizes_add_sizes (blocks : List (Nat × Block)) :
    sizes false blocks + sizes true blocks + headerSize * blocks.length = spanned blocks := by
  induction blocks with
  | nil => rfl
  | cons b rest ih =>
    simp only [sizes, spanned_cons, List.length_cons, Nat.mul_succ]
    cases b.2.free <;> simp <;> omega

theorem sizes_le_spanned (free : Bool) (blocks : List (Nat × Block)) :
    sizes free blocks ≤ spanned blocks := by
  have := sizes_add_sizes blocks
  cases free <;> omega

/-- The loop adds up the blocks, and the sum does not wrap. -/
theorem totalLoop_eq {p total : Nat} (free : Bool) (hl : Linked h.node p blocks 0)
    (hne : ∀ b ∈ blocks, b.1 ≠ 0) (hfuel : blocks.length < fuel)
    (hlt : total + sizes free blocks < 2 ^ 64) :
    h.totalLoop free fuel total (firstAddr blocks 0) = some (total + sizes free blocks) := by
  induction blocks generalizing p total fuel with
  | nil =>
    obtain ⟨fuel, rfl⟩ := Nat.exists_eq_succ_of_ne_zero (by simpa using hfuel : 0 < fuel).ne'
    simp [totalLoop, sizes]
  | cons b rest ih =>
    obtain ⟨fuel, rfl⟩ := Nat.exists_eq_succ_of_ne_zero (Nat.zero_lt_of_lt hfuel).ne'
    obtain ⟨hnode, hrest⟩ := linked_cons.mp hl
    simp only [sizes] at hlt ⊢
    have hstep : h.totalLoop free (fuel + 1) total (firstAddr (b :: rest) 0) =
        h.totalLoop free fuel (total + if b.2.free = free then b.2.size else 0)
          (firstAddr rest 0) := by
      simp only [totalLoop, firstAddr, size_eq_node, free_eq_node, next_eq_node, hnode,
        if_neg (hne b (by simp))]
      split_ifs with hfree
      · rw [if_pos hfree] at hlt
        rw [wrap_of_lt (by omega)]
      · rfl
    rw [hstep, ih hrest (fun c hc => hne c (by simp [hc])) (by simpa using hfuel) (by omega),
      Nat.add_assoc]

theorem Layout.totalLoop_eq (l : Layout h blocks) (free : Bool) (hsum : spanned blocks < 2 ^ 64) :
    h.totalLoop free loopBound 0 h.firstBlock = some (sizes free blocks) := by
  have hlen := l.length_lt
  have hle := sizes_le_spanned free blocks
  rw [l.first, Heap.totalLoop_eq free l.linked (fun b hb => l.addr_ne_zero hb) (by omega)
    (by omega), Nat.zero_add]

/-! ### One free block -/

/-- Blocks that are all free cannot be neighbours. -/
theorem Coalesced.eq_singleton (hco : Coalesced blocks) (hne : blocks ≠ [])
    (hfree : ∀ b ∈ blocks, b.2.free = true) : ∃ b, blocks = [b] := by
  match blocks, hne with
  | [b], _ => exact ⟨b, rfl⟩
  | b :: c :: rest, _ =>
    have hpair := (List.isChain_cons_cons.mp hco).1
    exact absurd ⟨hfree b (by simp), hfree c (by simp)⟩ hpair

end Heap

namespace HeapState

open Heap

variable {s s' : HeapState} {blocks : List (Nat × Block)} {a : HeapAction}

/-- A request that is refused has not mapped a page. -/
def GrowsWhole (s : HeapState) : HeapAction → Prop
  | .kmalloc size mapped =>
    ∀ r ∈ s.heap.kmalloc mapped size, r.1 = 0 → r.2.mappedEnd = s.heap.mappedEnd
  | .kfree _ => True
  | .store _ _ => True

instance (s : HeapState) : (a : HeapAction) → Decidable (s.GrowsWhole a)
  | .kmalloc size mapped => inferInstanceAs (Decidable (∀ r ∈ s.heap.kmalloc mapped size,
      r.1 = 0 → r.2.mappedEnd = s.heap.mappedEnd))
  | .kfree _ => inferInstanceAs (Decidable True)
  | .store _ _ => inferInstanceAs (Decidable True)

/-- The blocks cover the mapped heap, and each used one belongs to a live allocation. -/
structure Accounted (s : HeapState) (blocks : List (Nat × Block)) : Prop extends s.Inv blocks where
  covered : heapStart + spanned blocks = s.heap.mappedEnd
  owned : ∀ b ∈ blocks, b.2.free = false → ∃ x ∈ s.live, x.1 = b.1 + headerSize

theorem Accounted.kmalloc {size : Nat} {mapped : Nat → Bool} (acc : s.Accounted blocks)
    (hgrows : s.GrowsWhole (.kmalloc size mapped)) (hsize : size ≤ heapMaxSize) :
    ∃ s' blocks', s.next (.kmalloc size mapped) = some s' ∧ s'.Accounted blocks' := by
  obtain ⟨s', blocks', ptr, hnext, inv', -, hrun, hreq⟩ := acc.toInv.kmalloc mapped hsize
  have hcovered := acc.covered
  refine ⟨s', blocks', hnext, inv', ?_, ?_⟩
  · rcases hreq with ⟨rfl, -, rfl⟩ | ⟨-, -, hsum⟩
    · have hend : s'.heap.mappedEnd = s.heap.mappedEnd := hgrows (0, s'.heap) hrun rfl
      rw [hend, hcovered]
    · omega
  · intro b hb hused
    rcases hreq with ⟨-, hlive, rfl⟩ | ⟨hlive, honly, -⟩
    · rw [hlive]
      exact acc.owned b hb hused
    · rw [hlive]
      rcases honly b hb hused with hold | hptr
      · obtain ⟨x, hx, hxb⟩ := acc.owned b hold hused
        exact ⟨x, List.mem_cons_of_mem _ hx, hxb⟩
      · exact ⟨(ptr, size), List.mem_cons_self, hptr.symm⟩

theorem Accounted.kfree {ptr : Nat} (acc : s.Accounted blocks) (hlive : ∃ x ∈ s.live, x.1 = ptr) :
    ∃ s' blocks', s.next (.kfree ptr) = some s' ∧ s'.Accounted blocks' := by
  obtain ⟨s', blocks', hnext, inv', -, honly, hsum⟩ := acc.toInv.kfree hlive
  have hs' : some s' = some ⟨s.heap.kfree ptr, s.live.filter fun x => x.1 ≠ ptr⟩ :=
    hnext.symm.trans (if_pos hlive)
  cases hs'
  refine ⟨_, blocks', hnext, inv', ?_, fun b hb hused => ?_⟩
  · rw [kfree_mappedEnd, hsum, acc.covered]
  · obtain ⟨hmem, hne⟩ := honly b hb hused
    obtain ⟨x, hx, hxb⟩ := acc.owned b hmem hused
    exact ⟨x, List.mem_filter.mpr ⟨hx, by simpa [hxb] using hne⟩, hxb⟩

theorem Accounted.store {addr : Nat} {value : UInt8} (acc : s.Accounted blocks)
    (h : s.next (.store addr value) = some s') : s'.Accounted blocks := by
  have inv' := acc.toInv.store h
  simp only [HeapState.next] at h
  split_ifs at h
  cases h
  exact ⟨inv', acc.covered, acc.owned⟩

theorem Accounted.next (acc : s.Accounted blocks) (hgrows : s.GrowsWhole a)
    (h : s.next a = some s') : ∃ blocks', s'.Accounted blocks' := by
  cases a with
  | kmalloc size mapped =>
    have hsize : size ≤ heapMaxSize := by
      by_contra hgt
      have hnone : s.next (.kmalloc size mapped) = none := if_neg hgt
      simp [hnone] at h
    obtain ⟨t, blocks', hnext, acc'⟩ := acc.kmalloc hgrows hsize
    obtain rfl := Option.some.inj (h.symm.trans hnext)
    exact ⟨blocks', acc'⟩
  | kfree ptr =>
    have hlive : ∃ x ∈ s.live, x.1 = ptr := by
      by_contra hnot
      have hnone : s.next (.kfree ptr) = none := if_neg hnot
      simp [hnone] at h
    obtain ⟨t, blocks', hnext, acc'⟩ := acc.kfree hlive
    obtain rfl := Option.some.inj (h.symm.trans hnext)
    exact ⟨blocks', acc'⟩
  | store addr value => exact ⟨blocks, acc.store h⟩

/-- `Heap::init` maps the initial region and nothing else. -/
theorem accounted_of_init (h : heapSystem.init s) : ∃ blocks, s.Accounted blocks := by
  obtain ⟨hlive, mem, mapped, hinit⟩ := h
  obtain ⟨hlayout, hend⟩ := Heap.init_layout hinit
  refine ⟨_, ⟨hlayout, List.isChain_singleton _, by simp [hlive], by simp [hlive]⟩, ?_, by simp⟩
  rw [hend]
  simp [headerSize, heapInitialSize]

theorem accounted_of_reachable (h : (heapSystem.restrict GrowsWhole).Reachable s) :
    ∃ blocks, s.Accounted blocks := by
  apply h.invariant fun s => ∃ blocks, s.Accounted blocks
  · intro s hs
    exact accounted_of_init hs
  · rintro s a s' ⟨blocks, acc⟩ ⟨hgrows, hstep⟩
    exact acc.next hgrows hstep

/-- With nothing live, one free block is left. -/
theorem Accounted.eq_singleton (acc : s.Accounted blocks) (hlive : s.live = []) :
    blocks = [(heapStart, ⟨s.heap.mappedEnd - heapStart - headerSize, true⟩)] := by
  have hfree : ∀ b ∈ blocks, b.2.free = true := by
    intro b hb
    by_contra hused
    obtain ⟨x, hx, -⟩ := acc.owned b hb (by simpa using hused)
    simp [hlive] at hx
  obtain ⟨⟨addr, blk⟩, rfl⟩ := acc.coalesced.eq_singleton acc.layout.nonempty hfree
  have hbounds := acc.layout.bounds (addr, blk) (by simp)
  have hcovered := acc.covered
  have hstart := hbounds.start
  have hfinish := hbounds.finish
  simp only [spanned_cons, spanned_nil] at hcovered
  have haddr : addr = heapStart := by
    dsimp only at hstart hfinish
    omega
  have hsize : blk.size = s.heap.mappedEnd - heapStart - headerSize := by omega
  have hblk : blk = ⟨s.heap.mappedEnd - heapStart - headerSize, true⟩ := by
    rw [← hsize, ← hfree (addr, blk) (by simp)]
  rw [haddr, hblk]

end HeapState

/-- **Conservation.** In every run in which no growth fails part-way, the blocks and
their headers make up the mapped heap, and so do the two totals; and when every
allocation has been released, in whatever order, the list is one free block. -/
theorem heap_conserved {s : HeapState} (h : (heapSystem.restrict HeapState.GrowsWhole).Reachable s) :
    ∃ blocks, s.heap.Layout blocks ∧ Heap.spanned blocks = s.heap.mappedEnd - heapStart ∧
      (∃ allocated free, s.heap.totalAllocated = some allocated ∧ s.heap.totalFree = some free ∧
        allocated + free + headerSize * blocks.length = s.heap.mappedEnd - heapStart) ∧
      (s.live = [] →
        blocks = [(heapStart, ⟨s.heap.mappedEnd - heapStart - headerSize, true⟩)]) := by
  obtain ⟨blocks, acc⟩ := HeapState.accounted_of_reachable h
  have hcovered := acc.covered
  have hsum : Heap.spanned blocks < 2 ^ 64 := by
    have hmax := acc.layout.mappedEnd
    simp only [heapStart, heapMaxSize] at hmax hcovered
    omega
  have hsizes := Heap.sizes_add_sizes blocks
  refine ⟨blocks, acc.layout, by omega, ⟨_, _, acc.layout.totalLoop_eq false hsum,
    acc.layout.totalLoop_eq true hsum, by omega⟩, acc.eq_singleton⟩

/-- Three requests, the second of them refused and the third met by a growth behind a
free tail, and the releases in the order of the requests. -/
def releaseRun : List HeapAction :=
  [.kmalloc 60000 fun _ => true, .kmalloc 8000 fun _ => false, .kmalloc 8000 fun _ => true,
    .kfree (heapStart + headerSize), .kfree (heapStart + heapInitialSize + headerSize)]

@[irreducible] def releasedState : HeapState :=
  (runActions (guarded HeapState.next HeapState.GrowsWhole) heapBootState releaseRun).get
    (by decide +kernel)

theorem releasedState_reachable :
    (heapSystem.restrict HeapState.GrowsWhole).Reachable releasedState := by
  unfold releasedState
  exact reachable_get_guarded _ heapBootState_init _

theorem releasedState_values :
    releasedState.live = [] ∧
      releasedState.heap.mappedEnd = heapStart + heapInitialSize + 2 * pageSize := by
  decide +kernel

theorem releasedState_conserved :
    releasedState.live = [] ∧
      ∃ blocks, releasedState.heap.Layout blocks ∧
        Heap.spanned blocks = releasedState.heap.mappedEnd - heapStart ∧
        (∃ allocated free, releasedState.heap.totalAllocated = some allocated ∧
          releasedState.heap.totalFree = some free ∧
          allocated + free + headerSize * blocks.length =
            releasedState.heap.mappedEnd - heapStart) ∧
        (releasedState.live = [] → blocks = [(heapStart,
          ⟨releasedState.heap.mappedEnd - heapStart - headerSize, true⟩)]) :=
  ⟨releasedState_values.1, heap_conserved releasedState_reachable⟩

end WengShiOS.Mm
