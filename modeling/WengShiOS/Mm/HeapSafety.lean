import WengShiOS.Mm.HeapInvariant

/-! # The heap is well formed in every run

`kmalloc` and `kfree` on the list of blocks, whatever pages `growHeap` manages to
map, and the invariant of all runs: the list keeps its layout, free neighbours are
merged, every live allocation has a block of its own and its bytes are never
written. -/

namespace WengShiOS.Mm

open Math Heap

namespace Heap

variable {h h' : Heap} {a n m v : Nat} {blocks pre post : List (Nat × Block)} {blk : Block}
  {size fuel : Nat} (mapped : Nat → Bool)

/-! ### Growing -/

/-- One more page below the limit. -/
theorem wrap_nextPage {start pages : Nat}
    (hle : start + (pages + 1) * pageSize ≤ heapStart + heapMaxSize) :
    wrap (start + pageSize) = start + pageSize := by
  refine wrap_of_lt ?_
  simp only [heapStart, heapMaxSize, pageSize] at *
  omega

theorem mapPages_eq (pages : Nat)
    (hle : h.mappedEnd + pages * pageSize ≤ heapStart + heapMaxSize) :
    ∃ k ≤ pages, (mapPages mapped pages h).2 = { h with mappedEnd := h.mappedEnd + k * pageSize } ∧
      ((mapPages mapped pages h).1 = true → k = pages) := by
  induction pages generalizing h with
  | zero => exact ⟨0, le_rfl, by simp [mapPages], fun _ => rfl⟩
  | succ pages ih =>
    rw [mapPages]
    split_ifs with hpage
    · rw [wrap_nextPage hle]
      obtain ⟨k, hk, heq, hall⟩ := ih (h := { h with mappedEnd := h.mappedEnd + pageSize })
        (by simp only [Nat.succ_mul] at hle; dsimp only; omega)
      refine ⟨k + 1, by omega, ?_, fun hok => by rw [hall hok]⟩
      rw [heq, Nat.succ_mul, Nat.add_comm (k * pageSize), ← Nat.add_assoc]
    · exact ⟨0, by omega, by simp, by simp⟩

theorem alignUp_spec (n align : Nat) (ha : 0 < align) (hn : n + align ≤ 2 ^ 64) :
    align ∣ alignUp n align ∧ n ≤ alignUp n align ∧ alignUp n align < n + align := by
  have hwrap : wrap (n + align - 1) = n + align - 1 := wrap_of_lt (by omega)
  have hdiv := Nat.div_add_mod (n + align - 1) align
  have hmod := Nat.mod_lt (n + align - 1) ha
  rw [Nat.mul_comm] at hdiv
  unfold alignUp
  rw [hwrap]
  exact ⟨Nat.dvd_mul_left .., by omega, by omega⟩

/-- The pages for `n` bytes, and that their end does not wrap. -/
theorem alignUp_pages {start : Nat} (hmax : start ≤ heapStart + heapMaxSize)
    (hn : n ≤ 2 * heapMaxSize) : pageSize ∣ alignUp n pageSize ∧ n ≤ alignUp n pageSize ∧
      wrap (start + alignUp n pageSize) = start + alignUp n pageSize := by
  obtain ⟨hdvd, hle, hlt⟩ := alignUp_spec n pageSize (by simp [pageSize])
    (by simp only [pageSize, heapMaxSize] at *; omega)
  refine ⟨hdvd, hle, wrap_of_lt ?_⟩
  simp only [heapStart, heapMaxSize, pageSize] at *
  omega

/-- Growing moves the mapped end up by whole pages, and by all that were asked
for if it succeeds. -/
theorem growHeap_eq (hmax : h.mappedEnd ≤ heapStart + heapMaxSize) (hpage : pageSize ∣ h.mappedEnd)
    (hn : n ≤ 2 * heapMaxSize) :
    ∃ m, (h.growHeap mapped n).2 = { h with mappedEnd := m } ∧ h.mappedEnd ≤ m ∧
      m ≤ heapStart + heapMaxSize ∧ pageSize ∣ m ∧
      ((h.growHeap mapped n).1 = true →
        h.mappedEnd + n ≤ m ∧ m = h.mappedEnd + alignUp n pageSize) := by
  obtain ⟨hdvd, hle, hwrap⟩ := alignUp_pages hmax hn
  have hdiv : alignUp n pageSize / pageSize * pageSize = alignUp n pageSize :=
    Nat.div_mul_cancel hdvd
  simp only [growHeap, hwrap]
  split_ifs with hroom
  · exact ⟨h.mappedEnd, rfl, le_rfl, hmax, hpage, by simp⟩
  · obtain ⟨k, hk, heq, hall⟩ := mapPages_eq (h := h) mapped (alignUp n pageSize / pageSize)
      (by omega)
    have hmono := Nat.mul_le_mul_right pageSize hk
    refine ⟨_, heq, by omega, by omega, (Nat.dvd_add_right hpage).mpr (Nat.dvd_mul_left ..),
      fun hok => ?_⟩
    rw [hall hok]
    omega

theorem Layout.grown (l : Layout h blocks) (hle : h.mappedEnd ≤ m)
    (hmax : m ≤ heapStart + heapMaxSize) (hpage : pageSize ∣ m) :
    Layout { h with mappedEnd := m } blocks where
  first := l.first
  linked := l.linked
  ordered := l.ordered
  bounds b hb :=
    let i := l.bounds b hb
    ⟨i.start, i.finish.trans hle, i.addr, i.size⟩
  nonempty := l.nonempty
  mappedEnd := hmax
  page := hpage

/-- What `addBlock` links: the blocks that were there, and behind them one at the old
mapped end. -/
theorem Layout.addBlock_linked (fuel m : Nat) (l : Layout h blocks) (hfuel : blocks.length ≤ fuel) :
    ∃ h', addBlock { h with mappedEnd := m } h.mappedEnd fuel = some h' ∧
      h'.firstBlock = firstAddr blocks 0 ∧
      Linked h'.node 0 (blocks ++
        [(h.mappedEnd, ⟨wrapSub (wrapSub m h.mappedEnd) headerSize, true⟩)]) 0 ∧
      ∀ b ∈ blocks, Kept h h' b := by
  set n := h.mappedEnd with hn
  set size := wrapSub (wrapSub m n) headerSize with hsize
  set g : Heap := { h with mappedEnd := m } with hg
  have hn64 : n < 2 ^ 64 := by
    have hmax := l.mappedEnd
    simp only [heapStart, heapMaxSize] at hmax
    omega
  have hsize64 : size < 2 ^ 64 := Nat.mod_lt _ (by norm_num)
  have hapart : ∀ b ∈ blocks, b.1 + headerSize + b.2.size ≤ n := fun b hb => (l.bounds b hb).finish
  -- the header of the new block is written while nothing points to it
  set h₁ := (((g.setSize n size).setFree n true).setNext n 0).setPrev n 0 with hh₁
  have c₁ : Changed g h₁ [n] :=
    ((Changed.setSize.trans .setFree).trans .setNext).trans .setPrev |>.mono (by simp)
  have hnode₁ : h₁.node n = ⟨⟨size, true⟩, 0, 0⟩ := by
    rw [hh₁, node_setPrev (by omega), node_setNext (by omega), node_setFree, node_setSize hsize64]
  have hlinked₁ : Linked h₁.node 0 blocks 0 := l.linked.congr fun b hb =>
    c₁.node_eq (by simpa using .inr (by have := hapart b hb; omega))
  obtain ⟨init, ⟨t, last⟩, hblocks⟩ := List.eq_nil_or_concat' blocks |>.resolve_left l.nonempty
  have htail : h₁.findTail fuel h₁.firstBlock = some t := by
    have hfirst : h₁.firstBlock = firstAddr blocks 0 := c₁.firstBlock.trans l.first
    rw [hfirst, findTail_eq hlinked₁ (fun b hb => l.addr_ne_zero hb) hfuel l.nonempty, hblocks]
    simp
  have htn : t + headerSize + last.size ≤ n := hapart (t, last) (by simp [hblocks])
  have hapart_tn : HeadersApart t n := .inl (by omega)
  have hapart_nt : HeadersApart n t := .inr (by omega)
  have c : Changed h₁ ((h₁.setNext t n).setPrev n t) [t, n] :=
    (Changed.setNext.trans (Changed.setPrev (a := n) (v := t)))
  have c' : Changed g ((h₁.setNext t n).setPrev n t) [n, t, n] := c₁.trans c
  refine ⟨(h₁.setNext t n).setPrev n t, ?_, c'.firstBlock.trans l.first, ?_,
    fun b hb x hlo hhi => c'.mem x ?_⟩
  · have hset : addBlock g n fuel =
        (h₁.findTail fuel h₁.firstBlock).map fun tail => (h₁.setNext tail n).setPrev n tail := by
      rfl
    rw [hset, htail]
    rfl
  · rw [hblocks] at hlinked₁ ⊢
    refine hlinked₁.concat (fun b hb => c.node_eq ?_) ?_ ?_
    · have hord := l.ordered
      rw [hblocks] at hord
      have hbt : b.1 + headerSize + b.2.size ≤ t :=
        (List.pairwise_append.mp hord).2.2 b hb (t, last) (by simp)
      simp only [List.forall_mem_cons]
      exact ⟨.inr (by omega), .inr (by omega), by simp⟩
    · rw [node_setPrev_of_apart hapart_nt, node_setNext (by omega)]
    · rw [node_setPrev (by omega), node_setNext_of_apart hapart_tn, hnode₁]
  · have hbn := hapart b hb
    have hbt : b = (t, last) ∨ _ := l.eq_or_apart hb (by simp [hblocks])
    simp only [Prod.ext_iff] at hbt
    simp only [List.forall_mem_cons]
    exact ⟨by omega, by omega, by omega, by simp⟩

/-- The new pages become the last block. -/
theorem Layout.addBlock (fuel m : Nat) (l : Layout h blocks) (hgrown : h.mappedEnd + headerSize ≤ m)
    (hmax : m ≤ heapStart + heapMaxSize) (hpage : pageSize ∣ m) (hfuel : blocks.length ≤ fuel) :
    ∃ h', addBlock { h with mappedEnd := m } h.mappedEnd fuel = some h' ∧
      Layout h' (blocks ++ [(h.mappedEnd, ⟨m - h.mappedEnd - headerSize, true⟩)]) ∧
      ∀ b ∈ blocks, Kept h h' b := by
  obtain ⟨h', hadd, hfirst, hlinked, hkept⟩ := l.addBlock_linked fuel m hfuel
  have hm64 : m < 2 ^ 64 := by
    simp only [heapStart, heapMaxSize] at hmax
    omega
  have hsize : wrapSub (wrapSub m h.mappedEnd) headerSize = m - h.mappedEnd - headerSize := by
    have hinner : wrapSub m h.mappedEnd = m - h.mappedEnd := wrapSub_of_le (by omega) hm64
    rw [hinner, wrapSub_of_le (by omega) (by omega)]
  rw [hsize] at hlinked
  have hend : h'.mappedEnd = m := addBlock_mappedEnd hadd
  have lg := l.grown (by omega : h.mappedEnd ≤ m) hmax hpage
  refine ⟨h', hadd, ⟨?_, hlinked, ?_, fun b hb => ?_, by simp, hend.trans_le hmax, hend ▸ hpage⟩,
    hkept⟩
  · rw [hfirst]
    cases blocks with
    | nil => exact absurd rfl l.nonempty
    | cons b rest => rfl
  · exact List.pairwise_append.mpr ⟨l.ordered, by simp, fun b hb d hd => by
      obtain rfl := List.mem_singleton.mp hd
      exact (l.bounds b hb).finish⟩
  · rw [hend]
    rcases List.mem_append.mp hb with hb | hb
    · exact lg.bounds b hb
    · obtain rfl := List.mem_singleton.mp hb
      have hstart : heapStart ≤ h.mappedEnd := by
        obtain ⟨b, hb⟩ := List.exists_mem_of_ne_nil _ l.nonempty
        have hbounds := l.bounds b hb
        have := hbounds.start
        have := hbounds.finish
        omega
      have hn16 := l.page
      simp only [pageSize] at *
      refine ⟨hstart, ?_, ?_, ?_⟩
      all_goals simp only [headerSize, alignment] at *
      all_goals omega

/-! ### `kmalloc` -/

/-- Every used block and its payload are still there. -/
def KeepsUsed (h h' : Heap) (blocks blocks' : List (Nat × Block)) : Prop :=
  ∀ b ∈ blocks, b.2.free = false → b ∈ blocks' ∧ Kept h h' b

theorem KeepsUsed.trans {h'' : Heap} {blocks' blocks'' : List (Nat × Block)}
    (k : KeepsUsed h h' blocks blocks') (k' : KeepsUsed h' h'' blocks' blocks'') :
    KeepsUsed h h'' blocks blocks'' := fun b hb hused =>
  let ⟨hb', hkept⟩ := k b hb hused
  let ⟨hb'', hkept'⟩ := k' b hb' hused
  ⟨hb'', hkept.trans hkept'⟩

theorem mem_around_mid {mid : List (Nat × Block)} {b : Nat × Block} (hb : b ∈ pre ++ post) :
    b ∈ pre ++ mid ++ post := by
  rcases List.mem_append.mp hb with hb | hb
  · exact List.mem_append_left _ (List.mem_append_left _ hb)
  · exact List.mem_append_right _ hb

theorem mem_around {mid b : Nat × Block} (hb : b ∈ pre ++ [mid] ++ post) :
    b = mid ∨ b ∈ pre ++ post := by
  simp only [List.mem_append, List.mem_singleton] at hb ⊢
  rcases hb with (hb | hb) | hb
  · exact .inr (.inl hb)
  · exact .inl hb
  · exact .inr (.inr hb)

theorem Coalesced.carve (hpre : Coalesced pre) (hpost : Coalesced post)
    (hnext : ∀ c ∈ post.head?, c.2.free = false) :
    Coalesced (pre ++ Heap.carve a blk size ++ post) := by
  have hmid : Coalesced (Heap.carve a blk size) ∧
      ∀ b ∈ (Heap.carve a blk size).head?, b.2.free = false := by
    unfold Heap.carve Coalesced
    split_ifs <;> simp
  refine List.isChain_append.mpr ⟨List.isChain_append.mpr ⟨hpre, hmid.1, fun b _ c hc => ?_⟩,
    hpost, fun b _ c hc => ?_⟩
  · simp [hmid.2 c hc]
  · simp [hnext c hc]

theorem mem_carve_head (a : Nat) (blk : Block) (size : Nat) :
    ∃ used, (a, used) ∈ carve a blk size ∧ used.free = false ∧
      (size ≤ blk.size → size ≤ used.size) := by
  unfold carve
  split_ifs
  · exact ⟨⟨size, false⟩, by simp⟩
  · exact ⟨⟨blk.size, false⟩, by simp⟩

/-- What a successful allocation leaves: the block behind the pointer is used, large
enough and was not in use before. -/
structure Allocated (blocks blocks' : List (Nat × Block)) (ptr size : Nat) : Prop where
  block : ∃ used : Block, ∃ a, (a, used) ∈ blocks' ∧ a + headerSize = ptr ∧ used.free = false ∧
    size ≤ used.size
  fresh : ∀ b ∈ blocks, b.2.free = false → b.1 + headerSize ≠ ptr

/-- No block is in use that was not, apart from the one behind `ptr`. -/
def OnlyUsed (blocks blocks' : List (Nat × Block)) (ptr : Nat) : Prop :=
  ∀ b ∈ blocks', b.2.free = false → b ∈ blocks ∨ b.1 + headerSize = ptr

/-- A free block that fits is given to the request. -/
theorem Layout.allocate (l : Layout h (pre ++ [(a, blk)] ++ post)) (hpre : Coalesced pre)
    (hpost : Coalesced post) (hnext : ∀ c ∈ post.head?, c.2.free = false) (hfree : blk.free = true)
    (hfit : size ≤ blk.size) (hsize : alignment ∣ size) :
    ∃ blocks', Layout (h.take a size) blocks' ∧ Coalesced blocks' ∧
      KeepsUsed h (h.take a size) (pre ++ [(a, blk)] ++ post) blocks' ∧
      Allocated (pre ++ [(a, blk)] ++ post) blocks' (wrap (a + headerSize)) size ∧
      OnlyUsed (pre ++ [(a, blk)] ++ post) blocks' (wrap (a + headerSize)) ∧
      spanned blocks' = spanned (pre ++ [(a, blk)] ++ post) := by
  obtain ⟨l', hkept⟩ := l.take hfit hsize
  have hlt : a + headerSize + blk.size < 2 ^ 64 := l.addr_lt (c := (a, blk)) (by simp)
  have hptr : wrap (a + headerSize) = a + headerSize := wrap_of_lt (by omega)
  have hother : ∀ b ∈ pre ++ [(a, blk)] ++ post, b.2.free = false → b ∈ pre ++ post := by
    intro b hb hused
    rcases mem_around hb with rfl | hb
    · simp [hfree] at hused
    · exact hb
  refine ⟨_, l', hpre.carve hpost hnext, fun b hb hused =>
    ⟨mem_around_mid (hother b hb hused), hkept b (hother b hb hused)⟩,
    ⟨?_, fun b hb hused heq => ?_⟩, fun b hb hused => ?_, by simp [spanned_carve a]⟩
  · obtain ⟨used, hmem, hused, hle⟩ := mem_carve_head a blk size
    exact ⟨used, a, by simp [hmem], hptr.symm, hused, hle hfit⟩
  · rcases l.eq_or_apart hb (c := (a, blk)) (by simp) with rfl | hapart
    · simp [hfree] at hused
    · simp only [headerSize] at *
      omega
  · simp only [List.mem_append] at hb
    rcases hb with (hb | hb) | hb
    · exact .inl (by simp [hb])
    · exact .inr (by rw [addr_of_mem_carve hb hused, hptr])
    · exact .inl (by simp [hb])

theorem growAmount_eq (hsize : size ≤ heapMaxSize) :
    size + headerSize ≤ growAmount size ∧ growAmount size ≤ 2 * heapMaxSize := by
  have hwrap : wrap (size + headerSize) = size + headerSize := by
    refine wrap_of_lt ?_
    simp only [heapMaxSize, headerSize] at *
    omega
  rw [growAmount, hwrap]
  by_cases h4 : size + headerSize < 4096
  · rw [if_pos h4]
    simp only [heapMaxSize]
    omega
  · rw [if_neg h4]
    simp only [heapMaxSize, headerSize] at hsize ⊢
    omega

theorem alignUp_alignment (hsize : size ≤ heapMaxSize) :
    alignment ∣ alignUp size alignment ∧ size ≤ alignUp size alignment ∧
      alignUp size alignment ≤ heapMaxSize ∧
      alignUp (alignUp size alignment) alignment = alignUp size alignment := by
  have hup : ∀ n ≤ heapMaxSize, alignment ∣ alignUp n alignment ∧ n ≤ alignUp n alignment ∧
      alignUp n alignment < n + alignment := fun n hn =>
    alignUp_spec n alignment (by simp [alignment]) (by simp only [alignment, heapMaxSize] at *; omega)
  obtain ⟨hdvd, hle, hlt⟩ := hup size hsize
  have hmax : alignUp size alignment ≤ heapMaxSize := by
    simp only [alignment, heapMaxSize] at *
    omega
  obtain ⟨hdvd', hle', hlt'⟩ := hup _ hmax
  refine ⟨hdvd, hle, hmax, ?_⟩
  simp only [alignment] at *
  omega

theorem kmallocLoop_of_findFit {request : Nat} (h0 : request ≠ 0) (ha : a ≠ 0)
    (hfit : h.findFit (alignUp request alignment) fuel h.firstBlock = some a) :
    kmallocLoop mapped (fuel + 1) h request =
      some (wrap (a + headerSize), h.take a (alignUp request alignment)) := by
  simp [kmallocLoop, h0, hfit, ha]

theorem kmallocLoop_of_findFit_null {request : Nat} (h0 : request ≠ 0)
    (hnull : h.findFit (alignUp request alignment) fuel h.firstBlock = some 0) :
    kmallocLoop mapped (fuel + 1) h request =
      match h.growHeap mapped (growAmount (alignUp request alignment)) with
      | (false, grown) => some (0, grown)
      | (true, grown) => (grown.addBlock h.mappedEnd fuel).bind fun grown =>
          kmallocLoop mapped fuel grown (alignUp request alignment) := by
  simp only [kmallocLoop, if_neg h0, hnull]
  rfl

/-- A new block at the end is found if no other one fits, and is given away. -/
theorem Layout.kmallocLoop_grown {n : Nat} (fuel request : Nat) (l : Layout h (blocks ++ [(n, blk)]))
    (hco : Coalesced blocks) (hfuel : blocks.length + 1 < fuel) (h0 : request ≠ 0)
    (hsize : alignment ∣ alignUp request alignment)
    (hnone : ∀ b ∈ blocks, ¬ (b.2.free = true ∧ alignUp request alignment ≤ b.2.size))
    (hfree : blk.free = true) (hfit : alignUp request alignment ≤ blk.size) :
    ∃ h' blocks', kmallocLoop mapped (fuel + 1) h request =
        some (wrap (n + headerSize), h') ∧ Layout h' blocks' ∧ Coalesced blocks' ∧
      KeepsUsed h h' (blocks ++ [(n, blk)]) blocks' ∧
      Allocated (blocks ++ [(n, blk)]) blocks' (wrap (n + headerSize))
        (alignUp request alignment) ∧
      OnlyUsed (blocks ++ [(n, blk)]) blocks' (wrap (n + headerSize)) ∧
      spanned blocks' = spanned (blocks ++ [(n, blk)]) ∧ h'.mappedEnd = h.mappedEnd := by
  have l' : Layout h (blocks ++ [(n, blk)] ++ []) := by simpa using l
  have hfound : h.findFit (alignUp request alignment) fuel h.firstBlock = some n := by
    rw [l.first]
    rcases findFit_cases (alignUp request alignment) fuel l.linked
        (fun b hb => l.addr_ne_zero hb) (by simpa using hfuel) with
      ⟨-, hall⟩ | ⟨pre, a, found, post, heq, hfound, hffree, hffit, -⟩
    · exact absurd ⟨hfree, hfit⟩ (hall (n, blk) (by simp))
    · rw [hfound]
      have hmem : (a, found) ∈ blocks ++ [(n, blk)] := by simp [heq]
      rcases List.mem_append.mp hmem with hmem | hmem
      · exact absurd ⟨hffree, hffit⟩ (hnone _ hmem)
      · simp only [List.mem_singleton, Prod.mk.injEq] at hmem
        rw [hmem.1]
  obtain ⟨blocks', hl, hc, hkeep, halloc, honly, hsum⟩ :=
    l'.allocate hco List.isChain_nil (by simp) hfree hfit hsize
  exact ⟨_, blocks',
    kmallocLoop_of_findFit mapped h0 (l.addr_ne_zero (c := (n, blk)) (by simp)) hfound,
    hl, hc, by simpa using hkeep, by simpa using halloc, by simpa using honly, by simpa using hsum,
    take_mappedEnd _ _⟩

/-- `kmalloc` returns, whatever pages can be mapped: with null, or with a block of
its own. -/
theorem Layout.kmallocLoop (l : Layout h blocks) (hco : Coalesced blocks)
    (hfuel : blocks.length + 4 ≤ fuel) (hsize : size ≤ heapMaxSize) :
    ∃ ptr h' blocks', kmallocLoop mapped fuel h size = some (ptr, h') ∧ Layout h' blocks' ∧
      Coalesced blocks' ∧ KeepsUsed h h' blocks blocks' ∧
      (ptr = 0 ∧ blocks' = blocks ∨ Allocated blocks blocks' ptr size ∧ OnlyUsed blocks blocks' ptr ∧
        spanned blocks' + h.mappedEnd = spanned blocks + h'.mappedEnd) := by
  obtain ⟨fuel, rfl⟩ : ∃ f, fuel = f + 2 := ⟨fuel - 2, by omega⟩
  obtain ⟨hdvd, hle, hmax, hidem⟩ := alignUp_alignment hsize
  have hself : ∀ m, KeepsUsed h { h with mappedEnd := m } blocks blocks :=
    fun m b hb _ => ⟨hb, fun _ _ _ => rfl⟩
  by_cases h0 : size = 0
  · exact ⟨0, h, blocks, by rw [kmallocLoop, if_pos h0], l, hco, hself h.mappedEnd,
      .inl ⟨rfl, rfl⟩⟩
  rcases findFit_cases (alignUp size alignment) (fuel + 1) l.linked
      (fun b hb => l.addr_ne_zero hb) (by omega) with
    ⟨hnull, hnone⟩ | ⟨pre, a, blk, post, heq, hfound, hfree, hfit, -⟩
  · -- no block fits: the heap grows
    have hstep := kmallocLoop_of_findFit_null mapped h0 (l.first ▸ hnull)
    obtain ⟨hamount, hamount'⟩ := growAmount_eq hmax
    obtain ⟨m, hgrow, hmle, hmmax, hmpage, hall⟩ :=
      growHeap_eq mapped l.mappedEnd l.page hamount'
    rcases hres : h.growHeap mapped (growAmount (alignUp size alignment)) with ⟨ok, grown⟩
    rw [hres] at hgrow hall hstep
    obtain rfl : grown = { h with mappedEnd := m } := hgrow
    cases ok with
    | false =>
      exact ⟨0, _, blocks, hstep, l.grown hmle hmmax hmpage, hco, hself m, .inl ⟨rfl, rfl⟩⟩
    | true =>
      have hroom : h.mappedEnd + growAmount (alignUp size alignment) ≤ m := (hall rfl).1
      obtain ⟨h₁, hadd, l₁, hkept⟩ := l.addBlock (fuel + 1) m (by omega) hmmax hmpage
        (by omega)
      obtain ⟨h', blocks', hrun, l', hco', hkeep, halloc, honly, hsum, hend⟩ :=
        l₁.kmallocLoop_grown mapped fuel (alignUp size alignment) hco (by omega) (by omega)
          (by rwa [hidem]) (by rwa [hidem]) rfl (by rw [hidem]; dsimp only; omega)
      refine ⟨wrap (h.mappedEnd + headerSize), h', blocks', ?_, l', hco', fun b hb hused => ?_,
        .inr ⟨⟨?_, fun b hb => ?_⟩, fun b hb hused => ?_, ?_⟩⟩
      · rw [hstep]
        simp only [hadd, Option.bind_some]
        exact hrun
      · obtain ⟨hb', hk⟩ := hkeep b (by simp [hb]) hused
        exact ⟨hb', (hkept b hb).trans hk⟩
      · obtain ⟨used, a, hmem, hptr, hused, hfits⟩ := halloc.block
        exact ⟨used, a, hmem, hptr, hused, by omega⟩
      · exact halloc.fresh b (by simp [hb])
      · rcases honly b hb hused with hb | hptr
        · refine .inl ((List.mem_append.mp hb).resolve_right fun hnew => ?_)
          -- the new block is free, so it is not the one in use
          simp [List.mem_singleton.mp hnew] at hused
        · exact .inr hptr
      · rw [hsum, hend, addBlock_mappedEnd hadd]
        simp only [spanned_append, spanned_cons, spanned_nil]
        omega
  · subst heq
    have l' : Layout h (pre ++ [(a, blk)] ++ post) := by simpa using l
    have hco' : Coalesced (pre ++ (a, blk) :: post) := hco
    obtain ⟨hpre, hcons, -⟩ := List.isChain_append.mp hco'
    obtain ⟨hnext, hpost⟩ := List.isChain_cons.mp hcons
    obtain ⟨blocks', hl, hc, hkeep, halloc, honly, hsum⟩ := l'.allocate hpre hpost
      (fun c hc => by simpa [hfree] using hnext c hc) hfree hfit hdvd
    have hrun := kmallocLoop_of_findFit mapped h0
      (l.addr_ne_zero (c := (a, blk)) (by simp)) (l.first ▸ hfound)
    refine ⟨wrap (a + headerSize), _, blocks', hrun, hl, hc, by simpa using hkeep,
      .inr ⟨⟨?_, ?_⟩, by simpa using honly, ?_⟩⟩
    · obtain ⟨used, b, hmem, hptr, hused, hfits⟩ := halloc.block
      exact ⟨used, b, hmem, hptr, hused, by omega⟩
    · simpa using halloc.fresh
    · rw [hsum, take_mappedEnd]
      simp

/-! ### `kfree` -/

section

variable (l : Layout h (pre ++ [(a, blk)] ++ post))
include l

/-- The freed block swallows a free block after it. -/
theorem Layout.mergeNext (hpost : Coalesced post)
    (hh' : h' = if h.next a ≠ 0 ∧ h.free (h.next a) then h.absorb a (h.next a) else h) :
    ∃ blk' post', Layout h' (pre ++ [(a, blk')] ++ post') ∧ Coalesced post' ∧
      (∀ c ∈ post'.head?, c.2.free = false) ∧ KeepsUsed h h' (pre ++ post) (pre ++ post') ∧
      blk'.free = blk.free ∧ post' ⊆ post ∧
      blk'.size + spanned post' = blk.size + spanned post := by
  have hnext : h.next a = firstAddr post 0 := by rw [next_eq_node, l.around.1]
  rw [hnext] at hh'
  have hself : KeepsUsed h h (pre ++ post) (pre ++ post) := fun b hb _ => ⟨hb, fun _ _ _ => rfl⟩
  cases post with
  | nil =>
    obtain rfl : h' = h := by simpa using hh'
    exact ⟨blk, [], l, hpost, by simp, hself, rfl, List.Subset.refl _, rfl⟩
  | cons c rest =>
    obtain ⟨hhead, hrest⟩ := List.isChain_cons.mp hpost
    have hc0 : c.1 ≠ 0 := l.addr_ne_zero (by simp)
    have hcfree : h.free c.1 = c.2.free := by
      rw [free_eq_node, (linked_append.mp l.linked).2.value_eq (by simp)]
    simp only [firstAddr_cons, hcfree] at hh'
    by_cases hc : c.2.free = true
    · rw [if_pos ⟨hc0, hc⟩] at hh'
      have l' : Layout h (pre ++ [(a, blk), (c.1, c.2)] ++ rest) := by simpa using l
      obtain ⟨lmerged, hkept⟩ := l'.absorb
      rw [← hh'] at lmerged hkept
      refine ⟨_, rest, lmerged, hrest, fun d hd => by simpa [hc] using hhead d hd,
        fun b hb hused => ?_, rfl, List.subset_cons_self c rest, ?_⟩
      · have hb' : b ∈ pre ++ rest := by
          rcases List.mem_append.mp hb with hb | hb
          · simp [hb]
          · rcases List.mem_cons.mp hb with rfl | hb
            · simp [hc] at hused
            · simp [hb]
        exact ⟨hb', hkept b hb'⟩
      · simp only [spanned_cons]
        omega
    · obtain rfl : h' = h := by simpa [hc] using hh'
      exact ⟨blk, c :: rest, l, hpost, by simpa using hc, hself, rfl, List.Subset.refl _, rfl⟩

/-- A free block before the freed one swallows it. -/
theorem Layout.mergePrev (hpre : Coalesced pre) (hpost : Coalesced post)
    (hhead : ∀ c ∈ post.head?, c.2.free = false) (hfree : blk.free = true)
    (hh' : h' = if h.prev a ≠ 0 ∧ h.free (h.prev a) then h.absorb (h.prev a) a else h) :
    ∃ blocks', Layout h' blocks' ∧ Coalesced blocks' ∧ KeepsUsed h h' (pre ++ post) blocks' ∧
      (∀ b ∈ blocks', b.2.free = false → b ∈ pre ++ post) ∧
      spanned blocks' = spanned (pre ++ [(a, blk)] ++ post) := by
  have hprev : h.prev a = lastAddr 0 pre := by rw [prev_eq_node, l.around.1]
  rw [hprev] at hh'
  -- the last two arguments are the list to the left, and its last block not being free
  have hjoin : ∀ {left : List (Nat × Block)} {mid : Nat × Block}, Coalesced left →
      (∀ b ∈ left.getLast?, b.2.free = false) → Coalesced (left ++ [mid] ++ post) :=
    fun hleft hlast => List.isChain_append.mpr ⟨List.isChain_append.mpr
      ⟨hleft, List.isChain_singleton _, fun b hb c _ => by simp [hlast b hb]⟩, hpost,
      fun b _ c hc => by simp [hhead c hc]⟩
  have honly : ∀ b ∈ pre ++ [(a, blk)] ++ post, b.2.free = false → b ∈ pre ++ post := by
    intro b hb hused
    rcases mem_around hb with rfl | hb
    · simp [hfree] at hused
    · exact hb
  rcases List.eq_nil_or_concat' pre with rfl | ⟨init, c, rfl⟩
  · obtain rfl : h' = h := by simpa using hh'
    exact ⟨_, l, hjoin hpre (by simp), fun b hb _ => ⟨mem_around_mid hb, fun _ _ _ => rfl⟩,
      honly, rfl⟩
  · have hc0 : c.1 ≠ 0 := l.addr_ne_zero (by simp)
    have hcfree : h.free c.1 = c.2.free := by
      rw [free_eq_node, l.linked.value_eq (by simp)]
    simp only [lastAddr_append, lastAddr_cons, lastAddr_nil, hcfree] at hh'
    by_cases hc : c.2.free = true
    · rw [if_pos ⟨hc0, hc⟩] at hh'
      have l' : Layout h (init ++ [(c.1, c.2), (a, blk)] ++ post) := by simpa using l
      obtain ⟨lmerged, hkept⟩ := l'.absorb
      rw [← hh'] at lmerged hkept
      obtain ⟨hinit, -, hlast⟩ := List.isChain_append.mp hpre
      refine ⟨_, lmerged, hjoin hinit fun b hb => by simpa [hc] using hlast b hb c rfl,
        fun b hb hused => ?_, fun b hb hused => ?_, ?_⟩
      · rcases mem_around hb with rfl | hb'
        · simp [hc] at hused
        · exact ⟨mem_around_mid hb', hkept b hb'⟩
      · rcases mem_around hb with rfl | hb'
        · simp [hc] at hused
        · exact mem_around_mid hb'
      · simp only [spanned_append, spanned_cons, spanned_nil]
        omega
    · obtain rfl : h' = h := by simpa [hc] using hh'
      exact ⟨_, l, hjoin hpre (by simpa using hc), fun b hb _ =>
        ⟨mem_around_mid hb, fun _ _ _ => rfl⟩, honly, rfl⟩

/-- Freeing a used block keeps the layout, all other used blocks and their bytes. -/
theorem Layout.kfree (hco : Coalesced (pre ++ [(a, blk)] ++ post)) :
    ∃ blocks', Layout (h.kfree (a + headerSize)) blocks' ∧ Coalesced blocks' ∧
      KeepsUsed h (h.kfree (a + headerSize)) (pre ++ post) blocks' ∧
      (∀ b ∈ blocks', b.2.free = false → b ∈ pre ++ post) ∧
      spanned blocks' = spanned (pre ++ [(a, blk)] ++ post) := by
  obtain ⟨hleft, hpost, -⟩ := List.isChain_append.mp hco
  have hpre : Coalesced pre := (List.isChain_append.mp hleft).1
  have hlt : a + headerSize + blk.size < 2 ^ 64 := l.addr_lt (c := (a, blk)) (by simp)
  have hblock : wrapSub (a + headerSize) headerSize = a := by
    rw [wrapSub_of_le (by omega) (by omega)]
    omega
  obtain ⟨l₁, hkept₁⟩ := l.setFree (v := true)
  set h₁ := h.setFree a true
  obtain ⟨h₂, hh₂⟩ : ∃ h₂, h₂ =
    if h₁.next a ≠ 0 ∧ h₁.free (h₁.next a) then h₁.absorb a (h₁.next a) else h₁ := ⟨_, rfl⟩
  obtain ⟨h₃, hh₃⟩ : ∃ h₃, h₃ =
    if h₂.prev a ≠ 0 ∧ h₂.free (h₂.prev a) then h₂.absorb (h₂.prev a) a else h₂ := ⟨_, rfl⟩
  obtain ⟨blk₂, post₂, l₂, hpost₂, hhead₂, hkeep₂, hfree₂, hsub₂, hsum₂⟩ := l₁.mergeNext hpost hh₂
  obtain ⟨blocks', l₃, hco₃, hkeep₃, honly₃, hsum₃⟩ := l₂.mergePrev hpre hpost₂ hhead₂ hfree₂ hh₃
  have hkfree : h.kfree (a + headerSize) = h₃ := by
    rw [Heap.kfree, if_neg (by simp [headerSize]), hblock, hh₃, hh₂]
  rw [hkfree]
  have hkeep₁ : KeepsUsed h h₁ (pre ++ post) (pre ++ post) := fun b hb _ => ⟨hb, hkept₁ b hb⟩
  refine ⟨blocks', l₃, hco₃, (hkeep₁.trans hkeep₂).trans hkeep₃, fun b hb hused => ?_, ?_⟩
  · refine (List.mem_append.mp (honly₃ b hb hused)).elim (fun hb => ?_) fun hb => ?_
    · exact List.mem_append_left _ hb
    · exact List.mem_append_right _ (hsub₂ hb)
  · rw [hsum₃]
    simp only [spanned_append, spanned_cons, spanned_nil] at hsum₂ ⊢
    omega

end

end Heap

/-! ### Runs -/

/-- `Heap::init` makes one free block of the initial region. -/
theorem Heap.init_layout {h : Heap} {mem : Bytes} {mapped : Nat → Bool}
    (hinit : init ⟨mem, 0, heapStart, heapStart⟩ mapped = some h) :
    h.Layout [(heapStart, ⟨heapInitialSize - headerSize, true⟩)] ∧
      h.mappedEnd = heapStart + heapInitialSize := by
  obtain ⟨m, hgrow, hle, hmax, hpage, hall⟩ := growHeap_eq (n := heapInitialSize)
    (h := ⟨mem, 0, heapStart, heapStart⟩) mapped (by simp) (by simp [pageSize, heapStart])
    (by simp [heapInitialSize, heapMaxSize])
  unfold init at hinit
  rcases hres : growHeap ⟨mem, 0, heapStart, heapStart⟩ mapped heapInitialSize with ⟨ok, grown⟩
  rw [hres] at hinit hgrow hall
  cases ok with
  | false => cases hinit
  | true =>
    obtain rfl : grown = ⟨mem, 0, heapStart, m⟩ := hgrow
    obtain ⟨hroom, hend⟩ : heapStart + heapInitialSize ≤ m ∧ m = heapStart + heapInitialSize :=
      hall rfl
    cases hinit
    refine ⟨?_, hend⟩
    refine ⟨rfl, ?_, by simp, ?_, by simp, hmax, hpage⟩
    · simp only [linked_cons, linked_nil, firstAddr_nil, and_true]
      change ((((⟨mem, heapStart, heapStart, m⟩ : Heap).setSize heapStart
        (heapInitialSize - headerSize)).setFree heapStart true).setNext heapStart 0 |>.setPrev
          heapStart 0).node heapStart = _
      rw [node_setPrev (by norm_num), node_setNext (by norm_num), node_setFree,
        node_setSize (by simp [heapInitialSize, headerSize])]
    · simp only [List.forall_mem_singleton]
      exact ⟨le_rfl, hroom.trans' (by simp [heapStart, heapInitialSize, headerSize]),
        by simp [alignment, heapStart], by simp [alignment, heapInitialSize, headerSize]⟩

namespace HeapState

open Heap

variable {s s' : HeapState} {blocks : List (Nat × Block)} {x y : Nat × Nat}

/-- The size of the payload at `ptr`, as its header has it. -/
def payloadSize (s : HeapState) (ptr : Nat) : Nat := s.heap.size (ptr - headerSize)

/-- The block of a live allocation. -/
def Owns (blocks : List (Nat × Block)) (x : Nat × Nat) (b : Nat × Block) : Prop :=
  b ∈ blocks ∧ b.1 + headerSize = x.1 ∧ b.2.free = false ∧ x.2 ≤ b.2.size

structure Inv (s : HeapState) (blocks : List (Nat × Block)) : Prop where
  layout : s.heap.Layout blocks
  coalesced : Coalesced blocks
  owner : ∀ x ∈ s.live, ∃ b, Owns blocks x b
  distinct : s.live.Pairwise fun x y => x.1 ≠ y.1

/-- The live allocations own used blocks that are large enough, their payloads are
aligned and overlap neither each other nor a header. -/
structure Separated (s : HeapState) (blocks : List (Nat × Block)) : Prop where
  used : ∀ x ∈ s.live, s.heap.free (x.1 - headerSize) = false ∧ x.2 ≤ s.payloadSize x.1
  aligned : ∀ x ∈ s.live, alignment ∣ x.1
  payloads : s.live.Pairwise fun x y => Apart x.1 (s.payloadSize x.1) y.1 (s.payloadSize y.1)
  headers : ∀ x ∈ s.live, ∀ b ∈ blocks, Apart x.1 (s.payloadSize x.1) b.1 headerSize

/-- Calls of the allocator: requests up to the size of the heap, and releases of
what is live. -/
def IsCall (s : HeapState) : HeapAction → Prop
  | .kmalloc size _ => size ≤ heapMaxSize
  | .kfree ptr => ∃ x ∈ s.live, x.1 = ptr
  | .store _ _ => False

/-- Every allocation that is live before and after the step has the same bytes. -/
def KeepsPayloads (s s' : HeapState) : Prop :=
  ∀ x ∈ s.live, x ∈ s'.live → ∀ i < s.payloadSize x.1,
    s'.heap.mem (x.1 + i) = s.heap.mem (x.1 + i)

theorem Inv.payloadSize_eq (inv : s.Inv blocks) {b : Nat × Block} (hb : Owns blocks x b) :
    s.payloadSize x.1 = b.2.size ∧ s.heap.free (x.1 - headerSize) = false := by
  obtain ⟨hmem, hptr, hused, -⟩ := hb
  have hvalue := inv.layout.linked.value_eq hmem
  have hsub : x.1 - headerSize = b.1 := by omega
  rw [payloadSize, hsub, size_eq_node, free_eq_node, hvalue]
  exact ⟨rfl, hused⟩

theorem Inv.separated (inv : s.Inv blocks) : s.Separated blocks where
  used x hx := by
    obtain ⟨b, hb⟩ := inv.owner x hx
    obtain ⟨hsize, hused⟩ := inv.payloadSize_eq hb
    exact ⟨hused, hsize ▸ hb.2.2.2⟩
  aligned x hx := by
    obtain ⟨b, hb⟩ := inv.owner x hx
    have := (inv.layout.bounds b hb.1).addr
    rw [← hb.2.1]
    exact (Nat.dvd_add_right this).mpr (by simp [alignment, headerSize])
  payloads := inv.distinct.imp_of_mem fun {x y} hx hy hne => by
    obtain ⟨b, hb⟩ := inv.owner x hx
    obtain ⟨c, hc⟩ := inv.owner y hy
    have hbptr := hb.2.1
    have hcptr := hc.2.1
    rw [(inv.payloadSize_eq hb).1, (inv.payloadSize_eq hc).1]
    rcases inv.layout.eq_or_apart hb.1 hc.1 with rfl | h | h
    · exact absurd (hbptr.symm.trans hcptr) hne
    · exact .inl (by omega)
    · exact .inr (by omega)
  headers x hx c hc := by
    obtain ⟨b, hb⟩ := inv.owner x hx
    have hbptr := hb.2.1
    rw [(inv.payloadSize_eq hb).1]
    rcases inv.layout.eq_or_apart hb.1 hc with rfl | h | h
    · exact .inr (by omega)
    · exact .inl (by omega)
    · exact .inr (by omega)

/-- A step that keeps the used blocks of `live` keeps their payloads. -/
theorem Inv.keepsPayloads (inv : s.Inv blocks)
    (hkept : ∀ x ∈ s.live, x ∈ s'.live → ∀ b, Owns blocks x b → Kept s.heap s'.heap b) :
    s.KeepsPayloads s' := fun x hx hx' i hi => by
  obtain ⟨b, hb⟩ := inv.owner x hx
  rw [(inv.payloadSize_eq hb).1] at hi
  have hptr := hb.2.1
  exact hkept x hx hx' b hb _ (by omega) (by omega)

/-- What a request makes of the blocks: nothing if it is refused, and one more used
block otherwise. -/
def Requested (s s' : HeapState) (blocks blocks' : List (Nat × Block)) (ptr size : Nat) : Prop :=
  ptr = 0 ∧ s'.live = s.live ∧ blocks' = blocks ∨
    s'.live = (ptr, size) :: s.live ∧ OnlyUsed blocks blocks' ptr ∧
      spanned blocks' + s.heap.mappedEnd = spanned blocks + s'.heap.mappedEnd

theorem Inv.kmalloc {size : Nat} (mapped : Nat → Bool) (inv : s.Inv blocks)
    (hsize : size ≤ heapMaxSize) :
    ∃ s' blocks' ptr, s.next (.kmalloc size mapped) = some s' ∧ s'.Inv blocks' ∧
      s.KeepsPayloads s' ∧ s.heap.kmalloc mapped size = some (ptr, s'.heap) ∧
      Requested s s' blocks blocks' ptr size := by
  obtain ⟨ptr, h', blocks', hrun, l', hco', hkeep, hres⟩ :=
    inv.layout.kmallocLoop mapped inv.coalesced inv.layout.length_lt hsize
  have hnext : s.next (.kmalloc size mapped) =
      some ⟨h', if ptr = 0 then s.live else (ptr, size) :: s.live⟩ := by
    simp only [HeapState.next, if_pos hsize, Heap.kmalloc, hrun, Option.map_some]
  have howner : ∀ x ∈ s.live, ∃ b, Owns blocks' x b := fun x hx =>
    let ⟨b, hb, hptr, hused, hle⟩ := inv.owner x hx
    ⟨b, (hkeep b hb hused).1, hptr, hused, hle⟩
  refine ⟨_, blocks', ptr, hnext, ?_,
    inv.keepsPayloads fun x _ _ b hb => (hkeep b hb.1 hb.2.2.1).2, hrun, ?_⟩
  · by_cases h0 : ptr = 0
    · simp only [if_pos h0]
      exact ⟨l', hco', howner, inv.distinct⟩
    · obtain ⟨⟨⟨used, a, hmem, hptr, hused, hle⟩, hfresh⟩, -⟩ :=
        hres.resolve_left fun hnull => h0 hnull.1
      simp only [if_neg h0]
      refine ⟨l', hco', List.forall_mem_cons.mpr ⟨⟨(a, used), hmem, hptr, hused, hle⟩, howner⟩,
        List.pairwise_cons.mpr ⟨fun x hx heq => ?_, inv.distinct⟩⟩
      obtain ⟨b, hb, hbptr, hbused, -⟩ := inv.owner x hx
      exact hfresh b hb hbused (hbptr.trans heq.symm)
  · rcases hres with ⟨h0, hblocks⟩ | ⟨halloc, honly, hsum⟩
    · exact .inl ⟨h0, if_pos h0, hblocks⟩
    · obtain ⟨used, a, -, hptr, -⟩ := halloc.block
      have h0 : ptr ≠ 0 := by
        rw [← hptr]
        simp [headerSize]
      exact .inr ⟨if_neg h0, honly, hsum⟩

theorem Inv.kfree {ptr : Nat} (inv : s.Inv blocks) (hlive : ∃ x ∈ s.live, x.1 = ptr) :
    ∃ s' blocks', s.next (.kfree ptr) = some s' ∧ s'.Inv blocks' ∧ s.KeepsPayloads s' ∧
      (∀ b ∈ blocks', b.2.free = false → b ∈ blocks ∧ b.1 + headerSize ≠ ptr) ∧
      spanned blocks' = spanned blocks := by
  obtain ⟨x, hx, rfl⟩ := hlive
  obtain ⟨⟨a, blk⟩, hb, hptr, hused, -⟩ := inv.owner x hx
  obtain ⟨pre, post, rfl⟩ := List.append_of_mem hb
  have l : s.heap.Layout (pre ++ [(a, blk)] ++ post) := by simpa using inv.layout
  obtain ⟨blocks', l', hco', hkeep, honly, hsum⟩ := l.kfree (by simpa using inv.coalesced)
  replace hptr : a + headerSize = x.1 := hptr
  rw [hptr] at l' hkeep
  -- the blocks of the other allocations are not the freed one
  have hother : ∀ y, y.1 ≠ x.1 → ∀ c, Owns (pre ++ (a, blk) :: post) y c → c ∈ pre ++ post :=
    fun y hy c hc => by
      obtain ⟨hmem, hcptr, -, -⟩ := hc
      simp only [List.mem_append, List.mem_cons] at hmem ⊢
      rcases hmem with hmem | rfl | hmem
      · exact .inl hmem
      · exact absurd (hcptr.symm.trans hptr) hy
      · exact .inr hmem
  have hnext : s.next (.kfree x.1) =
      some ⟨s.heap.kfree x.1, s.live.filter fun y => y.1 ≠ x.1⟩ := if_pos ⟨x, hx, rfl⟩
  refine ⟨_, blocks', hnext, ⟨l', hco', fun y hy => ?_, inv.distinct.filter _⟩,
    inv.keepsPayloads fun y _ hy c hc => ?_, fun b hb hused => ?_, by simpa using hsum⟩
  · obtain ⟨hy, hne⟩ := List.mem_filter.mp hy
    obtain ⟨c, hc⟩ := inv.owner y hy
    exact ⟨c, (hkeep c (hother y (by simpa using hne) c hc) hc.2.2.1).1, hc.2⟩
  · have hne := (List.mem_filter.mp hy).2
    exact (hkeep c (hother y (by simpa using hne) c hc) hc.2.2.1).2
  · have hmem := honly b hb hused
    have hne := l.addr_ne_of_mem_around hmem
    exact ⟨by simpa using @mem_around_mid pre post [(a, blk)] b hmem, by omega⟩

/-- A client's store stays inside its payload, so it changes no header. -/
theorem Inv.store {addr : Nat} {value : UInt8} (inv : s.Inv blocks)
    (h : s.next (.store addr value) = some s') : s'.Inv blocks := by
  simp only [HeapState.next] at h
  split_ifs at h with hlive
  cases h
  obtain ⟨x, hx, hlo, hhi⟩ := hlive
  obtain ⟨b, hb, hptr, hused, hle⟩ := inv.owner x hx
  refine ⟨inv.layout.congr_mem fun c hc y hy hy' => overlay_of_not_mem ?_, inv.coalesced, inv.owner,
    inv.distinct⟩
  rcases inv.layout.eq_or_apart hb hc with rfl | h | h <;> omega

/-- Every call returns, and keeps the invariant and the payloads. -/
theorem Inv.call {a : HeapAction} (inv : s.Inv blocks) (ha : s.IsCall a) :
    ∃ s' blocks', s.next a = some s' ∧ s'.Inv blocks' ∧ s.KeepsPayloads s' := by
  cases a with
  | kmalloc size mapped =>
    obtain ⟨s', blocks', -, hnext, inv', hkept, -⟩ := inv.kmalloc mapped ha
    exact ⟨s', blocks', hnext, inv', hkept⟩
  | kfree ptr =>
    obtain ⟨s', blocks', hnext, inv', hkept, -⟩ := inv.kfree ha
    exact ⟨s', blocks', hnext, inv', hkept⟩
  | store addr value => exact ha.elim

theorem Inv.next {a : HeapAction} (inv : s.Inv blocks) (h : s.next a = some s') :
    ∃ blocks', s'.Inv blocks' := by
  by_cases ha : s.IsCall a
  · obtain ⟨s'', blocks', hnext, inv', -⟩ := inv.call ha
    obtain rfl := Option.some.inj (h.symm.trans hnext)
    exact ⟨blocks', inv'⟩
  · cases a with
    | kmalloc size mapped =>
      have hnone : s.next (.kmalloc size mapped) = none := if_neg ha
      simp [hnone] at h
    | kfree ptr =>
      have hnone : s.next (.kfree ptr) = none := if_neg ha
      simp [hnone] at h
    | store addr value => exact ⟨blocks, inv.store h⟩

end HeapState

theorem HeapState.inv_of_reachable {s : HeapState} (h : heapSystem.Reachable s) :
    ∃ blocks, s.Inv blocks := by
  refine h.invariant (fun s => ∃ blocks, s.Inv blocks) (fun s hs => ?_)
    fun _ _ _ ⟨_, inv⟩ hstep => inv.next hstep
  obtain ⟨hlive, mem, mapped, hinit⟩ := hs
  exact ⟨_, (init_layout hinit).1, List.isChain_singleton _, by simp [hlive], by simp [hlive]⟩

/-- **The heap keeps its representation.** After any run, whatever pages could be
mapped: the headers form a list linked both ways, in address order without overlap
and inside the mapped heap, with aligned sizes and no two free neighbours; the live
allocations own separate aligned payloads; and every further call returns without
changing a byte of an allocation that stays live. -/
theorem heap_wellFormed {s : HeapState} (h : heapSystem.Reachable s) :
    (∃ blocks, s.heap.Layout blocks ∧ Heap.Coalesced blocks ∧ s.Separated blocks) ∧
      ∀ a, s.IsCall a → ∃ s', s.next a = some s' ∧ s.KeepsPayloads s' := by
  obtain ⟨blocks, inv⟩ := HeapState.inv_of_reachable h
  refine ⟨⟨blocks, inv.layout, inv.coalesced, inv.separated⟩, fun a ha => ?_⟩
  obtain ⟨s', -, hnext, -, hkept⟩ := inv.call ha
  exact ⟨s', hnext, hkept⟩

/-- `Heap::init` over a memory of zeros. -/
def heapBoot : Option HeapState :=
  (Heap.init ⟨fun _ => 0, 0, heapStart, heapStart⟩ fun _ => true).map fun heap => ⟨heap, []⟩

/-- Two requests, the second after a growth that failed part-way, and the release
of the first. -/
def gapRun : List HeapAction :=
  [.kmalloc 60000 fun _ => true, .kmalloc 8000 fun page => page = heapStart + heapInitialSize,
    .kmalloc 8000 fun _ => true, .kfree (heapStart + headerSize)]

@[irreducible] def heapBootState : HeapState :=
  heapBoot.get (by decide +kernel)

theorem heapBootState_init : heapSystem.init heapBootState := by
  have hboot : heapBoot = some heapBootState := by
    unfold heapBootState
    exact (Option.some_get _).symm
  obtain ⟨heap, hinit, hstate⟩ := Option.map_eq_some_iff.mp hboot
  rw [← hstate]
  exact ⟨rfl, _, _, hinit⟩

/-- A page was mapped in vain, and the block after the gap is in use. -/
@[irreducible] def gapState : HeapState :=
  (runActions HeapState.next heapBootState gapRun).get (by decide +kernel)

theorem gapState_reachable : heapSystem.Reachable gapState := by
  unfold gapState
  exact reachable_get_runActions _ (.init heapBootState_init) _

theorem gapState_live :
    gapState.live = [(heapStart + heapInitialSize + pageSize + headerSize, 8000)] := by
  decide +kernel

theorem gapState_wellFormed :
    gapState.live = [(heapStart + heapInitialSize + pageSize + headerSize, 8000)] ∧
      (∃ blocks, gapState.heap.Layout blocks ∧ Heap.Coalesced blocks ∧
        gapState.Separated blocks) ∧
      ∀ a, gapState.IsCall a → ∃ s', gapState.next a = some s' ∧ gapState.KeepsPayloads s' :=
  ⟨gapState_live, heap_wellFormed gapState_reachable⟩

end WengShiOS.Mm
