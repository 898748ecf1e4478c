import WengShiOS.Mm.HeapSafety

/-! # The blocks in use

What is allocated can be read off the headers: walking the list from its first block
and skipping the free ones gives the live allocations, in address order. On a well
formed list the walk ends. -/

namespace WengShiOS.Mm.Heap

open Math

/-- Pointer and size of every block in use, from `block` on. The first argument bounds the
number of headers. -/
def liveLoop (h : Heap) : Nat → Nat → Option (List (Nat × Nat))
  | 0, _ => none
  | fuel + 1, block =>
    if block = 0 then some []
    else
      (h.liveLoop fuel (h.next block)).map fun rest =>
        if h.free block then rest else (block + headerSize, h.size block) :: rest

def liveBlocks (h : Heap) : Option (List (Nat × Nat)) := h.liveLoop loopBound h.firstBlock

/-- The same for a list of blocks. -/
def usedBlocks (blocks : List (Nat × Block)) : List (Nat × Nat) :=
  (blocks.filter fun b => !b.2.free).map fun b => (b.1 + headerSize, b.2.size)

variable {h h' : Heap} {blocks blocks' : List (Nat × Block)} {ptr size fuel : Nat}

theorem mem_usedBlocks : (ptr, size) ∈ usedBlocks blocks ↔
    ∃ b ∈ blocks, b.2.free = false ∧ b.1 + headerSize = ptr ∧ b.2.size = size := by
  simp only [usedBlocks, List.mem_map, List.mem_filter, Bool.not_eq_true', Prod.mk.injEq]
  constructor
  · rintro ⟨b, ⟨hb, hused⟩, hptr, hsize⟩
    exact ⟨b, hb, hused, hptr, hsize⟩
  · rintro ⟨b, hb, hused, hptr, hsize⟩
    exact ⟨b, ⟨hb, hused⟩, hptr, hsize⟩

theorem liveLoop_eq {p : Nat} (hl : Linked h.node p blocks 0) (hne : ∀ b ∈ blocks, b.1 ≠ 0)
    (hfuel : blocks.length < fuel) :
    h.liveLoop fuel (firstAddr blocks 0) = some (usedBlocks blocks) := by
  induction blocks generalizing p fuel with
  | nil =>
    obtain ⟨fuel, rfl⟩ := Nat.exists_eq_succ_of_ne_zero (Nat.ne_zero_of_lt hfuel)
    rfl
  | cons b rest ih =>
    obtain ⟨fuel, rfl⟩ := Nat.exists_eq_succ_of_ne_zero (Nat.ne_zero_of_lt hfuel)
    obtain ⟨hnode, hrest⟩ := linked_cons.mp hl
    have hih := ih hrest (fun c hc => hne c (by simp [hc])) (by simpa using hfuel)
    simp only [liveLoop, firstAddr_cons, size_eq_node, free_eq_node, next_eq_node, hnode,
      if_neg (hne b (by simp)), hih, Option.map_some]
    cases hfree : b.2.free <;> simp [usedBlocks, hfree]

/-- The walk along a well formed list finds the blocks in use. -/
theorem Layout.liveBlocks_eq (l : h.Layout blocks) : h.liveBlocks = some (usedBlocks blocks) := by
  have hlen := l.length_lt
  rw [liveBlocks, l.first]
  exact liveLoop_eq l.linked (fun b hb => l.addr_ne_zero hb) (by omega)

/-- Keeping the used blocks keeps the live allocations. -/
theorem KeepsUsed.usedBlocks_subset (hkeep : KeepsUsed h h' blocks blocks') :
    usedBlocks blocks ⊆ usedBlocks blocks' := by
  rintro ⟨ptr, size⟩ hx
  obtain ⟨b, hb, hused, hptr, hsize⟩ := mem_usedBlocks.mp hx
  exact mem_usedBlocks.mpr ⟨b, (hkeep b hb hused).1, hused, hptr, hsize⟩

/-- A successful allocation is live afterwards, and was not before. -/
theorem Allocated.exists_usedBlocks (halloc : Allocated blocks blocks' ptr size) :
    ∃ x ∈ usedBlocks blocks', x ∉ usedBlocks blocks := by
  obtain ⟨blk, a, hmem, hptr, hused, -⟩ := halloc.block
  refine ⟨(ptr, blk.size), mem_usedBlocks.mpr ⟨(a, blk), hmem, hused, hptr, rfl⟩, fun hold => ?_⟩
  obtain ⟨b, hb, hbused, hbptr, -⟩ := mem_usedBlocks.mp hold
  exact halloc.fresh b hb hbused hbptr

end WengShiOS.Mm.Heap
