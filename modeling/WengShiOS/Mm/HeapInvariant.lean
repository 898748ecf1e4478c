import WengShiOS.Mm.Heap
import Mathlib.Data.List.Chain
import Mathlib.Tactic.SplitIfs

/-! # The block list of the heap

The headers in memory are seen as a list of addressed blocks (`Layout`): linked
both ways, in address order and without overlap. Each operation of the allocator
is matched by one on that list, and changes only the headers it is about
(`Changed`), so that what lies between headers is kept. -/

namespace WengShiOS.Mm

open Math

theorem wrap_of_lt {n : Nat} (h : n < 2 ^ 64) : wrap n = n := Nat.mod_eq_of_lt h

theorem wrapSub_of_le {m n : Nat} (h : n ≤ m) (hm : m < 2 ^ 64) : wrapSub m n = m - n := by
  unfold wrapSub wrap
  omega

namespace Heap

variable {h h' h'' : Heap} {a b n v : Nat} {as bs : List Nat}

theorem size_eq_node : h.size a = (h.node a).value.size := rfl

theorem free_eq_node : h.free a = (h.node a).value.free := rfl

theorem next_eq_node : h.next a = (h.node a).next := rfl

theorem prev_eq_node : h.prev a = (h.node a).prev := rfl

/-! ### What a store into a header changes -/

/-- `h'` differs from `h` at most in the headers at the addresses `as`. -/
structure Changed (h h' : Heap) (as : List Nat) : Prop where
  mem : ∀ x, (∀ a ∈ as, ¬ (a ≤ x ∧ x < a + headerSize)) → h'.mem x = h.mem x
  firstBlock : h'.firstBlock = h.firstBlock
  mappedEnd : h'.mappedEnd = h.mappedEnd

theorem Changed.trans (c : Changed h h' as) (c' : Changed h' h'' bs) :
    Changed h h'' (as ++ bs) where
  mem x hx := by
    rw [c'.mem x fun a ha => hx a (List.mem_append_right _ ha),
      c.mem x fun a ha => hx a (List.mem_append_left _ ha)]
  firstBlock := c'.firstBlock.trans c.firstBlock
  mappedEnd := c'.mappedEnd.trans c.mappedEnd

theorem Changed.mono (c : Changed h h' as) (hsub : as ⊆ bs) : Changed h h' bs :=
  ⟨fun x hx => c.mem x fun a ha => hx a (hsub ha), c.firstBlock, c.mappedEnd⟩

theorem Changed.store (hb : a ≤ b) (hn : b + n ≤ a + headerSize) :
    Changed h { h with mem := writeLE n h.mem b v } [a] :=
  ⟨fun x hx => overlay_of_not_mem (by have := hx a (by simp); omega), rfl, rfl⟩

theorem Changed.setSize : Changed h (h.setSize a v) [a] :=
  .store le_rfl (by simp [headerSize])

theorem Changed.setFree {v : Bool} : Changed h (h.setFree a v) [a] :=
  .store (by omega) (by simp [headerSize])

theorem Changed.setNext : Changed h (h.setNext a v) [a] :=
  .store (by omega) (by simp [headerSize])

theorem Changed.setPrev : Changed h (h.setPrev a v) [a] :=
  .store (by omega) (by simp [headerSize])

/-- Two headers do not overlap. -/
abbrev HeadersApart (a b : Nat) : Prop := Apart a headerSize b headerSize

theorem node_congr (hmem : ∀ x, b ≤ x → x < b + headerSize → h'.mem x = h.mem x) :
    h'.node b = h.node b := by
  have hread : ∀ k, k + 8 ≤ headerSize → readLE 8 h'.mem (b + k) = readLE 8 h.mem (b + k) :=
    fun k hk => readLE_congr fun i hi => hmem _ (by omega) (by omega)
  have hfree := hmem (b + 8) (by omega) (by simp [headerSize])
  have hsize := hread 0 (by simp [headerSize])
  have hnext := hread 16 (by simp [headerSize])
  have hprev := hread 24 (by simp [headerSize])
  simp only [Nat.add_zero] at hsize
  simp only [node, size, free, next, prev, hfree, hsize, hnext, hprev]

theorem Changed.node_eq (c : Changed h h' as) (hb : ∀ a ∈ as, HeadersApart a b) :
    h'.node b = h.node b :=
  node_congr fun x hx hx' => c.mem x fun a ha hmem => by
    have := hb a ha
    unfold HeadersApart Apart at this
    omega

theorem node_setSize_of_apart (hab : HeadersApart a b) : (h.setSize a v).node b = h.node b :=
  Changed.setSize.node_eq (by simpa using hab)

theorem node_setFree_of_apart {v : Bool} (hab : HeadersApart a b) :
    (h.setFree a v).node b = h.node b :=
  Changed.setFree.node_eq (by simpa using hab)

theorem node_setNext_of_apart (hab : HeadersApart a b) : (h.setNext a v).node b = h.node b :=
  Changed.setNext.node_eq (by simpa using hab)

theorem node_setPrev_of_apart (hab : HeadersApart a b) : (h.setPrev a v).node b = h.node b :=
  Changed.setPrev.node_eq (by simpa using hab)

/-- A store into one field of a header leaves the bytes of the others. -/
theorem mem_writeLE {m : Bytes} {x : Nat} (hx : x < b ∨ b + n ≤ x) : writeLE n m b v x = m x :=
  overlay_of_not_mem (by omega)

theorem node_setSize (hv : v < 2 ^ 64) :
    (h.setSize a v).node a = { h.node a with value := { (h.node a).value with size := v } } := by
  have hsize : readLE 8 (writeLE 8 h.mem a v) a = v := readLE_writeLE_of_lt (by norm_num; exact hv)
  have hnext : readLE 8 (writeLE 8 h.mem a v) (a + 16) = readLE 8 h.mem (a + 16) :=
    readLE_writeLE_of_apart (.inl (by omega))
  have hprev : readLE 8 (writeLE 8 h.mem a v) (a + 24) = readLE 8 h.mem (a + 24) :=
    readLE_writeLE_of_apart (.inl (by omega))
  simp only [node, size, free, next, prev, setSize, hsize, hnext, hprev,
    mem_writeLE (x := a + 8) (b := a) (n := 8) (.inr (by omega))]

theorem node_setFree {v : Bool} :
    (h.setFree a v).node a = { h.node a with value := { (h.node a).value with free := v } } := by
  have hread : ∀ k, k + 8 ≤ 8 ∨ 9 ≤ k →
      readLE 8 (writeLE 1 h.mem (a + 8) v.toNat) (a + k) = readLE 8 h.mem (a + k) :=
    fun k hk => readLE_writeLE_of_apart (by unfold Apart; omega)
  have hfree : writeLE 1 h.mem (a + 8) v.toNat (a + 8) = byteOf v.toNat 0 :=
    overlay_of_lt (i := 0) (by omega)
  have hsize := hread 0 (by omega)
  have hnext := hread 16 (by omega)
  have hprev := hread 24 (by omega)
  have hbit : decide (byteOf v.toNat 0 ≠ 0) = v := by cases v <;> rfl
  simp only [Nat.add_zero] at hsize
  simp only [node, size, free, next, prev, setFree, hsize, hnext, hprev, hfree, hbit]

theorem node_setNext (hv : v < 2 ^ 64) :
    (h.setNext a v).node a = { h.node a with next := v } := by
  have hnext : readLE 8 (writeLE 8 h.mem (a + 16) v) (a + 16) = v :=
    readLE_writeLE_of_lt (by norm_num; exact hv)
  have hsize : readLE 8 (writeLE 8 h.mem (a + 16) v) a = readLE 8 h.mem a :=
    readLE_writeLE_of_apart (.inr (by omega))
  have hprev : readLE 8 (writeLE 8 h.mem (a + 16) v) (a + 24) = readLE 8 h.mem (a + 24) :=
    readLE_writeLE_of_apart (.inl (by omega))
  simp only [node, size, free, next, prev, setNext, hsize, hnext, hprev,
    mem_writeLE (x := a + 8) (b := a + 16) (n := 8) (.inl (by omega))]

theorem node_setPrev (hv : v < 2 ^ 64) :
    (h.setPrev a v).node a = { h.node a with prev := v } := by
  have hprev : readLE 8 (writeLE 8 h.mem (a + 24) v) (a + 24) = v :=
    readLE_writeLE_of_lt (by norm_num; exact hv)
  have hsize : readLE 8 (writeLE 8 h.mem (a + 24) v) a = readLE 8 h.mem a :=
    readLE_writeLE_of_apart (.inr (by omega))
  have hnext : readLE 8 (writeLE 8 h.mem (a + 24) v) (a + 16) = readLE 8 h.mem (a + 16) :=
    readLE_writeLE_of_apart (.inr (by omega))
  simp only [node, size, free, next, prev, setPrev, hsize, hnext, hprev,
    mem_writeLE (x := a + 8) (b := a + 24) (n := 8) (.inl (by omega))]

/-! ### The list of blocks -/

/-- A block lies inside the mapped heap and is aligned. -/
structure InBounds (mappedEnd : Nat) (b : Nat × Block) : Prop where
  start : heapStart ≤ b.1
  finish : b.1 + headerSize + b.2.size ≤ mappedEnd
  addr : alignment ∣ b.1
  size : alignment ∣ b.2.size

/-- The headers from `firstBlock` on are those of `blocks`, each linked to its
neighbours, in address order and without overlap. -/
structure Layout (h : Heap) (blocks : List (Nat × Block)) : Prop where
  first : h.firstBlock = firstAddr blocks 0
  linked : Linked h.node 0 blocks 0
  ordered : blocks.Pairwise fun b c => b.1 + headerSize + b.2.size ≤ c.1
  bounds : ∀ b ∈ blocks, InBounds h.mappedEnd b
  nonempty : blocks ≠ []
  mappedEnd : h.mappedEnd ≤ heapStart + heapMaxSize
  page : pageSize ∣ h.mappedEnd

/-- A change of the memory outside the headers. -/
theorem Layout.congr_mem {mem : Bytes} (l : Layout h blocks)
    (hmem : ∀ b ∈ blocks, ∀ x, b.1 ≤ x → x < b.1 + headerSize → mem x = h.mem x) :
    Layout { h with mem } blocks :=
  ⟨l.first, l.linked.congr fun b hb => node_congr (hmem b hb), l.ordered, l.bounds, l.nonempty,
    l.mappedEnd, l.page⟩

/-- No two neighbours are both free. -/
def Coalesced (blocks : List (Nat × Block)) : Prop :=
  blocks.IsChain fun b c => ¬ (b.2.free = true ∧ c.2.free = true)

/-- The bytes that the blocks take up together with their headers. -/
def spanned (blocks : List (Nat × Block)) : Nat := (blocks.map fun b => headerSize + b.2.size).sum

@[simp] theorem spanned_nil : spanned [] = 0 := rfl

@[simp] theorem spanned_cons (b : Nat × Block) (blocks : List (Nat × Block)) :
    spanned (b :: blocks) = headerSize + b.2.size + spanned blocks := by
  simp [spanned]

@[simp] theorem spanned_append (pre post : List (Nat × Block)) :
    spanned (pre ++ post) = spanned pre + spanned post := by
  simp [spanned]

variable {blocks pre post : List (Nat × Block)} {blk : Block} {size fuel : Nat}

theorem InBounds.addr_lt {m : Nat} {b : Nat × Block} (i : InBounds m b)
    (hm : m ≤ heapStart + heapMaxSize) : b.1 + headerSize + b.2.size < 2 ^ 64 := by
  have := i.finish
  simp only [heapStart, heapMaxSize] at hm
  omega

theorem InBounds.addr_ne_zero {m : Nat} {b : Nat × Block} (i : InBounds m b) : b.1 ≠ 0 := by
  have := i.start
  simp only [heapStart] at this
  omega

variable {c : Nat × Block} {p q : Nat}

theorem Layout.addr_ne_zero (l : Layout h blocks) (hc : c ∈ blocks) : c.1 ≠ 0 :=
  (l.bounds c hc).addr_ne_zero

theorem Layout.addr_lt (l : Layout h blocks) (hc : c ∈ blocks) :
    c.1 + headerSize + c.2.size < 2 ^ 64 :=
  (l.bounds c hc).addr_lt l.mappedEnd

/-- No two blocks have the same address. -/
theorem Layout.addr_ne_of_mem_around {a : Nat} (l : Layout h (pre ++ [(a, blk)] ++ post))
    {b : Nat × Block} (hb : b ∈ pre ++ post) : b.1 ≠ a := by
  have hord := List.pairwise_append.mp l.ordered
  rcases List.mem_append.mp hb with hb | hb
  · have := (List.pairwise_append.mp hord.1).2.2 b hb (a, blk) (by simp)
    simp only [headerSize] at this
    omega
  · have := hord.2.2 (a, blk) (by simp) b hb
    simp only [headerSize] at this
    omega

/-- Two blocks are the same or do not overlap. -/
theorem Layout.eq_or_apart (l : Layout h blocks) {b : Nat × Block} (hb : b ∈ blocks)
    (hc : c ∈ blocks) : b = c ∨ b.1 + headerSize + b.2.size ≤ c.1 ∨
      c.1 + headerSize + c.2.size ≤ b.1 := by
  let R : Nat × Block → Nat × Block → Prop := fun b c =>
    b = c ∨ b.1 + headerSize + b.2.size ≤ c.1 ∨ c.1 + headerSize + c.2.size ≤ b.1
  have : Std.Symm R := ⟨fun b c h => h.imp Eq.symm Or.symm⟩
  have hpair : blocks.Pairwise R := l.ordered.imp fun h => .inr (.inl h)
  exact hpair.forall_of_forall (fun _ _ => .inl rfl) hb hc

/-- The searching loop finds the first block that fits. -/
theorem findFit_cases (size fuel : Nat) (hl : Linked h.node p blocks 0)
    (hne : ∀ b ∈ blocks, b.1 ≠ 0) (hfuel : blocks.length < fuel) :
    (h.findFit size fuel (firstAddr blocks 0) = some 0 ∧
      ∀ b ∈ blocks, ¬ (b.2.free = true ∧ size ≤ b.2.size)) ∨
    ∃ pre a blk post, blocks = pre ++ (a, blk) :: post ∧
      h.findFit size fuel (firstAddr blocks 0) = some a ∧ blk.free = true ∧ size ≤ blk.size ∧
      ∀ b ∈ pre, ¬ (b.2.free = true ∧ size ≤ b.2.size) := by
  induction blocks generalizing p fuel with
  | nil =>
    obtain ⟨fuel, rfl⟩ := Nat.exists_eq_succ_of_ne_zero (by simpa using hfuel : 0 < fuel).ne'
    simp [findFit, firstAddr]
  | cons b rest ih =>
    obtain ⟨fuel, rfl⟩ := Nat.exists_eq_succ_of_ne_zero (Nat.zero_lt_of_lt hfuel).ne'
    obtain ⟨hnode, hrest⟩ := linked_cons.mp hl
    have hstep : h.findFit size (fuel + 1) (firstAddr (b :: rest) 0) =
        if b.2.free = true ∧ size ≤ b.2.size then some b.1
        else h.findFit size fuel (firstAddr rest 0) := by
      simp only [findFit, firstAddr, size_eq_node, free_eq_node, next_eq_node, hnode,
        if_neg (hne b (by simp))]
    rw [hstep]
    split_ifs with hfit
    · exact .inr ⟨[], b.1, b.2, rest, rfl, rfl, hfit.1, hfit.2, by simp⟩
    · rcases ih fuel hrest (fun c hc => hne c (by simp [hc])) (by simpa using hfuel) with
        ⟨hnull, hnone⟩ | ⟨pre, a, blk, post, rfl, hfound, hfree, hsize, hpre⟩
      · exact .inl ⟨hnull, List.forall_mem_cons.mpr ⟨hfit, hnone⟩⟩
      · exact .inr ⟨b :: pre, a, blk, post, rfl, hfound, hfree, hsize,
          List.forall_mem_cons.mpr ⟨hfit, hpre⟩⟩

/-- The other loop finds the last block. -/
theorem findTail_eq (hl : Linked h.node p blocks 0) (hne : ∀ b ∈ blocks, b.1 ≠ 0)
    (hfuel : blocks.length ≤ fuel) (hcons : blocks ≠ []) :
    h.findTail fuel (firstAddr blocks 0) = some (lastAddr p blocks) := by
  induction blocks generalizing p fuel with
  | nil => exact absurd rfl hcons
  | cons b rest ih =>
    obtain ⟨fuel, rfl⟩ := Nat.exists_eq_succ_of_ne_zero (Nat.zero_lt_of_lt hfuel).ne'
    obtain ⟨hnode, hrest⟩ := linked_cons.mp hl
    rw [findTail, next_eq_node, firstAddr, hnode, lastAddr]
    cases rest with
    | nil => simp [firstAddr, lastAddr]
    | cons c rest =>
      have hc : firstAddr (c :: rest) 0 ≠ 0 := hne c (by simp)
      rw [if_neg hc]
      exact ih hrest (fun d hd => hne d (by simp [hd])) (by simpa using hfuel) (by simp)

/-- Every header takes 32 bytes of the mapped heap. -/
theorem length_le_of_ordered {lo hi : Nat}
    (hord : blocks.Pairwise fun b c => b.1 + headerSize + b.2.size ≤ c.1)
    (hlo : ∀ b ∈ blocks, lo ≤ b.1) (hhi : ∀ b ∈ blocks, b.1 + headerSize + b.2.size ≤ hi)
    (hle : lo ≤ hi) : headerSize * blocks.length ≤ hi - lo := by
  induction blocks generalizing lo with
  | nil => simp
  | cons b rest ih =>
    obtain ⟨hb, hrest⟩ := List.pairwise_cons.mp hord
    have hbhi := hhi b (by simp)
    have hblo := hlo b (by simp)
    have := ih hrest hb (fun c hc => hhi c (by simp [hc])) hbhi
    rw [List.length_cons, Nat.mul_succ]
    omega

theorem Layout.length_lt (l : Layout h blocks) : blocks.length + 4 ≤ loopBound := by
  obtain ⟨b, hb⟩ := List.exists_mem_of_ne_nil _ l.nonempty
  have hb := l.bounds b hb
  have := length_le_of_ordered l.ordered (fun b hb => (l.bounds b hb).start)
    (fun b hb => (l.bounds b hb).finish) (by have := hb.start; have := hb.finish; omega)
  have hend := l.mappedEnd
  simp only [loopBound, heapMaxSize, headerSize] at *
  omega

/-! ### Replacing a stretch of blocks -/

/-- The search comes back empty if no block fits. -/
theorem Layout.findFit_null_iff (l : Layout h blocks) (size : Nat) (hfuel : blocks.length < fuel) :
    h.findFit size fuel h.firstBlock = some 0 ↔
      ∀ b ∈ blocks, ¬ (b.2.free = true ∧ size ≤ b.2.size) := by
  rw [l.first]
  rcases findFit_cases size fuel l.linked (fun b hb => l.addr_ne_zero hb) hfuel with
    ⟨hnull, hnone⟩ | ⟨pre, a, blk, post, rfl, hfound, hfree, hfit, -⟩
  · exact iff_of_true hnull hnone
  · have hmem : (a, blk) ∈ pre ++ (a, blk) :: post := by simp
    refine iff_of_false (fun hnull => ?_) fun hnone => hnone _ hmem ⟨hfree, hfit⟩
    exact l.addr_ne_zero hmem (Option.some.inj (hfound.symm.trans hnull))

theorem ordered_replace {mid mid' : List (Nat × Block)}
    (hord : (pre ++ mid ++ post).Pairwise fun b c => b.1 + headerSize + b.2.size ≤ c.1)
    (hmid : mid'.Pairwise fun b c => b.1 + headerSize + b.2.size ≤ c.1)
    (hlo : ∀ c ∈ mid', ∃ b ∈ mid, b.1 ≤ c.1)
    (hhi : ∀ c ∈ mid', ∃ b ∈ mid, c.1 + headerSize + c.2.size ≤ b.1 + headerSize + b.2.size) :
    (pre ++ mid' ++ post).Pairwise fun b c => b.1 + headerSize + b.2.size ≤ c.1 := by
  obtain ⟨hleft, hpost, hcross⟩ := List.pairwise_append.mp hord
  obtain ⟨hpre, -, hpremid⟩ := List.pairwise_append.mp hleft
  refine List.pairwise_append.mpr ⟨List.pairwise_append.mpr ⟨hpre, hmid, fun b hb c hc => ?_⟩,
    hpost, fun c hc d hd => ?_⟩
  · obtain ⟨m, hm, hle⟩ := hlo c hc
    exact (hpremid b hb m hm).trans hle
  · rcases List.mem_append.mp hc with hc | hc
    · exact hcross c (List.mem_append_left _ hc) d hd
    · obtain ⟨m, hm, hle⟩ := hhi c hc
      exact hle.trans (hcross m (List.mem_append_right _ hm) d hd)

/-- Where a block stands among the others. -/
theorem Layout.around (l : Layout h (pre ++ [(a, blk)] ++ post)) :
    h.node a = ⟨blk, firstAddr post 0, lastAddr 0 pre⟩ ∧
      (firstAddr post 0 = 0 ∨ a + headerSize + blk.size ≤ firstAddr post 0 ∧
        (h.node (firstAddr post 0)).prev = a) := by
  obtain ⟨hleft, hright⟩ := linked_append.mp l.linked
  refine ⟨(linked_append.mp hleft).2.1, ?_⟩
  cases post with
  | nil => exact .inl rfl
  | cons c rest =>
    have hord := (List.pairwise_append.mp l.ordered).2.2 (a, blk) (by simp) c (by simp)
    have hnode := (linked_cons.mp hright).1
    refine .inr ⟨hord, ?_⟩
    rw [firstAddr_cons, hnode]
    simp

/-- The headers a split or a merge writes: those at `as`, and the one after. -/
def withNext (as : List Nat) (q : Nat) : List Nat := if q = 0 then as else q :: as

theorem forall_mem_withNext {P : Nat → Prop} :
    (∀ x ∈ withNext as q, P x) ↔ (q ≠ 0 → P q) ∧ ∀ x ∈ as, P x := by
  unfold withNext
  split_ifs with h <;> simp [h]

/-- The payload of a block is the same in `h` and `h'`. -/
def Kept (h h' : Heap) (b : Nat × Block) : Prop :=
  ∀ x, b.1 + headerSize ≤ x → x < b.1 + headerSize + b.2.size → h'.mem x = h.mem x

/-- The header at `x` lies in the range of the blocks `mid`. -/
def Within (mid : List (Nat × Block)) (x : Nat) : Prop :=
  (∃ b ∈ mid, b.1 ≤ x) ∧ ∃ b ∈ mid, x + headerSize ≤ b.1 + headerSize + b.2.size

theorem within_singleton {x : Nat} :
    Within [(a, blk)] x ↔ a ≤ x ∧ x + headerSize ≤ a + headerSize + blk.size := by
  simp [Within]

section Replace

variable {mid mid' : List (Nat × Block)}

/-- Headers in the middle of the list are apart from the blocks on both sides. -/
theorem Layout.beside (l : Layout h (pre ++ mid ++ post)) {x : Nat} (hx : Within mid x) :
    (∀ b ∈ pre, b.1 + headerSize + b.2.size ≤ x) ∧ ∀ c ∈ post, x + headerSize ≤ c.1 := by
  obtain ⟨⟨lo, hlo, hlox⟩, hi, hhi, hxhi⟩ := hx
  obtain ⟨hleft, -, hcross⟩ := List.pairwise_append.mp l.ordered
  have hpremid := (List.pairwise_append.mp hleft).2.2
  exact ⟨fun b hb => (hpremid b hb lo hlo).trans hlox,
    fun c hc => hxhi.trans (hcross hi (List.mem_append_right _ hhi) c hc)⟩

/-- Writing the headers `as` in the middle of the list and the one after them
keeps all other headers and the payloads on both sides. -/
theorem Layout.frame (l : Layout h (pre ++ mid ++ post))
    (c : Changed h h' (withNext as (firstAddr post 0))) (has : ∀ x ∈ as, Within mid x) :
    (∀ b ∈ pre, h'.node b.1 = h.node b.1) ∧ (∀ b ∈ post.tail, h'.node b.1 = h.node b.1) ∧
      ∀ b ∈ pre ++ post, Kept h h' b := by
  obtain ⟨hleft, hpost, hcross⟩ := List.pairwise_append.mp l.ordered
  have hbefore : ∀ b ∈ pre, ∀ x ∈ withNext as (firstAddr post 0),
      b.1 + headerSize + b.2.size ≤ x := fun b hb => forall_mem_withNext.mpr
    ⟨fun h0 => by
      cases post with
      | nil => exact absurd rfl h0
      | cons d rest => exact hcross b (List.mem_append_left _ hb) d (by simp),
     fun x hx => (l.beside (has x hx)).1 b hb⟩
  have hafter : ∀ b ∈ post.tail, ∀ x ∈ withNext as (firstAddr post 0), x + headerSize ≤ b.1 :=
    fun b hb => forall_mem_withNext.mpr
      ⟨fun _ => by
        cases post with
        | nil => cases hb
        | cons d rest =>
          have := (List.pairwise_cons.mp hpost).1 b hb
          change d.1 + headerSize ≤ b.1
          omega,
       fun x hx => (l.beside (has x hx)).2 b (List.mem_of_mem_tail hb)⟩
  have hinside : ∀ b ∈ post, ∀ x ∈ withNext as (firstAddr post 0), x ≤ b.1 := fun b hb => by
    cases post with
    | nil => cases hb
    | cons d rest =>
      rcases List.mem_cons.mp hb with rfl | hb
      · exact forall_mem_withNext.mpr ⟨fun _ => le_rfl, fun x hx => by
          have := (l.beside (has x hx)).2 b (by simp)
          omega⟩
      · exact fun x hx => by
          have := hafter b hb x hx
          omega
  refine ⟨fun b hb => c.node_eq fun x hx => .inr ?_, fun b hb => c.node_eq fun x hx =>
    .inl (hafter b hb x hx), fun b hb x hlo hhi => c.mem x fun y hy hxy => ?_⟩
  · have := hbefore b hb x hx
    omega
  · rcases List.mem_append.mp hb with hb | hb
    · have := hbefore b hb y hy
      omega
    · have := hinside b hb y hy
      omega

/-- Blocks in the middle of the list are replaced by others in the same range,
and the block after them is linked to the last of these. -/
theorem Layout.replace (l : Layout h (pre ++ mid ++ post)) (hcons : mid ≠ []) (hcons' : mid' ≠ [])
    (c : Changed h h' (withNext as (firstAddr post 0))) (has : ∀ x ∈ as, Within mid x)
    (hmid : Linked h'.node (lastAddr 0 pre) mid' (firstAddr post 0))
    (hfirst : firstAddr post 0 ≠ 0 → h'.node (firstAddr post 0) =
      { h.node (firstAddr post 0) with prev := lastAddr (lastAddr 0 pre) mid' })
    (haddr : firstAddr mid' 0 = firstAddr mid 0)
    (hord : mid'.Pairwise fun b c => b.1 + headerSize + b.2.size ≤ c.1)
    (hlo : ∀ c ∈ mid', ∃ b ∈ mid, b.1 ≤ c.1)
    (hhi : ∀ c ∈ mid', ∃ b ∈ mid, c.1 + headerSize + c.2.size ≤ b.1 + headerSize + b.2.size)
    (haligned : ∀ c ∈ mid', alignment ∣ c.1 ∧ alignment ∣ c.2.size) :
    Layout h' (pre ++ mid' ++ post) ∧ ∀ b ∈ pre ++ post, Kept h h' b := by
  obtain ⟨hpre, hpost, hkept⟩ := l.frame c has
  have hlinked := l.linked
  simp only [linked_append] at hlinked
  have hsame : ∀ q, firstAddr mid' q = firstAddr mid q := fun q => by
    cases mid with
    | nil => exact absurd rfl hcons
    | cons b rest =>
      cases mid' with
      | nil => exact absurd rfl hcons'
      | cons b' rest' => exact haddr
  refine ⟨⟨?_, ?_, ordered_replace l.ordered hord hlo hhi, fun b hb => ?_, by simp [hcons'],
    c.mappedEnd ▸ l.mappedEnd, c.mappedEnd ▸ l.page⟩, hkept⟩
  · rw [c.firstBlock, l.first]
    simp [hsame]
  · simp only [linked_append, lastAddr_append]
    refine ⟨⟨?_, hmid⟩, hlinked.2.relink (fun b hb => ?_) hpost⟩
    · rw [hsame]
      exact hlinked.1.1.congr hpre
    · cases post with
      | nil => cases hb
      | cons d rest =>
        cases hb
        exact hfirst (l.addr_ne_zero (by simp))
  · rw [c.mappedEnd]
    simp only [List.mem_append] at hb
    rcases hb with (hb | hb) | hb
    · exact l.bounds b (by simp [hb])
    · obtain ⟨x, hx, hxle⟩ := hlo b hb
      obtain ⟨y, hy, hyle⟩ := hhi b hb
      have hxb := l.bounds x (by simp [hx])
      have hyb := l.bounds y (by simp [hy])
      exact ⟨hxb.start.trans hxle, hyle.trans hyb.finish, (haligned b hb).1, (haligned b hb).2⟩
    · exact l.bounds b (by simp [hb])

end Replace

/-! ### The operations -/

theorem next_lt : (h.node a).next < 2 ^ 64 := by
  have := readLE_lt (n := 8) (m := h.mem) (a := a + 16)
  exact this

theorem split_nodes (hnode : h.node a = ⟨blk, q, p⟩)
    (hfit : size + headerSize + alignment ≤ blk.size) (hlt : a + headerSize + blk.size < 2 ^ 64)
    (hq : q = 0 ∨ a + headerSize + blk.size ≤ q) :
    (h.split a size).node a = ⟨⟨size, blk.free⟩, a + headerSize + size, p⟩ ∧
      (h.split a size).node (a + headerSize + size) =
        ⟨⟨blk.size - size - headerSize, true⟩, q, a⟩ ∧
      (q ≠ 0 → (h.split a size).node q = { h.node q with prev := a + headerSize + size }) ∧
      Changed h (h.split a size) (withNext [a + headerSize + size, a] q) := by
  set n := a + headerSize + size with hn
  have hq64 : q < 2 ^ 64 := by
    have := next_lt (h := h) (a := a)
    rwa [hnode] at this
  have hwrap : wrap n = n := wrap_of_lt (by omega)
  have hrest : wrapSub (wrapSub blk.size size) headerSize = blk.size - size - headerSize := by
    have hinner : wrapSub blk.size size = blk.size - size := wrapSub_of_le (by omega) (by omega)
    rw [hinner, wrapSub_of_le (by omega) (by omega)]
  have hna : HeadersApart n a := .inr (by omega)
  have han : HeadersApart a n := .inl (by omega)
  -- the new block is written first; the old header is still as it was
  set h₁ := (((h.setSize n (blk.size - size - headerSize)).setFree n true).setNext n q).setPrev n a
    with hh₁
  have c₁ : Changed h h₁ [n] :=
    ((Changed.setSize.trans .setFree).trans .setNext).trans .setPrev |>.mono (by simp)
  have hnode₁ : h₁.node n = ⟨⟨blk.size - size - headerSize, true⟩, q, a⟩ := by
    rw [hh₁, node_setPrev (by omega), node_setNext hq64, node_setFree, node_setSize (by omega)]
  have hsplit : h.split a size =
      ((if q ≠ 0 then h₁.setPrev q n else h₁).setNext a n).setSize a size := by
    have hnext : h₁.next a = q := by
      rw [next_eq_node, c₁.node_eq (by simpa using hna), hnode]
    have hold : ((h.setSize n (blk.size - size - headerSize)).setFree n true).next a = q := by
      rw [next_eq_node, node_setFree_of_apart hna, node_setSize_of_apart hna, hnode]
    simp only [split, ← hn, hwrap, size_eq_node, hnode, hrest, hold, ← hh₁, hnext]
  have hqn : q ≠ 0 → HeadersApart q n ∧ HeadersApart n q ∧ HeadersApart q a ∧ HeadersApart a q :=
    fun h0 => by
      have := hq.resolve_left h0
      exact ⟨.inr (by omega), .inl (by omega), .inr (by omega), .inl (by omega)⟩
  rw [hsplit]
  refine ⟨?_, ?_, fun h0 => ?_, ?_⟩
  · rw [node_setSize (by omega), node_setNext (by omega)]
    split_ifs with h0
    · rw [node_setPrev_of_apart (hqn h0).2.2.1, c₁.node_eq (by simpa using hna), hnode]
    · rw [c₁.node_eq (by simpa using hna), hnode]
  · rw [node_setSize_of_apart han, node_setNext_of_apart han]
    split_ifs with h0
    · rw [node_setPrev_of_apart (hqn h0).1, hnode₁]
    · rw [hnode₁]
  · obtain ⟨-, hnq, -, haq⟩ := hqn h0
    rw [node_setSize_of_apart haq, node_setNext_of_apart haq, if_pos h0, node_setPrev (by omega),
      c₁.node_eq (by simpa using hnq)]
  · by_cases h0 : q = 0
    · rw [withNext, if_pos h0, if_neg (not_not.mpr h0)]
      have c := (c₁.trans (Changed.setNext (a := a) (v := n))).trans
        (Changed.setSize (a := a) (v := size))
      exact c.mono (by simp)
    · rw [withNext, if_neg h0, if_pos h0]
      have c := ((c₁.trans (Changed.setPrev (a := q) (v := n))).trans
        (Changed.setNext (a := a) (v := n))).trans (Changed.setSize (a := a) (v := size))
      exact c.mono (by simp)

theorem Kept.trans {b : Nat × Block} (k : Kept h h' b) (k' : Kept h' h'' b) : Kept h h'' b :=
  fun x hlo hhi => (k' x hlo hhi).trans (k x hlo hhi)

theorem Layout.setFree {v : Bool} (l : Layout h (pre ++ [(a, blk)] ++ post)) :
    Layout (h.setFree a v) (pre ++ [(a, { blk with free := v })] ++ post) ∧
      ∀ b ∈ pre ++ post, Kept h (h.setFree a v) b := by
  obtain ⟨hnode, hnext⟩ := l.around
  have hbound := l.bounds (a, blk) (by simp)
  have c : Changed h (h.setFree a v) (withNext [a] (firstAddr post 0)) :=
    Changed.setFree.mono (by unfold withNext; split_ifs <;> simp)
  refine l.replace (by simp) (by simp) c (by simp [Within]) ?_ (fun h0 => ?_) rfl (by simp)
    (by simp) (by simp) (by simp [hbound.addr, hbound.size])
  · simp [node_setFree, hnode]
  · obtain ⟨hle, hprev⟩ := hnext.resolve_left h0
    rw [node_setFree_of_apart (.inl (by omega))]
    simp only [lastAddr_cons, lastAddr_nil, ← hprev]

theorem Layout.split (l : Layout h (pre ++ [(a, blk)] ++ post))
    (hfit : size + headerSize + alignment ≤ blk.size) (hsize : alignment ∣ size) :
    Layout (h.split a size) (pre ++ [(a, ⟨size, blk.free⟩),
        (a + headerSize + size, ⟨blk.size - size - headerSize, true⟩)] ++ post) ∧
      ∀ b ∈ pre ++ post, Kept h (h.split a size) b := by
  obtain ⟨hnode, hnext⟩ := l.around
  have hbound := l.bounds (a, blk) (by simp)
  obtain ⟨hna, hnn, hnq, c⟩ := split_nodes hnode hfit (hbound.addr_lt l.mappedEnd)
    (hnext.imp_right And.left)
  refine l.replace (by simp) (by simp) c ?_ ?_ (fun h0 => ?_) rfl (by simp) ?_ ?_ ?_
  · have hnew : Within [(a, blk)] (a + headerSize + size) :=
      within_singleton.mpr ⟨by omega, by omega⟩
    have hold : Within [(a, blk)] a := within_singleton.mpr ⟨le_rfl, by omega⟩
    simp [hnew, hold]
  · simp [hna, hnn]
  · simp [hnq h0]
  · simp
    omega
  · simp
    omega
  · have h16 := hbound.addr
    have h16' := hbound.size
    simp only [alignment, headerSize, List.forall_mem_cons] at *
    exact ⟨⟨h16, hsize⟩, ⟨by omega, by omega⟩, by simp⟩

/-- What a request of `size` bytes makes of a free block. -/
def carve (a : Nat) (blk : Block) (size : Nat) : List (Nat × Block) :=
  if size + headerSize + alignment ≤ blk.size then
    [(a, ⟨size, false⟩), (a + headerSize + size, ⟨blk.size - size - headerSize, true⟩)]
  else [(a, ⟨blk.size, false⟩)]

theorem spanned_carve (a : Nat) :
    spanned (carve a blk size) = headerSize + blk.size := by
  unfold carve
  split_ifs with hroom
  · simp only [spanned_cons, spanned_nil]
    omega
  · simp

/-- Only the first part of a carved block is in use. -/
theorem addr_of_mem_carve {b : Nat × Block} (hb : b ∈ carve a blk size) (hused : b.2.free = false) :
    b.1 = a := by
  unfold carve at hb
  split_ifs at hb
  · rcases List.mem_cons.mp hb with rfl | hb
    · rfl
    · obtain rfl := List.mem_singleton.mp hb
      simp at hused
  · rw [List.mem_singleton.mp hb]

/-- Giving a free block to a request. -/
theorem Layout.take (l : Layout h (pre ++ [(a, blk)] ++ post)) (hfit : size ≤ blk.size)
    (hsize : alignment ∣ size) :
    Layout (h.take a size) (pre ++ carve a blk size ++ post) ∧
      ∀ b ∈ pre ++ post, Kept h (h.take a size) b := by
  have hnode := l.around.1
  have hbound := l.bounds (a, blk) (by simp)
  have hwrap : wrap (size + headerSize + alignment) = size + headerSize + alignment := by
    have hstart := hbound.start
    have hlt := hbound.addr_lt l.mappedEnd
    refine wrap_of_lt ?_
    simp only [heapStart, headerSize, alignment] at *
    omega
  unfold Heap.take carve
  rw [hwrap, size_eq_node, hnode]
  split_ifs with hroom
  · obtain ⟨lsplit, hkept⟩ := l.split hroom hsize
    have l' : Layout (h.split a size) (pre ++ [(a, ⟨size, blk.free⟩)] ++
        ((a + headerSize + size, ⟨blk.size - size - headerSize, true⟩) :: post)) := by
      simpa using lsplit
    obtain ⟨lfree, hkept'⟩ := l'.setFree (v := false)
    refine ⟨by simpa using lfree, fun b hb => (hkept b hb).trans (hkept' b ?_)⟩
    rcases List.mem_append.mp hb with hb | hb <;> simp [hb]
  · exact l.setFree

/-! ### Merging -/

theorem absorb_nodes {c : Nat} {d : Block} (hnode : h.node a = ⟨blk, c, p⟩)
    (hright : h.node c = ⟨d, q, a⟩) (hac : a + headerSize ≤ c)
    (hlt : blk.size + (headerSize + d.size) < 2 ^ 64) (ha : a < 2 ^ 64)
    (hq : q = 0 ∨ c + headerSize ≤ q) :
    (h.absorb a c).node a = ⟨⟨blk.size + (headerSize + d.size), blk.free⟩, q, p⟩ ∧
      (q ≠ 0 → (h.absorb a c).node q = { h.node q with prev := a }) ∧
      Changed h (h.absorb a c) (withNext [a] q) := by
  have hq64 : q < 2 ^ 64 := by
    have := next_lt (h := h) (a := c)
    rwa [hright] at this
  have hwrap : wrap (blk.size + (headerSize + d.size)) = blk.size + (headerSize + d.size) :=
    wrap_of_lt (by omega)
  have hapart : HeadersApart a c := .inl hac
  set h₁ := (h.setSize a (blk.size + (headerSize + d.size))).setNext a q with hh₁
  have habsorb : h.absorb a c = if q ≠ 0 then h₁.setPrev q a else h₁ := by
    have hnext : (h.setSize a (blk.size + (headerSize + d.size))).next c = q := by
      rw [next_eq_node, node_setSize_of_apart hapart, hright]
    have hnext₁ : h₁.next c = q := by
      rw [next_eq_node, hh₁, node_setNext_of_apart hapart, node_setSize_of_apart hapart, hright]
    simp only [absorb, size_eq_node, hnode, hright, hwrap, hnext, ← hh₁, hnext₁]
  have hnode₁ : h₁.node a = ⟨⟨blk.size + (headerSize + d.size), blk.free⟩, q, p⟩ := by
    rw [hh₁, node_setNext hq64, node_setSize (by omega), hnode]
  have c₁ : Changed h h₁ [a] :=
    (Changed.setSize.trans (Changed.setNext (a := a) (v := q))).mono (by simp)
  rw [habsorb]
  refine ⟨?_, fun h0 => ?_, ?_⟩
  · split_ifs with h0
    · have := hq.resolve_left h0
      rw [node_setPrev_of_apart (.inr (by omega)), hnode₁]
    · exact hnode₁
  · have := hq.resolve_left h0
    rw [if_pos h0, node_setPrev ha, c₁.node_eq (by simpa using .inl (by omega))]
  · by_cases h0 : q = 0
    · rw [withNext, if_pos h0, if_neg (not_not.mpr h0)]
      exact c₁
    · rw [withNext, if_neg h0, if_pos h0]
      exact (c₁.trans (Changed.setPrev (a := q) (v := a))).mono (by simp)

/-- A block swallows the one after it, with the gap between them lost. -/
theorem Layout.absorb {c : Nat} {d : Block} (l : Layout h (pre ++ [(a, blk), (c, d)] ++ post)) :
    Layout (h.absorb a c) (pre ++ [(a, ⟨blk.size + (headerSize + d.size), blk.free⟩)] ++ post) ∧
      ∀ b ∈ pre ++ post, Kept h (h.absorb a c) b := by
  have la : Layout h (pre ++ [(a, blk)] ++ ((c, d) :: post)) := by simpa using l
  have lc : Layout h (pre ++ [(a, blk)] ++ [(c, d)] ++ post) := by simpa using l
  obtain ⟨hnode, hnext⟩ := la.around
  obtain ⟨hright, hnext'⟩ := lc.around
  have hba := l.bounds (a, blk) (by simp)
  have hbc := l.bounds (c, d) (by simp)
  have hac : a + headerSize + blk.size ≤ c := (hnext.resolve_left hbc.addr_ne_zero).1
  have hlt : c + headerSize + d.size < 2 ^ 64 := hbc.addr_lt l.mappedEnd
  simp only [lastAddr_append, lastAddr_cons, lastAddr_nil, firstAddr_cons] at hnode hright
  obtain ⟨hna, hnq, ch⟩ := absorb_nodes hnode hright (by omega) (by omega) (by omega)
    (hnext'.imp_right fun hle => by omega)
  refine l.replace (by simp) (by simp) ch ?_ ?_ (fun h0 => ?_) rfl (by simp) ?_ ?_ ?_
  · have hleft : Within [(a, blk), (c, d)] a :=
      ⟨⟨(a, blk), by simp, le_rfl⟩, (a, blk), by simp, by dsimp only; omega⟩
    simp [hleft]
  · simp [hna]
  · simp [hnq h0]
  · simp
  · simp
    omega
  · have h16 := hba.addr
    have h16' := hba.size
    have h16'' := hbc.size
    simp only [alignment, headerSize, List.forall_mem_singleton] at *
    exact ⟨h16, by omega⟩

end Heap

end WengShiOS.Mm
