import WengShiOS.Mm.HeapFailure
import WengShiOS.Mm.HeapLive
import WengShiOS.Scheduler.RoundRobin

/-! # Creating a task

`createTask` of `src/shed/scheduler.cpp` with the allocations it makes: three calls of
`kmalloc`, all made before the first result is looked at, and an address space. The
scheduler is given their results. What a new task's memory is filled with is left out,
since a call that fails fills nothing.

A call that fails gives nothing back. It leaves no trace only if no call of `kmalloc` had
one, that is, if the first two were denied before they took a block or a frame. -/

namespace WengShiOS.Scheduler

open Mm KernelHeap Heap

/-- The scheduler and the memory its tasks are made of. -/
structure Spawner where
  sched : Sched
  memory : KernelHeap

/-- `sizeof(Task)`. -/
def taskSize : Nat := 80

namespace Spawner

def createTask (w : Spawner) (stackSize : Nat) : Option (Option Nat × Spawner) :=
  (w.memory.kmalloc taskSize).bind fun (task, k) =>
  (k.kmalloc stackSize).bind fun (stack, k) =>
  (k.kmalloc stackSize).bind fun (kstack, k) =>
  if task = 0 ∨ stack = 0 ∨ kstack = 0 then some (none, { w with memory := k })
  else
    k.machine.createAddressSpace.map fun (newPlm4, machine) =>
      let (sched, result) := w.sched.createTask ⟨true, stack, kstack, newPlm4⟩ stackSize
      (result, ⟨sched, { k with machine }⟩)

/-- The ring and its globals, the live allocations and the frames are as before. -/
structure NoEffect (w w' : Spawner) : Prop where
  sched : w'.sched = w.sched
  live : w'.memory.heap.liveBlocks = w.memory.heap.liveBlocks
  frames : w'.memory.machine.pmm.freeSet = w.memory.machine.pmm.freeSet
  usedFrames : w'.memory.usedFrames = w.memory.usedFrames

variable {w w' : Spawner} {k k' k'' : KernelHeap} {blocks blocks' blocks'' : List (Nat × Block)}
  {request ptr stackSize : Nat}

theorem NoEffect.refl (w : Spawner) : NoEffect w w := ⟨rfl, rfl, rfl, rfl⟩

/-! ### What an allocation leaves behind -/

/-- Nothing that was allocated in `k` is gone in `k'`. -/
structure Extends (k k' : KernelHeap) (blocks blocks' : List (Nat × Block)) : Prop where
  live : Heap.usedBlocks blocks ⊆ Heap.usedBlocks blocks'
  usedFrames : k.usedFrames ≤ k'.usedFrames

/-- A block or a frame was allocated in between. -/
def Grows (k k' : KernelHeap) (blocks blocks' : List (Nat × Block)) : Prop :=
  (∃ x ∈ Heap.usedBlocks blocks', x ∉ Heap.usedBlocks blocks) ∨ k.usedFrames < k'.usedFrames

theorem Extends.trans (h : Extends k k' blocks blocks') (h' : Extends k' k'' blocks' blocks'') :
    Extends k k'' blocks blocks'' where
  live := List.Subset.trans h.live h'.live
  usedFrames := h.usedFrames.trans h'.usedFrames

/-- What was taken is still taken later. -/
theorem Grows.extends (h : Grows k k' blocks blocks') (h' : Extends k' k'' blocks' blocks'') :
    Grows k k'' blocks blocks'' := by
  rcases h with ⟨x, hx, hnew⟩ | hlt
  · exact .inl ⟨x, h'.live hx, hnew⟩
  · exact .inr (hlt.trans_le h'.usedFrames)

/-- A call of `kmalloc` was denied, or it leaves something behind; whatever it returns. -/
theorem kmalloc_grows (l : k.heap.Layout blocks) (hco : Coalesced blocks)
    (hsize : request ≤ heapMaxSize) (h : k.kmalloc request = some (ptr, k')) :
    ∃ blocks', k'.heap.Layout blocks' ∧ Coalesced blocks' ∧ Extends k k' blocks blocks' ∧
      (ptr = 0 ∧ k' = k ∧ k.Denied request ∨ Grows k k' blocks blocks') := by
  obtain ⟨blocks', l', hco', hkeep, hcases⟩ := kmalloc_spec l hco hsize h
  have hext : Extends k k' blocks blocks' :=
    ⟨hkeep.usedBlocks_subset, kmallocLoop_usedFrames_le h⟩
  refine ⟨blocks', l', hco', hext, ?_⟩
  rcases hcases with ⟨rfl, -⟩ | ⟨halloc, -⟩
  · rcases kmallocLoop_null_cases l le_rfl h with ⟨rfl, hdenied⟩ | ⟨-, -, -, hlt⟩
    · exact .inl ⟨rfl, rfl, hdenied⟩
    · exact .inr (.inr hlt)
  · exact .inr (.inl halloc.exists_usedBlocks)

/-! ### A call that fails -/

/-- All three allocations are made before one is looked at, and none is undone. -/
theorem createTask_allocates {result : Option Nat}
    (h : w.createTask stackSize = some (result, w')) :
    ∃ task stack kstack k₁ k₂ k₃, w.memory.kmalloc taskSize = some (task, k₁) ∧
      k₁.kmalloc stackSize = some (stack, k₂) ∧ k₂.kmalloc stackSize = some (kstack, k₃) ∧
      w'.memory.heap = k₃.heap ∧ k₃.usedFrames ≤ w'.memory.usedFrames := by
  obtain ⟨⟨task, k₁⟩, htask, h⟩ := Option.bind_eq_some_iff.mp h
  obtain ⟨⟨stack, k₂⟩, hstack, h⟩ := Option.bind_eq_some_iff.mp h
  obtain ⟨⟨kstack, k₃⟩, hkstack, h⟩ := Option.bind_eq_some_iff.mp h
  dsimp only at h
  refine ⟨task, stack, kstack, k₁, k₂, k₃, htask, hstack, hkstack, ?_⟩
  split_ifs at h
  · obtain ⟨-, rfl⟩ := Prod.mk.inj (Option.some.inj h)
    exact ⟨rfl, le_rfl⟩
  · obtain ⟨⟨newPlm4, machine⟩, hspace, h⟩ := Option.map_eq_some_iff.mp h
    obtain ⟨-, rfl⟩ := Prod.mk.inj h
    exact ⟨rfl, Machine.createAddressSpace_usedFrames_le hspace⟩

/-- If a record and a stack are denied, all three calls return null. -/
theorem createTask_denied (l : w.memory.heap.Layout blocks) (htask : w.memory.Denied taskSize)
    (hstack : w.memory.Denied stackSize) : w.createTask stackSize = some (none, w) := by
  simp only [createTask, htask.kmalloc l, hstack.kmalloc l, Option.bind_some, true_or, if_true]

/-- **A failed `createTask`.** It has no effect if neither the record nor a stack could be had,
and for stacks up to the size of the heap only then: the three results are checked together,
and nothing is freed. -/
theorem createTask_noEffect (l : w.memory.heap.Layout blocks) (hco : Heap.Coalesced blocks)
    (h : w.createTask stackSize = some (none, w')) :
    (w.memory.Denied taskSize ∧ w.memory.Denied stackSize → NoEffect w w') ∧
      (stackSize ≤ heapMaxSize → NoEffect w w' →
        w.memory.Denied taskSize ∧ w.memory.Denied stackSize) := by
  constructor
  · rintro ⟨hdenied, hdenied'⟩
    have hcall := createTask_denied l hdenied hdenied'
    obtain ⟨-, rfl⟩ := Prod.mk.inj (Option.some.inj (hcall.symm.trans h))
    exact .refl w
  · intro hsize same
    obtain ⟨task, stack, kstack, k₁, k₂, k₃, htask, hstack, hkstack, hheap, hspace⟩ :=
      createTask_allocates h
    obtain ⟨blocks₁, l₁, hco₁, hext₁, hcase₁⟩ := kmalloc_grows l hco (by decide) htask
    obtain ⟨blocks₂, l₂, hco₂, hext₂, hcase₂⟩ := kmalloc_grows l₁ hco₁ hsize hstack
    obtain ⟨blocks₃, l₃, -, hext₃, -⟩ := kmalloc_grows l₂ hco₂ hsize hkstack
    have hsameBlocks : usedBlocks blocks₃ = usedBlocks blocks := by
      have hlive := same.live
      rw [hheap, l₃.liveBlocks_eq, l.liveBlocks_eq] at hlive
      exact Option.some.inj hlive
    -- so nothing was taken between the start and the last allocation
    have hnone : ¬ Grows w.memory k₃ blocks blocks₃ := by
      rintro (⟨x, hx, hnew⟩ | hlt)
      · exact hnew (hsameBlocks ▸ hx)
      · have := same.usedFrames
        omega
    obtain ⟨-, rfl, hdenied⟩ := hcase₁.resolve_right fun hg =>
      hnone (hg.extends (hext₂.trans hext₃))
    have hused₁ : usedBlocks blocks₁ = usedBlocks blocks :=
      Option.some.inj (l₁.liveBlocks_eq.symm.trans l.liveBlocks_eq)
    obtain ⟨-, -, hdenied'⟩ := hcase₂.resolve_right fun hg => by
      rw [Grows, hused₁] at hg
      exact hnone (Grows.extends hg hext₃)
    exact ⟨hdenied, hdenied'⟩

/-- One task on a machine without a free frame, and a heap that is one free block. -/
def framelessSpawner : Spawner := ⟨Sched.ringOf [.running], KernelHeap.fullHeap⟩

/-- The heap is one block in use: neither a record nor a stack can be had. -/
theorem createTask_noEffect_exhausted : ∃ (w w' : Spawner) (blocks : List (Nat × Block)),
    w.memory.heap.Layout blocks ∧ w.createTask 16384 = some (none, w') ∧ NoEffect w w' := by
  have hrun : (framelessSpawner.memory.kmalloc 65504).map (fun r =>
      (decide (r.2.machine.pmm.freeSet = ∅),
        r.2.heap.findFit (alignUp taskSize alignment) loopBound r.2.heap.firstBlock,
        r.2.heap.findFit (alignUp 16384 alignment) loopBound r.2.heap.firstBlock)) =
      some (true, some 0, some 0) := by decide +kernel
  obtain ⟨⟨ptr, k⟩, hk, heq⟩ := Option.map_eq_some_iff.mp hrun
  obtain ⟨hfree, hfit, hfit'⟩ : k.machine.pmm.freeSet = ∅ ∧ _ ∧ _ := by simpa using heq
  obtain ⟨blocks, l, hco, -⟩ := kmalloc_spec bootHeap_layout
    (List.isChain_singleton _) (by decide) hk
  have htask : k.Denied taskSize := .inr ⟨hfit, .inr ⟨hfree, by decide⟩⟩
  have hstack : k.Denied 16384 := .inr ⟨hfit', .inr ⟨hfree, by decide⟩⟩
  have hcall := createTask_denied (w := ⟨Sched.ringOf [.running], k⟩) l htask hstack
  exact ⟨_, _, blocks, l, hcall, (createTask_noEffect l hco hcall).1 ⟨htask, hstack⟩⟩

/-- The three blocks can be had, but no frame for the address space. -/
theorem not_createTask_noEffect : ∃ (w w' : Spawner) (blocks : List (Nat × Block)),
    w.memory.heap.Layout blocks ∧ Heap.Coalesced blocks ∧
      w.createTask 16384 = some (none, w') ∧ ¬ NoEffect w w' := by
  have hrun : (framelessSpawner.createTask 16384).map
      (fun r => (r.1, r.2.memory.heap.liveBlocks.map List.length)) = some (none, some 3) := by
    decide +kernel
  obtain ⟨⟨result, w'⟩, hcall, heq⟩ := Option.map_eq_some_iff.mp hrun
  obtain ⟨rfl, hlive⟩ := Prod.mk.inj heq
  refine ⟨framelessSpawner, w', _, bootHeap_layout, List.isChain_singleton _, hcall,
    fun same => ?_⟩
  have hbefore : framelessSpawner.memory.heap.liveBlocks = some [] :=
    bootHeap_layout.liveBlocks_eq
  rw [same.live, hbefore] at hlive
  simp at hlive

end Spawner

end WengShiOS.Scheduler
