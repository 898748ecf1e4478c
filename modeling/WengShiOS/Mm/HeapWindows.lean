import WengShiOS.Drivers.Ahci
import WengShiOS.Mm.AddressSpace
import WengShiOS.Mm.HeapSafety

/-! # The heap and the device windows

The heap, the AHCI driver and `createAddressSpace` divide the last GiB of the address
space among themselves, each with constants of its own. `growHeap` may map pages up to
64 MiB above `HEAP_START`, but the registers of the controller are mapped at 16 MiB.

The pages that `growHeap` maps are logged beside the heap: one list for each call, and
the list of a whole run. The log of a run is the range from `HEAP_START` to the mapped
end, so a window is lost exactly when that range reaches the first of them. -/

namespace WengShiOS.Drivers

open Mm

def abarVirtAddr : Nat := 0xFFFFFFFFC1000000

def portBufferVirtBase : Nat := 0xFFFFFFFFC2000000

def cmdtableVirtBase : Nat := 0xFFFFFFFFC3000000

def identifyBufVirtBase : Nat := 0xFFFFFFFFC4000000

/-- The pages that belong to the AHCI driver and the page that `createAddressSpace`
borrows. -/
inductive DeviceWindow : Nat → Prop
  | abar {page : Nat} : page < 2 → DeviceWindow (abarVirtAddr + page * pageSize)
  | portBuffer {port : Nat} : port < maxPorts → DeviceWindow (portBufferVirtBase + port * pageSize)
  | cmdtable {port : Nat} : port < maxPorts → DeviceWindow (cmdtableVirtBase + port * pageSize)
  | identifyBuf {port : Nat} :
      port < maxPorts → DeviceWindow (identifyBufVirtBase + port * pageSize)
  | ioBuf {port : Nat} : port < maxPorts → DeviceWindow (ioBufVirtBase + port * pageSize)
  | scratch : DeviceWindow scratchVirt

theorem DeviceWindow.registers : DeviceWindow abarVirtAddr := by
  simpa using DeviceWindow.abar (by decide : 0 < 2)

/-- The registers are the lowest window. -/
theorem DeviceWindow.abar_le {w : Nat} (hw : DeviceWindow w) : abarVirtAddr ≤ w := by
  cases hw <;>
    simp only [abarVirtAddr, portBufferVirtBase, cmdtableVirtBase, identifyBufVirtBase,
      ioBufVirtBase, scratchVirt] <;> omega

end WengShiOS.Drivers

namespace WengShiOS.Mm

open Math Drivers

/-! ### The pages of one call -/

/-- A log that holds the pages from `m` up to `n`. -/
structure Logged (m n : Nat) (log : List Nat) : Prop where
  le : m ≤ n
  mem : ∀ page, page ∈ log ↔ m ≤ page ∧ page < n ∧ pageSize ∣ page

namespace Logged

variable {m n k : Nat} {log log' : List Nat}

theorem nil (m : Nat) : Logged m m [] where
  le := le_rfl
  mem page := by
    simp only [List.not_mem_nil, false_iff]
    omega

theorem single (hpage : pageSize ∣ m) : Logged m (m + pageSize) [m] where
  le := Nat.le_add_right ..
  mem page := by
    rw [List.mem_singleton]
    simp only [pageSize] at *
    omega

theorem append (hlog : Logged m n log) (hlog' : Logged n k log') : Logged m k (log ++ log') where
  le := hlog.le.trans hlog'.le
  mem page := by
    have hle := hlog.le
    have hle' := hlog'.le
    rw [List.mem_append, hlog.mem, hlog'.mem]
    constructor
    · rintro (⟨hlo, hhi, hdvd⟩ | ⟨hlo, hhi, hdvd⟩)
      · exact ⟨hlo, by omega, hdvd⟩
      · exact ⟨by omega, hhi, hdvd⟩
    · rintro ⟨hlo, hhi, hdvd⟩
      rcases Nat.lt_or_ge page n with hn | hn
      · exact .inl ⟨hlo, hn, hdvd⟩
      · exact .inr ⟨hn, hhi, hdvd⟩

end Logged

namespace Heap

variable {h h' : Heap} {n fuel request ptr : Nat} (mapped : Nat → Bool)

/-- The pages that the loop of `growHeap` maps. -/
def mapPagesLog : Nat → Heap → List Nat
  | 0, _ => []
  | pages + 1, h =>
    if mapped h.mappedEnd then
      h.mappedEnd :: mapPagesLog pages { h with mappedEnd := wrap (h.mappedEnd + pageSize) }
    else []

/-- The pages that `growHeap` maps. -/
def growHeapLog (h : Heap) (minBytes : Nat) : List Nat :=
  let bytesNeeded := alignUp minBytes pageSize
  if heapStart + heapMaxSize < wrap (h.mappedEnd + bytesNeeded) then []
  else mapPagesLog mapped (bytesNeeded / pageSize) h

/-- The pages that `kmalloc` maps, those of its recursive call included. -/
def kmallocLog : Nat → Heap → Nat → List Nat
  | 0, _, _ => []
  | fuel + 1, h, request =>
    if request = 0 then []
    else
      let size := alignUp request alignment
      if h.findFit size fuel h.firstBlock = some 0 then
        growHeapLog mapped h (growAmount size) ++
          match h.growHeap mapped (growAmount size) with
          | (false, _) => []
          | (true, grown) =>
            ((grown.addBlock h.mappedEnd fuel).map fun grown => kmallocLog fuel grown size).getD []
      else []

/-- A search that finds nothing makes the heap grow. -/
theorem mem_kmallocLog_of_growHeap {page : Nat} (h0 : request ≠ 0)
    (hnull : h.findFit (alignUp request alignment) fuel h.firstBlock = some 0)
    (hpage : page ∈ growHeapLog mapped h (growAmount (alignUp request alignment))) :
    page ∈ kmallocLog mapped (fuel + 1) h request := by
  simp only [kmallocLog, if_neg h0, if_pos hnull]
  exact List.mem_append_left _ hpage

theorem mapPages_logged (pages : Nat) (hpage : pageSize ∣ h.mappedEnd)
    (hle : h.mappedEnd + pages * pageSize ≤ heapStart + heapMaxSize) :
    Logged h.mappedEnd (mapPages mapped pages h).2.mappedEnd (mapPagesLog mapped pages h) := by
  induction pages generalizing h with
  | zero => exact .nil _
  | succ pages ih =>
    rw [mapPagesLog, mapPages, wrap_nextPage hle]
    split_ifs with hmapped
    · -- the first page, then those of the remaining iterations
      refine (Logged.single hpage).append
        (ih (h := { h with mappedEnd := h.mappedEnd + pageSize }) ?_ ?_)
      · exact (Nat.dvd_add_right hpage).mpr dvd_rfl
      · rw [Nat.succ_mul] at hle
        change h.mappedEnd + pageSize + pages * pageSize ≤ _
        omega
    · exact .nil _

theorem growHeap_logged (hpage : pageSize ∣ h.mappedEnd)
    (hmax : h.mappedEnd ≤ heapStart + heapMaxSize) (hn : n ≤ 2 * heapMaxSize) :
    Logged h.mappedEnd (h.growHeap mapped n).2.mappedEnd (growHeapLog mapped h n) := by
  obtain ⟨hdvd, -, hwrap⟩ := alignUp_pages hmax hn
  simp only [growHeap, growHeapLog, hwrap]
  split_ifs with hroom
  · exact .nil _
  · refine mapPages_logged mapped _ hpage ?_
    rw [Nat.div_mul_cancel hdvd]
    omega

theorem mapPages_of_mapped (pages : Nat) : (mapPages (fun _ => true) pages h).1 = true := by
  induction pages generalizing h with
  | zero => rfl
  | succ pages ih => exact ih

/-- With room left and memory for every page, the heap grows. -/
theorem growHeap_of_mapped
    (hroom : ¬ heapStart + heapMaxSize < wrap (h.mappedEnd + alignUp n pageSize)) :
    (h.growHeap (fun _ => true) n).1 = true := by
  rw [growHeap, if_neg hroom]
  exact mapPages_of_mapped _

theorem kmallocLoop_logged (hpage : pageSize ∣ h.mappedEnd)
    (hmax : h.mappedEnd ≤ heapStart + heapMaxSize) (hreq : request ≤ heapMaxSize)
    (hrun : kmallocLoop mapped fuel h request = some (ptr, h')) :
    Logged h.mappedEnd h'.mappedEnd (kmallocLog mapped fuel h request) := by
  induction fuel generalizing h request with
  | zero => cases hrun
  | succ fuel ih =>
    by_cases h0 : request = 0
    · simp only [kmallocLoop, if_pos h0, Option.some.injEq, Prod.mk.injEq] at hrun
      simp only [kmallocLog, if_pos h0, ← hrun.2]
      exact .nil _
    obtain ⟨-, -, hsize, -⟩ := alignUp_alignment hreq
    by_cases hnull : h.findFit (alignUp request alignment) fuel h.firstBlock = some 0
    · have hgrow := growAmount_eq hsize
      obtain ⟨m, heq, -, hmax', hpage', -⟩ := growHeap_eq mapped hmax hpage hgrow.2
      have hlog := growHeap_logged mapped hpage hmax hgrow.2
      rw [kmallocLoop_of_findFit_null mapped h0 hnull] at hrun
      simp only [kmallocLog, if_neg h0, if_pos hnull]
      refine hlog.append ?_
      rcases hres : h.growHeap mapped (growAmount (alignUp request alignment)) with ⟨ok, grown⟩
      rw [hres] at hrun heq
      obtain rfl : grown = { h with mappedEnd := m } := heq
      cases ok with
      | false =>
        obtain ⟨-, rfl⟩ := Prod.mk.inj (Option.some.inj hrun)
        exact .nil _
      | true =>
        -- the recursive call starts where the growth ended
        obtain ⟨added, hadd, hrec⟩ := Option.bind_eq_some_iff.mp hrun
        have hend : added.mappedEnd = m := addBlock_mappedEnd hadd
        have hlog' := ih (hend ▸ hpage') (hend ▸ hmax') hsize hrec
        simp only [hadd, Option.map_some, Option.getD_some]
        rwa [hend] at hlog'
    · simp only [kmallocLoop, if_neg h0] at hrun
      simp only [kmallocLog, if_neg h0, if_neg hnull]
      obtain ⟨block, hfit, htake⟩ := Option.bind_eq_some_iff.mp hrun
      have hblock : block ≠ 0 := fun hzero => hnull (hzero ▸ hfit)
      rw [if_pos hblock] at htake
      obtain ⟨-, rfl⟩ := Prod.mk.inj (Option.some.inj htake)
      rw [take_mappedEnd]
      exact .nil _

theorem init_logged {mem : Bytes} (hinit : init ⟨mem, 0, heapStart, heapStart⟩ mapped = some h) :
    Logged heapStart h.mappedEnd
      (growHeapLog mapped ⟨mem, 0, heapStart, heapStart⟩ heapInitialSize) := by
  have hlog := growHeap_logged (h := ⟨mem, 0, heapStart, heapStart⟩) (n := heapInitialSize) mapped
    (by simp [pageSize, heapStart]) (by simp) (by simp [heapInitialSize, heapMaxSize])
  unfold init at hinit
  rcases hres : growHeap ⟨mem, 0, heapStart, heapStart⟩ mapped heapInitialSize with ⟨ok, grown⟩
  rw [hres] at hinit hlog
  cases ok with
  | false => cases hinit
  | true =>
    cases hinit
    exact hlog

end Heap

/-! ### The pages of a run -/

/-- The pages that a step maps. -/
def HeapState.mappedPages (s : HeapState) : HeapAction → List Nat
  | .kmalloc size mapped => Heap.kmallocLog mapped Heap.loopBound s.heap size
  | .kfree _ => []
  | .store _ _ => []

/-- The heap and all pages it has mapped since `Heap::init`. -/
structure HeapGrowth where
  state : HeapState
  pages : List Nat

namespace HeapGrowth

variable {s : HeapGrowth}

def next (s : HeapGrowth) (a : HeapAction) : Option HeapGrowth :=
  (s.state.next a).map fun t => ⟨t, s.pages ++ s.state.mappedPages a⟩

/-- The runs of the heap, with the pages they map. -/
def system : System HeapGrowth HeapAction :=
  .ofNext next fun s =>
    s.state.live = [] ∧ ∃ (mem : Bytes) (mapped : Nat → Bool),
      Heap.init ⟨mem, 0, heapStart, heapStart⟩ mapped = some s.state.heap ∧
        s.pages = Heap.growHeapLog mapped ⟨mem, 0, heapStart, heapStart⟩ heapInitialSize

/-- The log watches the heap, it does not change what it does. -/
theorem reachable_state (h : system.Reachable s) : heapSystem.Reachable s.state := by
  refine h.invariant (fun s => heapSystem.Reachable s.state) ?_ ?_
  · rintro s ⟨hlive, mem, mapped, hinit, -⟩
    exact .init ⟨hlive, mem, mapped, hinit⟩
  · intro s a s' hs hstep
    obtain ⟨t, ht, rfl⟩ := Option.map_eq_some_iff.mp hstep
    exact .step hs ht

theorem logged_next {s' : HeapGrowth} {a : HeapAction} {blocks : List (Nat × Block)}
    (inv : s.state.Inv blocks) (hlog : Logged heapStart s.state.heap.mappedEnd s.pages)
    (hstep : s.next a = some s') :
    Logged heapStart s'.state.heap.mappedEnd s'.pages := by
  obtain ⟨t, ht, rfl⟩ := Option.map_eq_some_iff.mp hstep
  refine hlog.append ?_
  cases a with
  | kmalloc size mapped =>
    simp only [HeapState.next] at ht
    split_ifs at ht with hsize
    obtain ⟨⟨ptr, heap⟩, hrun, rfl⟩ := Option.map_eq_some_iff.mp ht
    exact Heap.kmallocLoop_logged mapped inv.layout.page inv.layout.mappedEnd hsize hrun
  | kfree ptr =>
    simp only [HeapState.next] at ht
    split_ifs at ht
    cases ht
    rw [Heap.kfree_mappedEnd]
    exact .nil _
  | store addr value =>
    simp only [HeapState.next] at ht
    split_ifs at ht
    cases ht
    exact .nil _

/-- A run has mapped the pages from `HEAP_START` to the mapped end, and no others. -/
theorem logged (h : system.Reachable s) :
    Logged heapStart s.state.heap.mappedEnd s.pages := by
  induction h with
  | init hs =>
    obtain ⟨-, mem, mapped, hinit, hpages⟩ := hs
    rw [hpages]
    exact Heap.init_logged mapped hinit
  | step hs hstep ih =>
    obtain ⟨blocks, inv⟩ := HeapState.inv_of_reachable (reachable_state hs)
    exact logged_next inv ih hstep

/-- **The heap and the device windows.** After any run of `kmalloc` and `kfree`, the
pages the heap has mapped avoid every device window exactly as long as the mapped end
has not passed the registers of the controller, 16 MiB above `HEAP_START`. -/
theorem pages_avoid_windows_iff (h : system.Reachable s) :
    (∀ page ∈ s.pages, ¬ DeviceWindow page) ↔ s.state.heap.mappedEnd ≤ abarVirtAddr := by
  have hlog := logged h
  constructor
  · intro havoid
    -- otherwise the first page of the registers is one of the mapped pages
    by_contra hend
    refine havoid abarVirtAddr ((hlog.mem _).mpr ⟨?_, by omega, ?_⟩) .registers
    · simp [heapStart, abarVirtAddr]
    · simp [pageSize, abarVirtAddr]
  · intro hend page hpage hwindow
    have hlt := ((hlog.mem page).mp hpage).2.1
    have hle := hwindow.abar_le
    omega

/-- `Heap::init` over a memory of zeros, with its pages. -/
def boot : HeapGrowth :=
  ⟨heapBootState,
    Heap.growHeapLog (fun _ => true) ⟨fun _ => 0, 0, heapStart, heapStart⟩ heapInitialSize⟩

theorem boot_init : system.init boot := by
  have hboot : heapBoot = some heapBootState := by
    unfold heapBootState
    exact (Option.some_get _).symm
  obtain ⟨heap, hinit, hstate⟩ := Option.map_eq_some_iff.mp hboot
  refine ⟨?_, fun _ => 0, fun _ => true, ?_, rfl⟩
  · change heapBootState.live = []
    rw [← hstate]
  · change _ = some heapBootState.heap
    rw [← hstate]
    exact hinit

/-- The run of `gapState`, with its pages. -/
@[irreducible] def gapGrowth : HeapGrowth :=
  (runActions next boot gapRun).get (by decide +kernel)

theorem gapGrowth_reachable : system.Reachable gapGrowth := by
  unfold gapGrowth
  exact reachable_get_runActions _ (.init boot_init) _

theorem gapGrowth_avoids_windows :
    gapGrowth.state.heap.mappedEnd ≤ abarVirtAddr ∧
      ∀ page ∈ gapGrowth.pages, ¬ DeviceWindow page := by
  have hend : gapGrowth.state.heap.mappedEnd ≤ abarVirtAddr := by decide +kernel
  exact ⟨hend, (pages_avoid_windows_iff gapGrowth_reachable).mpr hend⟩

/-- The distance from the heap to the registers of the controller. -/
def registersOffset : Nat := abarVirtAddr - heapStart

/-- Where no block fits, a request of 16 MiB maps the first page of the registers. -/
theorem abar_mem_kmallocLog {h : Heap} {fuel : Nat}
    (hend : h.mappedEnd = heapStart + heapInitialSize)
    (hnull : h.findFit registersOffset fuel h.firstBlock = some 0) :
    abarVirtAddr ∈ Heap.kmallocLog (fun _ => true) (fuel + 1) h registersOffset := by
  have hpage : pageSize ∣ h.mappedEnd := by rw [hend]; decide
  have hmax : h.mappedEnd ≤ heapStart + heapMaxSize := by rw [hend]; decide
  have hamount : Heap.growAmount registersOffset ≤ 2 * heapMaxSize := by decide
  have hroom : ¬ heapStart + heapMaxSize <
      wrap (h.mappedEnd + alignUp (Heap.growAmount registersOffset) pageSize) := by
    rw [hend]
    decide
  have hlog := Heap.growHeap_logged (fun _ => true) hpage hmax hamount
  obtain ⟨m, heq, -, -, -, hall⟩ := Heap.growHeap_eq (fun _ => true) hmax hpage hamount
  have hgrown := hall (Heap.growHeap_of_mapped hroom)
  have hmem : abarVirtAddr ∈
      Heap.growHeapLog (fun _ => true) h (Heap.growAmount registersOffset) := by
    rw [hlog.mem, heq]
    refine ⟨by rw [hend]; decide, lt_of_lt_of_le ?_ hgrown.1, by decide⟩
    rw [hend]
    decide
  refine Heap.mem_kmallocLog_of_growHeap _ (by decide) ?_ ?_
  · exact hnull
  · exact hmem

/-- The first request after boot is for 16 MiB, and every page can be mapped. -/
theorem not_pages_avoid_windows :
    ∃ s, system.Reachable s ∧ ∃ page ∈ s.pages, DeviceWindow page := by
  obtain ⟨blocks, inv⟩ := HeapState.inv_of_reachable (.init heapBootState_init)
  have hsize : registersOffset ≤ heapMaxSize := by decide
  obtain ⟨t, -, -, hnext, -⟩ := inv.kmalloc (fun _ => true) hsize
  have hstep : boot.next (.kmalloc registersOffset fun _ => true) =
      some ⟨t, boot.pages ++ heapBootState.mappedPages (.kmalloc registersOffset fun _ => true)⟩ :=
    Option.map_eq_some_iff.mpr ⟨t, hnext, rfl⟩
  refine ⟨_, .step (.init boot_init) hstep, abarVirtAddr, List.mem_append_right _ ?_, .registers⟩
  exact abar_mem_kmallocLog (by decide +kernel) (by decide +kernel)

end HeapGrowth

end WengShiOS.Mm
