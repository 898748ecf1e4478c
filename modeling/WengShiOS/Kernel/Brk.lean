import WengShiOS.Mm.UserMemory

/-! # The user heap

`sysBrk` in `src/kernel/syscall.cpp`. Each task has a region of its own, which starts where
its id says and grows upwards, page by page, in the task's address space. Nothing limits
the end that is asked for, and nothing takes back the pages of a call that fails half-way.

Between the calls other parts of the kernel take frames from the PMM, so memory may run
out at any point. -/

namespace WengShiOS.Kernel

open Math Mm

/-- `BRK_REGION_START` -/
def brkRegionStart : Nat := 0x50000000000

/-- Where the heap of a task starts. -/
def regionStart (id : Nat) : Nat := wrap (brkRegionStart + id * 0x10000000)

/-- `(addr + PAGE_SIZE - 1) & ~(PAGE_SIZE - 1)` -/
def pageEnd (addr : Nat) : Nat := wrap (addr + pageSize - 1) / pageSize * pageSize

/-- `PAGE_WRITABLE | PAGE_USER` -/
def brkFlags : Nat := pageWritable ||| pageUser

/-- The loop of `sysBrk`: `n` pages from `addr` on, until there is no frame left. -/
def mapBrkPages (m : Machine) (addr : Nat) : Nat → Option (Bool × Machine)
  | 0 => some (true, m)
  | n + 1 => (m.allocAndMapPage addr brkFlags).bind fun (ok, m) =>
      if ok then mapBrkPages m (addr + pageSize) n else some (false, m)

/-- A task and the machine while the task is the current one. -/
structure Brk where
  machine : Machine
  brkStart : Nat
  brkCurrent : Nat

namespace Brk

/-- The first call sets up the region. -/
def started (σ : Brk) (id : Nat) : Brk :=
  if σ.brkStart = 0 then { σ with brkStart := regionStart id, brkCurrent := regionStart id } else σ

/-- The number of pages that a call has to map. -/
def pagesTo (σ : Brk) (requestedEnd : Nat) : Nat :=
  (pageEnd requestedEnd - pageEnd σ.brkCurrent) / pageSize

def sysBrk (σ : Brk) (id requestedEnd : Nat) : Option (Nat × Brk) :=
  let σ := σ.started id
  if requestedEnd = 0 then some (σ.brkCurrent, σ)
  else if requestedEnd ≤ σ.brkCurrent then some (σ.brkCurrent, σ)
  else (mapBrkPages σ.machine (pageEnd σ.brkCurrent) (σ.pagesTo requestedEnd)).map fun (ok, machine) =>
    if ok then (requestedEnd, { σ with machine, brkCurrent := requestedEnd })
    else (σ.brkCurrent, { σ with machine })

/-! ### Runs -/

inductive Action where
  | sysBrk (requestedEnd : Nat)
  /-- another part of the kernel takes a frame -/
  | allocFrame

def next (id : Nat) (σ : Brk) : Action → Option Brk
  | .sysBrk requestedEnd => (σ.sysBrk id requestedEnd).map Prod.snd
  | .allocFrame => some { σ with machine := { σ.machine with pmm := σ.machine.pmm.allocFrame.2 } }

/-- The calls of the task `id`, from a given state on. -/
def system (id : Nat) (σ₀ : Brk) : System Brk Action := .ofNext (next id) (· = σ₀)

/-- The pages of the heap. -/
def heapPages (σ : Brk) : Set Nat :=
  pageRange (σ.brkStart / pageSize) ((pageEnd σ.brkCurrent - σ.brkStart) / pageSize)

/-- The heap stays in the user half, and memory does not run out within the call. -/
def Orderly (id : Nat) (σ : Brk) : Action → Prop
  | .sysBrk requestedEnd =>
    regionStart id ≤ 2 ^ 47 ∧ requestedEnd ≤ 2 ^ 47 ∧
      (σ.machine.pmm.freeSet = ∅ ∨ EnoughFrames brkFlags σ.machine
        (pageEnd (σ.started id).brkCurrent) ((σ.started id).pagesTo requestedEnd))
  | .allocFrame => True

variable {spaces : List Nat} {id : Nat} {m m₀ : Machine} {σ σ' σ₀ : Brk} {n k : Nat}

/-! ### Addresses -/

theorem pageEnd_of_le {addr : Nat} (h : addr ≤ 2 ^ 47) :
    pageEnd addr = (addr + 4095) / 4096 * 4096 := by
  simp only [pageEnd, pageSize]
  rw [wrap_of_lt (by omega)]
  omega

theorem regionStart_eq (hid : id < 2 ^ 32) : regionStart id = brkRegionStart + id * 0x10000000 := by
  apply wrap_of_lt
  simp only [brkRegionStart]
  omega

/-- The pages of the heap belong to this address space only. -/
theorem tableName_heap {s : Nat} {p : List Nat} (hn : n < userPages)
    (hlow : brkRegionStart ≤ n * pageSize) (h : tableName s p = tableName m.cr3 (pagePath n)) :
    s = m.cr3 ∧ p = pagePath n := by
  have hhead := head_pagePath hn
  have hprivate : n * pageSize / 2 ^ 39 % 512 ≠ 0 := by
    simp only [userPages, brkRegionStart, pageSize] at *
    omega
  rw [pagePath, tableName_user hhead, if_neg hprivate] at h
  unfold tableName at h
  split_ifs at h
  · cases (Prod.mk.inj h).1
  · cases (Prod.mk.inj h).1
  · exact ⟨Option.some.inj (Prod.mk.inj h).1, (Prod.mk.inj h).2⟩

/-! ### The loop -/

theorem mapBrkPages_added (h : Space spaces m) (hk : k + n ≤ userPages)
    (hframes : EnoughFrames brkFlags m (k * pageSize) n) :
    ∃ m', mapBrkPages m (k * pageSize) n = some (true, m') ∧
      RangeAdded spaces m m' k n brkFlags := by
  induction n generalizing m k with
  | zero => exact ⟨m, rfl, .refl h k⟩
  | succ n ih =>
    obtain ⟨N, m₁, hrun, hadded, hnext⟩ := h.firstPage hk (by decide) hframes
    obtain ⟨m', hrun', hrange⟩ := ih hadded.space (k := k + 1) (by omega) hnext
    refine ⟨m', ?_, .cons h.layout.forest.active (by omega) hadded hrange⟩
    rw [mapBrkPages, hrun, Option.bind_some]
    dsimp only
    rw [if_pos rfl, ← Nat.succ_mul]
    exact hrun'

/-- Without a frame the loop ends before the first page. -/
theorem mapBrkPages_empty (hempty : m.pmm.freeSet = ∅) (addr n : Nat) :
    mapBrkPages m addr n = some (decide (n = 0), m) := by
  cases n with
  | zero => rfl
  | succ n =>
    have hrun : m.allocAndMapPage addr brkFlags = some (false, m) := by
      rw [Machine.allocAndMapPage, Pmm.allocFrame_of_freeSet_empty hempty]
      exact if_pos rfl
    rw [mapBrkPages, hrun]
    rfl

/-! ### What a call does -/

/-- What is true of the heap, compared with the machine at the start. -/
structure Tracks (spaces : List Nat) (id : Nat) (m₀ : Machine) (σ : Brk) : Prop where
  space : Space spaces σ.machine
  cr3 : σ.machine.cr3 = m₀.cr3
  region : σ.brkStart = 0 ∧ σ.brkCurrent = 0 ∨
    σ.brkStart = regionStart id ∧ regionStart id ≤ σ.brkCurrent ∧ σ.brkCurrent ≤ 2 ^ 47
  owned : Owned spaces σ.machine σ.heapPages
  flags : ∀ n ∈ σ.heapPages, ∃ F, pageAt σ.machine n = some (F, 7)
  others : ∀ s ∈ spaces, ∀ p, PagePath p → (∀ n ∈ σ.heapPages, ¬ (s = m₀.cr3 ∧ p = pagePath n)) →
    view σ.machine.phys s p = view m₀.phys s p

/-- A heap without pages. -/
theorem heapPages_eq_empty (h : pageEnd σ.brkCurrent = σ.brkStart) : σ.heapPages = ∅ := by
  rw [heapPages, h, Nat.sub_self]
  simp [pageRange]

theorem Tracks.of_space (h : Space spaces m₀) :
    Tracks spaces id m₀ ⟨m₀, 0, 0⟩ := by
  have hempty : (⟨m₀, 0, 0⟩ : Brk).heapPages = ∅ := by
    apply heapPages_eq_empty
    change pageEnd 0 = 0
    decide
  refine ⟨h, rfl, .inl ⟨rfl, rfl⟩, ?_, ?_, fun _ _ _ _ _ => rfl⟩
  · rw [hempty]
    exact .empty spaces m₀
  · rw [hempty]
    exact fun n hn => hn.elim

theorem Tracks.started (t : Tracks spaces id m₀ σ) (hid : id < 2 ^ 32)
    (hregion : regionStart id ≤ 2 ^ 47) :
    Tracks spaces id m₀ (σ.started id) ∧ (σ.started id).brkStart = regionStart id ∧
      (σ.started id).machine = σ.machine ∧ (σ.started id).heapPages = σ.heapPages ∧
      σ.brkCurrent ≤ (σ.started id).brkCurrent := by
  have hstart := regionStart_eq hid
  have hpos : regionStart id ≠ 0 := by
    rw [hstart, brkRegionStart]
    omega
  rcases t.region with ⟨hzero, hcurrent⟩ | hregion'
  · have hstarted : σ.started id =
        { σ with brkStart := regionStart id, brkCurrent := regionStart id } := if_pos hzero
    have hpages : σ.heapPages = ∅ := by
      apply heapPages_eq_empty
      rw [hzero, hcurrent]
      decide
    have hpages' : (σ.started id).heapPages = ∅ := by
      apply heapPages_eq_empty
      rw [hstarted]
      rw [pageEnd_of_le hregion, hstart]
      simp only [brkRegionStart]
      omega
    have hsame : (σ.started id).heapPages = σ.heapPages := hpages'.trans hpages.symm
    have hmachine : (σ.started id).machine = σ.machine := by rw [hstarted]
    refine ⟨⟨?_, ?_, ?_, ?_, ?_, ?_⟩, by rw [hstarted], hmachine, hsame, by rw [hcurrent]; omega⟩
    · rw [hmachine]
      exact t.space
    · rw [hmachine]
      exact t.cr3
    · rw [hstarted]
      exact .inr ⟨rfl, le_rfl, hregion⟩
    · rw [hmachine, hsame]
      exact t.owned
    · rw [hmachine, hsame]
      exact t.flags
    · rw [hmachine, hsame]
      exact t.others
  · have hstarted : σ.started id = σ := if_neg (by rw [hregion'.1]; exact hpos)
    rw [hstarted]
    exact ⟨t, hregion'.1, rfl, rfl, le_rfl⟩

variable {requestedEnd : Nat}

/-- The heap pages up to a new end are the old ones and those that the call maps. -/
theorem heapPages_union (hstart : σ.brkStart = regionStart id) (hid : id < 2 ^ 32)
    (hle : regionStart id ≤ σ.brkCurrent) (hlt : σ.brkCurrent < requestedEnd)
    (hend : requestedEnd ≤ 2 ^ 47) :
    ({ σ with machine := m, brkCurrent := requestedEnd } : Brk).heapPages =
      σ.heapPages ∪ pageRange (pageEnd σ.brkCurrent / pageSize) (σ.pagesTo requestedEnd) := by
  have hregion := regionStart_eq hid
  simp only [heapPages, pagesTo, pageRange, hstart, pageEnd_of_le hend,
    pageEnd_of_le (hlt.le.trans hend), pageSize, hregion, brkRegionStart] at hle ⊢
  ext j
  simp only [Set.mem_Ico, Set.mem_union]
  omega

section

variable (t : Tracks spaces id m₀ σ)
include t

/-- The heap after its new pages are mapped. -/
theorem Tracks.extend {m' : Machine} (hid : id < 2 ^ 32) (hstart : σ.brkStart = regionStart id)
    (hle : regionStart id ≤ σ.brkCurrent) (hlt : σ.brkCurrent < requestedEnd)
    (hend : requestedEnd ≤ 2 ^ 47)
    (r : RangeAdded spaces σ.machine m' (pageEnd σ.brkCurrent / pageSize) (σ.pagesTo requestedEnd)
      brkFlags) :
    Tracks spaces id m₀ { σ with machine := m', brkCurrent := requestedEnd } ∧
      ∀ n ∈ σ.heapPages, pageAt m' n = pageAt σ.machine n := by
  have hunion := heapPages_union (m := m') hstart hid hle hlt hend
  have hregion := regionStart_eq hid
  -- all pages of the range are user pages above the start of the region
  have hrange : ∀ j ∈ pageRange (pageEnd σ.brkCurrent / pageSize) (σ.pagesTo requestedEnd),
      j < userPages ∧ brkRegionStart ≤ j * pageSize := by
    intro j hj
    simp only [pageRange, Set.mem_Ico, pagesTo, pageEnd_of_le hend,
      pageEnd_of_le (hlt.le.trans hend), pageSize, userPages, brkRegionStart] at hj hregion ⊢
    omega
  have hkept : ∀ n ∈ σ.heapPages, pageAt m' n = pageAt σ.machine n := by
    intro n hn
    rw [pageAt, pageAt, r.cr3]
    refine r.view _ t.space.layout.forest.active _ (pagePath_user (t.owned.user n hn)) ?_
    intro j hj hname
    obtain rfl := tableName_pagePath (t.owned.user n hn) (hrange j hj).1 hname
    simp only [heapPages, pageRange, Set.mem_Ico, pageEnd_of_le (hlt.le.trans hend), pageSize,
      hstart, hregion, brkRegionStart] at hn hj hle
    omega
  refine ⟨⟨r.space, r.cr3.trans t.cr3, .inr ⟨hstart, hle.trans hlt.le, hend⟩, ?_, ?_, ?_⟩, hkept⟩
  · rw [hunion]
    exact r.owned _ t.owned
  · rw [hunion]
    rintro n (hn | hn)
    · obtain ⟨F, hF⟩ := t.flags n hn
      exact ⟨F, (hkept n hn).trans hF⟩
    · exact r.page n hn
  · rw [hunion]
    intro s hs p hp hnot
    rw [r.view s hs p hp, t.others s hs p hp fun n hn => hnot n (.inl hn)]
    intro j hj hname
    obtain ⟨hroot, hpath⟩ := tableName_heap (hrange j hj).1 (hrange j hj).2 hname
    exact hnot j (.inr hj) ⟨hroot.trans t.cr3, hpath⟩

/-- **One call.** It returns, the heap is tracked, does not shrink, and keeps its pages. -/
theorem Tracks.sysBrk (hid : id < 2 ^ 32) (h : Orderly id σ (.sysBrk requestedEnd)) :
    ∃ result σ', σ.sysBrk id requestedEnd = some (result, σ') ∧ Tracks spaces id m₀ σ' ∧
      σ.brkCurrent ≤ σ'.brkCurrent ∧
      ∀ n ∈ σ.heapPages, pageAt σ'.machine n = pageAt σ.machine n := by
  obtain ⟨hregion, hend, hframes⟩ := h
  obtain ⟨t₁, hstart, hmachine, hpages, hle⟩ := t.started hid hregion
  rw [← hmachine, ← hpages]
  rw [← hmachine] at hframes
  unfold Brk.sysBrk
  generalize σ.started id = σ₁ at *
  have hbounds : regionStart id ≤ σ₁.brkCurrent ∧ σ₁.brkCurrent ≤ 2 ^ 47 := by
    rcases t₁.region with ⟨hzero, -⟩ | h
    · rw [hstart, regionStart_eq hid, brkRegionStart] at hzero
      omega
    · exact h.2
  by_cases hzero : requestedEnd = 0
  · rw [if_pos hzero]
    exact ⟨_, σ₁, rfl, t₁, hle, fun _ _ => rfl⟩
  by_cases hsmall : requestedEnd ≤ σ₁.brkCurrent
  · rw [if_neg hzero, if_pos hsmall]
    exact ⟨_, σ₁, rfl, t₁, hle, fun _ _ => rfl⟩
  rw [if_neg hzero, if_neg hsmall]
  have hlt : σ₁.brkCurrent < requestedEnd := by omega
  rcases hframes with hempty | hframes
  · rw [mapBrkPages_empty hempty, Option.map_some]
    dsimp only
    by_cases hnone : σ₁.pagesTo requestedEnd = 0
    · have hrefl : RangeAdded spaces σ₁.machine σ₁.machine (pageEnd σ₁.brkCurrent / pageSize)
          (σ₁.pagesTo requestedEnd) brkFlags := by
        rw [hnone]
        exact .refl t₁.space _
      have ht := t₁.extend hid hstart hbounds.1 hlt hend hrefl
      rw [if_pos (decide_eq_true hnone)]
      exact ⟨_, _, rfl, ht.1, hle.trans hlt.le, ht.2⟩
    · rw [if_neg (by simpa using hnone)]
      exact ⟨_, _, rfl, t₁, hle, fun _ _ => rfl⟩
  · have hpage : pageEnd σ₁.brkCurrent = pageEnd σ₁.brkCurrent / pageSize * pageSize := by
      simp only [pageEnd, pageSize]
      omega
    have hk : pageEnd σ₁.brkCurrent / pageSize + σ₁.pagesTo requestedEnd ≤ userPages := by
      simp only [pagesTo, pageEnd_of_le hend, pageEnd_of_le hbounds.2, pageSize, userPages]
      omega
    rw [hpage] at hframes
    obtain ⟨m', hrun, hadded⟩ := mapBrkPages_added t₁.space hk hframes
    obtain ⟨t', hkept⟩ := t₁.extend hid hstart hbounds.1 hlt hend hadded
    rw [hpage, hrun, Option.map_some]
    exact ⟨_, _, rfl, t', hle.trans hlt.le, hkept⟩

/-- Frames that others take do not matter. -/
theorem Tracks.allocFrame :
    Tracks spaces id m₀
      { σ with machine := { σ.machine with pmm := σ.machine.pmm.allocFrame.2 } } := by
  exact ⟨t.space.allocFrame, t.cr3, t.region, t.owned.allocFrame, t.flags, t.others⟩

theorem Tracks.next {a : Action} (hid : id < 2 ^ 32) (h : Orderly id σ a) :
    ∃ σ', σ.next id a = some σ' ∧ Tracks spaces id m₀ σ' ∧ σ.brkCurrent ≤ σ'.brkCurrent ∧
      ∀ n ∈ σ.heapPages, pageAt σ'.machine n = pageAt σ.machine n := by
  cases a with
  | sysBrk requestedEnd =>
    obtain ⟨result, σ', hrun, t', hle, hkept⟩ := t.sysBrk hid h
    refine ⟨σ', ?_, t', hle, hkept⟩
    rw [Brk.next, hrun, Option.map_some]
  | allocFrame => exact ⟨_, rfl, t.allocFrame, le_rfl, fun _ _ => rfl⟩

end

theorem tracks_of_reachable (hspace : Space spaces σ₀.machine)
    (hfresh : σ₀.brkStart = 0 ∧ σ₀.brkCurrent = 0) (hid : id < 2 ^ 32)
    (h : ((system id σ₀).restrict (Orderly id)).Reachable σ) :
    Tracks spaces id σ₀.machine σ := by
  refine h.invariant (Tracks spaces id σ₀.machine) ?_ ?_
  · rintro σ rfl
    obtain ⟨m, start, current⟩ := σ
    obtain ⟨rfl, rfl⟩ := hfresh
    exact .of_space hspace
  · rintro σ a σ' t ⟨horderly, hstep⟩
    obtain ⟨σ₁, hrun, t', -⟩ := t.next hid horderly
    obtain rfl := Option.some.inj (hrun.symm.trans hstep)
    exact t'

/-- **`brk` tracks the heap.** In every run of a task's calls in which the heap stays in the
user half and memory does not run out within a call: every page below the current end is
writable for user code, no other page of any address space was mapped, and the end is not
in the kernel half. The next call returns, does not move the end down, and every page of
the heap stays where it is. -/
theorem brk_tracks (hspace : Space spaces σ₀.machine)
    (hfresh : σ₀.brkStart = 0 ∧ σ₀.brkCurrent = 0) (hid : id < 2 ^ 32)
    (h : ((system id σ₀).restrict (Orderly id)).Reachable σ) :
    (∀ addr, σ.brkStart ≤ addr → addr < σ.brkCurrent →
      Accessible σ.machine (addr / pageSize) true) ∧
    (∀ s ∈ spaces, ∀ p, PagePath p →
      (∀ n ∈ σ.heapPages, ¬ (s = σ₀.machine.cr3 ∧ p = pagePath n)) →
      view σ.machine.phys s p = view σ₀.machine.phys s p) ∧
    σ.brkCurrent ≤ 2 ^ 47 ∧
    ∀ a, Orderly id σ a → ∃ σ', σ.next id a = some σ' ∧ σ.brkCurrent ≤ σ'.brkCurrent ∧
      ∀ n ∈ σ.heapPages, pageAt σ'.machine n = pageAt σ.machine n := by
  have t := tracks_of_reachable hspace hfresh hid h
  have hbound : σ.brkCurrent ≤ 2 ^ 47 := by
    rcases t.region with ⟨-, hzero⟩ | ⟨-, -, hle⟩
    · omega
    · exact hle
  refine ⟨fun addr hlow hhigh => ?_, t.others, hbound, fun a ha => ?_⟩
  · have hmem : addr / pageSize ∈ σ.heapPages := by
      have hstart : 4096 ∣ σ.brkStart := by
        rcases t.region with ⟨hzero, -⟩ | ⟨hstart, -⟩
        · rw [hzero]
          exact dvd_zero _
        · rw [hstart, regionStart_eq hid, brkRegionStart]
          omega
      simp only [heapPages, pageRange, Set.mem_Ico, pageEnd_of_le hbound, pageSize]
      omega
    obtain ⟨F, hF⟩ := t.flags _ hmem
    exact t.owned.accessible t.space hmem hF (by decide) fun _ => by decide
  · obtain ⟨σ', hrun, -, hle, hkept⟩ := t.next hid ha
    exact ⟨σ', hrun, hle, hkept⟩

/-- A task that has not asked for a heap yet, in the address space the kernel starts with. -/
def bootBrk : Brk := ⟨Vm.bootVm.machine, 0, 0⟩

theorem bootBrk_space : Space [0x100] bootBrk.machine := Vm.space_of_reachable (.init Vm.bootVm_boot)

/-- One byte of heap is one page. -/
theorem bootBrk_tracks : ∃ σ, σ.brkStart = 0x50010000000 ∧ σ.brkCurrent = 0x50010000001 ∧
    ((system 1 bootBrk).restrict (Orderly 1)).Reachable σ ∧
    Accessible σ.machine 0x50010000 true ∧
    ∀ s ∈ [0x100], ∀ p, PagePath p →
      (∀ n ∈ σ.heapPages, ¬ (s = bootBrk.machine.cr3 ∧ p = pagePath n)) →
      view σ.machine.phys s p = view bootBrk.machine.phys s p := by
  have hcard : bootBrk.machine.pmm.freeSet.card = 8 := Vm.bootVm_card
  have hframes : EnoughFrames brkFlags bootBrk.machine (0x50010000 * pageSize) 1 :=
    enoughFrames_of_card (by omega)
  obtain ⟨m, hrun, -⟩ := mapBrkPages_added bootBrk_space (by decide) hframes
  have hnext : bootBrk.next 1 (.sysBrk 0x50010000001) =
      some ⟨m, 0x50010000000, 0x50010000001⟩ := by
    have hstarted : bootBrk.started 1 = ⟨bootBrk.machine, 0x50010000000, 0x50010000000⟩ := rfl
    have hend : pageEnd 0x50010000000 = 0x50010000 * pageSize := by decide
    have hpages : pagesTo ⟨bootBrk.machine, 0x50010000000, 0x50010000000⟩ 0x50010000001 = 1 := by
      decide
    rw [next, Brk.sysBrk, hstarted]
    dsimp only
    rw [if_neg (by decide), if_neg (by decide), hpages, hend, hrun, Option.map_some,
      Option.map_some, if_pos rfl]
  have horderly : Orderly 1 bootBrk (.sysBrk 0x50010000001) :=
    ⟨by decide, by decide, .inr hframes⟩
  have hreach : ((system 1 bootBrk).restrict (Orderly 1)).Reachable _ :=
    .step (.init rfl) ⟨horderly, hnext⟩
  obtain ⟨hmapped, hothers, -⟩ := brk_tracks bootBrk_space ⟨rfl, rfl⟩ (by decide) hreach
  exact ⟨_, rfl, rfl, hreach, hmapped 0x50010000000 le_rfl (Nat.lt_succ_self _), hothers⟩

/-- **The end of the heap is not where its pages end.** The end that is asked for is rounded
up to the next page, which wraps around to 0: no page is mapped, and yet the heap now ends
in the kernel half. -/
theorem not_brk_tracks : ∃ σ, (system 1 bootBrk).Reachable σ ∧ σ.brkStart = 0x50010000000 ∧
    σ.brkCurrent = 2 ^ 64 - 1 ∧ pageAt σ.machine (σ.brkStart / pageSize) = none := by
  have hnext : bootBrk.next 1 (.sysBrk (2 ^ 64 - 1)) =
      some ⟨bootBrk.machine, 0x50010000000, 2 ^ 64 - 1⟩ := rfl
  refine ⟨_, .step (.init rfl) hnext, rfl, rfl, ?_⟩
  have hentry : bootBrk.machine.phys 0x100 10 = 0 := by
    have b : BootEntries (setupPageTables 0x100 fun _ _ => 0) 0x100 :=
      bootEntries_setupPageTables (by decide) fun _ _ _ _ => rfl
    have hphys : bootBrk.machine.phys = setupPageTables 0x100 fun _ _ => 0 := by
      simp only [bootBrk, Vm.bootVm]
    rw [hphys, b.p4 10 (by decide)]
    decide
  change view bootBrk.machine.phys 0x100 [10, 0, 128, 0] = none
  rw [view, lookup, hentry]
  rfl

end Brk

end WengShiOS.Kernel
