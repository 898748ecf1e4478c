import WengShiOS.Mm.Vmm

/-! # Disk transfers

`AHCI::readSectors` and `AHCI::writeSectors` (`src/drivers/ahci/ahci.cpp`). Each call
takes a frame, maps it at the port's I/O buffer address, over whatever is mapped
there, and has the controller move the data between the disk and that frame.

`issueCommand` works on the registers of the port, on its command table and, through
the controller, on the buffer. A command is therefore given by its result and by the
physical memory it leaves; both are arbitrary. -/

namespace WengShiOS.Drivers

open Math Mm Pmm

def maxPorts : Nat := 32

def ioBufVirtBase : Nat := 0xFFFFFFFFC5000000

def maxSectorsPerTransfer : Nat := 8

/-- The driver's tables, and the machine it runs on. -/
structure Ahci where
  initialized : Bool
  portHasDevice : Nat → Bool
  machine : Machine

/-- What `issueCommand` returned, and the memory after it. -/
structure Reply where
  ok : Bool
  memory : Nat → Nat → Nat

namespace Ahci

/-- The checks both functions make first. -/
def refuses (a : Ahci) (portIndex : Int) (sectorCount : Nat) : Bool :=
  portIndex < 0 || maxPorts ≤ portIndex || !a.initialized || !a.portHasDevice portIndex.toNat ||
    sectorCount == 0 || maxSectorsPerTransfer < sectorCount

def ioBufVirt (portIndex : Int) : Nat := ioBufVirtBase + portIndex.toNat * pageSize

/-- A frame is mapped as the I/O buffer of the port. -/
def mapBuffer (a : Ahci) (portIndex : Int) (bufPhys : Nat) (pmm : Pmm) : Option Machine :=
  { a.machine with pmm }.mapPage (ioBufVirt portIndex) bufPhys (pageWritable ||| pageCacheDisable)

/-- `readSectors`: the result, the bytes stored in `out_buffer` and the state after the
call. `none` is a page fault. -/
def readSectors (a : Ahci) (portIndex : Int) (sectorCount : Nat) (reply : Reply) :
    Option (Bool × List UInt8 × Ahci) :=
  if a.refuses portIndex sectorCount then some (false, [], a)
  else
    match a.machine.pmm.allocFrame with
    | (bufPhys, pmm) =>
      if bufPhys = noFrame then some (false, [], a)
      else (a.mapBuffer portIndex bufPhys pmm).bind fun m =>
        let m := { m with phys := reply.memory }
        if reply.ok then
          ((List.range (sectorCount * 512)).mapM fun i => m.readByte (ioBufVirt portIndex + i)).map
            fun data => (true, data, { a with machine := m })
        else some (false, [], { a with machine := m })

/-- `for (i = 0; i < bytes; ++i) dst[i] = src[i];` into the I/O buffer. -/
def fillBuffer (m : Machine) (portIndex : Int) (data : List UInt8) : Option Machine :=
  data.zipIdx.foldlM (fun m (value, i) => m.writeByte (ioBufVirt portIndex + i) value) m

/-- `writeSectors`; `data` are the `sector_count * 512` bytes of `in_buffer`. -/
def writeSectors (a : Ahci) (portIndex : Int) (sectorCount : Nat) (data : List UInt8)
    (reply : Reply) : Option (Bool × Ahci) :=
  if a.refuses portIndex sectorCount then some (false, a)
  else
    match a.machine.pmm.allocFrame with
    | (bufPhys, pmm) =>
      if bufPhys = noFrame then some (false, a)
      else (a.mapBuffer portIndex bufPhys pmm).bind fun m =>
        (fillBuffer m portIndex data).map fun m =>
          (reply.ok, { a with machine := { m with phys := reply.memory } })

end Ahci

inductive Transfer
  | read (portIndex : Int) (sectorCount : Nat) (reply : Reply)
  | write (portIndex : Int) (sectorCount : Nat) (data : List UInt8) (reply : Reply)

def Transfer.portIndex : Transfer → Int
  | .read portIndex _ _ | .write portIndex _ _ _ => portIndex

def Transfer.sectorCount : Transfer → Nat
  | .read _ sectorCount _ | .write _ sectorCount _ _ => sectorCount

namespace Ahci

def next (a : Ahci) : Transfer → Option Ahci
  | .read portIndex sectorCount reply =>
    (a.readSectors portIndex sectorCount reply).map fun r => r.2.2
  | .write portIndex sectorCount data reply =>
    (a.writeSectors portIndex sectorCount data reply).map fun r => r.2

/-- The frames the call takes for page tables: those that `mapPage` takes. -/
def tableFrames (a : Ahci) (t : Transfer) : Nat :=
  if a.refuses t.portIndex t.sectorCount then 0
  else
    match a.machine.pmm.allocFrame with
    | (bufPhys, pmm) =>
      if bufPhys = noFrame then 0
      else match a.mapBuffer t.portIndex bufPhys pmm with
        | none => 0
        | some m => m.pmm.usedFrames - pmm.usedFrames

/-- The frame the call takes for the buffer, unless it is refused or there is none. -/
def bufferFrames (a : Ahci) (t : Transfer) : Nat :=
  if a.refuses t.portIndex t.sectorCount = true ∨ a.machine.pmm.freeSet = ∅ then 0 else 1

variable {a a' : Ahci} {t : Transfer}

/-- How a call may end: it is refused, there is no frame, or a frame is mapped. -/
inductive Outcome (a : Ahci) (portIndex : Int) (sectorCount : Nat) : Ahci → Prop
  | refused (h : a.refuses portIndex sectorCount = true) : Outcome a portIndex sectorCount a
  | exhausted (h : a.refuses portIndex sectorCount = false) (hempty : a.machine.pmm.freeSet = ∅) :
    Outcome a portIndex sectorCount a
  | mapped (h : a.refuses portIndex sectorCount = false) (frame : Nat)
    (hframe : frame ∈ a.machine.pmm.freeSet)
    (halloc : a.machine.pmm.allocFrame = (frame * frameSize, a.machine.pmm.take frame))
    (m machine : Machine)
    (hmap : a.mapBuffer portIndex (frame * frameSize) (a.machine.pmm.take frame) = some m)
    (hpmm : machine.pmm = m.pmm) : Outcome a portIndex sectorCount { a with machine }

variable {portIndex : Int} {data : List UInt8}

/-- What both functions have in common: `use` is what is done with the buffer. -/
theorem outcome_of_call {β : Type} {sectorCount : Nat} {refused result : β}
    {use : Machine → Option β} (after : β → Ahci)
    (h : (if a.refuses portIndex sectorCount then some refused
      else
        match a.machine.pmm.allocFrame with
        | (bufPhys, pmm) =>
          if bufPhys = noFrame then some refused
          else (a.mapBuffer portIndex bufPhys pmm).bind use) = some result)
    (hrefused : after refused = a)
    (huse : ∀ {m}, use m = some result →
      ∃ machine, after result = { a with machine } ∧ machine.pmm = m.pmm) :
    a.Outcome portIndex sectorCount (after result) := by
  by_cases hrefuse : a.refuses portIndex sectorCount = true
  · rw [if_pos hrefuse] at h
    cases h
    rw [hrefused]
    exact .refused hrefuse
  rw [if_neg hrefuse] at h
  rw [Bool.not_eq_true] at hrefuse
  by_cases hfree : a.machine.pmm.freeSet.Nonempty
  · obtain ⟨frame, hframe, halloc⟩ := allocFrame_eq hfree
    simp only [halloc, (noFrame_ne frame).symm, if_false] at h
    obtain ⟨m, hmap, h⟩ := Option.bind_eq_some_iff.mp h
    obtain ⟨machine, hafter, hpmm⟩ := huse h
    rw [hafter]
    exact .mapped hrefuse frame hframe halloc m machine hmap hpmm
  · have hempty := Finset.not_nonempty_iff_eq_empty.mp hfree
    simp only [allocFrame_of_freeSet_empty hempty, if_true] at h
    cases h
    rw [hrefused]
    exact .exhausted hrefuse hempty

theorem readSectors_outcome {sectorCount : Nat} {reply : Reply} {ok : Bool}
    (h : a.readSectors portIndex sectorCount reply = some (ok, data, a')) :
    a.Outcome portIndex sectorCount a' := by
  refine outcome_of_call (fun r => r.2.2) h rfl fun {m} h => ?_
  dsimp only at h
  split_ifs at h
  · obtain ⟨data', -, h⟩ := Option.map_eq_some_iff.mp h
    cases h
    exact ⟨_, rfl, rfl⟩
  · cases h
    exact ⟨_, rfl, rfl⟩

theorem fillBuffer_pmm {m m' : Machine} (h : fillBuffer m portIndex data = some m') :
    m'.pmm = m.pmm :=
  Machine.foldlM_pmm (fun _ _ _ => Machine.writeByte_pmm) h

theorem writeSectors_outcome {sectorCount : Nat} {reply : Reply} {ok : Bool}
    (h : a.writeSectors portIndex sectorCount data reply = some (ok, a')) :
    a.Outcome portIndex sectorCount a' := by
  refine outcome_of_call Prod.snd h rfl fun {m} h => ?_
  obtain ⟨m₁, hfill, h⟩ := Option.map_eq_some_iff.mp h
  cases h
  have hpmm := fillBuffer_pmm hfill
  exact ⟨_, rfl, hpmm⟩

theorem next_outcome (h : a.next t = some a') : a.Outcome t.portIndex t.sectorCount a' := by
  cases t with
  | read portIndex sectorCount reply =>
    obtain ⟨⟨ok, data, b⟩, hread, rfl⟩ := Option.map_eq_some_iff.mp h
    exact readSectors_outcome hread
  | write portIndex sectorCount data reply =>
    obtain ⟨⟨ok, b⟩, hwrite, rfl⟩ := Option.map_eq_some_iff.mp h
    exact writeSectors_outcome hwrite

/-- The frames in use after a call: `mapPage` gives none back. -/
theorem next_usedFrames (h : a.next t = some a') : a'.machine.pmm.usedFrames =
    a.machine.pmm.usedFrames + a.tableFrames t + a.bufferFrames t := by
  cases next_outcome h with
  | refused hrefuse => simp [tableFrames, bufferFrames, hrefuse]
  | exhausted hrefuse hempty =>
    simp [tableFrames, bufferFrames, hrefuse, allocFrame_of_freeSet_empty hempty, hempty]
  | mapped hrefuse frame hframe halloc m machine hmap hpmm =>
    have hused := (Machine.mapPage_takesFrames hmap).usedFrames_le
    have htake : (a.machine.pmm.take frame).usedFrames = a.machine.pmm.usedFrames + 1 := rfl
    have hne : a.machine.pmm.freeSet ≠ ∅ := Finset.ne_empty_of_mem hframe
    simp only [tableFrames, bufferFrames, hrefuse, halloc, (noFrame_ne frame).symm, hmap, hpmm, hne,
      Bool.false_eq_true, if_false, or_false]
    dsimp only at hused
    omega

/-- A call leaves the number of frames in use as it was, page tables apart, only if it is
refused or there is no frame left. -/
theorem conserves_iff (h : a.next t = some a') :
    a'.machine.pmm.usedFrames = a.machine.pmm.usedFrames + a.tableFrames t ↔
      a.refuses t.portIndex t.sectorCount = true ∨ a.machine.pmm.freeSet = ∅ := by
  rw [next_usedFrames h, bufferFrames]
  split_ifs with hnone <;> simp [hnone]

/-! ### Many transfers -/

def run (a : Ahci) : List Transfer → Option Ahci
  | [] => some a
  | t :: rest => (a.next t).bind fun a => a.run rest

/-- What the calls of a run take together. -/
def total (frames : Ahci → Transfer → Nat) (a : Ahci) : List Transfer → Nat
  | [] => 0
  | t :: rest => frames a t + (a.next t).elim 0 fun a => total frames a rest

variable {ts : List Transfer}

theorem run_usedFrames (h : a.run ts = some a') : a'.machine.pmm.usedFrames =
    a.machine.pmm.usedFrames + total tableFrames a ts + total bufferFrames a ts := by
  induction ts generalizing a with
  | nil =>
    cases h
    rfl
  | cons t rest ih =>
    obtain ⟨a₁, hnext, h⟩ := Option.bind_eq_some_iff.mp h
    have hstep := next_usedFrames hnext
    have hrest := ih h
    simp only [total, hnext, Option.elim_some]
    omega

theorem next_refuses (h : a.next t = some a') : a'.refuses = a.refuses := by
  cases next_outcome h <;> rfl

theorem next_eq_self (h : a.next t = some a')
    (hnone : a.refuses t.portIndex t.sectorCount = true ∨ a.machine.pmm.freeSet = ∅) : a' = a := by
  cases next_outcome h with
  | refused | exhausted => rfl
  | mapped hrefuse frame hframe =>
    rcases hnone with hrefuse' | hempty
    · rw [hrefuse] at hrefuse'
      cases hrefuse'
    · exact absurd hempty (Finset.ne_empty_of_mem hframe)

/-- **A run leaves the number of frames in use as it was**, page tables apart, only if all its
calls are refused or there was no frame from the start. -/
theorem run_conserves_iff (h : a.run ts = some a') :
    a'.machine.pmm.usedFrames = a.machine.pmm.usedFrames + total tableFrames a ts ↔
      (∀ t ∈ ts, a.refuses t.portIndex t.sectorCount = true) ∨ a.machine.pmm.freeSet = ∅ := by
  rw [run_usedFrames h, Nat.add_eq_left]
  induction ts generalizing a with
  | nil => simp [total]
  | cons t rest ih =>
    obtain ⟨a₁, hnext, h⟩ := Option.bind_eq_some_iff.mp h
    simp only [total, hnext, Option.elim_some, Nat.add_eq_zero_iff, ih h, List.forall_mem_cons,
      bufferFrames]
    by_cases hnone : a.refuses t.portIndex t.sectorCount = true ∨ a.machine.pmm.freeSet = ∅
    · -- the call changes nothing
      obtain rfl := next_eq_self hnext hnone
      rw [if_pos hnone]
      tauto
    · rw [if_neg hnone]
      tauto

/-- A call takes at most four frames: for the buffer and for three tables. -/
theorem next_card (h : a.next t = some a') :
    a.machine.pmm.freeSet.card ≤ a'.machine.pmm.freeSet.card + 4 := by
  cases next_outcome h with
  | refused | exhausted => exact Nat.le_add_right _ 4
  | mapped hrefuse frame hframe halloc m machine hmap hpmm =>
    have htables := Machine.mapPage_card hmap
    have hbuffer := Machine.card_allocFrame a.machine.pmm
    rw [halloc] at hbuffer
    dsimp only at htables hbuffer ⊢
    rw [hpmm]
    omega

/-- **While there are frames, every call that is not refused takes one** for its buffer, and
none comes back. -/
theorem run_takes (hfree : 4 * ts.length ≤ a.machine.pmm.freeSet.card) (h : a.run ts = some a') :
    a'.machine.pmm.usedFrames = a.machine.pmm.usedFrames + total tableFrames a ts +
      ts.countP fun t => !a.refuses t.portIndex t.sectorCount := by
  rw [run_usedFrames h, Nat.add_left_cancel_iff]
  induction ts generalizing a with
  | nil => rfl
  | cons t rest ih =>
    obtain ⟨a₁, hnext, h⟩ := Option.bind_eq_some_iff.mp h
    have hcard := next_card hnext
    rw [List.length_cons] at hfree
    have hne : a.machine.pmm.freeSet ≠ ∅ := fun hempty => by
      rw [hempty, Finset.card_empty] at hfree
      omega
    simp only [total, hnext, Option.elim_some, List.countP_cons, bufferFrames, hne, or_false,
      ih (by omega) h, next_refuses hnext]
    cases a.refuses t.portIndex t.sectorCount <;> simp [Nat.add_comm]

/-! ### One transfer -/

/-- Tables in frames 0 to 3 lead to the I/O buffer page of port 0, which is mapped to frame
4 already; of eight frames the last three are free. -/
def mappedDisk : Ahci where
  initialized := true
  portHasDevice := fun i => i == 0
  machine :=
    { phys := fun frame i =>
        if frame = 0 ∧ i = 510 then 0x0003
        else if frame = 0 ∧ i = 511 then 0x1003
        else if frame = 1 ∧ i = 511 then 0x2003
        else if frame = 2 ∧ i = 40 then 0x3003
        else if frame = 3 ∧ i = 0 then 0x4013 else 0
      cr3 := 0
      pmm := ⟨fun _ => 0x1F, 8, 5, 0⟩ }

/-- One sector is read. -/
def oneRead : Transfer := .read 0 1 ⟨true, mappedDisk.machine.phys⟩

theorem oneRead_isSome : (mappedDisk.next oneRead).isSome := by decide +kernel

def afterRead : Ahci := (mappedDisk.next oneRead).get oneRead_isSome

theorem afterRead_usedFrames :
    afterRead.machine.pmm.usedFrames = 6 ∧ mappedDisk.tableFrames oneRead = 0 := by
  decide +kernel

theorem mappedDisk_conserves_iff :
    afterRead.machine.pmm.usedFrames =
        mappedDisk.machine.pmm.usedFrames + mappedDisk.tableFrames oneRead ↔
      mappedDisk.refuses 0 1 = true ∨ mappedDisk.machine.pmm.freeSet = ∅ :=
  conserves_iff (t := oneRead) (Option.some_get oneRead_isSome).symm

/-- The call succeeds, no table is needed, and one more frame is in use after it. -/
theorem not_conserves : ¬ ∀ a t a', Ahci.next a t = some a' →
    a'.machine.pmm.usedFrames = a.machine.pmm.usedFrames + a.tableFrames t := by
  intro h
  have hused := h mappedDisk oneRead afterRead (Option.some_get oneRead_isSome).symm
  rw [afterRead_usedFrames.1, afterRead_usedFrames.2] at hused
  exact absurd hused (by decide)

end Ahci

end WengShiOS.Drivers
