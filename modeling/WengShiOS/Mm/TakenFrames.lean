import WengShiOS.Mm.HugePages

/-! # Frames that mapping takes

A call for a page takes a frame for the page and one for each table that is missing on its
way. With enough frames for all of them, tables are added and one page is mapped
(`mapPage_maps`), and of the frames that were free all others are left. -/

namespace WengShiOS.Mm

open Math Pmm Function Machine Finset

variable {κ : Type} {ν : Naming κ} {roots : List Nat} {m m' : Machine} {s T G F N i j d v : Nat}
  {p q r : List Nat}

/-- What `mapPage` does: tables are added, and the page is mapped. -/
structure MapsPage (ν : Naming κ) (roots : List Nat) (m m' : Machine) (v physicalAddr flags : Nat) :
    Prop where
  takes : TakesTables roots m m'
  forest : Forest ν roots m'
  cr3 : m'.cr3 = m.cr3
  view : view m'.phys m.cr3 (indices v) = some (pageView physicalAddr flags)
  table : ∃ G, Named m'.phys roots m.cr3 [v / 2 ^ 39 % 512, v / 2 ^ 30 % 512, v / 2 ^ 21 % 512] G
  named : ∀ {s p T}, Named m.phys roots s p T → Named m'.phys roots s p T
  /-- no frame is taken but for a table that was missing -/
  left : ∀ extra, missing m.phys m.cr3 (indices v) + extra ≤ m.pmm.freeSet.card →
    extra ≤ m'.pmm.freeSet.card

/-- `mapPage` with enough frames for the tables. -/
theorem mapPage_maps (physicalAddr flags : Nat) (f : Forest ν roots m)
    (hv : v / 2 ^ 39 % 512 ≠ recursiveIndex) (hsplit : Splittable m.phys m.cr3 (indices v))
    (hmissing : missing m.phys m.cr3 (indices v) ≤ m.pmm.freeSet.card) :
    ∃ m', m.mapPage v physicalAddr flags = some m' ∧
      MapsPage ν roots m m' v physicalAddr flags := by
  have hp := pagePath_indices hv
  obtain ⟨m₁, G, f₁, g, t, hG, hrun, hleft⟩ :=
    mapPage_forest physicalAddr flags f rfl hp hmissing hsplit
  refine ⟨_, hrun, t.trans (f₁.takesTables_setWord hG rfl), f₁.setWord hG rfl, g.cr3, ?_,
    ⟨G, (f₁.named_setWord hG rfl).mpr hG⟩, fun hT => (f₁.named_setWord hG rfl).mpr (g.named hT), hleft⟩
  have hnew := (f₁.lookup_setWord (i := v / 2 ^ 12 % 512) (w := pageEntry physicalAddr flags) hG rfl
    hG.root).1 _ hG.path hG.table
  rw [present_pageEntry, if_pos rfl] at hnew
  exact congrArg (Option.map Leaf.view) hnew

/-! ### Frames for pages -/

theorem frame_pageView {flags : Nat} (hN : N < 2 ^ 40) (hflags : flags < pageSize) :
    (pageView (N * frameSize) flags).1 = N := by
  have hor : flags ||| pagePresent < pageSize :=
    Nat.or_lt_two_pow (n := 12) hflags (by decide)
  change frameOf (N * frameSize / pageSize * pageSize ||| flags ||| pagePresent) = N
  rw [show frameSize = pageSize from rfl, Nat.mul_div_cancel N (by decide), Nat.or_assoc,
    mul_pageSize_or hor, frameOf_eq]
  generalize flags ||| pagePresent = g at hor
  simp only [pageSize] at hor ⊢
  omega

theorem TakesTables.of_take (h : TakesTables roots { m with pmm := m.pmm.take N } m') :
    TakesTables roots m m' := by
  refine ⟨fun hT => ?_, fun hT hlen hj hpoint => ?_, fun hF hout => ?_, fun F hF => ?_⟩
  · exact (h.taken hT).imp_right (.imp_left mem_of_mem_take)
  · refine (h.entry hT hlen hj hpoint).imp_right ?_
    rintro ⟨G, hG, hnew⟩
    exact ⟨G, mem_of_mem_take hG, hnew⟩
  · exact h.memory (fun hin => hF (mem_of_mem_take hin)) hout
  · exact mem_of_mem_take (h.free hF)

/-- Contents of a frame that was free. -/
theorem TakesTables.withFrame {words : Nat → Nat} (h : TakesTables roots m m')
    (hN : N ∈ m.pmm.freeSet) (hout : Outside roots m' N) :
    TakesTables roots m (m'.withFrame N words) where
  taken hT := h.taken (hout.named_withFrame.mp hT)
  entry hT hlen hj hpoint := by
    have hold := hout.named_withFrame.mp hT
    rw [hout.withFrame_phys _ hold] at hpoint ⊢
    exact h.entry hold hlen hj hpoint
  memory {F} hF hout' := by
    have hne : F ≠ N := by
      rintro rfl
      exact hF hN
    rw [← h.memory hF hout']
    exact update_of_ne hne _ _
  free := h.free

/-- A frame is taken, and its page mapped: the first part of `allocAndMapPage` and of
`createAddressSpace`. -/
theorem mapPage_allocFrame {flags : Nat} (f : Forest ν roots m)
    (hv : v / 2 ^ 39 % 512 ≠ recursiveIndex) (hsplit : Splittable m.phys m.cr3 (indices v))
    (hneeds : missing m.phys m.cr3 (indices v) + 1 ≤ m.pmm.freeSet.card) (hflags : flags < pageSize) :
    ∃ N ∈ m.pmm.freeSet, ∃ m', m.pmm.allocFrame = (N * frameSize, m.pmm.take N) ∧
      { m with pmm := m.pmm.take N }.mapPage v (N * frameSize) flags = some m' ∧
      MapsPage ν roots { m with pmm := m.pmm.take N } m' v (N * frameSize) flags ∧
      N ∉ m'.pmm.freeSet ∧ Outside roots m' N ∧
      view m'.phys m'.cr3 (indices v) = some (N, (pageView (N * frameSize) flags).2) := by
  obtain ⟨N, hN, halloc⟩ := allocFrame_eq (card_pos.mp (by omega : 0 < m.pmm.freeSet.card))
  have hmissing : missing m.phys m.cr3 (indices v) ≤ (m.pmm.take N).freeSet.card := by
    rw [freeSet_take, card_erase_of_mem hN]
    omega
  obtain ⟨m', hmap, maps⟩ := mapPage_maps (N * frameSize) flags (f.take N) hv hsplit hmissing
  refine ⟨N, hN, m', halloc, hmap, maps, fun hin => ?_, fun s p hT => ?_, ?_⟩
  · have := maps.takes.free hin
    rw [freeSet_take] at this
    exact ne_of_mem_erase this rfl
  · -- the frame was free before, and is not one of those that were left
    rcases maps.takes.taken hT with hT | ⟨hT, -⟩
    · exact f.used hT hN
    · rw [freeSet_take] at hT
      exact ne_of_mem_erase hT rfl
  · rw [maps.cr3]
    exact maps.view.trans (congrArg some (Prod.ext (frame_pageView (f.lt_of_free hN) hflags) rfl))

theorem createAddressSpace_takes (f : Forest ν roots m)
    (hsplit : Splittable m.phys m.cr3 (indices scratchVirt))
    (hneeds : missing m.phys m.cr3 (indices scratchVirt) + 1 ≤ m.pmm.freeSet.card) :
    ∃ N ∈ m.pmm.freeSet, ∃ m', m.createAddressSpace = some (N * frameSize, m') ∧
      TakesTables roots m m' ∧ N ∉ m'.pmm.freeSet ∧ NewPlm4 m' N := by
  have hp : PagePath (indices scratchVirt) := pagePath_indices (by decide)
  obtain ⟨N, hN, m₂, halloc, hmap, maps, hnot, hout, hview⟩ :=
    mapPage_allocFrame f (by decide) hsplit hneeds (by decide : pageWritable < pageSize)
  have f₂ := maps.forest
  have hcr3 : m₂.cr3 = m.cr3 := maps.cr3
  obtain ⟨G, hG⟩ := maps.table
  rw [← hcr3] at hG
  -- the new PML4 is filled through the scratch page
  have f₃ : Forest ν roots (m₂.withFrame N (plm4Words m₂ N)) := hout.forest f₂
  have hG₃ : Named (m₂.withFrame N (plm4Words m₂ N)).phys roots m₂.cr3 [511, 511, 48] G :=
    hout.named_withFrame.mpr hG
  have hclear : Clear (m₂.withFrame N (plm4Words m₂ N)).phys m₂.cr3 [511, 511, 48, 0] :=
    clear_of_table (q := [511, 511, 48]) hG₃.table
  obtain ⟨G', hG', hunmap⟩ : ∃ G', Named (m₂.withFrame N (plm4Words m₂ N)).phys roots m₂.cr3
      [511, 511, 48] G' ∧ (m₂.withFrame N (plm4Words m₂ N)).unmapPage scratchVirt =
        some ((m₂.withFrame N (plm4Words m₂ N)).setWord G' 0 0) := by
    rcases unmapPage_forest f₃ indices_scratchVirt (indices_scratchVirt ▸ hp) hclear with
      ⟨-, hnone⟩ | h
    · have hview₃ : view (m₂.withFrame N (plm4Words m₂ N)).phys m₂.cr3 [511, 511, 48, 0] = none :=
        congrArg (Option.map Leaf.view) hnone
      rw [← indices_scratchVirt, hout.view_withFrame _ f₂.active hp, hview] at hview₃
      cases hview₃
    · exact h
  have hGN : G' ≠ N := hout.ne (hout.named_withFrame.mp hG')
  have hGcr3 : m₂.cr3 ≠ G' := by
    intro h
    have hlength := f₃.length_eq ⟨f₃.active, .nil, congrArg some h⟩ hG'
    simp at hlength
  refine ⟨N, hN, _, ?_,
    (maps.takes.of_take.withFrame hN hout).trans (f₃.takesTables_setWord (i := 0) (w := 0) hG' rfl),
    hnot,
    (newPlm4_withFrame (f.lt_of_free hN) (hout.ne (.nil f₂.active))).setWord hGN.symm hGcr3⟩
  rw [createAddressSpace, halloc]
  dsimp only
  rw [if_neg (noFrame_ne N).symm, hmap, Option.bind_some, f₂.write_plm4 hout hview, hunmap]
  rfl

end WengShiOS.Mm
