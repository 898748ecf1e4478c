import WengShiOS.Mm.UserMemory

/-! # Bytes of user memory

The pages that a process owns are in frames of their own, so they are a memory of bytes:
a store changes the byte at its address and no other one (`Owned.storeBytes`), and mapping
further pages changes none (`RangeAdded.readByte`). -/

namespace WengShiOS.Mm

open Math Machine Function

variable {spaces : List Nat} {m m' m'' : Machine} {F N k n w addr flags : Nat} {pages : Set Nat}
  {data : List UInt8} {f g : Nat → Option UInt8 → Option UInt8}

/-- The stores of `memcpy` and `memset`, one byte after the other. -/
def Machine.storeBytes (m : Machine) (addr : Nat) : List UInt8 → Option Machine
  | [] => some m
  | b :: rest => (m.writeByte addr b).bind fun m => m.storeBytes (wrap (addr + 1)) rest

/-! ### One byte -/

theorem Machine.access_user (h : w / pageSize < userPages) :
    m.access w = (pageAt m (w / pageSize)).map Prod.fst := by
  have hcanon : canonical w := by
    simp only [userPages, pageSize] at h
    exact .inl (by omega)
  rw [access, if_pos hcanon, walk, indices_eq_pagePath, pageAt, view, Option.map_map]
  rfl

theorem Machine.readByte_user (h : w / pageSize < userPages) :
    m.readByte w = (pageAt m (w / pageSize)).map fun page =>
      byteOf (m.phys page.1 (w % 4096 / 8)) (w % 8) := by
  rw [readByte, access_user h, Option.map_map]
  rfl

/-- The bytes of a memory after `data` was stored from `addr` on. -/
def stored (addr : Nat) (data : List UInt8) (w : Nat) (old : Option UInt8) : Option UInt8 :=
  if addr ≤ w ∧ w < addr + data.length then data[w - addr]? else old

/-- What stores do to the pages that a process owns: the byte at `w` becomes `f w` of what
it was, and nothing else changes. -/
structure Stores (spaces : List Nat) (m m' : Machine) (pages : Set Nat)
    (f : Nat → Option UInt8 → Option UInt8) : Prop where
  space : Space spaces m'
  cr3 : m'.cr3 = m.cr3
  pmm : m'.pmm = m.pmm
  view : ∀ s ∈ spaces, ∀ p, PagePath p → view m'.phys s p = view m.phys s p
  owned : ∀ pages', Owned spaces m pages' → Owned spaces m' pages'
  tables : ∀ {s p T}, Named m'.phys spaces s p T ↔ Named m.phys spaces s p T
  memory : ∀ {F}, (∀ n ∈ pages, ∀ flags, pageAt m n ≠ some (F, flags)) → m'.phys F = m.phys F
  byte : ∀ w, w / pageSize ∈ pages → m'.readByte w = f w (m.readByte w)

theorem Stores.pageAt (h : Stores spaces m m' pages f) (hcr3 : m.cr3 ∈ spaces)
    (hn : n < userPages) : pageAt m' n = pageAt m n := by
  rw [Mm.pageAt, Mm.pageAt, h.cr3]
  exact h.view _ hcr3 _ (pagePath_user hn)

theorem Stores.refl (h : Space spaces m) (pages : Set Nat) :
    Stores spaces m m pages fun _ old => old :=
  ⟨h, rfl, rfl, fun _ _ _ _ => rfl, fun _ => id, .rfl, fun _ => rfl, fun _ _ => rfl⟩

/-- Some stores, and then others. -/
theorem Stores.trans (h : Stores spaces m m' pages f) (h' : Stores spaces m' m'' pages g)
    (hcr3 : m.cr3 ∈ spaces) (huser : ∀ n ∈ pages, n < userPages) :
    Stores spaces m m'' pages fun w old => g w (f w old) where
  space := h'.space
  cr3 := h'.cr3.trans h.cr3
  pmm := h'.pmm.trans h.pmm
  view s hs p hp := (h'.view s hs p hp).trans (h.view s hs p hp)
  owned pages' o := h'.owned pages' (h.owned pages' o)
  tables := h'.tables.trans h.tables
  memory hF := by
    refine (h'.memory fun n hn flags => ?_).trans (h.memory hF)
    rw [h.pageAt hcr3 (huser n hn)]
    exact hF n hn flags
  byte w hw := by rw [h'.byte w hw, h.byte w hw]

/-- Stores take no frame and leave all tables. -/
theorem Stores.framesFor (h : Stores spaces m m' pages f) (hcr3 : m.cr3 ∈ spaces) {list : List Nat}
    (hframes : FramesFor m list) : FramesFor m' list := by
  have hsub : absentTables m' list ⊆ absentTables m list := by
    intro p hp
    obtain ⟨⟨n, hn, k, hlow, hhigh, rfl⟩, habsent⟩ := mem_absentTables.mp hp
    refine mem_absentTables.mpr ⟨⟨n, hn, k, hlow, hhigh, rfl⟩, ?_⟩
    by_contra hsome
    obtain ⟨T, hT⟩ := Option.ne_none_iff_exists'.mp hsome
    have hnamed := h.tables.mpr ⟨hcr3, tablePath_take (hframes.user n hn) hhigh, hT⟩
    rw [h.cr3, hnamed.table] at habsent
    cases habsent
  have hcard := Finset.card_le_card hsub
  have hold := hframes.frames
  exact ⟨hframes.user, by rw [h.pmm]; omega⟩

/-- A frame that is no table is written. -/
theorem Outside.owned_withFrame {words : Nat → Nat} (hout : Outside spaces m N)
    (h : Space spaces m) (o : Owned spaces m pages) : Owned spaces (m.withFrame N words) pages := by
  have hpage : ∀ n ∈ pages, pageAt (m.withFrame N words) n = pageAt m n := fun n hn =>
    hout.view_withFrame words h.layout.forest.active (pagePath_user (o.user n hn))
  refine ⟨o.user, fun n hn => ?_, fun n hn => ?_, fun n hn n' hn' F flags flags' => ?_⟩
  · obtain ⟨F, flags, hF, hused, houtF⟩ := o.frame n hn
    refine ⟨F, flags, (hpage n hn).trans hF, hused, fun s p hT => ?_⟩
    exact houtF s p (hout.named_withFrame.mp hT)
  · exact hout.clear h.layout.forest.active (pagePath_user (o.user n hn)) (o.clear n hn)
  · rw [hpage n hn, hpage n' hn']
    exact o.apart n hn n' hn' F flags flags'

theorem Outside.userTables_withFrame {words : Nat → Nat} (hout : Outside spaces m N)
    (h : UserTables spaces m) : UserTables spaces (m.withFrame N words) := by
  intro s p T j hT hlen hj huser hpoint
  have hold := hout.named_withFrame.mp hT
  rw [hout.withFrame_phys _ hold] at hpoint ⊢
  exact h s p T j hold hlen hj huser hpoint

/-- A byte is stored into a page that the process owns. -/
theorem Owned.writeByte (h : Space spaces m) (o : Owned spaces m pages) (hw : w / pageSize ∈ pages)
    (b : UInt8) : ∃ m', m.writeByte w b = some m' ∧ Stores spaces m m' pages (stored w [b]) := by
  obtain ⟨F, flags, hF, -, hout⟩ := o.frame _ hw
  have haccess : m.access w = some F := by
    rw [access_user (o.user _ hw), hF, Option.map_some]
  set word := m.phys F (w % 4096 / 8) with hword
  set words := update (m.phys F) (w % 4096 / 8)
    (word - word / 256 ^ (w % 8) % 256 * 256 ^ (w % 8) + b.toNat * 256 ^ (w % 8)) with hwords
  have hrun : m.writeByte w b = some (m.withFrame F words) := by
    rw [Machine.writeByte, haccess, Option.map_some]
    rfl
  refine ⟨_, hrun, ⟨hout.layout h.layout, hout.userTables_withFrame h.userTables⟩, rfl, rfl, ?_, ?_,
    ?_, ?_, ?_⟩
  · exact fun s hs p hp => hout.view_withFrame words hs hp
  · exact fun pages' o' => hout.owned_withFrame h o'
  · exact hout.named_withFrame
  · intro G hG
    apply update_of_ne
    rintro rfl
    exact hG _ hw _ hF
  · intro w' hw'
    obtain ⟨F', flags', hF', -, -⟩ := o.frame _ hw'
    have hpage : pageAt (m.withFrame F words) (w' / pageSize) = pageAt m (w' / pageSize) :=
      hout.view_withFrame words h.layout.forest.active (pagePath_user (o.user _ hw'))
    rw [readByte_user (o.user _ hw'), readByte_user (o.user _ hw'), hpage, hF',
      Option.map_some, Option.map_some, stored]
    dsimp only [List.length_singleton]
    by_cases hsame : w' / pageSize = w / pageSize
    · -- the same page: the word and the byte in it decide
      obtain ⟨rfl, -⟩ := Prod.mk.inj (Option.some.inj (hF.symm.trans (hsame ▸ hF')))
      have hphys : (m.withFrame F words).phys F = words := update_self ..
      rw [hphys, hwords]
      simp only [pageSize] at hsame
      by_cases hidx : w' % 4096 / 8 = w % 4096 / 8
      · rw [hidx, update_self, byteOf_replace]
        by_cases hbyte : w' % 8 = w % 8
        · obtain rfl : w' = w := by omega
          rw [if_pos rfl, if_pos ⟨le_rfl, Nat.lt_succ_self _⟩, Nat.sub_self]
          rfl
        · rw [if_neg hbyte, if_neg fun hin => hbyte (by rw [show w' = w by omega])]
      · rw [update_of_ne hidx, if_neg fun hin => hidx (by rw [show w' = w by omega])]
    · -- another page is in another frame
      have hne : F' ≠ F := by
        rintro rfl
        exact hsame (o.apart _ hw' _ hw _ _ _ hF' hF)
      have hphys : (m.withFrame F words).phys F' = m.phys F' := update_of_ne hne _ _
      rw [hphys, if_neg]
      rintro ⟨hle, hlt⟩
      obtain rfl : w' = w := by omega
      exact hsame rfl

/-! ### Many bytes -/

/-- The first byte, and then the others. -/
theorem stored_cons (addr w : Nat) (b : UInt8) (data : List UInt8) (old : Option UInt8) :
    stored (addr + 1) data w (stored addr [b] w old) = stored addr (b :: data) w old := by
  simp only [stored, List.length_cons, List.length_nil, Nat.zero_add]
  rcases Nat.lt_trichotomy w addr with hlt | rfl | hgt
  · rw [if_neg (by omega), if_neg (by omega), if_neg (by omega)]
  · simp
  · have hsub : w - addr = (w - (addr + 1)) + 1 := by omega
    by_cases hin : w < addr + (data.length + 1)
    · rw [if_pos (by omega), if_pos (by omega), hsub, List.getElem?_cons_succ]
    · rw [if_neg (by omega), if_neg (by omega), if_neg (by omega)]

/-- **Stores into owned pages.** They succeed, and change just the bytes they are for. -/
theorem Owned.storeBytes (h : Space spaces m) (o : Owned spaces m pages) (data : List UInt8)
    (hin : ∀ w, addr ≤ w → w < addr + data.length → w / pageSize ∈ pages) :
    ∃ m', m.storeBytes addr data = some m' ∧ Stores spaces m m' pages (stored addr data) := by
  induction data generalizing m addr with
  | nil =>
    have hnone : stored addr [] = fun _ old => old := by
      funext w old
      apply if_neg
      simp only [List.length_nil]
      omega
    rw [hnone]
    exact ⟨m, rfl, .refl h pages⟩
  | cons b data ih =>
    have haddr : addr / pageSize ∈ pages := by
      apply hin addr le_rfl
      simp only [List.length_cons]
      omega
    obtain ⟨m₁, hrun₁, h₁⟩ := o.writeByte h haddr b
    have hwrap : wrap (addr + 1) = addr + 1 := by
      have := o.user _ haddr
      simp only [userPages, pageSize] at this
      exact wrap_of_lt (by omega)
    have hrest : ∀ w, addr + 1 ≤ w → w < addr + 1 + data.length → w / pageSize ∈ pages := by
      intro w hle hlt
      apply hin w (by omega)
      simp only [List.length_cons]
      omega
    obtain ⟨m', hrun', h'⟩ := ih h₁.space (h₁.owned _ o) hrest
    refine ⟨m', ?_, ?_⟩
    · rw [storeBytes, hrun₁, Option.bind_some, hwrap]
      exact hrun'
    · have := h₁.trans h' h.layout.forest.active o.user
      simpa only [stored_cons] using this

/-! ### More pages -/

section Acquires

variable {pages' : Set Nat}

/-- Pages that are added leave the bytes of the others as they are. -/
theorem Acquires.readByte (a : Acquires spaces m m' pages) (hcr3 : m.cr3 ∈ spaces)
    (o : Owned spaces m pages') (hw : w / pageSize ∈ pages') (hnot : w / pageSize ∉ pages) :
    m'.readByte w = m.readByte w := by
  obtain ⟨F, flags, hF, hused, hout⟩ := o.frame _ hw
  rw [readByte_user (o.user _ hw), readByte_user (o.user _ hw),
    a.pageAt_of_not_mem hcr3 (o.user _ hw) hnot, hF, Option.map_some, Option.map_some,
    a.memory hused hout]

/-- Stores into the pages that were added. -/
theorem Acquires.stores (a : Acquires spaces m m' pages) (h : Stores spaces m' m'' pages' f)
    (hsub : pages' ⊆ pages) (hcr3 : m.cr3 ∈ spaces) :
    Acquires spaces m m'' pages := by
  have hcr3' : m'.cr3 ∈ spaces := a.cr3 ▸ hcr3
  refine ⟨h.space, h.cr3.trans a.cr3, a.user, ?_, ?_, ?_, ?_, ?_, ?_⟩
  · intro n hn
    rw [h.pageAt hcr3' (a.user n hn)]
    exact a.fresh n hn
  · intro s hs p hp hne
    rw [h.view s hs p hp, a.view s hs p hp hne]
  · exact fun pages₀ o => h.owned _ (a.owned _ o)
  · exact fun hT => a.tables (h.tables.mp hT)
  · intro F hF hout
    rw [h.memory, a.memory hF hout]
    intro n hn flags heq
    obtain ⟨N, hN, flags', hpage⟩ := a.fresh n (hsub hn)
    obtain ⟨rfl, -⟩ := Prod.mk.inj (Option.some.inj (hpage.symm.trans heq))
    exact hF hN
  · rw [h.pmm]
    exact a.free

end Acquires

end WengShiOS.Mm
