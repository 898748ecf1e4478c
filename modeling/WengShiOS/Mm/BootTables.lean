import WengShiOS.Mm.AddressSpaceInvariant

/-! # The tables at boot

`setup_page_tables` computed: which entries the four tables have, that they are the
tables of one address space with the layout that all later steps keep, and how the
kernel half is translated. -/

namespace WengShiOS.Mm

open Math Function

variable {phys : Nat → Nat → Nat} {p4Table T i j k : Nat} {p : List Nat}

/-- The entries of the four tables. -/
structure BootEntries (phys : Nat → Nat → Nat) (p4Table : Nat) : Prop where
  p4 : ∀ i < 512, phys p4Table i =
    if i = 0 then (p4Table + 1) * frameSize ||| 0b111
    else if i = 510 then p4Table * frameSize ||| 0b11
    else if i = 511 then (p4Table + 2) * frameSize ||| 0b11
    else 0
  p3Lo : ∀ i < 512, phys (p4Table + 1) i = if i = 0 then (p4Table + 3) * frameSize ||| 0b111 else 0
  p3Hi : ∀ i < 512, phys (p4Table + 2) i = if i = 510 then (p4Table + 3) * frameSize ||| 0b11 else 0
  p2 : ∀ i < 512, phys (p4Table + 3) i = 512 * i * frameSize ||| 0b10000011

/-! ### What the stores leave -/

/-- A store into the lower half of an empty word. -/
theorem store32_self {value : Nat} (hvalue : value < 2 ^ 32) (hzero : phys k i = 0) :
    store32 phys k i value k i = value := by
  rw [store32, update_self, update_self, hzero, Nat.mod_eq_of_lt hvalue]
  simp

theorem store32_of_ne {value : Nat} (h : ¬ (T = k ∧ j = i)) :
    store32 phys k i value T j = phys T j := by
  unfold store32
  by_cases hT : T = k
  · subst hT
    rw [update_self, update_of_ne fun hj => h ⟨rfl, hj⟩]
  · rw [update_of_ne hT]

/-- The loop `map_p2_table` after `n` rounds. -/
theorem foldl_store32 (value : Nat → Nat) (n : Nat) (hvalue : ∀ i < n, value i < 2 ^ 32)
    (hzero : ∀ i < n, phys k i = 0) :
    (∀ i < n, (List.range n).foldl (fun phys ecx => store32 phys k ecx (value ecx)) phys k i =
      value i) ∧
    ∀ T j, ¬ (T = k ∧ j < n) →
      (List.range n).foldl (fun phys ecx => store32 phys k ecx (value ecx)) phys T j = phys T j := by
  induction n with
  | zero => exact ⟨fun i hi => absurd hi (Nat.not_lt_zero i), fun _ _ _ => rfl⟩
  | succ n ih =>
    obtain ⟨hdone, hrest⟩ := ih (fun i hi => hvalue i (hi.trans n.lt_succ_self))
      (fun i hi => hzero i (hi.trans n.lt_succ_self))
    rw [List.range_succ, List.foldl_append]
    refine ⟨fun i hi => ?_, fun T j hTj => ?_⟩
    · by_cases hin : i = n
      · subst hin
        refine store32_self (hvalue i hi) ?_
        rw [hrest k i fun h => lt_irrefl i h.2, hzero i hi]
      · exact (store32_of_ne fun h => hin h.2).trans (hdone i (by omega))
    · exact (store32_of_ne fun h => hTj ⟨h.1, by omega⟩).trans
        (hrest T j fun h => hTj ⟨h.1, by omega⟩)

/-- The values that are stored have 32 bits. -/
theorem frame_or_lt {frame flags : Nat} (hframe : frame < 2 ^ 20) (hflags : flags < pageSize) :
    frame * frameSize ||| flags < 2 ^ 32 := by
  have hor : frame * frameSize ||| flags = frame * frameSize + flags := mul_pageSize_or hflags
  rw [hor]
  simp only [pageSize, frameSize] at hflags ⊢
  omega

theorem bootEntries_setupPageTables (hlow : p4Table + 3 < 2 ^ 20)
    (hzero : ∀ k < 4, ∀ i < 512, phys (p4Table + k) i = 0) :
    BootEntries (setupPageTables p4Table phys) p4Table := by
  have hdir : ∀ i, 0x200000 * i = 512 * i * frameSize := fun i => by
    simp only [frameSize]
    omega
  unfold setupPageTables
  simp only [hdir]
  set q₁ := store32 phys p4Table 0 ((p4Table + 1) * frameSize ||| 0b111) with h₁
  set q₂ := store32 q₁ p4Table 511 ((p4Table + 2) * frameSize ||| 0b11) with h₂
  set q₃ := store32 q₂ p4Table 510 (p4Table * frameSize ||| 0b11) with h₃
  set q₄ := store32 q₃ (p4Table + 1) 0 ((p4Table + 3) * frameSize ||| 0b111) with h₄
  set q₅ := store32 q₄ (p4Table + 2) 510 ((p4Table + 3) * frameSize ||| 0b11) with h₅
  -- the first five stores, table by table
  have hp4 : ∀ i < 512, q₅ p4Table i = q₃ p4Table i := fun i hi => by
    rw [h₅, store32_of_ne (by omega), h₄, store32_of_ne (by omega)]
  have hp3Lo : ∀ i < 512, q₅ (p4Table + 1) i = q₄ (p4Table + 1) i := fun i hi => by
    rw [h₅, store32_of_ne (by omega)]
  have hother : ∀ k < 4, k ≠ 0 → ∀ i < 512, q₃ (p4Table + k) i = 0 := fun k hk hk0 i hi => by
    rw [h₃, store32_of_ne (by omega), h₂, store32_of_ne (by omega), h₁, store32_of_ne (by omega),
      hzero k hk i hi]
  have hp2 : ∀ i < 512, q₅ (p4Table + 3) i = 0 := fun i hi => by
    rw [h₅, store32_of_ne (by omega), h₄, store32_of_ne (by omega),
      hother 3 (by omega) (by omega) i hi]
  obtain ⟨hdone, hrest⟩ := foldl_store32 (fun ecx => 512 * ecx * frameSize ||| 0b10000011) 512
    (fun i hi => frame_or_lt (by omega) (by decide)) hp2
  refine ⟨fun i hi => ?_, fun i hi => ?_, fun i hi => ?_, hdone⟩
  · have hstart : phys p4Table i = 0 := hzero 0 (by omega) i hi
    rw [hrest _ _ (by omega), hp4 i hi, h₃, h₂, h₁]
    split_ifs with hi0 hi510 hi511
    · subst hi0
      rw [store32_of_ne (by omega), store32_of_ne (by omega),
        store32_self (frame_or_lt (by omega) (by decide)) hstart]
    · subst hi510
      refine store32_self (frame_or_lt (by omega) (by decide)) ?_
      rw [store32_of_ne (by omega), store32_of_ne (by omega), hstart]
    · subst hi511
      rw [store32_of_ne (by omega), store32_self (frame_or_lt (by omega) (by decide))]
      rw [store32_of_ne (by omega), hstart]
    · rw [store32_of_ne (by omega), store32_of_ne (by omega), store32_of_ne (by omega), hstart]
  · rw [hrest _ _ (by omega), hp3Lo i hi, h₄]
    split_ifs with hi0
    · subst hi0
      exact store32_self (frame_or_lt (by omega) (by decide)) (hother 1 (by omega) (by omega) 0 hi)
    · rw [store32_of_ne (by omega), hother 1 (by omega) (by omega) i hi]
  · have hstart : q₄ (p4Table + 2) i = 0 := by
      rw [h₄, store32_of_ne (by omega), hother 2 (by omega) (by omega) i hi]
    rw [hrest _ _ (by omega), h₅]
    split_ifs with hi510
    · subst hi510
      exact store32_self (frame_or_lt (by omega) (by decide)) hstart
    · rw [store32_of_ne (by omega), hstart]

/-! ### The tables and their names -/

/-- The entries of the directory are 2 MiB pages. -/
theorem hugeEntry_spec (hi : i < 512) :
    let e := 512 * i * frameSize ||| 0b10000011
    present e = true ∧ pageSizeBit e = true ∧ frameOf e = 512 * i ∧ e &&& 31 = 0b11 := by
  have he : 512 * i * frameSize ||| 0b10000011 = 512 * i * 4096 + 0b10000011 :=
    mul_pageSize_or (by decide)
  have h31 : ∀ n, n &&& 31 = n % 2 ^ 5 := fun n => Nat.and_two_pow_sub_one_eq_mod n 5
  simp only [he, present_eq, pageSizeBit_eq, frameOf_eq, h31, decide_eq_true_eq]
  refine ⟨by omega, by omega, by omega, by omega⟩

namespace BootEntries

variable (b : BootEntries phys p4Table) (hlow : p4Table + 3 < 2 ^ 20)

include b hlow

/-- The entries that point to tables. -/
theorem points :
    (pointsTo (phys p4Table 0) ∧ frameOf (phys p4Table 0) = p4Table + 1) ∧
    (pointsTo (phys p4Table 510) ∧ frameOf (phys p4Table 510) = p4Table) ∧
    (pointsTo (phys p4Table 511) ∧ frameOf (phys p4Table 511) = p4Table + 2) ∧
    (pointsTo (phys (p4Table + 1) 0) ∧ frameOf (phys (p4Table + 1) 0) = p4Table + 3) ∧
    (pointsTo (phys (p4Table + 2) 510) ∧ frameOf (phys (p4Table + 2) 510) = p4Table + 3) := by
  have key : ∀ {e frame flags : Nat}, e = frame * frameSize ||| flags → frame < 2 ^ 20 →
      flags < 128 → flags % 2 = 1 → pointsTo e ∧ frameOf e = frame := by
    rintro e frame flags rfl hframe hflags hodd
    obtain ⟨hpres, hps, hof⟩ := frame_or_spec (hframe.trans (by norm_num)) hflags hodd
    exact ⟨⟨hpres, hps⟩, hof⟩
  exact ⟨key (b.p4 0 (by decide)) (by omega) (by decide) (by decide),
    key (b.p4 510 (by decide)) (by omega) (by decide) (by decide),
    key (b.p4 511 (by decide)) (by omega) (by decide) (by decide),
    key (b.p3Lo 0 (by decide)) (by omega) (by decide) (by decide),
    key (b.p3Hi 510 (by decide)) (by omega) (by decide) (by decide)⟩

omit hlow in
/-- There are no others. -/
theorem pointsTo_cases (hi : i < 512) :
    (pointsTo (phys p4Table i) → i = 0 ∨ i = 510 ∨ i = 511) ∧
    (pointsTo (phys (p4Table + 1) i) → i = 0) ∧ (pointsTo (phys (p4Table + 2) i) → i = 510) ∧
    ¬ pointsTo (phys (p4Table + 3) i) := by
  have hzero : ¬ pointsTo 0 := by decide
  refine ⟨fun h => ?_, fun h => ?_, fun h => ?_, fun h => ?_⟩
  · by_contra hnot
    rw [b.p4 i hi, if_neg (by omega), if_neg (by omega), if_neg (by omega)] at h
    exact hzero h
  · by_contra hnot
    rw [b.p3Lo i hi, if_neg hnot] at h
    exact hzero h
  · by_contra hnot
    rw [b.p3Hi i hi, if_neg hnot] at h
    exact hzero h
  · have hps := h.2
    rw [b.p2 i hi, (hugeEntry_spec hi).2.1] at hps
    cases hps

/-- Outside the directory there are no huge pages. -/
theorem not_huge (hi : i < 512) :
    pageSizeBit (phys p4Table i) = false ∧ pageSizeBit (phys (p4Table + 1) i) = false ∧
      pageSizeBit (phys (p4Table + 2) i) = false := by
  have key : ∀ {frame flags : Nat}, frame < 2 ^ 20 → flags < 128 → flags % 2 = 1 →
      pageSizeBit (frame * frameSize ||| flags) = false := fun hframe hflags hodd =>
    (frame_or_spec (hframe.trans (by norm_num)) hflags hodd).2.1
  have hzero : pageSizeBit 0 = false := by decide
  rw [b.p4 i hi, b.p3Lo i hi, b.p3Hi i hi]
  refine ⟨?_, ?_, ?_⟩
  · split_ifs
    · exact key (by omega) (by decide) (by decide)
    · exact key (by omega) (by decide) (by decide)
    · exact key (by omega) (by decide) (by decide)
    · exact hzero
  · split_ifs
    · exact key (by omega) (by decide) (by decide)
    · exact hzero
  · split_ifs
    · exact key (by omega) (by decide) (by decide)
    · exact hzero

/-- The four tables have five names. -/
theorem tableAt_cases (hp : TablePath p) (hT : tableAt phys p4Table p = some T) :
    (p = [] ∧ T = p4Table) ∨ (p = [0] ∧ T = p4Table + 1) ∨ (p = [511] ∧ T = p4Table + 2) ∨
      (p = [0, 0] ∧ T = p4Table + 3) ∨ (p = [511, 510] ∧ T = p4Table + 3) := by
  obtain ⟨⟨-, hf0⟩, -, ⟨-, hf511⟩, ⟨-, hfLo⟩, -, hfHi⟩ := b.points hlow
  have hlt := hp.lt
  cases p with
  | nil => exact .inl ⟨rfl, by simpa using hT.symm⟩
  | cons i rest =>
    obtain ⟨hpoint, hT⟩ := tableAt_cons_eq_some.mp hT
    have hi : i = 0 ∨ i = 511 := by
      have := (b.pointsTo_cases (hlt i (by simp))).1 hpoint
      have hne : i ≠ 510 := fun h => hp.head (by simp [h, recursiveIndex])
      omega
    -- on both ways the next table has one entry, and then comes the directory
    rcases hi with rfl | rfl
    · rw [hf0] at hT
      cases rest with
      | nil => exact .inr (.inl ⟨rfl, by simpa using hT.symm⟩)
      | cons j rest =>
        obtain ⟨hpoint, hT⟩ := tableAt_cons_eq_some.mp hT
        obtain rfl := (b.pointsTo_cases (hlt j (by simp))).2.1 hpoint
        rw [hfLo] at hT
        cases rest with
        | nil => exact .inr (.inr (.inr (.inl ⟨rfl, by simpa using hT.symm⟩)))
        | cons k rest =>
          exact absurd (tableAt_cons_eq_some.mp hT).1 (b.pointsTo_cases (hlt k (by simp))).2.2.2
    · rw [hf511] at hT
      cases rest with
      | nil => exact .inr (.inr (.inl ⟨rfl, by simpa using hT.symm⟩))
      | cons j rest =>
        obtain ⟨hpoint, hT⟩ := tableAt_cons_eq_some.mp hT
        obtain rfl := (b.pointsTo_cases (hlt j (by simp))).2.2.1 hpoint
        rw [hfHi] at hT
        cases rest with
        | nil => exact .inr (.inr (.inr (.inr ⟨rfl, by simpa using hT.symm⟩)))
        | cons k rest =>
          exact absurd (tableAt_cons_eq_some.mp hT).1 (b.pointsTo_cases (hlt k (by simp))).2.2.2

theorem tableAt_directory :
    tableAt phys p4Table [0, 0] = some (p4Table + 3) ∧
      tableAt phys p4Table [511, 510] = some (p4Table + 3) := by
  obtain ⟨⟨h0, hf0⟩, -, ⟨h511, hf511⟩, ⟨hLo, hfLo⟩, hHi, hfHi⟩ := b.points hlow
  constructor
  · rw [tableAt_cons_of_pointsTo h0, hf0, tableAt_cons_of_pointsTo hLo, hfLo]
    rfl
  · rw [tableAt_cons_of_pointsTo h511, hf511, tableAt_cons_of_pointsTo hHi, hfHi]
    rfl

theorem layout {m : Machine} (hphys : m.phys = phys) (hcr3 : m.cr3 = p4Table)
    (hfree : ∀ k < 4, p4Table + k ∉ m.pmm.freeSet) (hframes : m.pmm.totalFrames ≤ 2 ^ 40) :
    Layout [p4Table] m := by
  subst hphys
  obtain ⟨⟨h0, -⟩, ⟨h510, hf510⟩, ⟨h511, -⟩, -⟩ := b.points hlow
  have hcases : ∀ {s p T}, Named m.phys [p4Table] s p T → s = p4Table ∧
      ((p = [] ∧ T = p4Table) ∨ (p = [0] ∧ T = p4Table + 1) ∨ (p = [511] ∧ T = p4Table + 2) ∨
        (p = [0, 0] ∧ T = p4Table + 3) ∨ (p = [511, 510] ∧ T = p4Table + 3)) := fun h => by
    obtain rfl := List.mem_singleton.mp h.root
    exact ⟨rfl, b.tableAt_cases hlow h.path h.table⟩
  refine ⟨⟨List.mem_singleton.mpr hcr3, fun s hs => ?_, fun h h' => ?_, fun h => ?_, hframes⟩,
    fun s hs i hi => ?_, ?_, fun {s p T j} h hlen hj hpres hps => ?_⟩
  · obtain rfl := List.mem_singleton.mp hs
    exact ⟨h510, hf510⟩
  · -- only the directory has two names, and they are identified
    obtain ⟨rfl, hT⟩ := hcases h
    obtain ⟨rfl, hT'⟩ := hcases h'
    rcases hT with ⟨rfl, rfl⟩ | ⟨rfl, rfl⟩ | ⟨rfl, rfl⟩ | ⟨rfl, rfl⟩ | ⟨rfl, rfl⟩ <;>
      rcases hT' with ⟨rfl, h⟩ | ⟨rfl, h⟩ | ⟨rfl, h⟩ | ⟨rfl, h⟩ | ⟨rfl, h⟩ <;>
        first | rfl | omega
  · obtain ⟨rfl, hT⟩ := hcases h
    rcases hT with ⟨-, rfl⟩ | ⟨-, rfl⟩ | ⟨-, rfl⟩ | ⟨-, rfl⟩ | ⟨-, rfl⟩
    · exact hfree 0 (by decide)
    · exact hfree 1 (by decide)
    · exact hfree 2 (by decide)
    · exact hfree 3 (by decide)
    · exact hfree 3 (by decide)
  · obtain rfl := List.mem_singleton.mp hs
    rw [hcr3]
    rcases hi with rfl | rfl
    · exact ⟨h0, rfl⟩
    · exact ⟨h511, rfl⟩
  · rw [hcr3]
    exact ⟨_, b.tableAt_directory hlow⟩
  · obtain ⟨rfl, hT⟩ := hcases h
    obtain ⟨hp4, hp3Lo, hp3Hi⟩ := b.not_huge hlow hj
    have hdir : 512 ∣ frameOf (m.phys (s + 3) j) := by
      rw [b.p2 j hj, (hugeEntry_spec hj).2.2.1]
      exact dvd_mul_right _ _
    rcases hT with ⟨-, rfl⟩ | ⟨-, rfl⟩ | ⟨-, rfl⟩ | ⟨hp, rfl⟩ | ⟨hp, rfl⟩
    · exact absurd (hp4.symm.trans hps) Bool.false_ne_true
    · exact absurd (hp3Lo.symm.trans hps) Bool.false_ne_true
    · exact absurd (hp3Hi.symm.trans hps) Bool.false_ne_true
    · exact ⟨.inl hp, hdir⟩
    · exact ⟨.inr hp, hdir⟩

/-- The last but one GiB is mapped to the first GiB of the memory, with 2 MiB pages. -/
theorem view_kernelHalf (hp : PagePath p) (hhead : p.head? = some 511) :
    view phys p4Table p = bootKernelMap p := by
  obtain ⟨i₃, i₂, i₁, rfl⟩ : ∃ i₃ i₂ i₁, p = [511, i₃, i₂, i₁] := by
    match p, hp.length, hhead with
    | [i₄, i₃, i₂, i₁], _, hhead =>
      obtain rfl : i₄ = 511 := by simpa using hhead
      exact ⟨i₃, i₂, i₁, rfl⟩
  have hlt := hp.lt
  simp only [List.mem_cons, List.not_mem_nil, or_false, forall_eq_or_imp, forall_eq] at hlt
  obtain ⟨-, -, ⟨h511, hf511⟩, -, hHi, hfHi⟩ := b.points hlow
  rw [view, lookup_cons_of_pointsTo h511 (by simp), hf511]
  by_cases h510 : i₃ = 510
  · subst h510
    obtain ⟨hpres, hps, hframe, hflags⟩ := hugeEntry_spec hlt.2.2.1
    rw [lookup_cons_of_pointsTo hHi (by simp), hfHi]
    simp only [lookup, b.p2 i₂ hlt.2.2.1, hpres, hps, if_true, List.length_nil, Nat.zero_lt_two,
      Option.map_some, Leaf.view, hflags, hugeFrame, digits, hframe, List.length_singleton, pow_one,
      List.foldl_cons, List.foldl_nil, bootKernelMap, and_self]
    congr 2
    omega
  · have habsent : present (phys (p4Table + 2) i₃) = false := by
      rw [b.p3Hi i₃ hlt.2.1, if_neg h510]
      rfl
    rw [lookup_of_not_present (by simpa using habsent)]
    simp [bootKernelMap, h510]

end BootEntries

end WengShiOS.Mm
