import WengShiOS.Fs.MountTable

/-! # Listing directories through the VFS

`VFS::isDirectory` and `VFS::listDirectory`. The root is no directory of a filesystem:
its entries are `dev` and the first components of the mount points, which the function
collects in a table of at most eight names of at most 31 bytes. An access outside of an
array is a fault, so the function returns nothing at all then.

The names come out once each exactly if no mount point lies below `/dev` and the first
31 bytes tell the first components apart. The index is only compared from above: a
negative one reads the table of fixed names before its start. -/

namespace WengShiOS.Fs

open Math CanonicalPath Finset Vfs

def devName : CString := [0x64, 0x65, 0x76]

def disksName : CString := [0x64, 0x69, 0x73, 0x6B, 0x73]

/-- The names at the root that are always there. -/
def fixedNames : List CString := [devName]

/-- The bytes after the first slash of a mount point, up to the next. -/
def firstComponent (mp : CString) : CString := (mp.drop 1).takeWhile (· ≠ slash)

/-- `strncmp(shown, start, len) == 0 && shown[len] == '\0'`, for a row of 32 bytes. -/
def isShown (name shown : CString) : Option Bool :=
  if name.isPrefixOf shown then
    if name.length < 32 then some (shown.length = name.length) else none
  else some false

/-- The loop that looks for a duplicate. -/
def isDuplicate (name : CString) : List CString → Option Bool
  | [] => some false
  | shown :: rest =>
    match isShown name shown with
    | none => none
    | some true => some true
    | some false => isDuplicate name rest

namespace Vfs

variable {D I P W : Type*}

/-- The loop over the mounts, with the names shown so far. -/
def listMounts (v : Vfs D I P W) (index : Int) :
    List (Fin maxMounts) → List CString → Int → Option (Option CString)
  | [], _, _ => some none
  | i :: rest, shown, seen =>
    let mp := (v.mounts i).mountPoint
    if !(v.mounts i).inUse then v.listMounts index rest shown seen
    else if mp.head? ≠ some slash ∨ mp[1]? = none then v.listMounts index rest shown seen
    else
      match isDuplicate (firstComponent mp) shown with
      | none => none
      | some true => v.listMounts index rest shown seen
      | some false =>
        if maxMounts ≤ shown.length then none
        else
          let name := (firstComponent mp).take 31
          if seen = index - fixedNames.length then some (some name)
          else v.listMounts index rest (shown ++ [name]) (seen + 1)

section Calls

variable (drivers : D → FilesystemDriver W I P)

def isDirectory (v : Vfs D I P W) (path : CString) : Bool × Vfs D I P W :=
  if path = [slash] then (true, v)
  else if path = slash :: devName then (true, v)
  else if path = slash :: devName ++ slash :: disksName then (true, v)
  else if (v.findMount path).isSome then (true, v)
  else
    match v.resolvePath path 128 with
    | none => (false, v)
    | some (m, subpath) =>
      let (ok, world) :=
        (drivers (v.mounts m).driver).isDirectory (v.mounts m).fsInstance subpath v.world
      (ok, { v with world })

/-- The entry that a call with path `/` stores. -/
def listRoot (v : Vfs D I P W) (index : Int) : Option (Option DirEntry) :=
  if index < fixedNames.length then
    -- `fixed[index]` with an `int`
    if index < 0 then none
    else (fixedNames[index.toNat]?).map fun name => some ⟨copyBounded 64 name, true⟩
  else
    (v.listMounts index (List.finRange maxMounts) [] 0).map fun found =>
      found.map fun name => ⟨copyBounded 64 name, true⟩

/-- `listDirectory(path, index, out_entry)`: the entry it stores if it returns `true`.
There is no result where an array is accessed outside of its bounds. -/
def listDirectory (v : Vfs D I P W) (path : CString) (index : Int) :
    Option (Option DirEntry × Vfs D I P W) :=
  if path = [slash] then (v.listRoot index).map fun entry => (entry, v)
  else if path = slash :: devName then
    some (if index = 0 then some ⟨disksName, true⟩ else none, v)
  else if path = slash :: devName ++ slash :: disksName then
    if index < 0 ∨ v.blockDevices.length ≤ index then some (none, v)
    else (v.blockDevices[index.toNat]?).map fun dev =>
      (some ⟨copyBounded 64 dev.name, false⟩, v)
  else
    match v.resolvePath path 128 with
    | none => some (none, v)
    | some (m, subpath) =>
      let (entry, world) :=
        (drivers (v.mounts m).driver).readdir (v.mounts m).fsInstance subpath index v.world
      some (entry, { v with world })

end Calls

end Vfs

/-! ### The names that are shown -/

/-- What the table of shown names holds after another name. -/
def keepName (shown : List CString) (name : CString) : List CString :=
  if name ∈ shown then shown else shown ++ [name.take 31]

theorem isDuplicate_eq {name : CString} {shown : List CString}
    (hshort : ∀ s ∈ shown, s.length ≤ 31) : isDuplicate name shown = some (decide (name ∈ shown)) := by
  induction shown with
  | nil => rfl
  | cons s rest ih =>
    have hs := hshort s List.mem_cons_self
    have hone : isShown name s = some (decide (name = s)) := by
      unfold isShown
      by_cases hpre : name <+: s
      · have hlen := hpre.length_le
        rw [if_pos (List.isPrefixOf_iff_prefix.mpr hpre), if_pos (by omega)]
        congr 1
        rw [decide_eq_decide]
        exact ⟨fun h => hpre.eq_of_length h.symm, fun h => by rw [h]⟩
      · have hne : name ≠ s := fun h => hpre (h ▸ List.prefix_rfl)
        rw [if_neg fun h => hpre (List.isPrefixOf_iff_prefix.mp h), decide_eq_false hne]
    rw [isDuplicate, hone]
    by_cases heq : name = s
    · simp [heq]
    · rw [ih fun t ht => hshort t (List.mem_cons_of_mem _ ht)]
      simp [heq]

theorem prefix_foldl_keepName (shown names : List CString) :
    shown <+: names.foldl keepName shown := by
  induction names generalizing shown with
  | nil => exact List.prefix_rfl
  | cons name rest ih =>
    refine List.IsPrefix.trans ?_ (ih _)
    unfold keepName
    split_ifs
    · exact List.prefix_rfl
    · exact List.prefix_append _ _

/-- The rows of the table have 31 bytes. -/
theorem length_le_of_mem_keepName {shown : List CString} {s : CString} (name : CString)
    (hshort : ∀ s ∈ shown, s.length ≤ 31) (hs : s ∈ keepName shown name) : s.length ≤ 31 := by
  unfold keepName at hs
  split_ifs at hs
  · exact hshort s hs
  · rcases List.mem_append.mp hs with hs | hs
    · exact hshort s hs
    · rw [List.mem_singleton.mp hs]
      exact List.length_take_le _ _

variable {names : List CString}

theorem length_le_of_mem_foldl_keepName :
    ∀ s ∈ names.foldl keepName [], s.length ≤ 31 := by
  induction names using List.reverseRecOn with
  | nil => simp
  | append_singleton names name ih =>
    rw [List.foldl_append]
    exact fun s hs => length_le_of_mem_keepName name ih hs

/-- The table holds the first 31 bytes of each name. -/
theorem mem_foldl_keepName {s : CString} :
    s ∈ names.foldl keepName [] ↔ ∃ name ∈ names, s = name.take 31 := by
  induction names using List.reverseRecOn with
  | nil => simp
  | append_singleton names name ih =>
    rw [List.foldl_append, List.foldl_cons, List.foldl_nil, keepName]
    have hold : (∃ a ∈ names ++ [name], s = a.take 31) ↔
        s ∈ names.foldl keepName [] ∨ s = name.take 31 := by
      rw [ih]
      simp only [List.mem_append, List.mem_singleton, or_and_right, exists_or, exists_eq_left]
    rw [hold]
    split_ifs with hdup
    · -- a name that is found in the table has at most 31 bytes
      have hname : name.take 31 = name :=
        List.take_of_length_le (length_le_of_mem_foldl_keepName name hdup)
      rw [hname]
      exact ⟨.inl, fun h => h.elim id fun h => h ▸ hdup⟩
    · simp

/-- The table tells two first components apart, or they are the same and it shows so. -/
def Told (a b : CString) : Prop := a.take 31 = b.take 31 → a = b ∧ a.length ≤ 31

instance : Std.Symm Told where
  symm := by
    intro a b h htake
    obtain ⟨rfl, hlen⟩ := h htake.symm
    exact ⟨rfl, hlen⟩

theorem nodup_of_told (h : names.Pairwise Told) :
    (names.foldl keepName []).Nodup := by
  induction names using List.reverseRecOn with
  | nil => simp
  | append_singleton names name ih =>
    obtain ⟨hnames, -, htold⟩ := List.pairwise_append.mp h
    rw [List.foldl_append, List.foldl_cons, List.foldl_nil, keepName]
    split_ifs with hdup
    · exact ih hnames
    · refine (ih hnames).append (List.nodup_singleton _) ?_
      rw [List.disjoint_singleton]
      intro hmem
      obtain ⟨a, ha, htake⟩ := mem_foldl_keepName.mp hmem
      obtain ⟨rfl, hlen⟩ := htold a ha name (by simp) htake.symm
      exact hdup (List.take_of_length_le hlen ▸ hmem)

theorem told_of_nodup (hnodup : (names.foldl keepName []).Nodup)
    (hinj : Set.InjOn (List.take 31) {a | a ∈ names}) : names.Pairwise Told := by
  induction names using List.reverseRecOn with
  | nil => exact .nil
  | append_singleton names name ih =>
    rw [List.foldl_append, List.foldl_cons, List.foldl_nil] at hnodup
    have hsub : (names.foldl keepName []).Sublist (keepName (names.foldl keepName []) name) :=
      (prefix_foldl_keepName _ [name]).sublist
    refine List.pairwise_append.mpr ⟨ih (hnodup.sublist hsub) (hinj.mono fun a ha => ?_), by simp,
      fun a ha b hb htake => ?_⟩
    · exact List.mem_append_left _ ha
    · obtain rfl := List.mem_singleton.mp hb
      have heq : a = b := hinj (List.mem_append_left _ ha) (by simp) htake
      refine ⟨heq, not_lt.mp fun hlong => ?_⟩
      -- a longer name is never found in the table, and is shown a second time
      have hnew : b ∉ names.foldl keepName [] := fun hmem =>
        absurd (length_le_of_mem_foldl_keepName b hmem) (by rw [← heq]; omega)
      rw [keepName, if_neg hnew] at hnodup
      exact (List.disjoint_of_nodup_append hnodup) (mem_foldl_keepName.mpr ⟨a, ha, rfl⟩)
        (by simp [htake])

/-- The names come out once each. -/
theorem shown_once_iff (names : List CString) :
    ((devName :: names.foldl keepName []).length = (insert devName names.toFinset).card ∧
      (devName :: names.foldl keepName []).Nodup) ↔ devName ∉ names ∧ names.Pairwise Told := by
  have himage : (names.foldl keepName []).toFinset = names.toFinset.image (List.take 31) := by
    ext s
    simp only [List.mem_toFinset, mem_foldl_keepName, mem_image, eq_comm]
  have hdev : devName ∈ names.foldl keepName [] ↔ devName ∈ names := by
    rw [mem_foldl_keepName]
    constructor
    · rintro ⟨a, ha, htake⟩
      have hlen := congrArg List.length htake
      rw [List.length_take, show devName.length = 3 from rfl] at hlen
      rw [List.take_of_length_le (by omega)] at htake
      exact htake ▸ ha
    · exact fun h => ⟨devName, h, rfl⟩
  rw [List.nodup_cons, hdev, List.length_cons]
  constructor
  · rintro ⟨hlen, hnot, hnodup⟩
    refine ⟨hnot, told_of_nodup hnodup ?_⟩
    rw [card_insert_of_notMem (by simpa using hnot)] at hlen
    have hcard : (names.toFinset.image (List.take 31)).card = names.toFinset.card := by
      rw [← himage, List.toFinset_card_of_nodup hnodup]
      omega
    have hinj := card_image_iff.mp hcard
    rwa [List.coe_toFinset] at hinj
  · rintro ⟨hnot, htold⟩
    have hnodup := nodup_of_told htold
    have hinj : Set.InjOn (List.take 31) (names.toFinset : Set CString) := by
      rw [List.coe_toFinset]
      intro a ha b hb htake
      by_contra hne
      exact hne (htold.forall ha hb hne htake).1
    refine ⟨?_, hnot, hnodup⟩
    rw [card_insert_of_notMem (by simpa using hnot), ← card_image_of_injOn hinj,
      ← himage, List.toFinset_card_of_nodup hnodup]

namespace Vfs

variable {D I P W : Type*} {v : Vfs D I P W}

/-- The first component that a slot contributes to the root. -/
def shownName (v : Vfs D I P W) (m : Fin maxMounts) : Option CString :=
  let mp := (v.mounts m).mountPoint
  if (v.mounts m).inUse ∧ mp.head? = some slash ∧ mp[1]? ≠ none then some (firstComponent mp)
  else none

/-- The first components of the mount points, in the order of the slots. -/
def firstNames (v : Vfs D I P W) : List CString :=
  (List.finRange maxMounts).filterMap v.shownName

/-- What the table of shown names holds after all mounts. -/
def shownNames (v : Vfs D I P W) : List CString := v.firstNames.foldl keepName []

variable {m : Fin maxMounts} {name : CString}

theorem listMounts_cons {index seen : Int} {rest : List (Fin maxMounts)} {shown : List CString}
    (hshort : ∀ s ∈ shown, s.length ≤ 31) :
    v.listMounts index (m :: rest) shown seen =
      match v.shownName m with
      | none => v.listMounts index rest shown seen
      | some name =>
        if name ∈ shown then v.listMounts index rest shown seen
        else if maxMounts ≤ shown.length then none
        else if seen = index - 1 then some (some (name.take 31))
        else v.listMounts index rest (shown ++ [name.take 31]) (seen + 1) := by
  rw [listMounts]
  by_cases hin : (v.mounts m).inUse = true
  · by_cases hskip : (v.mounts m).mountPoint.head? ≠ some slash ∨ (v.mounts m).mountPoint[1]? = none
    · have hname : v.shownName m = none := if_neg (by tauto)
      simp only [hname, hin, Bool.not_true, Bool.false_eq_true, if_false, hskip, if_true]
    · have hname : v.shownName m = some (firstComponent (v.mounts m).mountPoint) :=
        if_pos (by tauto)
      simp only [hname, if_neg hskip, hin, Bool.not_true, Bool.false_eq_true, if_false,
        isDuplicate_eq hshort]
      by_cases hdup : firstComponent (v.mounts m).mountPoint ∈ shown
      · simp [hdup]
      · simp [hdup, fixedNames]
  · have hname : v.shownName m = none := if_neg (by tauto)
    simp [hin, hname]

/-- The loop finds the name at its place in the table. -/
theorem listMounts_eq {k : Nat} {slots : List (Fin maxMounts)} {shown : List CString}
    (hshort : ∀ s ∈ shown, s.length ≤ 31) (hroom : shown.length + slots.length ≤ maxMounts)
    (hk : shown.length ≤ k) :
    v.listMounts (k + 1) slots shown shown.length =
      some ((slots.filterMap v.shownName).foldl keepName shown)[k]? := by
  induction slots generalizing shown with
  | nil =>
    rw [listMounts, List.filterMap_nil, List.foldl_nil, List.getElem?_eq_none hk]
  | cons m rest ih =>
    rw [List.length_cons] at hroom
    rw [listMounts_cons hshort, List.filterMap_cons]
    rcases v.shownName m with _ | name
    · exact ih hshort (by omega) hk
    dsimp only
    rw [List.foldl_cons, keepName]
    split_ifs with hdup hfull hfound
    · exact ih hshort (by omega) hk
    · omega
    · -- the name goes to the place that was asked for, and stays there
      obtain rfl : k = shown.length := by omega
      obtain ⟨more, hmore⟩ := prefix_foldl_keepName (shown ++ [name.take 31])
        (rest.filterMap v.shownName)
      rw [← hmore]
      simp
    · have hnext : ((shown.length : Int) + 1) = ((shown ++ [name.take 31]).length : Nat) := by simp
      rw [hnext]
      refine ih (fun s hs => ?_) ?_ ?_
      · refine length_le_of_mem_keepName name hshort ?_
        rwa [keepName, if_neg hdup]
      · omega
      · omega

/-- A call with an index of at least 0 finds its name in one list. -/
theorem listRoot_eq (v : Vfs D I P W) (k : Nat) :
    v.listRoot k = some (((devName :: v.shownNames)[k]?).map fun name =>
      ⟨copyBounded 64 name, true⟩) := by
  cases k with
  | zero => rfl
  | succ k =>
    have hloop : v.listMounts (k + 1) (List.finRange maxMounts) [] ([] : List CString).length =
        some v.shownNames[k]? :=
      listMounts_eq (by simp) (by simp) (Nat.zero_le k)
    have hge : ¬ ((k + 1 : Nat) : Int) < fixedNames.length := by
      simp only [fixedNames, List.length_singleton]
      omega
    rw [listRoot, if_neg hge]
    simp only [List.length_nil, Nat.cast_zero, Nat.cast_add, Nat.cast_one] at hloop ⊢
    rw [hloop]
    rfl

/-! ### The root as a set of names -/

/-- What the root is meant to show: `dev` and the first components of the mount points. -/
def rootNames (v : Vfs D I P W) : Set CString :=
  {name | name = devName ∨ ∃ m q, v.MountedAt m q ∧ q.segs.head? = some name}

theorem firstComponent_text {q : CanonicalPath} (h : q.segs.head? = some name) :
    firstComponent q.text = name := by
  obtain ⟨rest, hsegs⟩ : ∃ rest, q.segs = name :: rest := List.head?_eq_some_iff.mp h
  have hname := (q.proper name (hsegs ▸ List.mem_cons_self)).slash_notMem
  have hall : ∀ c ∈ name, decide (c ≠ slash) = true := fun c hc =>
    decide_eq_true fun h => hname (h ▸ hc)
  rw [firstComponent, text, render, hsegs, List.drop_succ_cons, List.drop_zero]
  cases rest with
  | nil =>
    rw [List.intercalate_singleton, ← List.append_nil name,
      List.takeWhile_append_of_pos (by simpa using hall)]
    rfl
  | cons next rest =>
    rw [List.intercalate_cons_cons, List.append_assoc, List.takeWhile_append_of_pos hall]
    simp

/-- A slot shows the first component of its mount point. -/
theorem MountedAt.shownName {q : CanonicalPath} (h : v.MountedAt m q) :
    v.shownName m = q.segs.head? := by
  rw [Vfs.shownName, h.1, h.2]
  cases hhead : q.segs.head? with
  | none =>
    have hroot := text_length_le_one.mpr (List.head?_eq_none_iff.mp hhead)
    exact if_neg fun h => h.2.2 (List.getElem?_eq_none hroot)
  | some name =>
    have hlong : ¬ q.text.length ≤ 1 := by
      rw [text_length_le_one, ← List.head?_eq_none_iff, hhead]
      exact Option.some_ne_none _
    have hne : q.text[1]? ≠ none := by rwa [ne_eq, List.getElem?_eq_none_iff]
    rw [if_pos ⟨rfl, rfl, hne⟩, firstComponent_text hhead]

theorem inUse_of_shownName (h : v.shownName m = some name) :
    (v.mounts m).inUse = true := by
  unfold shownName at h
  dsimp only at h
  split_ifs at h with hslot
  exact hslot.1

section

variable (hv : ∀ m, (v.mounts m).inUse = true → ∃ q : CanonicalPath, v.MountedAt m q)
include hv

theorem mem_firstNames :
    name ∈ v.firstNames ↔ ∃ m q, v.MountedAt m q ∧ q.segs.head? = some name := by
  rw [firstNames, List.mem_filterMap]
  constructor
  · rintro ⟨m, -, hname⟩
    obtain ⟨q, hq⟩ := hv m (inUse_of_shownName hname)
    exact ⟨m, q, hq, hq.shownName ▸ hname⟩
  · rintro ⟨m, q, hq, hname⟩
    exact ⟨m, List.mem_finRange m, hq.shownName.trans hname⟩

theorem told_firstNames_iff :
    v.firstNames.Pairwise Told ↔ ∀ m m' q q' name name', m ≠ m' → v.MountedAt m q →
      v.MountedAt m' q' → q.segs.head? = some name → q'.segs.head? = some name' →
      Told name name' := by
  rw [firstNames, List.pairwise_filterMap]
  constructor
  · intro h m m' q q' name name' hne hq hq' hname hname'
    have hsymm : Std.Symm fun m m' => ∀ name, v.shownName m = some name →
        ∀ name', v.shownName m' = some name' → Told name name' :=
      ⟨fun _ _ h name hname name' hname' => symm (h name' hname' name hname)⟩
    exact h.forall (List.mem_finRange m) (List.mem_finRange m') hne name
      (hq.shownName.trans hname) name' (hq'.shownName.trans hname')
  · intro h
    refine (List.nodup_finRange maxMounts).imp fun {m m'} hne name hname name' hname' => ?_
    obtain ⟨q, hq⟩ := hv m (inUse_of_shownName hname)
    obtain ⟨q', hq'⟩ := hv m' (inUse_of_shownName hname')
    exact h m m' q q' name name' hne hq hq' (hq.shownName ▸ hname) (hq'.shownName ▸ hname')

theorem ncard_rootNames :
    v.rootNames.ncard = (insert devName v.firstNames.toFinset).card := by
  rw [← Set.ncard_coe_finset]
  congr 1
  ext name
  simp only [rootNames, Set.mem_ofPred_eq, coe_insert, List.coe_toFinset, Set.mem_insert_iff,
    mem_firstNames hv]

end

theorem listRoot_neg (v : Vfs D I P W) {index : Int} (h : index < 0) : v.listRoot index = none := by
  rw [listRoot, if_pos (by simp only [fixedNames, List.length_singleton]; omega), if_pos h]

variable (drivers : D → FilesystemDriver W I P)

/-- One call for the root: every access is in range, there is an entry exactly for the
indices below the number of names, and no other index gives the same name. -/
structure RootEntry (v : Vfs D I P W) (index : Int) : Prop where
  returns : ∃ entry, v.listDirectory drivers [slash] index = some (entry, v) ∧
    (entry.isSome ↔ 0 ≤ index ∧ index < v.rootNames.ncard)
  distinct : ∀ index' entry entry', 0 ≤ index' → index' ≠ index →
    v.listDirectory drivers [slash] index = some (some entry, v) →
    v.listDirectory drivers [slash] index' = some (some entry', v) → entry.name ≠ entry'.name

variable {drivers}

theorem listDirectory_root (v : Vfs D I P W) (k : Nat) :
    v.listDirectory drivers [slash] k =
      some (((devName :: v.shownNames)[k]?).map fun name => ⟨name, true⟩, v) := by
  have hcopy : ∀ name ∈ devName :: v.shownNames, copyBounded 64 name = name := by
    intro name hname
    refine List.take_of_length_le ?_
    rcases List.mem_cons.mp hname with rfl | hname
    · decide
    · exact (length_le_of_mem_foldl_keepName name hname).trans (by decide)
  rw [listDirectory, if_pos rfl, listRoot_eq, Option.map_some]
  cases hget : (devName :: v.shownNames)[k]? with
  | none => rfl
  | some name =>
    rw [Option.map_some, Option.map_some, hcopy name (List.mem_of_getElem? hget)]

/-- All calls are right exactly if the list that they go through has no duplicates and
the right length. -/
theorem rootEntry_iff (v : Vfs D I P W) :
    (∀ index : Int, 0 ≤ index → v.RootEntry drivers index) ↔
      (devName :: v.shownNames).length = v.rootNames.ncard ∧ (devName :: v.shownNames).Nodup := by
  have hcall (k : Nat) : v.listDirectory drivers [slash] k = _ := v.listDirectory_root k
  generalize devName :: v.shownNames = names at hcall ⊢
  constructor
  · intro h
    have hiff : ∀ k : Nat, k < names.length ↔ k < v.rootNames.ncard := by
      intro k
      obtain ⟨entry, hentry, hsome⟩ := (h k (Int.natCast_nonneg k)).returns
      rw [hcall k] at hentry
      obtain ⟨rfl, -⟩ := Prod.mk.inj (Option.some.inj hentry)
      rw [Option.isSome_map, isSome_getElem?] at hsome
      omega
    refine ⟨?_, List.nodup_iff_getElem?_ne_getElem?.mpr fun i j hij hj heq => ?_⟩
    · have hle := (hiff names.length).not.mp (lt_irrefl _)
      have hge := (hiff v.rootNames.ncard).not.mpr (lt_irrefl _)
      omega
    · have hi : names[i]? = some names[i] := List.getElem?_eq_getElem (hij.trans hj)
      refine (h i (Int.natCast_nonneg i)).distinct j ⟨names[i], true⟩ ⟨names[i], true⟩
        (Int.natCast_nonneg j) (by omega) ?_ ?_ rfl
      · rw [hcall i, hi]
        rfl
      · rw [hcall j, ← heq, hi]
        rfl
  · rintro ⟨hlen, hnodup⟩ index hindex
    obtain ⟨k, rfl⟩ := Int.eq_ofNat_of_zero_le hindex
    refine ⟨⟨_, hcall k, ?_⟩, fun index' entry entry' hindex' hne hentry hentry' hname => ?_⟩
    · rw [Option.isSome_map, isSome_getElem?, hlen]
      omega
    · obtain ⟨k', rfl⟩ := Int.eq_ofNat_of_zero_le hindex'
      rw [hcall] at hentry hentry'
      obtain ⟨name, hk, rfl⟩ := Option.map_eq_some_iff.mp (Prod.mk.inj (Option.some.inj hentry)).1
      obtain ⟨name', hk', rfl⟩ := Option.map_eq_some_iff.mp (Prod.mk.inj (Option.some.inj hentry')).1
      obtain ⟨hlt, -⟩ := List.getElem?_eq_some_iff.mp hk
      have hsame : name = name' := hname
      have := (List.getElem?_inj hlt hnodup).mp (hk.trans (hsame ▸ hk'.symm))
      omega

end Vfs

/-- **Listing the root.** For every mount table with canonical mount points: a negative
index is an access before the start of an array. All other calls enumerate `dev` and the
first components of the mount points once each, exactly if no first component is `dev`
and the table of shown names tells the first components of any two slots apart, or shows
that they are the same: they differ in their first 31 bytes, or they are equal and have
at most 31 bytes. -/
theorem listDirectory_root_iff {D I P W : Type*} (drivers : D → FilesystemDriver W I P)
    (v : Vfs D I P W)
    (hv : ∀ m, (v.mounts m).inUse = true → ∃ q : CanonicalPath, v.MountedAt m q) :
    (∀ index < 0, v.listDirectory drivers [slash] index = none) ∧
      ((∀ index : Int, 0 ≤ index → v.RootEntry drivers index) ↔
        (∀ m q, v.MountedAt m q → q.segs.head? ≠ some devName) ∧
        ∀ m m' q q' name name', m ≠ m' → v.MountedAt m q → v.MountedAt m' q' →
          q.segs.head? = some name → q'.segs.head? = some name' →
          name.take 31 = name'.take 31 → name = name' ∧ name.length ≤ 31) := by
  constructor
  · intro index hindex
    rw [listDirectory, if_pos rfl, v.listRoot_neg hindex]
    rfl
  · have hdev : devName ∉ v.firstNames ↔ ∀ m q, v.MountedAt m q → q.segs.head? ≠ some devName := by
      rw [mem_firstNames hv]
      simp only [not_exists, not_and, ne_eq]
    rw [rootEntry_iff, ncard_rootNames hv, shownNames, shown_once_iff, hdev,
      told_firstNames_iff hv]
    rfl

/-! ### Runs -/

/-- A filesystem at `/a/b` and one at `/a`. -/
def nestedMount : List (VfsAction Unit Nat) :=
  [.registerBlockDevice disk, .mount [slash, 0x61, slash, 0x62] disk.name (),
    .mount [slash, 0x61] disk.name ()]

theorem nestedMount_points {m : Fin maxMounts} {q : CanonicalPath}
    (h : (afterRun nestedMount).vfs.MountedAt m q) :
    q = letterPath [0x61, 0x62] (by decide) ∨ q = letterPath [0x61] (by decide) := by
  have hpoints : ∀ m, ((afterRun nestedMount).vfs.mounts m).inUse = true →
      ((afterRun nestedMount).vfs.mounts m).mountPoint =
          (letterPath [0x61, 0x62] (by decide)).text ∨
        ((afterRun nestedMount).vfs.mounts m).mountPoint = (letterPath [0x61] (by decide)).text := by
    decide +kernel
  have hm := hpoints m h.1
  rw [h.2] at hm
  exact hm.imp text_injective text_injective

/-- The two mounts show one name. -/
theorem listDirectory_root_nested :
    (afterRun nestedMount).vfs.RootEntry (fun _ => countingDriver) 1 := by
  have hcanonical : ∀ m, ((afterRun nestedMount).vfs.mounts m).inUse = true →
      ∃ q : CanonicalPath, (afterRun nestedMount).vfs.MountedAt m q := by
    have hpoints : ∀ m, ((afterRun nestedMount).vfs.mounts m).inUse = true →
        (afterRun nestedMount).vfs.MountedAt m (letterPath [0x61, 0x62] (by decide)) ∨
          (afterRun nestedMount).vfs.MountedAt m (letterPath [0x61] (by decide)) := by
      decide +kernel
    exact fun m hm => (hpoints m hm).elim (fun h => ⟨_, h⟩) fun h => ⟨_, h⟩
  refine (listDirectory_root_iff _ _ hcanonical).2.mpr ⟨fun m q hq => ?_, ?_⟩ 1 (by decide)
  · rcases nestedMount_points hq with rfl | rfl <;> decide
  · intro m m' q q' name name' _ hq hq' hname hname' _
    have hfirst : ∀ {q : CanonicalPath} {m name}, (afterRun nestedMount).vfs.MountedAt m q →
        q.segs.head? = some name → name = [0x61] := by
      intro q m name hq hname
      rcases nestedMount_points hq with rfl | rfl <;> exact (Option.some.inj hname).symm
    rw [hfirst hq hname, hfirst hq' hname']
    decide

/-- A filesystem below `/dev`. -/
def devMount : List (VfsAction Unit Nat) :=
  [.registerBlockDevice disk, .mount (slash :: devName ++ [slash, 0x61]) disk.name ()]

/-- `dev` is listed twice, and the index -1 reads before the start of an array. -/
theorem not_listDirectory_root :
    (afterRun devMount).vfs.MountedAt 0 ⟨[devName, [0x61]], by
      simp only [List.mem_cons, List.not_mem_nil, or_false, forall_eq_or_imp, forall_eq]
      exact ⟨⟨by decide, by decide, by decide, by decide⟩, by decide, by decide, by decide,
        by decide⟩⟩ ∧
      (afterRun devMount).vfs.listRoot 0 = some (some ⟨devName, true⟩) ∧
      (afterRun devMount).vfs.listRoot 1 = some (some ⟨devName, true⟩) ∧
      (afterRun devMount).vfs.listRoot (-1) = none ∧
      ¬ (afterRun devMount).vfs.RootEntry (fun _ => countingDriver) 0 ∧
      ¬ (afterRun devMount).vfs.RootEntry (fun _ => countingDriver) (-1) := by
  have hzero : (afterRun devMount).vfs.listRoot 0 = some (some ⟨devName, true⟩) := by
    decide +kernel
  have hone : (afterRun devMount).vfs.listRoot 1 = some (some ⟨devName, true⟩) := by
    decide +kernel
  have hneg : (afterRun devMount).vfs.listRoot (-1) = none := by decide +kernel
  refine ⟨by decide +kernel, hzero, hone, hneg, fun h => ?_, fun h => ?_⟩
  · refine h.distinct 1 ⟨devName, true⟩ ⟨devName, true⟩ (by decide) (by decide) ?_ ?_ rfl
    · rfl
    · rfl
  · obtain ⟨entry, hentry, -⟩ := h.returns
    cases hentry

end WengShiOS.Fs
