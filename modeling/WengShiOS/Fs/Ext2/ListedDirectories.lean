import WengShiOS.Fs.Ext2.ChunkedRead
import WengShiOS.Fs.Ext2.DirectoryMap
import WengShiOS.Fs.Listing

/-! # What is listed as a directory

`listDirectory` and `isDirectory` decide independently whether something is a directory.
On an ext2 file system the one reads the type in a directory entry and the other the mode
of the inode that the path leads to, and on a well-typed image they agree, as long as the
path is not cut by the buffer of `resolvePath`. At the root they only agree on `dev` and on a
first component that is a mount point itself: a mount at `/a/b` shows `a`, and there is no such
directory. -/

namespace WengShiOS.Fs.Ext2

open Math Math.Prog Binding Volume CanonicalPath Vfs

variable {v : Volume} {path name : CString} {index : Int}

namespace Volume

variable (v : Volume)

/-- The path leads to a directory. -/
def IsDirAt (path : CString) : Prop :=
  v.geo.HasInode (v.resolve path) ∧ (v.inodeAt (v.resolve path)).isDir = true

instance (path : CString) : Decidable (v.IsDirAt path) := inferInstanceAs (Decidable (_ ∧ _))

/-- In the directories that paths lead to, no two entries share a name, names are neither
empty nor hold a slash, and an entry that says so leads to a directory. -/
structure Typed : Prop where
  ok : v.Ok
  names : ∀ path, v.IsDirAt path →
    ((v.bindings (v.inodeAt (v.resolve path))).map Binding.name).Nodup
  named : ∀ path, v.IsDirAt path → ∀ x ∈ v.childrenOf (v.inodeAt (v.resolve path)),
    x.name ≠ [] ∧ slash ∉ x.name
  typed : ∀ path, v.IsDirAt path → ∀ x ∈ v.childrenOf (v.inodeAt (v.resolve path)),
    x.fileType = ftDir → v.geo.HasInode x.inode ∧ (v.inodeAt x.inode).isDir = true

end Volume

/-! ### The two functions of the driver -/

theorem not_hasInode_zero (G : Geometry) : ¬ G.HasInode 0 := fun h => absurd h.1 (by decide)

theorem exec_isDirectory (hv : v.Ok) (path : CString) :
    (isDirectory path).exec v = (decide (v.IsDirAt path), v) := by
  unfold isDirectory
  rw [exec_bind, exec_resolvePathToInode hv]
  by_cases hi : v.geo.HasInode (v.resolve path)
  · have hne : v.resolve path ≠ 0 := fun h => not_hasInode_zero v.geo (h ▸ hi)
    have hdir : decide (v.IsDirAt path) = (v.inodeAt (v.resolve path)).isDir := by
      cases hdir : (v.inodeAt (v.resolve path)).isDir with
      | true => exact decide_eq_true ⟨hi, hdir⟩
      | false => exact decide_eq_false fun h => by simp [h.2] at hdir
    rw [if_neg hne, exec_bind, exec_readInode hv, if_pos hi, hdir]
    rfl
  · rw [decide_eq_false fun h : v.IsDirAt path => hi h.1]
    split_ifs
    · rfl
    · rw [exec_bind, exec_readInode hv, if_neg hi]
      rfl

theorem exec_readdir (hv : v.Ok) (hdir : v.IsDirAt path) (hindex : 0 ≤ index) :
    (readdir path index).exec v =
      (((v.childrenOf (v.inodeAt (v.resolve path))).map listed)[index.toNat]?, v) := by
  have hne : v.resolve path ≠ 0 := fun h => not_hasInode_zero v.geo (h ▸ hdir.1)
  unfold readdir
  rw [exec_bind, exec_resolvePathToInode hv]
  rw [if_neg hne, exec_bind, exec_readInode hv, if_pos hdir.1]
  simp only [hdir.2, Bool.not_true, Bool.false_eq_true, if_false, exec_bind, exec_getState,
    exec_withBuffer]
  rw [exec_readdirLoop, if_pos (by simpa using hindex)]
  simp only [childrenOf, bindings, List.filter_flatMap, List.range_eq_range',
    Nat.cast_zero, sub_zero]

theorem exec_readdir_none (hv : v.Ok) (hdir : ¬ v.IsDirAt path) :
    (readdir path index).exec v = (none, v) := by
  unfold readdir
  rw [exec_bind, exec_resolvePathToInode hv]
  by_cases hzero : v.resolve path = 0
  · rw [if_pos hzero]
    rfl
  rw [if_neg hzero, exec_bind, exec_readInode hv]
  by_cases hi : v.geo.HasInode (v.resolve path)
  · have hfile : (v.inodeAt (v.resolve path)).isDir = false := by
      simpa [IsDirAt, hi] using hdir
    simp [hi, hfile]
  · simp [hi]

theorem exec_readdir_same (hv : v.Ok) (path : CString) (hindex : 0 ≤ index) :
    ∃ r, (readdir path index).exec v = (r, v) := by
  by_cases hdir : v.IsDirAt path
  · exact ⟨_, exec_readdir hv hdir hindex⟩
  · exact ⟨_, exec_readdir_none hv hdir⟩

/-! ### The path of an entry -/

/-- `path/name`, where the empty path is the root of the file system. -/
def below (path name : CString) : CString := if path = [] then name else path ++ slash :: name

theorem resolveLoop_append (size : Nat) (rest : CString) (path : CString) (current : Nat)
    (component : CString) :
    v.resolveLoop size (path ++ slash :: rest) current component =
      if v.resolveLoop size path current component = 0 then 0
      else v.resolveLoop size rest (v.resolveLoop size path current component) [] := by
  induction path generalizing current component with
  | nil => exact if_pos rfl
  | cons c path ih =>
    rw [List.cons_append, Volume.resolveLoop, Volume.resolveLoop]
    split_ifs with hslash hzero hfits <;> simp_all

/-- A name without a slash that fits the component buffer is looked up as it is. -/
theorem resolveLoop_name {size : Nat} {name : CString} (hslash : slash ∉ name) (current : Nat)
    {component : CString} (hfits : component.length + name.length ≤ size - 1) :
    v.resolveLoop size name current component = v.enter current (component ++ name) := by
  induction name generalizing component with
  | nil => simp [Volume.resolveLoop]
  | cons c name ih =>
    rw [List.mem_cons, not_or] at hslash
    rw [List.length_cons] at hfits
    rw [Volume.resolveLoop, if_neg (Ne.symm hslash.1), if_pos (by omega),
      ih hslash.2 (by simp only [List.length_append, List.length_singleton]; omega),
      List.append_assoc, List.singleton_append]

theorem resolve_below (hpath : v.resolve path ≠ 0) (hslash : slash ∉ name)
    (hfits : name.length ≤ 63) : v.resolve (below path name) = v.enter (v.resolve path) name := by
  have hname : ∀ current, v.resolveLoop componentSize name current [] = v.enter current name := by
    intro current
    exact resolveLoop_name hslash current (by simpa [componentSize] using hfits)
  unfold below resolve at *
  split_ifs with hroot
  · subst hroot
    exact hname rootInode
  · rw [resolveLoop_append, if_neg hpath, hname]

theorem find_binding {bindings : List Binding} (h : (bindings.map Binding.name).Nodup) {x : Binding}
    (hx : x ∈ bindings) : bindings.find? (·.name = x.name) = some x := by
  have hsome : (bindings.find? (·.name = x.name)).isSome :=
    List.find?_isSome.mpr ⟨x, hx, by simp⟩
  obtain ⟨y, hy⟩ := Option.isSome_iff_exists.mp hsome
  have hname : y.name = x.name := by simpa using List.find?_some hy
  rw [hy, List.inj_on_of_nodup_map h (List.mem_of_find?_eq_some hy) hx hname]

/-- What `readdir` shows as a directory is a directory. -/
theorem isDirAt_of_readdir (hv : v.Typed) {entry : DirEntry} (hindex : 0 ≤ index)
    (h : ((readdir path index).exec v).1 = some entry) (hentry : entry.isDirectory = true)
    (hshort : entry.name.length ≤ 31) :
    Proper entry.name ∧ v.IsDirAt (below path entry.name) := by
  by_cases hdir : v.IsDirAt path
  swap
  · rw [exec_readdir_none hv.ok hdir] at h
    cases h
  rw [exec_readdir hv.ok hdir hindex, List.getElem?_map] at h
  obtain ⟨x, hx, rfl⟩ := Option.map_eq_some_iff.mp h
  have hmem := List.mem_of_getElem? hx
  obtain ⟨hne, hslash⟩ := hv.named path hdir x hmem
  obtain ⟨hi, hchild⟩ := hv.typed path hdir x hmem (by simpa [listed] using hentry)
  -- the name is short enough not to be cut
  have hlen : x.name.length ≤ 31 := by
    simp only [listed, List.length_take] at hshort
    omega
  have hname : (x.listed).name = x.name := List.take_of_length_le (by omega)
  rw [hname]
  have hpath : v.resolve path ≠ 0 := fun h => not_hasInode_zero v.geo (h ▸ hdir.1)
  have hresolve : v.resolve (below path x.name) = x.inode := by
    have hfind : (v.bindings (v.inodeAt (v.resolve path))).find? (·.name = x.name) = some x :=
      find_binding (hv.names path hdir) (List.mem_of_mem_filter hmem)
    rw [resolve_below hpath hslash (by omega), Volume.enter, if_neg hne, if_pos hdir.1,
      lookup_eq hdir.2, hfind]
    rfl
  have hdots : x.isChild = true := (List.mem_filter.mp hmem).2
  simp only [Binding.isChild, Bool.and_eq_true, decide_eq_true_eq] at hdots
  refine ⟨⟨hne, hslash, hdots.1, hdots.2⟩, ?_⟩
  rw [IsDirAt, hresolve]
  exact ⟨hi, hchild⟩

/-! ### Through the VFS -/

section Calls

variable {D : Type*} {drivers : D → FilesystemDriver World Nat PrivateData}
  {s s' : Vfs D Nat PrivateData World} {p : CanonicalPath} {entry : DirEntry}

/-- Everything that is mounted is a well-typed ext2 file system, and no access fails. -/
structure MountsTyped (drivers : D → FilesystemDriver World Nat PrivateData)
    (s : Vfs D Nat PrivateData World) : Prop where
  table : s.Table
  pattern : s.world.pattern = fun _ => true
  driver : ∀ m, (s.mounts m).inUse = true → drivers (s.mounts m).driver = driver
  typed : ∀ m, (s.mounts m).inUse = true → (s.world.volume (s.mounts m).fsInstance).Typed

/-- An entry of a directory. -/
def child (p : CanonicalPath) {name : CString} (hname : Proper name) : CanonicalPath where
  segs := p.segs ++ [name]
  proper seg hseg := by
    rcases List.mem_append.mp hseg with hseg | hseg
    · exact p.proper seg hseg
    · exact List.mem_singleton.mp hseg ▸ hname

/-- What the path of an entry can lead back to: one of the fixed directories, a mount point,
or a directory on the mount of the directory, along the path below it. That path is cut after
127 bytes. -/
inductive LeadsBack (s : Vfs D Nat PrivateData World) (p : CanonicalPath) (name : CString) : Prop
  | dev (hp : p.segs = []) (hname : name = devName)
  | disks (hp : p.segs = [devName]) (hname : name = disksName)
  | mounted (m : Fin maxMounts) (q : CanonicalPath) (hq : s.MountedAt m q)
      (hsegs : q.segs = p.segs ++ [name])
  | below (m : Fin maxMounts) (q : CanonicalPath) (rest : List CString)
      (hdeep : s.Deepest p m q rest) (hroot : q.segs ≠ [])
      (hdir : ([slash].intercalate (rest ++ [name])).length ≤ 127 ∨
        (s.world.volume (s.mounts m).fsInstance).IsDirAt
          (copyBounded 128 ([slash].intercalate (rest ++ [name]))))

variable {m : Fin maxMounts}

theorem isDirectory_driver {subpath : CString} (h : MountsTyped drivers s)
    (hin : (s.mounts m).inUse = true) :
    ((drivers (s.mounts m).driver).isDirectory (s.mounts m).fsInstance subpath s.world).1 = true ↔
      (s.world.volume (s.mounts m).fsInstance).IsDirAt subpath := by
  have hcall := World.call_eq_of_exec h.pattern (exec_isDirectory (h.typed m hin).ok subpath)
  rw [h.driver m hin]
  change (s.world.call (s.mounts m).fsInstance (isDirectory subpath)).1 = true ↔ _
  rw [hcall, decide_eq_true_iff]

/-- What `isDirectory` takes for a directory. -/
theorem isDirectory_iff (h : MountsTyped drivers s) (c : CanonicalPath) :
    (s.isDirectory drivers c.text).1 = true ↔
      c.segs = [] ∨ c.segs = [devName] ∨ c.segs = [devName, disksName] ∨
        (∃ m, s.MountedAt m c) ∨ ∃ m q rest, s.Deepest c m q rest ∧ (q.segs = [] → c.segs = []) ∧
          (s.world.volume (s.mounts m).fsInstance).IsDirAt
            (copyBounded 128 ([slash].intercalate rest)) := by
  have hroot : c.text = [slash] ↔ c.segs = [] := text_eq_render_iff [] (by decide)
  have hdev : c.text = slash :: devName ↔ c.segs = [devName] :=
    text_eq_render_iff [devName] (by decide)
  have hdisks : c.text = slash :: devName ++ slash :: disksName ↔ c.segs = [devName, disksName] :=
    text_eq_render_iff [devName, disksName] (by decide)
  have hmount : (s.findMount c.text).isSome ↔ ∃ m, s.MountedAt m c := by
    simp [Vfs.findMount, List.find?_isSome, MountedAt]
  unfold Vfs.isDirectory
  simp only [hroot, hdev, hdisks, hmount]
  split_ifs with h₁ h₂ h₃ h₄
  · simp [h₁]
  · simp [h₂]
  · simp [h₃]
  · simp [h₄]
  simp only [h₁, h₂, h₃, h₄, false_or]
  constructor
  · intro htrue
    rcases hpath : s.resolvePath c.text 128 with _ | ⟨m, subpath⟩
    · rw [hpath] at htrue
      cases htrue
    rw [hpath] at htrue
    obtain ⟨q, rest, hdeep, hnil, rfl⟩ := deepest_of_resolvePath h.table hpath
    exact ⟨m, q, rest, hdeep, fun hq => h₁ (hnil hq),
      (isDirectory_driver h hdeep.mounted.1).mp htrue⟩
  · rintro ⟨m, q, rest, hdeep, hnil, hdir⟩
    rw [resolvePath_of_deepest h.table hdeep (fun hq => (hnil hq).elim) 128]
    exact (isDirectory_driver h hdeep.mounted.1).mpr hdir

/-- The deepest mount above a directory is the deepest above an entry that is no mount
point, and the other way round. -/
theorem deepest_child_iff {q : CanonicalPath} {rest : List CString} {name : CString}
    (hname : Proper name) (hnone : ∀ m', ¬ s.MountedAt m' (child p hname)) :
    s.Deepest (child p hname) m q rest ↔
      ∃ init, rest = init ++ [name] ∧ s.Deepest p m q init := by
  constructor
  · intro hdeep
    have hsplit : p.segs ++ [name] = q.segs ++ rest := hdeep.split
    rcases List.eq_nil_or_concat' rest with rfl | ⟨init, last, rfl⟩
    · rw [List.append_nil] at hsplit
      exact absurd (eq_of_segs (q := child p hname) hsplit.symm ▸ hdeep.mounted) (hnone m)
    · rw [← List.append_assoc] at hsplit
      obtain ⟨hp, hlast⟩ := List.append_inj' hsplit rfl
      refine ⟨init, by rw [hlast], hdeep.mounted, hp, fun m' q' hq' hpre => ?_⟩
      exact hdeep.deepest m' q' hq' (hpre.trans (List.prefix_append ..))
  · rintro ⟨init, rfl, hdeep⟩
    have hsegs : (child p hname).segs = p.segs ++ [name] := rfl
    refine ⟨hdeep.mounted, by rw [hsegs, hdeep.split, List.append_assoc], fun m' q' hq' hpre => ?_⟩
    rcases List.prefix_concat_iff.mp hpre with heq | hpre
    · exact absurd (eq_of_segs (q := child p hname) heq ▸ hq') (hnone m')
    · exact hdeep.deepest m' q' hq' hpre

theorem intercalate_append_name {rest : List CString} (hrest : ∀ seg ∈ rest, seg ≠ [])
    (name : CString) :
    [slash].intercalate (rest ++ [name]) = below ([slash].intercalate rest) name := by
  by_cases hnil : rest = []
  · simp [hnil, below]
  · have hrender := render_append hnil [name]
    rw [if_neg (List.cons_ne_nil _ _)] at hrender
    simp only [render, List.intercalate_singleton, List.cons_append, List.cons.injEq,
      true_and] at hrender
    have hne : [slash].intercalate rest ≠ [] := by
      obtain ⟨seg, rest, rfl⟩ := List.exists_cons_of_ne_nil hnil
      have hseg := hrest seg List.mem_cons_self
      cases rest <;> simp [List.intercalate_cons_cons, hseg]
    rw [hrender, below, if_neg hne]

/-- A path that is not cut with another name at its end is not cut without it. -/
theorem copyBounded_intercalate {rest : List CString} (hrest : ∀ seg ∈ rest, seg ≠ [])
    {name : CString} (hfits : ([slash].intercalate (rest ++ [name])).length ≤ 127) :
    copyBounded 128 ([slash].intercalate (rest ++ [name])) =
      below (copyBounded 128 ([slash].intercalate rest)) name := by
  have hshort : ([slash].intercalate rest).length ≤ 127 := by
    rw [intercalate_append_name hrest, below] at hfits
    split_ifs at hfits with hnil
    · simp [hnil]
    · rw [List.length_append] at hfits
      omega
  have hcut : copyBounded 128 ([slash].intercalate rest) = [slash].intercalate rest :=
    List.take_of_length_le hshort
  rw [hcut, ← intercalate_append_name hrest]
  exact List.take_of_length_le hfits

theorem proper_take {name : CString} (h : Proper name) : Proper (name.take 31) := by
  rcases Nat.lt_or_ge 31 name.length with hlong | hshort
  · have hlen : (name.take 31).length = 31 := by
      rw [List.length_take]
      omega
    refine ⟨fun heq => ?_, fun hmem => h.slash_notMem (List.mem_of_mem_take hmem), fun heq => ?_,
      fun heq => ?_⟩ <;> simp [heq] at hlen
  · rw [List.take_of_length_le hshort]
    exact h

/-- The root shows `dev` and the first 31 bytes of proper names. -/
theorem proper_of_listed_root (htable : s.Table) (hindex : 0 ≤ index)
    (h : s.listDirectory drivers [slash] index = some (some entry, s')) :
    s' = s ∧ Proper entry.name := by
  obtain ⟨k, rfl⟩ := Int.eq_ofNat_of_zero_le hindex
  rw [s.listDirectory_root] at h
  obtain ⟨hentry, rfl⟩ := Prod.mk.inj (Option.some.inj h)
  obtain ⟨name, hname, rfl⟩ := Option.map_eq_some_iff.mp hentry
  refine ⟨rfl, ?_⟩
  rcases List.mem_cons.mp (List.mem_of_getElem? hname) with rfl | hname
  · exact ⟨by decide, by decide, by decide, by decide⟩
  · obtain ⟨first, hfirst, rfl⟩ := mem_foldl_keepName.mp hname
    obtain ⟨m, q, hq, hhead⟩ := (mem_firstNames htable.canonical).mp hfirst
    exact proper_take (q.proper first (List.mem_of_head? hhead))

/-- Where an entry comes from that is shown as a directory: the root, `/dev`, or a directory
on a mount. -/
theorem listDirectory_cases (h : MountsTyped drivers s) (hindex : 0 ≤ index)
    (hlist : s.listDirectory drivers p.text index = some (some entry, s'))
    (hentry : entry.isDirectory = true) (hshort : entry.name.length ≤ 31) :
    s' = s ∧ Proper entry.name ∧ (p.segs = [] ∨ p.segs = [devName] ∧ entry.name = disksName ∨
      ∃ m subpath, s.resolvePath p.text 128 = some (m, subpath) ∧
        (s.world.volume (s.mounts m).fsInstance).IsDirAt (below subpath entry.name)) := by
  by_cases hp : p.segs = []
  · have htext : p.text = [slash] := (text_eq_render_iff [] (by decide)).mpr hp
    obtain ⟨hs, hname⟩ := proper_of_listed_root h.table hindex (htext ▸ hlist)
    exact ⟨hs, hname, .inl hp⟩
  have hroot : p.text ≠ [slash] := fun htext => hp ((text_eq_render_iff [] (by decide)).mp htext)
  unfold listDirectory at hlist
  rw [if_neg hroot] at hlist
  split_ifs at hlist with hdev hzero hdisks hbounds
  · -- `/dev` shows `disks`
    cases hlist
    have hp := (text_eq_render_iff [devName] (by decide)).mp hdev
    exact ⟨rfl, ⟨by decide, by decide, by decide, by decide⟩, .inr (.inl ⟨hp, rfl⟩)⟩
  · cases (Prod.mk.inj (Option.some.inj hlist)).1
  · cases (Prod.mk.inj (Option.some.inj hlist)).1
  · -- the disks are no directories
    obtain ⟨dev, -, hdev⟩ := Option.map_eq_some_iff.mp hlist
    obtain rfl := Option.some.inj (Prod.mk.inj hdev).1
    cases hentry
  · rcases hpath : s.resolvePath p.text 128 with _ | ⟨m, subpath⟩
    · rw [hpath] at hlist
      cases (Prod.mk.inj (Option.some.inj hlist)).1
    have hin := Session.inUse_of_resolvePath hpath
    obtain ⟨r, hexec⟩ := exec_readdir_same (h.typed m hin).ok subpath hindex
    have hread : (drivers (s.mounts m).driver).readdir (s.mounts m).fsInstance subpath index
        s.world = (r, s.world) := by
      rw [h.driver m hin]
      exact World.call_eq_of_exec h.pattern hexec
    simp only [hpath, hread] at hlist
    cases hlist
    obtain ⟨hname, hdir⟩ := isDirAt_of_readdir (h.typed m hin) hindex
      (congrArg Prod.fst hexec) hentry hshort
    exact ⟨rfl, hname, .inr (.inr ⟨m, subpath, rfl, hdir⟩)⟩

/-- **What is listed as a directory and is one.** For every mount table over ext2 file systems
whose entries say what they lead to, every canonical path and every index of at least 0: an
entry of at most 31 bytes that `listDirectory` shows as a directory is one for `isDirectory`
exactly if its path leads back. -/
theorem isDirectory_listed_iff (h : MountsTyped drivers s) (hindex : 0 ≤ index)
    (hlist : s.listDirectory drivers p.text index = some (some entry, s'))
    (hentry : entry.isDirectory = true) (hshort : entry.name.length ≤ 31) :
    (s'.isDirectory drivers (render (p.segs ++ [entry.name]))).1 = true ↔
      LeadsBack s p entry.name := by
  obtain ⟨rfl, hname, hfrom⟩ := listDirectory_cases h hindex hlist hentry hshort
  have hsegs : (child p hname).segs = p.segs ++ [entry.name] := rfl
  have htext : render (p.segs ++ [entry.name]) = (child p hname).text := rfl
  rw [htext, isDirectory_iff h]
  by_cases hmount : ∃ m, s'.MountedAt m (child p hname)
  · -- a mount point is a directory, wherever it is listed
    obtain ⟨m, hm⟩ := hmount
    exact iff_of_true (.inr (.inr (.inr (.inl ⟨m, hm⟩)))) (.mounted m _ hm rfl)
  have hdeepest {m q rest} : s'.Deepest (child p hname) m q rest ↔
      ∃ init, rest = init ++ [entry.name] ∧ s'.Deepest p m q init :=
    deepest_child_iff hname (not_exists.mp hmount)
  constructor
  · rintro (hnil | hdev | hdisks | hm | ⟨m, q, rest, hdeep, hroot, hdir⟩)
    · simp [hsegs] at hnil
    · obtain ⟨hp, hn⟩ := List.append_inj' (hsegs.symm.trans hdev : _ = [] ++ [devName]) rfl
      exact .dev hp (List.singleton_inj.mp hn)
    · obtain ⟨hp, hn⟩ := List.append_inj'
        (hsegs.symm.trans hdisks : _ = [devName] ++ [disksName]) rfl
      exact .disks hp (List.singleton_inj.mp hn)
    · exact absurd hm hmount
    · obtain ⟨init, rfl, hdeep'⟩ := hdeepest.mp hdeep
      refine .below m q init hdeep' (fun hq => ?_) (.inr hdir)
      have hnil := hroot hq
      simp [hsegs] at hnil
  · rintro (⟨hp, hn⟩ | ⟨hp, hn⟩ | ⟨m, q, hq, hq'⟩ | ⟨m, q, rest, hdeep, hroot, hdir⟩)
    · exact .inr (.inl (by rw [hsegs, hp, hn]; rfl))
    · exact .inr (.inr (.inl (by rw [hsegs, hp, hn]; rfl)))
    · exact absurd ⟨m, eq_of_segs (q := child p hname) hq' ▸ hq⟩ hmount
    · -- the path of the entry is the path of the directory and its name, unless it is cut
      rcases hfrom with hp | ⟨hp, hn⟩ | ⟨m', subpath, hpath, hlisted⟩
      · have hsplit := hdeep.split
        rw [hp] at hsplit
        exact absurd (List.nil_eq_append_iff.mp hsplit).1 hroot
      · exact .inr (.inr (.inl (by rw [hsegs, hp, hn]; rfl)))
      · obtain ⟨q', rest', hdeep', -, rfl⟩ := deepest_of_resolvePath h.table hpath
        obtain ⟨rfl, rfl, rfl⟩ := hdeep.unique h.table hdeep'
        refine .inr (.inr (.inr (.inr ⟨m, q, _, hdeepest.mpr ⟨rest, rfl, hdeep⟩,
          fun hq => absurd hq hroot, hdir.elim (fun hfits => ?_) id⟩)))
        rw [copyBounded_intercalate (fun seg hseg =>
          (p.proper seg (hdeep.split ▸ List.mem_append_right _ hseg)).ne_nil) hfits]
        exact hlisted

end Calls

/-! ### A directory in the small image -/

/-- On a well-formed image the entries of the inodes in use are all there is to check. -/
theorem Volume.Consistent.typed (hc : v.Consistent)
    (h : ∀ i ∈ v.liveInodes, (v.inodeAt i).isDir = true →
      ((v.bindings (v.inodeAt i)).map Binding.name).Nodup ∧
      ∀ x ∈ v.childrenOf (v.inodeAt i), (x.name ≠ [] ∧ slash ∉ x.name) ∧
        (x.fileType = ftDir → v.geo.HasInode x.inode ∧ (v.inodeAt x.inode).isDir = true)) :
    v.Typed := by
  have hlive : ∀ path, v.IsDirAt path → v.resolve path ∈ v.liveInodes := fun path hdir =>
    mem_liveInodes.mpr (hc.live_resolve fun h => not_hasInode_zero v.geo (h ▸ hdir.1))
  exact ⟨hc.ok, fun path hdir => (h _ (hlive path hdir) hdir.2).1,
    fun path hdir x hx => ((h _ (hlive path hdir) hdir.2).2 x hx).1,
    fun path hdir x hx => ((h _ (hlive path hdir) hdir.2).2 x hx).2⟩

/-- The small image with a directory `d`, inode 11. -/
def nestedDisk : Bytes :=
  stores ([⟨4, 1036, 55⟩, ⟨2, 2060, 55⟩, ⟨4, 1040, 5⟩, ⟨2, 2062, 5⟩, ⟨8, 3072, 0xFF⟩,
    ⟨2, 4096, 0x7FF⟩] ++ inodeFields 11 (sIfdir ||| 0o755) 1024 2 [8] ++ [⟨2, 7184, 12⟩] ++
      entryFields 7192 11 1000 ftDir [0x64] ++ entryFields 8192 11 12 ftDir [dot] ++
      entryFields 8204 rootInode 1012 ftDir [dot, dot]) smallDisk

def nestedVolume : Volume := mounted nestedDisk

theorem nestedVolume_typed : nestedVolume.Typed :=
  Consistent.typed (consistent_of_check (by decide +kernel)) (by decide +kernel)

/-- The image on one device, mounted once. -/
def nestedWorld : World where
  disks _ := nestedVolume.disk
  instances _ := (0, nestedVolume.state)
  fresh := 1
  pattern _ := true

def nestedDevice : BlockDevice World where
  name := disk.name
  deviceHandle := 0
  sectorCount := 126
  sectorSize := 512
  read _ _ _ w := (none, w)
  write _ _ _ _ w := (false, w)

/-- The VFS with the image mounted at a path. -/
def nestedVfs (q : CanonicalPath) : Vfs Unit Nat PrivateData World where
  blockDevices := [nestedDevice]
  mounts m := ⟨m = 0, q.text, disk.name, nestedDevice, (), 0⟩
  openFiles _ := ⟨false, 0, ⟨⟨0, nestedVolume.inodeAt 0⟩, 0, false⟩, 0⟩
  world := nestedWorld

theorem mountedAt_nestedVfs {q q' : CanonicalPath} {m : Fin maxMounts} :
    (nestedVfs q).MountedAt m q' ↔ m = 0 ∧ q' = q := by
  constructor
  · rintro ⟨hin, htext⟩
    exact ⟨by simpa [nestedVfs] using hin, text_injective htext.symm⟩
  · rintro ⟨rfl, rfl⟩
    exact ⟨rfl, rfl⟩

theorem nestedVfs_mountsTyped (q : CanonicalPath) :
    MountsTyped (fun _ => driver) (nestedVfs q) where
  table := by
    refine ⟨fun m hm => ⟨q, hm, rfl⟩, fun m m' q' hm hm' => ?_⟩
    rw [(mountedAt_nestedVfs.mp hm).1, (mountedAt_nestedVfs.mp hm').1]
  pattern := rfl
  driver _ _ := rfl
  typed _ _ := nestedVolume_typed

/-- `/a/d` is listed as a directory of the image at `/a`, and is one. -/
theorem isDirectory_listed_nested :
    ∃ s', (nestedVfs (letterPath [0x61] (by decide))).listDirectory (fun _ => driver)
        [slash, 0x61] 0 = some (some ⟨[0x64], true⟩, s') ∧
      (s'.isDirectory (fun _ => driver) [slash, 0x61, slash, 0x64]).1 = true := by
  have hlist : ((nestedVfs (letterPath [0x61] (by decide))).listDirectory (fun _ => driver)
      [slash, 0x61] 0).map Prod.fst = some (some ⟨[0x64], true⟩) := by
    decide +kernel
  obtain ⟨⟨entry, s'⟩, hlist, rfl⟩ := Option.map_eq_some_iff.mp hlist
  refine ⟨s', hlist, ?_⟩
  have hlist' : (nestedVfs (letterPath [0x61] (by decide))).listDirectory (fun _ => driver)
      (letterPath [0x61] (by decide)).text 0 = some (some ⟨[0x64], true⟩, s') := hlist
  refine (isDirectory_listed_iff (nestedVfs_mountsTyped _) le_rfl hlist' rfl (by decide)).mpr
    (.below 0 _ [] ⟨⟨rfl, rfl⟩, (List.append_nil _).symm, fun m q hq _ => ?_⟩ (by decide)
      (.inl (by decide)))
  rw [(mountedAt_nestedVfs.mp hq).2]

/-- The mount at `/a/b` makes the root show `a` as a directory, and there is no `/a`. -/
theorem not_isDirectory_listed :
    MountsTyped (fun _ => driver) (nestedVfs (letterPath [0x61, 0x62] (by decide))) ∧
      (nestedVfs (letterPath [0x61, 0x62] (by decide))).listDirectory (fun _ => driver) [slash] 1 =
        some (some ⟨[0x61], true⟩, nestedVfs (letterPath [0x61, 0x62] (by decide))) ∧
      ((nestedVfs (letterPath [0x61, 0x62] (by decide))).isDirectory (fun _ => driver)
        [slash, 0x61]).1 = false := by
  refine ⟨nestedVfs_mountsTyped _, ?_, by decide +kernel⟩
  rfl

end WengShiOS.Fs.Ext2
