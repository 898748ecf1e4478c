import WengShiOS.Fs.Ext2.InodeTable

/-! # Well-formed images

What a path leads to, as a function of the volume, and what it means that an image is well
formed: every regular file and every directory owns its blocks, no two of them share one,
and the entries of directories lead to files and directories again. Operations that leave
the directories alone leave the meaning of every path alone. -/

namespace WengShiOS.Fs.Ext2

open Math Math.Prog Volume

variable {v u : Volume}

/-! ### Runs without failures -/

section Exec

variable {α : Type} {b index : Nat} {data : Bytes} {inode : Inode}

@[simp] theorem exec_withBuffer {size : Nat} {failed : α} {body : Ext2M α} :
    (withBuffer size failed body).exec v = body.exec v := by
  simp [withBuffer]

@[simp] theorem exec_readBlock : (readBlock b).exec v = (some (v.block b), v) :=
  exec_eq_iff.mpr ⟨_, by simp [AllOk], runs_readBlock.mpr ⟨true, rfl, rfl, rfl⟩⟩

@[simp] theorem exec_inodeBlockAt :
    (inodeBlockAt inode index).exec v = (v.mapAt inode index, v) := by
  obtain ⟨trace, hok, h⟩ := exists_runs_exec (inodeBlockAt inode index) v
  obtain ⟨hv, hr⟩ := runs_inodeBlockAt h
  exact Prod.ext (hr.resolve_right fun hfailed => hfailed.2 hok) hv

end Exec

instance (G : Geometry) (i : Nat) : Decidable (G.HasInode i) :=
  inferInstanceAs (Decidable (_ ∧ _))

theorem Volume.Ok.locateInode_none (hv : v.Ok) {i : Nat} (hi : ¬ v.geo.HasInode i) :
    v.state.locateInode i = none := by
  unfold FsInstance.locateInode
  by_cases h0 : i = 0
  · rw [if_pos h0]
  · rw [if_neg h0]
    refine if_pos ?_
    change v.geo.groupCount ≤ (i - 1) / v.geo.inodesPerGroup
    rw [Nat.le_div_iff_mul_le hv.valid.inodesPerGroup.1]
    have hlarge : ¬ (1 ≤ i ∧ i ≤ v.geo.groupCount * v.geo.inodesPerGroup) := hi
    omega

theorem exec_readInode (hv : v.Ok) (i : Nat) :
    (readInode i).exec v = (if v.geo.HasInode i then some (v.inodeAt i) else none, v) := by
  by_cases hi : v.geo.HasInode i
  · rw [if_pos hi]
    obtain ⟨trace, hok, h⟩ := exists_runs_exec (readInode i) v
    obtain ⟨hu, hr | ⟨-, hfailed⟩⟩ := runs_readInode hv hi h
    · exact Prod.ext hr hu
    · exact absurd hok hfailed
  · rw [if_neg hi]
    simp [readInode, hv.locateInode_none hi]

/-! ### Paths -/

namespace Volume

variable (v : Volume)

/-- The inode of a name in the blocks of a directory that are left. -/
def lookupFrom (dir : Inode) (name : CString) : (n b : Nat) → Nat
  | 0, _ => 0
  | n + 1, b =>
    if v.mapAt dir b = 0 then lookupFrom dir name n (b + 1)
    else
      let buf := v.block (v.mapAt dir b)
      match (entries v.state.blockSize buf).find? (isNamed buf name) with
      | none => lookupFrom dir name n (b + 1)
      | some offset => DirEntry.inode buf offset

/-- The inode of a name in a directory, 0 if there is none. -/
def lookup (dir : Inode) (name : CString) : Nat :=
  if dir.isDir then v.lookupFrom dir name (v.state.numBlocks dir) 0 else 0

def enter (current : Nat) (component : CString) : Nat :=
  if component = [] then current
  else if v.geo.HasInode current then v.lookup (v.inodeAt current) component
  else 0

def resolveLoop (size : Nat) : (path : CString) → (current : Nat) → (component : CString) → Nat
  | [], current, component => v.enter current component
  | c :: path, current, component =>
    if c = slash then
      if v.enter current component = 0 then 0
      else resolveLoop size path (v.enter current component) []
    else if component.length < size - 1 then resolveLoop size path current (component ++ [c])
    else resolveLoop size path current component

/-- The inode a path leads to, 0 if there is none. -/
def resolve (path : CString) : Nat := v.resolveLoop componentSize path rootInode []

end Volume

theorem exec_lookupLoop (dir : Inode) (name : CString) (n b : Nat) :
    (lookupLoop dir name n b).exec v = (v.lookupFrom dir name n b, v) := by
  induction n generalizing b with
  | zero => rfl
  | succ n ih =>
    rw [lookupLoop, lookupFrom]
    simp only [exec_bind, exec_getState, exec_inodeBlockAt, exec_ite, exec_readBlock]
    split_ifs with hzero
    · exact ih (b + 1)
    · cases hfind : (entries v.state.blockSize (v.block (v.mapAt dir b))).find?
        (isNamed (v.block (v.mapAt dir b)) name) with
      | none => exact ih (b + 1)
      | some offset => rfl

@[simp] theorem exec_lookupInDir (dir : Inode) (name : CString) :
    (lookupInDir dir name).exec v = (v.lookup dir name, v) := by
  unfold lookupInDir lookup
  cases hdir : dir.isDir with
  | false => simp
  | true => simp [exec_lookupLoop]

theorem exec_enter (hv : v.Ok) (current : Nat) (component : CString) :
    (enter current component).exec v = (v.enter current component, v) := by
  unfold enter Volume.enter
  split_ifs with hempty hcurrent
  · rfl
  · rw [exec_bind, exec_readInode hv, if_pos hcurrent]
    exact exec_lookupInDir ..
  · rw [exec_bind, exec_readInode hv, if_neg hcurrent]
    rfl

theorem exec_resolveLoop (hv : v.Ok) (size : Nat) (path : CString) (current : Nat)
    (component : CString) :
    (resolveLoop size path current component).exec v =
      (v.resolveLoop size path current component, v) := by
  induction path generalizing current component with
  | nil => exact exec_enter hv current component
  | cons c path ih =>
    rw [resolveLoop, Volume.resolveLoop]
    split_ifs with hslash hzero hfits
    · rw [exec_bind, exec_enter hv, hzero, if_pos rfl]
      rfl
    · rw [exec_bind, exec_enter hv, if_neg hzero]
      exact ih _ _
    · exact ih _ _
    · exact ih _ _

/-- A path is resolved without changing anything. -/
theorem exec_resolvePathToInode (hv : v.Ok) (path : CString) :
    (resolvePathToInode path).exec v = (v.resolve path, v) :=
  exec_resolveLoop hv ..

theorem exec_openFile (hv : v.Ok) (path : CString) (hi : v.geo.HasInode (v.resolve path)) :
    (openFile path).exec v = (some ⟨⟨v.resolve path, v.inodeAt (v.resolve path)⟩,
      (v.inodeAt (v.resolve path)).size, (v.inodeAt (v.resolve path)).isDir⟩, v) := by
  have hne : v.resolve path ≠ 0 := by
    have := hi.1
    omega
  simp [openFile, exec_resolvePathToInode hv, exec_readInode hv, hi, hne]

/-! ### Well-formed images -/

/-- `(mode & S_IFMT) == S_IFREG` -/
def Inode.isReg (inode : Inode) : Bool := inode.mode &&& sIfmt = sIfreg

/-- The inode is marked as used. -/
def Volume.usedInode (v : Volume) (i : Nat) : Bool :=
  testBit (v.block (v.geo.inodeBitmap (v.geo.inodeGroup i))) ((i - 1) % v.geo.inodesPerGroup)

/-- The inode is that of a regular file or of a directory. -/
structure Volume.Live (v : Volume) (i : Nat) : Prop where
  hasInode : v.geo.HasInode i
  not_reserved : i = rootInode ∨ v.geo.firstIno ≤ i
  used : v.usedInode i = true
  kind : (v.inodeAt i).isDir = true ∨ (v.inodeAt i).isReg = true

/-- A well-formed image. -/
structure Volume.Consistent (v : Volume) : Prop where
  ok : v.Ok
  counted : v.Counted
  root : v.Live rootInode
  owns : ∀ i, v.Live i → v.Owns (v.inodeAt i)
  apart : ∀ i j, v.Live i → v.Live j → i ≠ j → ∀ b, v.IsOf (v.inodeAt i) b → ¬ v.IsOf (v.inodeAt j) b
  /-- no double and triple indirect blocks -/
  single : ∀ i, v.Live i → (v.inodeAt i).block 13 = 0 ∧ (v.inodeAt i).block 14 = 0
  entries : ∀ i, v.Live i → ∀ name, v.lookup (v.inodeAt i) name ≠ 0 →
    v.Live (v.lookup (v.inodeAt i) name)

section Congr

variable {dir : Inode} {name : CString}

/-- A lookup depends on the blocks of the directory. -/
theorem Volume.lookup_congr (hsize : u.state.blockSize = v.state.blockSize)
    (hmap : ∀ b, u.mapAt dir b = v.mapAt dir b)
    (hblock : ∀ b, v.mapAt dir b ≠ 0 → u.block (v.mapAt dir b) = v.block (v.mapAt dir b)) :
    u.lookup dir name = v.lookup dir name := by
  have hloop : ∀ n b, u.lookupFrom dir name n b = v.lookupFrom dir name n b := by
    intro n
    induction n with
    | zero => exact fun _ => rfl
    | succ n ih =>
      intro b
      unfold lookupFrom
      rw [hmap b, hsize, ih]
      split_ifs with hzero
      · rfl
      · rw [hblock b hzero]
  unfold lookup FsInstance.numBlocks
  rw [hsize, hloop]

/-- Two volumes have the same directories: those of the first are the same in the second,
and what is not a directory does not become one. -/
structure SameDirectories (v u : Volume) : Prop where
  ok : u.Ok
  geo : u.geo = v.geo
  dir : ∀ i, v.Live i → (v.inodeAt i).isDir = true → u.inodeAt i = v.inodeAt i ∧
    ∀ name, u.lookup (v.inodeAt i) name = v.lookup (v.inodeAt i) name
  file : ∀ i, v.Live i → (v.inodeAt i).isDir = false → (u.inodeAt i).isDir = false

theorem SameDirectories.lookup (h : SameDirectories v u) {i : Nat} (hi : v.Live i)
    (name : CString) : u.lookup (u.inodeAt i) name = v.lookup (v.inodeAt i) name := by
  cases hdir : (v.inodeAt i).isDir with
  | true =>
    obtain ⟨hinode, hlookup⟩ := h.dir i hi hdir
    rw [hinode, hlookup]
  | false =>
    unfold Volume.lookup
    rw [hdir, h.file i hi hdir]
    rfl

theorem SameDirectories.enter (h : SameDirectories v u) {i : Nat} (hi : v.Live i)
    (component : CString) : u.enter i component = v.enter i component := by
  unfold Volume.enter
  rw [h.geo, h.lookup hi]

/-- Every component of a path leads to a file or directory again. -/
theorem Volume.Consistent.live_enter (hc : v.Consistent) {i : Nat} (hi : v.Live i)
    {component : CString} (hne : v.enter i component ≠ 0) : v.Live (v.enter i component) := by
  unfold enter at hne ⊢
  split_ifs at hne ⊢ with hempty
  · exact hi
  · exact hc.entries i hi component hne
  · exact absurd rfl hne

theorem SameDirectories.resolveLoop (h : SameDirectories v u) (hc : v.Consistent) (size : Nat)
    (path : CString) {i : Nat} (hi : v.Live i) (component : CString) :
    u.resolveLoop size path i component = v.resolveLoop size path i component := by
  induction path generalizing i component with
  | nil => exact h.enter hi component
  | cons c path ih =>
    unfold Volume.resolveLoop
    rw [h.enter hi]
    split_ifs with hslash hzero hfits
    · rfl
    · exact ih (hc.live_enter hi hzero) []
    · exact ih hi _
    · exact ih hi _

/-- **Paths.** If the directories are the same, every path leads to the same inode. -/
theorem SameDirectories.resolve (h : SameDirectories v u) (hc : v.Consistent) (path : CString) :
    u.resolve path = v.resolve path :=
  h.resolveLoop hc componentSize path hc.root []

/-- A path that leads somewhere leads to a file or directory. -/
theorem Volume.Consistent.live_resolve (hc : v.Consistent) {path : CString}
    (hne : v.resolve path ≠ 0) : v.Live (v.resolve path) := by
  have hloop : ∀ (path : CString) {i : Nat} (component : CString), v.Live i →
      v.resolveLoop componentSize path i component ≠ 0 →
        v.Live (v.resolveLoop componentSize path i component) := by
    intro path
    induction path with
    | nil => exact fun component hi hne => hc.live_enter hi hne
    | cons c path ih =>
      intro i component hi hne
      unfold resolveLoop at hne ⊢
      split_ifs at hne ⊢ with hslash hzero hfits
      · exact absurd rfl hne
      · exact ih _ (hc.live_enter hi hzero) hne
      · exact ih _ hi hne
      · exact ih _ hi hne
  exact hloop path [] hc.root hne

end Congr

end WengShiOS.Fs.Ext2
