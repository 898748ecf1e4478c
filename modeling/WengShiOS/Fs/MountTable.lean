import WengShiOS.Fs.Attachment
import WengShiOS.Fs.CanonicalPath

/-! # The mount that encloses a path

`resolvePath` compares bytes: a mount point matches if it is a prefix of the path and
the path ends there or goes on with a slash. For canonical paths that is the order of
the directory tree, a mount point above the path or at it, with one exception: the
text of the root ends in a slash, so what follows it in the path is not one. A
filesystem mounted at the root is only found for the root itself.

The longest match is the deepest mount, and it is unique, since no two mounts share a
point. What is left of the path is then cut to the caller's buffer. -/

namespace WengShiOS.Fs

open Math Vfs CanonicalPath Session Function SameFiles

/-! ### Canonical paths as texts -/

theorem render_append {q : List CString} (hq : q ≠ []) (rest : List CString) :
    render (q ++ rest) = render q ++ if rest = [] then [] else render rest := by
  by_cases hrest : rest = []
  · simp [hrest]
  induction q with
  | nil => exact absurd rfl hq
  | cons seg q ih =>
    obtain ⟨next, rest', rfl⟩ := List.exists_cons_of_ne_nil hrest
    cases q with
    | nil => simp [render, List.intercalate_cons_cons]
    | cons seg' q =>
      have htail := ih (by simp)
      simp only [render, List.cons_append, List.intercalate_cons_cons, List.append_assoc,
        List.cons.injEq, true_and, List.nil_append] at htail ⊢
      rw [htail]

namespace CanonicalPath

variable {p q : CanonicalPath}

theorem text_injective (h : p.text = q.text) : p = q := by
  rw [← canonicalize_text p, h, canonicalize_text]

theorem eq_of_segs (h : p.segs = q.segs) : p = q :=
  text_injective (by rw [text, text, h])

theorem text_eq_render_iff (segs : List CString)
    (hsegs : (canonicalize (render segs)).segs = segs) : p.text = render segs ↔ p.segs = segs := by
  constructor
  · intro htext
    rw [← canonicalize_text p, htext, hsegs]
  · intro heq
    rw [text, heq]

/-- The root is the only path whose text is one byte long. -/
theorem text_length_le_one : p.text.length ≤ 1 ↔ p.segs = [] := by
  rw [text, length_render]
  constructor
  · intro h
    cases hsegs : p.segs with
    | nil => rfl
    | cons seg rest =>
      rw [hsegs, OutBuffer.width_cons] at h
      have hne := (p.proper seg (hsegs ▸ List.mem_cons_self)).ne_nil
      have := List.length_pos_of_ne_nil hne
      omega
  · intro h
    simp [h]

/-- No slash follows the one of the root. -/
theorem getElem?_one_text (p : CanonicalPath) : p.text[1]? ≠ some slash := by
  intro h
  cases hsegs : p.segs with
  | nil => simp [text, hsegs, render] at h
  | cons seg rest =>
    have hproper := p.proper seg (hsegs ▸ List.mem_cons_self)
    obtain ⟨c, seg', rfl⟩ := List.exists_cons_of_ne_nil hproper.ne_nil
    have hc : c = slash := by
      cases rest <;> simpa [text, hsegs, render, List.intercalate_cons_cons] using h
    exact hproper.slash_notMem (hc ▸ List.mem_cons_self)

/-- The test of `resolvePath` on two canonical paths. -/
def textMatches (q p : CanonicalPath) : Prop :=
  q.text <+: p.text ∧ (p.text[q.text.length]? = none ∨ p.text[q.text.length]? = some slash)

theorem textMatches_of_prefix (hq : q.segs ≠ []) (h : q.segs <+: p.segs) :
    textMatches q p := by
  obtain ⟨rest, hrest⟩ := h
  have htext : p.text = q.text ++ if rest = [] then [] else render rest := by
    rw [text, ← hrest, render_append hq]
    rfl
  refine ⟨⟨_, htext.symm⟩, ?_⟩
  by_cases hnil : rest = []
  · left
    simp [htext, hnil]
  · right
    rw [htext, if_neg hnil, List.getElem?_append_right le_rfl, Nat.sub_self]
    rfl

theorem prefix_of_textMatches (h : textMatches q p) : q.segs <+: p.segs := by
  obtain ⟨⟨tail, htail⟩, hnext⟩ := h
  rw [← htail, List.getElem?_append_right le_rfl, Nat.sub_self] at hnext
  cases tail with
  | nil =>
    rw [List.append_nil] at htail
    rw [text_injective htail]
  | cons c tail =>
    obtain rfl : c = slash := by simpa using hnext
    by_cases hq : q.segs = []
    · rw [hq]
      exact List.nil_prefix
    -- the segments up to the slash are those of the mount point
    have hsplit := congrArg (List.splitOn slash) htail
    rw [List.splitOn_append_cons_self, splitOn_text, splitOn_text, if_neg hq] at hsplit
    have hp : p.segs ≠ [] := by
      intro hnil
      have hlen := congrArg List.length htail
      rw [List.length_append, List.length_cons] at hlen
      have := text_length_le_one.mpr hnil
      have := mt text_length_le_one.mp hq
      omega
    rw [if_neg hp, List.cons_append, List.cons.injEq] at hsplit
    exact ⟨_, hsplit.2⟩

/-- A match is an ancestor or the path itself; the root only matches itself. -/
theorem textMatches_iff :
    textMatches q p ↔ q.segs <+: p.segs ∧ (q.segs = [] → p.segs = []) := by
  constructor
  · intro h
    refine ⟨prefix_of_textMatches h, fun hq => ?_⟩
    have hlen : q.text.length = 1 := by rw [text, hq]; rfl
    rcases h.2 with hend | hslash
    · rw [hlen] at hend
      exact text_length_le_one.mp (List.getElem?_eq_none_iff.mp hend)
    · rw [hlen] at hslash
      exact absurd hslash (getElem?_one_text p)
  · rintro ⟨hpre, hroot⟩
    by_cases hq : q.segs = []
    · have htext : p.text = q.text := by rw [text, text, hq, hroot hq]
      exact ⟨htext ▸ List.prefix_rfl, .inl (by simp [htext])⟩
    · exact textMatches_of_prefix hq hpre

/-- What `resolvePath` leaves of a path behind a mount point that matches. -/
theorem remainder_text {rest : List CString} (h : p.segs = q.segs ++ rest)
    (hroot : q.segs = [] → p.segs = []) :
    remainder p.text q.text.length = [slash].intercalate rest := by
  by_cases hq : q.segs = []
  · obtain rfl : rest = [] := by
      rw [hroot hq, hq] at h
      exact h.symm
    rw [text, text, hroot hq, hq]
    rfl
  · rw [text, h, render_append hq, text, remainder, List.drop_left]
    by_cases hrest : rest = []
    · rw [if_pos hrest, hrest]
      rfl
    · rw [if_neg hrest]
      exact if_pos rfl

end CanonicalPath

/-! ### The loop of `resolvePath` -/

section Best

variable {α : Type*} (p : α → Bool) (weight : α → Nat)

/-- What a search for the heaviest element holds after the elements of a list: one of
them that is at least as heavy as all others, or that there is none of weight above 0. -/
structure IsBest (seen : List α) (best : Option α × Nat) : Prop where
  found : ∀ a, best.1 = some a → a ∈ seen ∧ p a ∧ weight a = best.2
  none : best.1 = none → best.2 = 0
  le : ∀ a ∈ seen, p a → weight a ≤ best.2

variable {p weight}

theorem isBest_foldl (l : List α) :
    IsBest p weight l (l.foldl (fun best a =>
      if p a && best.2 < weight a then (some a, weight a) else best) (none, 0)) := by
  induction l using List.reverseRecOn with
  | nil => exact ⟨by simp, fun _ => rfl, by simp⟩
  | append_singleton l a ih =>
    rw [List.foldl_append, List.foldl_cons, List.foldl_nil]
    split_ifs with hlt
    · -- the new element is the heaviest
      rw [Bool.and_eq_true, decide_eq_true_eq] at hlt
      refine ⟨fun b hb => ?_, by simp, fun b hb hpb => ?_⟩
      · cases hb
        exact ⟨by simp, hlt.1, rfl⟩
      · rcases List.mem_append.mp hb with hb | hb
        · exact (ih.le b hb hpb).trans hlt.2.le
        · obtain rfl := List.mem_singleton.mp hb
          exact le_rfl
    · refine ⟨fun b hb => ?_, ih.none, fun b hb hpb => ?_⟩
      · obtain ⟨hmem, hb⟩ := ih.found b hb
        exact ⟨List.mem_append_left _ hmem, hb⟩
      · rcases List.mem_append.mp hb with hb | hb
        · exact ih.le b hb hpb
        · obtain rfl := List.mem_singleton.mp hb
          simpa [hpb] using hlt

end Best

namespace Vfs

variable {D I P W : Type*} {v : Vfs D I P W} {path : CanonicalPath} {m : Fin maxMounts}

/-- Slot `m` is in use at `q`. -/
def MountedAt (v : Vfs D I P W) (m : Fin maxMounts) (q : CanonicalPath) : Prop :=
  (v.mounts m).inUse = true ∧ (v.mounts m).mountPoint = q.text

instance (v : Vfs D I P W) (m : Fin maxMounts) (q : CanonicalPath) : Decidable (v.MountedAt m q) :=
  inferInstanceAs (Decidable (_ ∧ _))

variable {q : CanonicalPath}

theorem MountedAt.mountMatches (h : v.MountedAt m q) :
    v.mountMatches path.text m = true ↔ q.textMatches path := by
  unfold Vfs.mountMatches CanonicalPath.textMatches
  rw [h.1, h.2, Bool.true_and, Bool.and_eq_true, List.isPrefixOf_iff_prefix]
  cases path.text[q.text.length]? <;> simp

theorem bestMount_isBest (v : Vfs D I P W) (path : CString) :
    IsBest (v.mountMatches path) (fun i => (v.mounts i).mountPoint.length)
      (List.finRange maxMounts) (v.bestMount path) :=
  isBest_foldl _

/-- The mount points are canonical, and no two slots in use share one. -/
structure Table (v : Vfs D I P W) : Prop where
  canonical : ∀ m, (v.mounts m).inUse = true → ∃ q : CanonicalPath, v.MountedAt m q
  distinct : ∀ m m' q, v.MountedAt m q → v.MountedAt m' q → m = m'

/-- The deepest mount at a path or above it, with the segments below it. -/
structure Deepest (v : Vfs D I P W) (path : CanonicalPath) (m : Fin maxMounts)
    (q : CanonicalPath) (rest : List CString) : Prop where
  mounted : v.MountedAt m q
  split : path.segs = q.segs ++ rest
  deepest : ∀ m' q', v.MountedAt m' q' → q'.segs <+: path.segs → q'.segs.length ≤ q.segs.length

/-- What `resolvePath` is meant to return: the deepest mount at the path or above it
and the path below it, or nothing if there is no such mount. -/
def ResolvesTo (v : Vfs D I P W) (path : CanonicalPath) :
    Option (Fin maxMounts × CString) → Prop
  | none => ∀ m q, v.MountedAt m q → ¬ q.segs <+: path.segs
  | some (m, subpath) => ∃ q rest, v.Deepest path m q rest ∧ subpath = [slash].intercalate rest

theorem Deepest.unique (ht : v.Table) {m' : Fin maxMounts} {q' : CanonicalPath}
    {rest rest' : List CString} (h : v.Deepest path m q rest) (h' : v.Deepest path m' q' rest') :
    m = m' ∧ q = q' ∧ rest = rest' := by
  have hlen : q.segs.length = q'.segs.length :=
    le_antisymm (h'.deepest m q h.mounted ⟨rest, h.split.symm⟩)
      (h.deepest m' q' h'.mounted ⟨rest', h'.split.symm⟩)
  obtain ⟨hq, hrest⟩ := List.append_inj (h.split.symm.trans h'.split) hlen
  obtain rfl : q = q' := by
    cases q
    cases q'
    simpa using hq
  exact ⟨ht.distinct m m' q h.mounted h'.mounted, rfl, hrest⟩

/-- Some mount above the path is the deepest. -/
theorem exists_deepest (hm : v.MountedAt m q) (hq : q.segs <+: path.segs) :
    ∃ m q rest, v.Deepest path m q rest := by
  -- the depth of the mounts above the path is bounded by that of the path
  let depth := fun n => ∃ m q, v.MountedAt m q ∧ q.segs <+: path.segs ∧ q.segs.length = n
  classical
  have hfound : depth (Nat.findGreatest depth path.segs.length) :=
    Nat.findGreatest_spec hq.length_le ⟨m, q, hm, hq, rfl⟩
  obtain ⟨m₀, q₀, hm₀, ⟨rest, hrest⟩, hlen⟩ := hfound
  refine ⟨m₀, q₀, rest, hm₀, hrest.symm, fun m' q' hm' hq' => ?_⟩
  rw [hlen]
  exact Nat.le_findGreatest hq'.length_le ⟨m', q', hm', hq', rfl⟩

/-- Of two mount points above a path the one with the longer text is the deeper. -/
theorem length_segs_le {q' : CanonicalPath} (hq : q.segs <+: path.segs)
    (hq' : q'.segs <+: path.segs) (h : q'.text.length ≤ q.text.length) :
    q'.segs.length ≤ q.segs.length := by
  by_contra hlt
  obtain ⟨rest, hrest⟩ := List.prefix_of_prefix_length_le hq hq' (by omega)
  cases rest with
  | nil =>
    rw [List.append_nil] at hrest
    rw [hrest] at hlt
    exact hlt le_rfl
  | cons seg rest =>
    have hseg := List.length_pos_of_ne_nil
      (q'.proper seg (hrest ▸ List.mem_append_right _ List.mem_cons_self)).ne_nil
    rw [text, text, length_render, length_render, ← hrest,
      OutBuffer.width_append, OutBuffer.width_cons] at h
    omega

theorem bestMount_none (h : (v.bestMount path.text).1 = none) (hm : v.MountedAt m q) :
    ¬ q.textMatches path := by
  intro hmatch
  have hbest := v.bestMount_isBest path.text
  have hle := hbest.le m (List.mem_finRange m) (hm.mountMatches.mpr hmatch)
  rw [hbest.none h, hm.2, text, length_render] at hle
  omega

/-- The match that is found is the deepest mount, also above one at the root. -/
theorem bestMount_some (ht : v.Table) (h : (v.bestMount path.text).1 = some m) :
    ∃ q rest, v.Deepest path m q rest ∧ (q.segs = [] → path.segs = []) ∧
      (v.bestMount path.text).2 = q.text.length := by
  have hbest := v.bestMount_isBest path.text
  obtain ⟨-, hmatch, hlen⟩ := hbest.found m h
  obtain ⟨q, hm⟩ := ht.canonical m (inUse_of_bestMount h)
  obtain ⟨hq, hroot⟩ := textMatches_iff.mp (hm.mountMatches.mp hmatch)
  obtain ⟨rest, hrest⟩ := id hq
  refine ⟨q, rest, ⟨hm, hrest.symm, fun m' q' hm' hq' => ?_⟩, hroot, ?_⟩
  · by_cases hnil : q'.segs = []
    · simp [hnil]
    · have hmatch' := textMatches_of_prefix hnil hq'
      have hle := hbest.le m' (List.mem_finRange m') (hm'.mountMatches.mpr hmatch')
      rw [← hlen, hm.2, hm'.2] at hle
      exact length_segs_le hq hq' hle
  · rw [← hlen, hm.2]

theorem deepest_of_resolvePath (ht : v.Table) {size : Nat} {subpath : CString}
    (h : v.resolvePath path.text size = some (m, subpath)) :
    ∃ q rest, v.Deepest path m q rest ∧ (q.segs = [] → path.segs = []) ∧
      subpath = copyBounded size ([slash].intercalate rest) := by
  unfold resolvePath at h
  rcases hbest : v.bestMount path.text with ⟨_ | m', len⟩
  · rw [hbest] at h
    cases h
  · rw [hbest] at h
    cases h
    obtain ⟨q, rest, hdeep, hroot, hlen⟩ := bestMount_some ht (congrArg Prod.fst hbest)
    rw [hbest] at hlen
    refine ⟨q, rest, hdeep, hroot, ?_⟩
    rw [show len = q.text.length from hlen, remainder_text hdeep.split hroot]

theorem resolvePath_of_deepest (ht : v.Table) {rest : List CString}
    (hdeep : v.Deepest path m q rest) (hroot : q.segs = [] → path.segs = []) (size : Nat) :
    v.resolvePath path.text size = some (m, copyBounded size ([slash].intercalate rest)) := by
  rcases hpath : v.resolvePath path.text size with _ | ⟨m', subpath⟩
  · -- the mount matches, so something is found
    exfalso
    unfold resolvePath at hpath
    rcases hbest : v.bestMount path.text with ⟨_ | m', len⟩
    · exact bestMount_none (congrArg Prod.fst hbest) hdeep.mounted
        (textMatches_iff.mpr ⟨⟨rest, hdeep.split.symm⟩, hroot⟩)
    · rw [hbest] at hpath
      cases hpath
  · obtain ⟨q', rest', hdeep', -, rfl⟩ := deepest_of_resolvePath ht hpath
    obtain ⟨rfl, rfl, rfl⟩ := hdeep.unique ht hdeep'
    rfl

/-- What is returned is right exactly if the deepest mount above the path is not the
root, or the path is the root itself, and the path below the mount fits the buffer. -/
theorem resolvesTo_resolvePath_iff (ht : v.Table) (path : CanonicalPath) (size : Nat) :
    v.ResolvesTo path (v.resolvePath path.text size) ↔
      ∀ m q rest, v.Deepest path m q rest →
        (q.segs = [] → path.segs = []) ∧ ([slash].intercalate rest).length ≤ size - 1 := by
  rcases hpath : v.resolvePath path.text size with _ | ⟨m, subpath⟩
  · -- nothing is found: right if there is no mount above the path
    constructor
    · intro h m q rest hdeep
      exact absurd ⟨rest, hdeep.split.symm⟩ (h m q hdeep.mounted)
    · intro hcond m q hm hq
      obtain ⟨m, q, rest, hdeep⟩ := exists_deepest hm hq
      rw [resolvePath_of_deepest ht hdeep (hcond m q rest hdeep).1] at hpath
      cases hpath
  · obtain ⟨q, rest, hdeep, hroot, rfl⟩ := deepest_of_resolvePath ht hpath
    constructor
    · rintro ⟨q', rest', hdeep', hcut⟩ m'' q'' rest'' hdeep''
      obtain ⟨-, rfl, rfl⟩ := hdeep.unique ht hdeep'
      obtain ⟨-, rfl, rfl⟩ := hdeep.unique ht hdeep''
      refine ⟨hroot, ?_⟩
      rw [← hcut]
      exact List.length_take_le _ _
    · intro hcond
      exact ⟨q, rest, hdeep, List.take_of_length_le (hcond m q rest hdeep).2⟩

/-! ### The mount table along a run -/

/-- Slots may be given up, but not filled. -/
theorem Table.of_kept {v' : Vfs D I P W} (ht : v.Table)
    (h : ∀ m, (v'.mounts m).inUse = true → v'.mounts m = v.mounts m) : v'.Table := by
  have hback : ∀ {m q}, v'.MountedAt m q → v.MountedAt m q := by
    intro m q hm
    have hsame := h m hm.1
    rwa [MountedAt, hsame] at hm
  refine ⟨fun m hm => ?_, fun m m' q hm hm' => ht.distinct m m' q (hback hm) (hback hm')⟩
  have hsame := h m hm
  obtain ⟨q, hq⟩ := ht.canonical m (hsame ▸ hm)
  exact ⟨q, by rwa [MountedAt, hsame]⟩

theorem Table.of_mounts_eq {v' : Vfs D I P W} (ht : v.Table) (h : v'.mounts = v.mounts) :
    v'.Table :=
  ht.of_kept fun m _ => congrFun h m

theorem not_mountedAt_of_findMount (h : v.findMount q.text = none) :
    ¬ v.MountedAt m q := by
  intro hm
  have := List.find?_eq_none.mp h m (List.mem_finRange m)
  simp [hm.1, hm.2] at this

variable {drivers : D → FilesystemDriver W I P}

theorem Table.mount (ht : v.Table) (hshort : q.text.length ≤ 63) (deviceName : CString)
    (driver : D) :
    (v.mount drivers q.text deviceName driver).2.Table := by
  unfold Vfs.mount
  rcases v.findBlockDevice deviceName with _ | device
  · exact ht
  split_ifs with hused
  · exact ht
  rcases hfree : v.freeMount with _ | i
  · exact ht
  dsimp only
  rcases (drivers driver).mount device v.world with ⟨_ | fsInstance, world⟩
  · exact ht.of_mounts_eq rfl
  -- the new mount is at `q`, where there was none before
  have hcopy : copyBounded 64 q.text = q.text := List.take_of_length_le hshort
  have hnone : ∀ m, ¬ v.MountedAt m q := fun m =>
    not_mountedAt_of_findMount (by simpa using hused)
  have hcases : ∀ {m q'}, MountedAt { v with
      world := world
      mounts := update v.mounts i
        { inUse := true, mountPoint := copyBounded 64 q.text
          deviceName := copyBounded 32 deviceName, device, driver, fsInstance } } m q' →
      (m = i ∧ q' = q) ∨ (m ≠ i ∧ v.MountedAt m q') := by
    intro m q' hm
    by_cases hmi : m = i
    · subst hmi
      refine .inl ⟨rfl, text_injective ?_⟩
      have := hm.2
      simp only [update_self, hcopy] at this
      exact this.symm
    · refine .inr ⟨hmi, ?_⟩
      simpa only [MountedAt, update_of_ne hmi] using hm
  refine ⟨fun m hm => ?_, fun m m' q' hm hm' => ?_⟩
  · by_cases hmi : m = i
    · subst hmi
      exact ⟨q, by simp [MountedAt, hcopy]⟩
    · simp only [update_of_ne hmi] at hm
      obtain ⟨q', hq'⟩ := ht.canonical m hm
      exact ⟨q', by simpa only [MountedAt, update_of_ne hmi] using hq'⟩
  · rcases hcases hm with ⟨rfl, rfl⟩ | ⟨-, hold⟩
    · rcases hcases hm' with ⟨rfl, -⟩ | ⟨-, hold'⟩
      · rfl
      · exact absurd hold' (hnone m')
    · rcases hcases hm' with ⟨-, rfl⟩ | ⟨-, hold'⟩
      · exact absurd hold (hnone m)
      · exact ht.distinct m m' q' hold hold'

theorem Table.unmount (ht : v.Table) (mountPoint : CString) :
    (v.unmount drivers mountPoint).2.Table := by
  unfold Vfs.unmount
  rcases v.findMount mountPoint with _ | i
  · exact ht
  refine ht.of_kept fun m hm => ?_
  by_cases hmi : m = i
  · subst hmi
    simp at hm
  · exact update_of_ne hmi _ _

theorem mounts_openFile (path : CString) : (v.openFile drivers path).2.mounts = v.mounts := by
  unfold openFile
  rcases v.resolvePath path 128 with _ | ⟨m, subpath⟩
  · rfl
  rcases v.freeFile with _ | i
  · rfl
  dsimp only
  split <;> rfl

end Vfs

namespace Session

variable {D I P W : Type*} {drivers : D → FilesystemDriver W I P} {s : Session D I P W}

/-- Filesystems are mounted at canonical paths that fit the table. -/
def MountsCanonical (_ : Session D I P W) : VfsAction D W → Prop
  | .mount mountPoint _ _ => ∃ q : CanonicalPath, mountPoint = q.text ∧ q.text.length ≤ 63
  | _ => True

theorem table_next (ht : s.vfs.Table) {a : VfsAction D W} (guard : s.MountsCanonical a) :
    (s.next drivers a).vfs.Table := by
  cases a with
  | registerBlockDevice dev =>
    exact ht.of_mounts_eq (registerBlockDevice dev).mounts
  | mount mountPoint deviceName driver =>
    obtain ⟨q, rfl, hshort⟩ := guard
    have hvfs : (s.afterMount drivers q.text deviceName driver).vfs =
        (s.vfs.mount drivers q.text deviceName driver).2 := by
      unfold afterMount
      split <;> simp_all
    rw [next, hvfs]
    exact ht.mount hshort deviceName driver
  | unmount mountPoint =>
    have hvfs : (s.afterUnmount drivers mountPoint).vfs =
        (s.vfs.unmount drivers mountPoint).2 := by
      unfold afterUnmount
      split <;> rfl
    rw [next, hvfs]
    exact ht.unmount mountPoint
  | openFile path =>
    have hvfs : (s.afterOpen drivers path).vfs = (s.vfs.openFile drivers path).2 := by
      unfold afterOpen
      dsimp only
      split
      · split_ifs <;> rfl
      · rfl
    rw [next, hvfs]
    exact ht.of_mounts_eq (mounts_openFile path)
  | close fd => exact ht.of_mounts_eq (close fd).mounts
  | read fd count => exact ht.of_mounts_eq (read fd count).mounts
  | write fd data => exact ht.of_mounts_eq (write fd data).mounts
  | seek fd offset mode => exact ht.of_mounts_eq (seek fd offset mode).mounts
  | create path isDirectory => exact ht.of_mounts_eq (create path isDirectory).mounts
  | unlink path => exact ht.of_mounts_eq (unlink path).mounts
  | rmdir path => exact ht.of_mounts_eq (rmdir path).mounts

theorem table_of_reachable
    (h : ((vfsSystem drivers).restrict MountsCanonical).Reachable s) : s.vfs.Table := by
  refine h.invariant (fun s => s.vfs.Table) (fun s hs => ?_) fun s a s' ht step => ?_
  · obtain ⟨⟨v, hv⟩, -⟩ := hs
    have hslots : ∀ m, (s.vfs.mounts m).inUse = false := fun m => by rw [hv]; rfl
    refine ⟨fun m hm => ?_, fun m m' q hm => ?_⟩
    · simp [hslots m] at hm
    · simp [MountedAt, hslots m] at hm
  · obtain rfl := Option.some.inj step.2
    exact table_next ht step.1

end Session

/-- **Mount resolution.** In every state of the VFS whose filesystems were mounted at
canonical paths of at most 63 bytes, and for every canonical path, `resolvePath` returns
the deepest mount at the path or above it and the path below it, and nothing if there is
none: exactly if the deepest mount is not the one at the root, or the path is the root,
and the path below the mount has at most 127 bytes. -/
theorem resolvePath_deepest_iff {D I P W : Type*} {drivers : D → FilesystemDriver W I P}
    {s : Session D I P W}
    (h : ((vfsSystem drivers).restrict Session.MountsCanonical).Reachable s)
    (path : CanonicalPath) :
    s.vfs.ResolvesTo path (s.vfs.resolvePath path.text 128) ↔
      ∀ m q rest, s.vfs.Deepest path m q rest →
        (q.segs = [] → path.segs = []) ∧ ([slash].intercalate rest).length ≤ 127 :=
  resolvesTo_resolvePath_iff (table_of_reachable h) path 128

/-! ### Runs -/

/-- A path whose segments are single letters. -/
def letterPath (segs : List UInt8) (h : slash ∉ segs ∧ dot ∉ segs) : CanonicalPath where
  segs := segs.map fun c => [c]
  proper := by
    intro seg hseg
    obtain ⟨c, hc, rfl⟩ := List.mem_map.mp hseg
    refine ⟨by simp, fun hslash => ?_, fun hdot => ?_, by simp⟩
    · exact h.1 (List.mem_singleton.mp hslash ▸ hc)
    · exact h.2 (List.singleton_inj.mp hdot ▸ hc)

/-- A filesystem at the root, and one at `/a`. -/
def rootMount : List (VfsAction Unit Nat) :=
  [.registerBlockDevice disk, .mount [slash] disk.name (), .mount [slash, 0x61] disk.name ()]

theorem rootMount_reachable :
    ((vfsSystem fun _ : Unit => countingDriver).restrict MountsCanonical).Reachable
      (afterRun rootMount) := by
  refine afterRun_reachable _ rootMount fun s a ha => ?_
  simp only [rootMount, List.mem_cons, List.not_mem_nil, or_false] at ha
  rcases ha with rfl | rfl | rfl
  · trivial
  · exact ⟨letterPath [] (by simp), rfl, by decide⟩
  · exact ⟨letterPath [0x61] (by decide), rfl, by decide⟩

/-- `/a/f` is resolved to the mount at `/a`. -/
theorem resolvePath_deepest_below :
    (afterRun rootMount).vfs.ResolvesTo (letterPath [0x61, 0x66] (by decide))
      ((afterRun rootMount).vfs.resolvePath [slash, 0x61, slash, 0x66] 128) := by
  refine (resolvePath_deepest_iff rootMount_reachable (letterPath [0x61, 0x66] (by decide))).mpr ?_
  intro m q rest hdeep
  have hmount : (afterRun rootMount).vfs.MountedAt 1 (letterPath [0x61] (by decide)) := by
    decide +kernel
  have hdepth : 1 ≤ q.segs.length := hdeep.deepest 1 _ hmount ⟨[[0x66]], rfl⟩
  have hsplit : [[0x61], [0x66]] = q.segs ++ rest := hdeep.split
  refine ⟨fun hnil => by simp [hnil] at hdepth, ?_⟩
  have hrest : rest = [[0x61], [0x66]].drop q.segs.length := by
    rw [hsplit, List.drop_left]
  rw [hrest]
  cases q.segs.length with
  | zero => decide
  | succ n => cases n <;> simp [List.intercalate]

/-- With a filesystem mounted at the root, `/b` is not resolved at all. -/
theorem not_resolvePath_deepest :
    ((vfsSystem fun _ : Unit => countingDriver).restrict Session.MountsCanonical).Reachable
        (afterRun rootMount) ∧
      (afterRun rootMount).vfs.MountedAt 0 (letterPath [] (by simp)) ∧
      (afterRun rootMount).vfs.resolvePath [slash, 0x62] 128 = none ∧
      ¬ (afterRun rootMount).vfs.ResolvesTo (letterPath [0x62] (by decide))
        ((afterRun rootMount).vfs.resolvePath [slash, 0x62] 128) := by
  have hmount : (afterRun rootMount).vfs.MountedAt 0 (letterPath [] (by simp)) := by decide +kernel
  have hnone : (afterRun rootMount).vfs.resolvePath [slash, 0x62] 128 = none := by decide +kernel
  refine ⟨rootMount_reachable, hmount, hnone, fun h => ?_⟩
  exact h 0 _ hmount List.nil_prefix

end WengShiOS.Fs
