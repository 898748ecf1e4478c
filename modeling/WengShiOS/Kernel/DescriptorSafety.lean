import WengShiOS.Fs.Attachment
import WengShiOS.Kernel.Descriptors

/-! # Which tasks the descriptors belong to

Nothing in the kernel ties a descriptor to the task that opened it. If the tasks
themselves use only what they hold, close it before they end, and do not search for a
free slot while another search has found the same one, then the slots in use are
exactly those that live tasks hold. -/

namespace WengShiOS.Syscalls

open Math Scheduler Fs FileState Function

namespace FileState

variable {D I P W : Type*} {drivers : D → FilesystemDriver W I P} {s s' : FileState D I P W}
  {c p : Nat} {i : Fin maxOpenFiles}

abbrev inUse (s : FileState D I P W) (i : Fin maxOpenFiles) : Bool := (s.vfs.openFiles i).inUse

structure Inv (s : FileState D I P W) : Prop where
  kernel : s.kernel.Inv
  /-- A task that ended itself was outside the calls. -/
  ended : ∀ p, s.sched.current = some p → (s.sched.task p).state = .terminated →
    (s.point p).isOutside = true
  fresh : ∀ p, s.sched.count ≤ p → (s.point p).isOutside = true
  held : ∀ p i, s.opened p i = true → s.Live p ∧ s.inUse i = true ∧ s.opener i = some p
  taken : ∀ p i, s.inUse i = true → s.opener i = some p → s.opened p i = true
  /-- A slot that was found free stays free, and only one call has found it. -/
  reserved : ∀ p i, s.Live p → (s.point p).reserved = some i →
    s.inUse i = false ∧ ∀ q, s.Live q → (s.point q).reserved = some i → q = p
  uses : ∀ p i, s.Live p → (s.point p).uses = some i → s.opened p i = true

theorem live_of_caller (inv : s.Inv) (hc : s.kernel.caller = some c) : s.Live c := by
  obtain ⟨hcurrent, halive⟩ := Kernel.caller_eq_some.mp hc
  exact ⟨inv.kernel.ring.current_lt c hcurrent, halive⟩

/-! ### Steps of the scheduler -/

/-- A task inside a call that is alive after a step was so before. -/
theorem Inv.live_of_next {a : Action} {k : Kernel} (inv : s.Inv) (h : s.kernel.next a = some k)
    (hp : (s.point p).isOutside = false) (hlive : (k.sched.task p).state ≠ .terminated) :
    s.Live p := by
  have hlt : p < s.sched.count := by
    by_contra hge
    rw [inv.fresh p (by omega)] at hp
    cases hp
  refine ⟨hlt, fun hend => ?_⟩
  rcases Kernel.next_terminated inv.kernel h hlt hend with hend' | ⟨hcurrent, -⟩
  · exact hlive hend'
  · rw [inv.ended p hcurrent hend] at hp
    cases hp

variable {pt : FilePoint P} {v : Vfs D I P W}

theorem isOutside_of_reserved (h : pt.reserved = some i) :
    pt.isOutside = false := by
  cases pt <;> simp_all

theorem isOutside_of_uses (h : pt.uses = some i) : pt.isOutside = false := by
  cases pt <;> simp_all

theorem Inv.sched {a : Action} {k : Kernel} (inv : s.Inv) (hmay : s.mayStep a = true)
    (guard : s.Respects (.sched a)) (h : s.kernel.next a = some k) :
    ({ s with kernel := k } : FileState D I P W).Inv := by
  have hcall : s.kernel.nextCall (.sched a) = some k := h
  have hcount : s.sched.count ≤ k.sched.count := Kernel.count_le_nextCall inv.kernel hcall
  have back : ∀ {p}, (s.point p).isOutside = false →
      ({ s with kernel := k } : FileState D I P W).Live p → s.Live p :=
    fun hp hlive => inv.live_of_next h hp hlive.2
  refine ⟨inv.kernel.next h, fun p hcurrent hend => ?_, fun p hp => inv.fresh p (hcount.trans hp),
    fun p i hopened => ?_, inv.taken, fun p i hlive hres => ?_, fun p i hlive huses => ?_⟩
  · obtain ⟨hcurrent', hend' | ⟨id, exitCode, rfl⟩⟩ :=
      Kernel.next_current_terminated inv.kernel h hcurrent hend
    · exact inv.ended p hcurrent' hend'
    · simpa [mayStep, sched, hcurrent'] using hmay
  · obtain ⟨⟨hlt, halive⟩, hused, hopener⟩ := inv.held p i hopened
    refine ⟨⟨hlt.trans_le hcount, ?_⟩, hused, hopener⟩
    rcases Kernel.next_alive inv.kernel h hlt halive with halive' | ⟨id, exitCode, rfl, hvictim⟩
    · exact halive'
    · rw [guard p hvictim i] at hopened
      cases hopened
  · obtain ⟨hfree, honly⟩ := inv.reserved p i (back (isOutside_of_reserved hres) hlive) hres
    exact ⟨hfree, fun q hq hres' => honly q (back (isOutside_of_reserved hres') hq) hres'⟩
  · exact inv.uses p i (back (isOutside_of_uses huses) hlive) huses

/-! ### Statements -/

/-- A step that moves only the task `c`. -/
structure Moved (s s' : FileState D I P W) (c : Nat) : Prop where
  kernel : s'.kernel = s.kernel
  point : ∀ p, p ≠ c → s'.point p = s.point p

theorem Moved.live (m : Moved s s' c) : s'.Live p ↔ s.Live p := by
  unfold Live sched
  rw [m.kernel]

theorem Moved.ended (m : Moved s s' c) (inv : s.Inv) (hc : s.kernel.caller = some c) :
    ∀ p, s'.sched.current = some p → (s'.sched.task p).state = .terminated →
      (s'.point p).isOutside = true := by
  intro p hp hend
  rw [sched, m.kernel] at hp hend
  by_cases hpc : p = c
  · exact absurd (hpc ▸ hend) (live_of_caller inv hc).2
  · rw [m.point p hpc]
    exact inv.ended p hp hend

theorem Moved.fresh (m : Moved s s' c) (inv : s.Inv) (hc : s.kernel.caller = some c) :
    ∀ p, s'.sched.count ≤ p → (s'.point p).isOutside = true := by
  intro p hp
  rw [sched, m.kernel] at hp
  have hlt := (live_of_caller inv hc).1
  have hpc : p ≠ c := fun heq => absurd hlt (by rw [← heq]; exact Nat.not_lt.mpr hp)
  rw [m.point p hpc]
  exact inv.fresh p hp

/-- A statement of the caller that fills and empties no slot. -/
structure Quiet (s s' : FileState D I P W) (c : Nat) : Prop extends Moved s s' c where
  inUse : ∀ i, s'.inUse i = s.inUse i
  opener : s'.opener = s.opener
  opened : s'.opened = s.opened

section

variable (inv : s.Inv) (hc : s.kernel.caller = some c) (q : Quiet s s' c)
include inv hc q

theorem Inv.quiet (reserved : ∀ i, (s'.point c).reserved = some i → s.inUse i = false ∧
      ∀ p, s.Live p → p ≠ c → (s.point p).reserved ≠ some i)
    (uses : ∀ i, (s'.point c).uses = some i → s.opened c i = true) : s'.Inv := by
  refine ⟨q.kernel ▸ inv.kernel, q.ended inv hc, q.fresh inv hc, fun p i hopened => ?_,
    fun p i hused hopener => ?_, fun p i hp hres => ?_, fun p i hp huses => ?_⟩
  · rw [q.live, q.inUse, q.opener]
    exact inv.held p i (q.opened ▸ hopened)
  · rw [q.opened]
    exact inv.taken p i (q.inUse i ▸ hused) (q.opener ▸ hopener)
  · rw [q.live] at hp
    simp only [q.inUse, q.live]
    by_cases hpc : p = c
    · subst hpc
      obtain ⟨hfree, hother⟩ := reserved i hres
      refine ⟨hfree, fun r hr hres' => ?_⟩
      by_contra hne
      exact hother r hr hne (q.point r hne ▸ hres')
    · obtain ⟨hfree, honly⟩ := inv.reserved p i hp (q.point p hpc ▸ hres)
      refine ⟨hfree, fun r hr hres' => ?_⟩
      by_cases hrc : r = c
      · subst hrc
        exact absurd (q.point p hpc ▸ hres) ((reserved i hres').2 p hp hpc)
      · exact honly r hr (q.point r hrc ▸ hres')
  · rw [q.live] at hp
    rw [q.opened]
    by_cases hpc : p = c
    · subst hpc
      exact uses i huses
    · exact inv.uses p i hp (q.point p hpc ▸ huses)

/-- The caller goes to a point where it has neither found a slot nor uses one. -/
theorem Inv.outside (hpt : s'.point c = pt) (reserved : pt.reserved = none)
    (uses : pt.uses = none) : s'.Inv := by
  rw [← hpt] at reserved uses
  refine inv.quiet hc q (fun i h => ?_) fun i h => ?_
  · rw [reserved] at h
    cases h
  · rw [uses] at h
    cases h

/-- The caller keeps the slot it has found or uses. -/
theorem Inv.keep {old : FilePoint P} (hpt : s'.point c = pt) (hold : s.point c = old)
    (reserved : pt.reserved = old.reserved) (uses : pt.uses = old.uses) : s'.Inv := by
  have hlive := live_of_caller inv hc
  rw [← hpt, ← hold] at reserved uses
  refine inv.quiet hc q (fun i h => ?_) fun i h => inv.uses c i hlive (uses ▸ h)
  obtain ⟨hfree, honly⟩ := inv.reserved c i hlive (reserved ▸ h)
  exact ⟨hfree, fun p hp hne hres => hne (honly p hp hres)⟩

end

@[simp] theorem goto_point (s : FileState D I P W) (c : Nat) (pt : FilePoint P) :
    (s.goto c pt).point c = pt := update_self _ _ _

@[simp] theorem ret_point (s : FileState D I P W) (c : Nat) (n : Int) :
    (s.ret c n).point c = .outside := update_self _ _ _

theorem Quiet.goto (s : FileState D I P W) (c : Nat) (pt : FilePoint P) : Quiet s (s.goto c pt) c :=
  ⟨⟨rfl, fun _ hp => update_of_ne hp _ _⟩, fun _ => rfl, rfl, rfl⟩

theorem Quiet.ret (s : FileState D I P W) (c : Nat) (n : Int) : Quiet s (s.ret c n) c :=
  ⟨⟨rfl, fun _ hp => update_of_ne hp _ _⟩, fun _ => rfl, rfl, rfl⟩

theorem inUse_setFile {f : OpenFile P} (j : Fin maxOpenFiles) :
    ((v.setFile i f).openFiles j).inUse = if j = i then f.inUse else (v.openFiles j).inUse := by
  by_cases hj : j = i
  · subst hj
    simp [Vfs.setFile]
  · simp [Vfs.setFile, hj]

theorem inUse_setFile_same {f : OpenFile P} (h : f.inUse = (v.openFiles i).inUse)
    (j : Fin maxOpenFiles) :
    ((v.setFile i f).openFiles j).inUse = (v.openFiles j).inUse := by
  rw [inUse_setFile]
  split_ifs with hj
  · rw [hj, h]
  · rfl

theorem freeFile_inUse (h : v.freeFile = some i) :
    (v.openFiles i).inUse = false := by
  simpa using List.find?_some h

theorem opened_setOpened {held : Bool} (p : Nat) (j : Fin maxOpenFiles) :
    (s.setOpened c i held).opened p j = if p = c ∧ j = i then held else s.opened p j := by
  unfold setOpened
  by_cases hp : p = c
  · subst hp
    by_cases hj : j = i
    · simp [hj]
    · simp [hj]
  · simp [hp]

section

variable (inv : s.Inv) (hc : s.kernel.caller = some c)
include inv hc

/-- `VFS::open` fills the slot it has found. -/
theorem Inv.openStore {m : Fin maxMounts} {handle : FileHandle P}
    (hpt : s.point c = .openStore m i handle) :
    (s.openStore c m i handle).Inv := by
  have hlive := live_of_caller inv hc
  obtain ⟨hfree, honly⟩ := inv.reserved c i hlive (by simp [hpt])
  have moved : Moved s (s.openStore c m i handle) c :=
    ⟨rfl, fun p hp => update_of_ne hp _ _⟩
  have hinUse : ∀ j, (s.openStore c m i handle).inUse j = if j = i then true else s.inUse j :=
    fun j => inUse_setFile j
  have hopened : ∀ p j, (s.openStore c m i handle).opened p j =
      if p = c ∧ j = i then true else s.opened p j := opened_setOpened
  have hopener : ∀ j, (s.openStore c m i handle).opener j = if j = i then some c else s.opener j :=
    fun j => by simp [FileState.openStore, Function.update_apply]
  have hpoint : (s.openStore c m i handle).point c = .outside := update_self _ _ _
  refine ⟨inv.kernel, moved.ended inv hc, moved.fresh inv hc, fun p j h => ?_, fun p j hused h => ?_,
    fun p j hp hres => ?_, fun p j hp huses => ?_⟩
  · rw [moved.live, hinUse, hopener]
    rw [hopened] at h
    by_cases hnew : p = c ∧ j = i
    · rw [hnew.1, if_pos hnew.2, if_pos hnew.2]
      exact ⟨hlive, rfl, rfl⟩
    · rw [if_neg hnew] at h
      obtain ⟨hp, hused, hopen⟩ := inv.held p j h
      have hj : j ≠ i := fun heq => by simp [heq, hfree] at hused
      rw [if_neg hj, if_neg hj]
      exact ⟨hp, hused, hopen⟩
  · rw [hopened]
    rw [hinUse] at hused
    rw [hopener] at h
    by_cases hj : j = i
    · rw [if_pos hj] at h
      rw [if_pos ⟨(Option.some.inj h).symm, hj⟩]
    · rw [if_neg hj] at hused h
      rw [if_neg fun h => hj h.2]
      exact inv.taken p j hused h
  · have hpc : p ≠ c := fun heq => by simp [heq, hpoint] at hres
    rw [moved.point p hpc] at hres
    obtain ⟨hfree', honly'⟩ := inv.reserved p j hp hres
    -- nobody else has found this slot
    have hj : j ≠ i := fun heq => hpc (honly p hp (heq ▸ hres))
    refine ⟨by rw [hinUse, if_neg hj, hfree'], fun q hq hres' => ?_⟩
    have hqc : q ≠ c := fun heq => by simp [heq, hpoint] at hres'
    exact honly' q (moved.live.mp hq) (moved.point q hqc ▸ hres')
  · have hpc : p ≠ c := fun heq => by simp [heq, hpoint] at huses
    rw [hopened, if_neg fun h => hpc h.1]
    exact inv.uses p j (moved.live.mp hp) (moved.point p hpc ▸ huses)

/-- `VFS::close` empties a slot that the caller holds. -/
theorem Inv.closeStore (hpt : s.point c = .closeStore i) : (s.closeStore c i).Inv := by
  have hlive := live_of_caller inv hc
  have hheld := inv.held c i (inv.uses c i hlive (by simp [hpt]))
  have moved : Moved s (s.closeStore c i) c := ⟨rfl, fun p hp => update_of_ne hp _ _⟩
  have hinUse : ∀ j, (s.closeStore c i).inUse j = if j = i then false else s.inUse j :=
    fun j => inUse_setFile j
  have hopened : ∀ p j, (s.closeStore c i).opened p j =
      if p = c ∧ j = i then false else s.opened p j := opened_setOpened
  have hpoint : (s.closeStore c i).point c = .outside := update_self _ _ _
  refine ⟨inv.kernel, moved.ended inv hc, moved.fresh inv hc, fun p j h => ?_, fun p j hused h => ?_,
    fun p j hp hres => ?_, fun p j hp huses => ?_⟩
  · rw [hopened] at h
    split_ifs at h with hclosed
    obtain ⟨hp, hused, hopen⟩ := inv.held p j h
    -- the caller is the only task that held the slot
    have hj : j ≠ i := by
      rintro rfl
      exact hclosed ⟨Option.some.inj (hopen.symm.trans hheld.2.2), rfl⟩
    rw [moved.live, hinUse, if_neg hj]
    exact ⟨hp, hused, hopen⟩
  · rw [hinUse] at hused
    split_ifs at hused with hj
    rw [hopened, if_neg fun h => hj h.2]
    exact inv.taken p j hused h
  · have hpc : p ≠ c := fun heq => by simp [heq, hpoint] at hres
    obtain ⟨hfree, honly⟩ := inv.reserved p j (moved.live.mp hp) (moved.point p hpc ▸ hres)
    refine ⟨?_, fun q hq hres' => ?_⟩
    · rw [hinUse, hfree]
      split_ifs <;> rfl
    · have hqc : q ≠ c := fun heq => by simp [heq, hpoint] at hres'
      exact honly q (moved.live.mp hq) (moved.point q hqc ▸ hres')
  · have hpc : p ≠ c := fun heq => by simp [heq, hpoint] at huses
    rw [hopened, if_neg fun h => hpc h.1]
    exact inv.uses p j (moved.live.mp hp) (moved.point p hpc ▸ huses)

/-- A test of a descriptor that the caller holds, after which the call uses its slot. -/
theorem Inv.test {fd : Int} {n : Int} {pt : Fin maxOpenFiles → FilePoint P} (hheld : s.Holds c fd)
    (hres : ∀ i, (pt i).reserved = none) (huses : ∀ i, (pt i).uses = some i)
    (h : (match s.vfs.slotOf fd with
      | none => some (s.ret c n)
      | some i => some (s.goto c (pt i))) = some s') : s'.Inv := by
  cases hslot : s.vfs.slotOf fd with rw [hslot] at h
  | none =>
    cases h
    exact inv.outside hc (Quiet.ret s c n) (ret_point s c _) rfl rfl
  | some i =>
    cases h
    refine inv.quiet hc (Quiet.goto s c _) (fun j hj => ?_) fun j hj => ?_
    · rw [goto_point, hres] at hj
      cases hj
    · rw [goto_point, huses] at hj
      cases hj
      exact hheld i hslot

theorem Inv.exec (guard : s.MayExec c (s.point c)) (h : s.exec drivers c = some s') : s'.Inv := by
  have hother : ∀ {pt : FilePoint P} p, p ≠ c → update s.point c pt p = s.point p :=
    fun p hp => update_of_ne hp _ _
  unfold FileState.exec at h
  cases hpt : s.point c with rw [hpt] at h guard
  | outside => cases h
  | openFind path =>
    dsimp only at h
    cases hpath : s.vfs.resolvePath path 128 with rw [hpath] at h
    | none =>
      cases h
      exact inv.outside hc (Quiet.ret s c _) (ret_point s c _) rfl rfl
    | some mount =>
      cases hfree : s.vfs.freeFile with rw [hfree] at h
      | none =>
        cases h
        exact inv.outside hc (Quiet.ret s c _) (ret_point s c _) rfl rfl
      | some i =>
        cases h
        refine inv.quiet hc (Quiet.goto s c _) (fun j hj => ?_) fun j hj => ?_
        · rw [goto_point] at hj
          cases hj
          refine ⟨freeFile_inUse hfree, fun p hp hne => ?_⟩
          exact (guard i hfree p hp.1 hne).resolve_left hp.2
        · rw [goto_point] at hj
          cases hj
  | openDriver m subpath i =>
    dsimp only at h
    generalize (drivers (s.vfs.mounts m).driver).openFile _ _ _ = result at h
    obtain ⟨handle, world⟩ := result
    cases handle with
    | none =>
      cases h
      exact inv.outside hc ⟨⟨rfl, hother⟩, fun _ => rfl, rfl, rfl⟩ (ret_point s c (-1)) rfl rfl
    | some handle =>
      cases h
      exact inv.keep hc ⟨⟨rfl, hother⟩, fun _ => rfl, rfl, rfl⟩ (goto_point s c _) hpt rfl
        rfl
  | openStore m i handle =>
    cases h
    exact inv.openStore hc hpt
  | readTest fd count => exact inv.test hc guard (fun _ => rfl) (fun _ => rfl) h
  | writeTest fd data => exact inv.test hc guard (fun _ => rfl) (fun _ => rfl) h
  | closeTest fd => exact inv.test hc guard (fun _ => rfl) (fun _ => rfl) h
  | readDriver i count =>
    cases h
    exact inv.keep hc ⟨⟨rfl, hother⟩, inUse_setFile_same rfl, rfl, rfl⟩ (goto_point s c _)
      hpt rfl rfl
  | writeDriver i data =>
    cases h
    exact inv.keep hc ⟨⟨rfl, hother⟩, inUse_setFile_same rfl, rfl, rfl⟩ (goto_point s c _)
      hpt rfl rfl
  | advance i n =>
    cases h
    have hsame : (Vfs.advance (s.vfs.openFiles i) n).inUse = (s.vfs.openFiles i).inUse := by
      unfold Vfs.advance
      split_ifs <;> rfl
    exact inv.outside hc ⟨⟨rfl, hother⟩, inUse_setFile_same hsame, rfl, rfl⟩
      (ret_point s c n) rfl rfl
  | closeDriver i =>
    cases h
    exact inv.keep hc ⟨⟨rfl, hother⟩, fun _ => rfl, rfl, rfl⟩ (goto_point s c _) hpt rfl rfl
  | closeStore i =>
    cases h
    exact inv.closeStore hc hpt

end

/-- Entering a call, or returning from it at once. -/
theorem Inv.call {enter : Nat → FileState D I P W} (inv : s.Inv)
    (henter : ∀ c, (∃ n, enter c = s.ret c n) ∨
      ∃ pt : FilePoint P, pt.reserved = none ∧ pt.uses = none ∧ enter c = s.goto c pt)
    (h : s.call enter = some s') : s'.Inv := by
  obtain ⟨c, hc, h⟩ := Option.bind_eq_some_iff.mp h
  split_ifs at h
  cases h
  rcases henter c with ⟨n, heq⟩ | ⟨pt, hres, huses, heq⟩
  · rw [heq]
    exact inv.outside hc (Quiet.ret s c n) (ret_point s c _) rfl rfl
  · rw [heq]
    exact inv.outside hc (Quiet.goto s c pt) (goto_point s c pt) hres huses

theorem Inv.next {a : FileAction} (inv : s.Inv) (guard : s.Respects a)
    (h : s.next drivers a = some s') : s'.Inv := by
  cases a with
  | sched a =>
    simp only [FileState.next] at h
    split_ifs at h with hmay
    obtain ⟨k, hk, rfl⟩ := Option.map_eq_some_iff.mp h
    exact inv.sched hmay guard hk
  | sysOpen path => exact inv.call (fun c => .inr ⟨_, rfl, rfl, rfl⟩) h
  | sysRead userFd length =>
    simp only [FileState.next] at h
    split at h
    · cases h
    refine inv.call (fun c => ?_) h
    split_ifs
    · exact .inl ⟨_, rfl⟩
    · exact .inr ⟨_, rfl, rfl, rfl⟩
  | sysWrite userFd data =>
    refine inv.call (fun c => ?_) h
    split_ifs
    · exact .inl ⟨_, rfl⟩
    · exact .inl ⟨_, rfl⟩
    · exact .inr ⟨_, rfl, rfl, rfl⟩
  | sysClose userFd =>
    refine inv.call (fun c => ?_) h
    split_ifs
    · exact .inl ⟨_, rfl⟩
    · exact .inr ⟨_, rfl, rfl, rfl⟩
  | exec =>
    obtain ⟨c, hc, h⟩ := Option.bind_eq_some_iff.mp h
    exact inv.exec hc (guard c hc) h

theorem inv_of_reachable (h : ((fileSystem drivers).restrict Respects).Reachable s) : s.Inv := by
  refine h.invariant Inv (fun s hinit => ?_) fun s a s' inv hstep => ?_
  · obtain ⟨⟨sched, hzero, hsched⟩, hpoint, hopener, hopened⟩ := hinit
    refine ⟨⟨hsched ▸ .init hzero, fun _ => ?_⟩, ?_, ?_, ?_, ?_, ?_, ?_⟩
    · rw [hsched]
      exact ⟨rfl, fun p hp => absurd (show p < sched.count from hp) (by omega)⟩
    · simp [hpoint]
    · simp [hpoint]
    · simp [hopened]
    · simp [hopener]
    · simp [hpoint]
    · simp [hpoint]
  · exact inv.next hstep.1 hstep.2

/-- If every task uses only descriptors it holds and closes them before it ends, and no search
for a free slot ends at a slot that another call has found, then the descriptors belong to
live tasks, whatever the drivers do and however the calls are interleaved. -/
theorem ownedByLive_of_respects (h : ((fileSystem drivers).restrict Respects).Reachable s) :
    s.OwnedByLive := by
  have inv := inv_of_reachable h
  have hexact : ∀ i, ((s.vfs.openFiles i).inUse = true ∧ s.opener i ≠ none) ↔
      ∃ p, s.Live p ∧ s.opened p i = true := by
    refine fun i => ⟨fun ⟨hused, hne⟩ => ?_, fun ⟨p, _, hopened⟩ => ?_⟩
    · obtain ⟨p, hp⟩ := Option.ne_none_iff_exists'.mp hne
      have hopened := inv.taken p i hused hp
      exact ⟨p, (inv.held p i hopened).1, hopened⟩
    · obtain ⟨-, hused, hopener⟩ := inv.held p i hopened
      exact ⟨hused, by simp [hopener]⟩
  refine ⟨hexact, fun c i q hc huses hopener => ?_, fun hnone i hused => ?_⟩
  · have hopened := inv.uses c i (live_of_caller inv hc) huses
    exact Option.some.inj (hopener.symm.trans (inv.held c i hopened).2.2)
  · by_contra hne
    obtain ⟨p, hlive, hopened⟩ := (hexact i).mp ⟨hused, hne⟩
    rw [hnone p hlive i] at hopened
    cases hopened

end FileState

/-! ## Runs -/

/-- A VFS with a filesystem at `/a`. -/
def mountedVfs : Vfs Unit Nat Unit Nat :=
  ((vfsBoot.vfs.registerBlockDevice disk).2.mount (fun _ => countingDriver) [slash, 0x61]
    disk.name ()).2

def fileBoot : FileState Unit Nat Unit Nat where
  kernel := boot
  vfs := mountedVfs
  point _ := .outside
  returned _ := 0
  buffer _ := []
  opener _ := none
  opened _ _ := false

abbrev files : System (FileState Unit Nat Unit Nat) FileAction := fileSystem fun _ => countingDriver

abbrev fileNext := FileState.next fun _ : Unit => countingDriver

theorem fileBoot_init : files.init fileBoot := ⟨⟨_, rfl, rfl⟩, rfl, rfl, rfl⟩

def twoUsers : List FileAction :=
  [.sched (.createTask plenty 16384), .sched (.createTask plenty 16384), .sched .start]

/-- The current task opens `/a/f`. -/
def openCall : List FileAction :=
  [.sysOpen [slash, 0x61, slash, 0x66], .exec, .exec, .exec]

def switch : FileAction := .sched (.tick 0)

def exitFirst : FileAction := .sched (.killTask 1 0)

/-- Both tasks open a file; the first reads from its own, closes it and exits. -/
def respectfulRun : List FileAction :=
  twoUsers ++ openCall ++ [switch] ++ openCall ++ [switch, .sysRead 3 1, .exec, .exec, .exec,
    .sysClose 3, .exec, .exec, .exec, exitFirst]

/-- The first task opens a file and exits. -/
def leakRun : List FileAction := twoUsers ++ openCall ++ [exitFirst]

/-- The second task reads from the descriptor of the first. -/
def foreignReadRun : List FileAction := twoUsers ++ openCall ++ [switch, .sysRead 3 1, .exec]

/-- The first task fills the table and exits; then the second cannot open a file. -/
def exhaustRun : List FileAction :=
  twoUsers ++ (List.replicate maxOpenFiles openCall).flatten ++
    [exitFirst, switch, .sysOpen [slash, 0x61, slash, 0x66], .exec]

/-- A tick after the search of the first task lets the second find the same slot. Then both
hold the descriptor, and the second reads from the file of the first. -/
def sameSlotRun : List FileAction :=
  twoUsers ++ [.sysOpen [slash, 0x61, slash, 0x66], .exec, switch] ++ openCall ++
    [switch, .exec, .exec, switch, .sysRead 3 1, .exec]

@[irreducible] def respectfulState : FileState Unit Nat Unit Nat :=
  (runActions (guarded fileNext FileState.Respects) fileBoot respectfulRun).get (by decide +kernel)

theorem respectfulState_reachable : (files.restrict Respects).Reachable respectfulState := by
  unfold respectfulState
  exact reachable_get_guarded _ fileBoot_init _

/-- The first task has ended and its slot is free; the second one holds the other slot. -/
theorem respectfulState_ownedByLive :
    respectfulState.inUse 0 = false ∧ respectfulState.inUse 1 = true ∧
      respectfulState.opened 1 1 = true ∧ respectfulState.OwnedByLive :=
  ⟨by decide +kernel, by decide +kernel, by decide +kernel,
    ownedByLive_of_respects respectfulState_reachable⟩

/-- A slot that only dead tasks hold. -/
theorem not_ownedByLive_of_leak {s : FileState Unit Nat Unit Nat} {i : Fin maxOpenFiles}
    (hused : s.inUse i = true ∧ s.opener i ≠ none)
    (hdead : ∀ p < s.sched.count, (s.sched.task p).state = .terminated ∨ s.opened p i = false) :
    ¬ s.OwnedByLive := by
  intro owned
  obtain ⟨p, ⟨hlt, halive⟩, hopened⟩ := (owned.exact i).mp hused
  rw [(hdead p hlt).resolve_left halive] at hopened
  cases hopened

/-- A task that exits leaves its descriptor in the table; a task reads from the descriptor of
another; the descriptors of a task that is gone fill the table, so that `sysOpen` fails; and
two tasks get the same slot. -/
theorem not_ownedByLive :
    (∃ s, files.Reachable s ∧ s.inUse 0 = true ∧ s.opener 0 = some 0 ∧
      (s.sched.task 0).state = .terminated ∧ ¬ s.OwnedByLive) ∧
    (∃ s, files.Reachable s ∧ s.kernel.caller = some 1 ∧ (s.point 1).uses = some 0 ∧
      s.opener 0 = some 0 ∧ s.opened 1 0 = false) ∧
    (∃ s, files.Reachable s ∧ (∀ i, s.inUse i = true) ∧ s.returned 1 = -1 ∧
      (s.sched.task 0).state = .terminated ∧ ∀ i, s.opened 1 i = false) ∧
    (∃ s, files.Reachable s ∧ s.opened 0 0 = true ∧ s.opened 1 0 = true ∧
      s.kernel.caller = some 1 ∧ (s.point 1).uses = some 0 ∧ s.opener 0 = some 0) := by
  refine ⟨?_, exists_reachable_of_any fileNext fileBoot_init foreignReadRun _ (by decide +kernel),
    exists_reachable_of_any fileNext fileBoot_init exhaustRun _ (by decide +kernel),
    exists_reachable_of_any fileNext fileBoot_init sameSlotRun _ (by decide +kernel)⟩
  obtain ⟨s, hs, hused, hopener, hend, hdead⟩ := exists_reachable_of_any fileNext fileBoot_init leakRun
    (fun s => s.inUse 0 = true ∧ s.opener 0 = some 0 ∧ (s.sched.task 0).state = .terminated ∧
      ∀ p < s.sched.count, (s.sched.task p).state = .terminated ∨ s.opened p 0 = false)
    (by decide +kernel)
  exact ⟨s, hs, hused, hopener, hend, not_ownedByLive_of_leak ⟨hused, by simp [hopener]⟩ hdead⟩

end WengShiOS.Syscalls
