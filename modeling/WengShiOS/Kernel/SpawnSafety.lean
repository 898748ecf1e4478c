import WengShiOS.Kernel.Spawn

/-! # Requests that do not overlap are delivered

At most one live task uses `g_spawn_params` at a time: its parent until the child
exists, then the child until it has copied everything. What each of them has
written or copied so far is a prefix of the request. The storage of `sysExec` is
treated alike. -/

namespace WengShiOS.Syscalls

open Math Scheduler Function SpawnPoint SpawnState

variable {r : Request} {storage : Nat → Text} {args : List Text} {n : Nat}

/-- The first `n` entries of the storage are the first `n` arguments. -/
def StoredUpTo (storage : Nat → Text) (args : List Text) (n : Nat) : Prop :=
  n ≤ args.length ∧ ∀ j < n, args[j]? = some (storage j)

theorem StoredUpTo.zero : StoredUpTo storage args 0 := ⟨Nat.zero_le _, by simp⟩

theorem StoredUpTo.succ {arg : Text} (h : StoredUpTo storage args n) (harg : args[n]? = some arg) :
    StoredUpTo (update storage n arg) args (n + 1) := by
  obtain ⟨hlt, -⟩ := List.getElem?_eq_some_iff.mp harg
  refine ⟨hlt, fun j hj => ?_⟩
  by_cases hjn : j = n
  · simp [hjn, harg]
  · rw [update_of_ne hjn]
    exact h.2 j (by omega)

theorem StoredUpTo.length (h : StoredUpTo storage args n) (hnone : args[n]? = none) :
    n = args.length :=
  le_antisymm h.1 (List.getElem?_eq_none_iff.mp hnone)

theorem Request.clip_getElem? (r : Request) (j : Nat) :
    r.clip.args[j]? = if j < maxSpawnArgs then (r.args[j]?).map clipArg else none := by
  simp only [Request.clip, List.getElem?_map, List.getElem?_take]
  split_ifs <;> rfl

/-- The loop over the arguments ends behind the last one that is kept. -/
theorem StoredUpTo.complete (h : StoredUpTo storage r.clip.args n)
    (hend : ∀ arg, decide (n < maxSpawnArgs) = true → r.args[n]? ≠ some arg) :
    n = r.clip.args.length := by
  refine h.length ((r.clip_getElem? n).trans ?_)
  split_ifs with hlt
  · cases harg : r.args[n]? with
    | none => rfl
    | some arg => exact absurd harg (hend arg (by simpa using hlt))
  · rfl

/-- The area holds the whole request. -/
structure SpawnParams.Holds (params : SpawnParams) (r : Request) : Prop where
  path : params.path = r.path
  stored : StoredUpTo params.argvStorage r.clip.args r.clip.args.length
  argc : params.argc = r.clip.args.length

namespace SpawnState

variable {s s' : SpawnState} {p q c : Nat} {pt old : SpawnPoint}

/-- What is known of a live task at each point. -/
def PointOk (s : SpawnState) (p : Nat) : SpawnPoint → Prop
  | .spawnArg r n => s.params.path = r.path ∧ StoredUpTo s.params.argvStorage r.clip.args n
  | .spawnArgc r n => s.params.path = r.path ∧
    StoredUpTo s.params.argvStorage r.clip.args r.clip.args.length ∧ n = r.clip.args.length
  | .spawnCreate r => s.params.Holds r
  | .entryArgc => ∃ r, s.spawnedFor p = some r ∧ s.params.Holds r
  | .entryPath n => ∃ r, s.spawnedFor p = some r ∧ s.params.Holds r ∧ n = r.clip.args.length
  | .entryArg n path args => ∃ r, s.spawnedFor p = some r ∧ s.params.Holds r ∧
    n = r.clip.args.length ∧ path = r.path ∧ args = r.clip.args.take args.length ∧ args.length ≤ n
  | .entryLoad path args => ∃ r, s.spawnedFor p = some r ∧ ⟨path, args⟩ = r.clip
  | .execArg r n => StoredUpTo s.execStorage r.clip.args n
  | .execOpen r n => StoredUpTo s.execStorage r.clip.args n ∧ n = r.clip.args.length
  | .execRead r i args => StoredUpTo s.execStorage r.clip.args i ∧ args = r.clip.args.drop i
  | _ => True

/-- What is known of a task does not depend on an area it does not use. -/
theorem PointOk.frame (h : s.PointOk p pt)
    (hparams : pt.ownsParams = true → s'.params = s.params)
    (hexec : pt.ownsExec = true → s'.execStorage = s.execStorage)
    (hspawned : s'.spawnedFor p = s.spawnedFor p) : s'.PointOk p pt := by
  cases pt with
  | spawnArg r n | spawnArgc r n | spawnCreate r =>
    have := hparams rfl
    simpa only [PointOk, this] using h
  | entryArgc | entryPath n | entryArg n path args =>
    have := hparams rfl
    simpa only [PointOk, this, hspawned] using h
  | entryLoad path args => simpa only [PointOk, hspawned] using h
  | execArg r n =>
    cases n with
    | zero => exact .zero
    | succ n =>
      have := hexec (by simp [ownsExec])
      simpa only [PointOk, this] using h
  | execOpen r n | execRead r i args =>
    have := hexec rfl
    simpa only [PointOk, this] using h
  | outside | spawnPath r => trivial

structure Inv (s : SpawnState) : Prop where
  kernel : s.kernel.Inv
  fresh : ∀ p, s.sched.count ≤ p → s.point p = .outside ∧ s.spawnedFor p = none
  ended : ∀ p, (s.sched.task p).state = .terminated → s.sched.current = some p →
    s.point p = .outside
  params : ∀ p q, s.OwnsParams p → s.OwnsParams q → p = q
  execStorage : ∀ p q, s.OwnsExec p → s.OwnsExec q → p = q
  point : ∀ p, (s.sched.task p).state ≠ .terminated → s.PointOk p (s.point p)
  entry : ∀ p, (s.point p).isEntry = true → s.entryLoads p = []
  delivered : s.Delivered

theorem Inv.live (inv : s.Inv) (hc : s.sched.current = some c) (h : s.point c ≠ .outside) :
    (s.sched.task c).state ≠ .terminated :=
  fun hend => h (inv.ended c hend hc)

/-- The current task is alive inside a call, and what holds at its point is known. -/
theorem Inv.known (inv : s.Inv) (hc : s.sched.current = some c) (hpt : s.point c = pt)
    (hne : pt ≠ .outside) : (s.sched.task c).state ≠ .terminated ∧ s.PointOk c pt := by
  subst hpt
  exact ⟨inv.live hc hne, inv.point c (inv.live hc hne)⟩

theorem Inv.lt_count (inv : s.Inv) (h : s.point p ≠ .outside) : p < s.sched.count := by
  by_contra hge
  exact h (inv.fresh p (by omega)).1

/-- At most one task still has a property that only `c` can have gained. -/
theorem unique_of_step {P P' : Nat → Prop} (h : ∀ p q, P p → P q → p = q)
    (hother : ∀ p, p ≠ c → (P' p ↔ P p)) (hself : P' c → ∀ p, p ≠ c → ¬ P p) (p q : Nat)
    (hp : P' p) (hq : P' q) : p = q := by
  by_cases hpc : p = c <;> by_cases hqc : q = c
  · exact hpc.trans hqc.symm
  · exact absurd ((hother q hqc).mp hq) (hself (hpc ▸ hp) q hqc)
  · exact absurd ((hother p hpc).mp hp) (hself (hqc ▸ hq) p hpc)
  · exact h p q ((hother p hpc).mp hp) ((hother q hqc).mp hq)

/-! ### Steps of the current task -/

/-- `s'` is `s` after the current task `c` moved to `pt`, with the areas as they
may be. -/
structure Moved (s s' : SpawnState) (c : Nat) (pt : SpawnPoint) : Prop where
  kernel : s'.kernel = s.kernel
  point : s'.point = Function.update s.point c pt
  spawnedFor : s'.spawnedFor = s.spawnedFor
  returned : s'.returned = s.returned
  params : s'.params = s.params ∨ ∀ p, p ≠ c → ¬ s.OwnsParams p
  execStorage : s'.execStorage = s.execStorage ∨ ∀ p, p ≠ c → ¬ s.OwnsExec p
  ownsParams : pt.ownsParams = true → ∀ p, p ≠ c → ¬ s.OwnsParams p
  ownsExec : pt.ownsExec = true → ∀ p, p ≠ c → ¬ s.OwnsExec p

namespace Moved

variable (m : Moved s s' c pt)
include m

theorem point_self : s'.point c = pt := by simp [m.point]

theorem point_of_ne (h : p ≠ c) : s'.point p = s.point p := by simp [m.point, h]

theorem sched : s'.sched = s.sched := congrArg Kernel.sched m.kernel

theorem ownsParams_of_ne (h : p ≠ c) : s'.OwnsParams p ↔ s.OwnsParams p := by
  unfold OwnsParams
  rw [m.sched, m.point_of_ne h]

theorem ownsExec_of_ne (h : p ≠ c) : s'.OwnsExec p ↔ s.OwnsExec p := by
  unfold OwnsExec
  rw [m.sched, m.point_of_ne h]

/-- What is left to check of a step: the point reached and the loads. -/
theorem inv (inv : s.Inv) (hc : s.sched.current = some c)
    (hlive : (s.sched.task c).state ≠ .terminated) (hnew : s'.PointOk c pt)
    (hloads : ∀ p, p ≠ c → s'.entryLoads p = s.entryLoads p)
    (hentry : pt.isEntry = true → s'.entryLoads c = [])
    (hself : ∀ r, s.spawnedFor c = some r →
      s'.entryLoads c = [] ∧ pt.isEntry = true ∨ s'.entryLoads c = [r.clip])
    (hexec : ∀ x ∈ s'.execLoads, x.2 = x.1.clip) : s'.Inv where
  kernel := m.kernel ▸ inv.kernel
  fresh p hp := by
    have hlt : c < s.sched.count := inv.kernel.ring.current_lt c hc
    rw [m.sched] at hp
    rw [m.point_of_ne (show p ≠ c by omega), m.spawnedFor]
    exact inv.fresh p hp
  ended p hend hcur := by
    rw [m.sched] at hend hcur
    obtain rfl : p = c := Option.some.inj (hcur.symm.trans hc)
    exact absurd hend hlive
  params := unique_of_step inv.params (fun _ => m.ownsParams_of_ne) fun h =>
    m.ownsParams (m.point_self ▸ h.2)
  execStorage := unique_of_step inv.execStorage (fun _ => m.ownsExec_of_ne) fun h =>
    m.ownsExec (m.point_self ▸ h.2)
  point p hp := by
    by_cases hpc : p = c
    · subst hpc
      rwa [m.point_self]
    · rw [m.sched] at hp
      rw [m.point_of_ne hpc]
      refine (inv.point p hp).frame (fun h => ?_) (fun h => ?_) (by rw [m.spawnedFor])
      · exact m.params.resolve_right fun hnone => hnone p hpc ⟨hp, h⟩
      · exact m.execStorage.resolve_right fun hnone => hnone p hpc ⟨hp, h⟩
  entry p hp := by
    by_cases hpc : p = c
    · subst hpc
      rw [m.point_self] at hp
      exact hentry hp
    · rw [m.point_of_ne hpc] at hp
      rw [hloads p hpc]
      exact inv.entry p hp
  delivered := by
    refine ⟨fun x hx => ?_, fun p r hr => ?_, hexec⟩
    · rw [m.returned] at hx
      rw [m.sched, m.spawnedFor]
      exact inv.delivered.returned x hx
    · rw [m.spawnedFor] at hr
      by_cases hpc : p = c
      · subst hpc
        rw [m.point_self]
        exact hself r hr
      · rw [hloads p hpc, m.point_of_ne hpc]
        exact inv.delivered.entryLoads p r hr

/-- A step that loads nothing and stays on its side of `Elf::load`. -/
theorem inv_of_same (inv : s.Inv) (hc : s.sched.current = some c)
    (hlive : (s.sched.task c).state ≠ .terminated) (hnew : s'.PointOk c pt)
    (hloads : s'.entryLoads = s.entryLoads) (hentry : pt.isEntry = (s.point c).isEntry)
    (hexec : s'.execLoads = s.execLoads) : s'.Inv := by
  refine m.inv inv hc hlive hnew (fun p _ => by rw [hloads]) (fun h => ?_) (fun r hr => ?_)
    (hexec ▸ inv.delivered.execLoads)
  · rw [hloads]
    exact inv.entry c (hentry ▸ h)
  · rw [hloads, hentry]
    exact inv.delivered.entryLoads c r hr

end Moved

section

variable (inv : s.Inv)
include inv

/-- While a live task uses an area, no other one does. -/
theorem Inv.noOtherParams (h : s.OwnsParams c) : ∀ p, p ≠ c → ¬ s.OwnsParams p :=
  fun p hpc hp => hpc (inv.params p c hp h)

theorem Inv.noOtherExec (h : s.OwnsExec c) : ∀ p, p ≠ c → ¬ s.OwnsExec p :=
  fun p hpc hp => hpc (inv.execStorage p c hp h)

section

variable (hc : s.sched.current = some c)
include hc

/-- A step from the point `old` that changes no area and takes none over. -/
theorem Inv.goto (hpt : s.point c = old) (hlive : (s.sched.task c).state ≠ .terminated)
    (hparams : pt.ownsParams = true → old.ownsParams = true)
    (hexec : pt.ownsExec = true → old.ownsExec = true) (hentry : pt.isEntry = old.isEntry)
    (hnew : (s.goto c pt).PointOk c pt) : (s.goto c pt).Inv := by
  subst hpt
  have m : Moved s (s.goto c pt) c pt :=
    { kernel := rfl
      point := rfl
      spawnedFor := rfl
      returned := rfl
      params := .inl rfl
      execStorage := .inl rfl
      ownsParams := fun h => inv.noOtherParams ⟨hlive, hparams h⟩
      ownsExec := fun h => inv.noOtherExec ⟨hlive, hexec h⟩ }
  exact m.inv_of_same inv hc hlive hnew rfl hentry rfl

theorem Inv.spawnPath (hpt : s.point c = .spawnPath r)
    (guard : ∀ p < s.sched.count, p ≠ c → ¬ s.OwnsParams p) :
    (if spawnPathSize ≤ r.path.length then s.goto c .outside
      else { s.goto c (.spawnArg r 0) with
        params := { s.params with path := r.path } : SpawnState }).Inv := by
  obtain ⟨hlive, -⟩ := inv.known hc hpt nofun
  split_ifs
  · exact inv.goto hc hpt hlive nofun nofun rfl trivial
  · have hnone : ∀ p, p ≠ c → ¬ s.OwnsParams p := fun p hp h =>
      guard p (inv.lt_count fun hout => by simp [hout, OwnsParams, ownsParams] at h) hp h
    have m : Moved s { s.goto c (.spawnArg r 0) with
        params := { s.params with path := r.path } } c (.spawnArg r 0) :=
      ⟨rfl, rfl, rfl, rfl, .inr hnone, .inl rfl, fun _ => hnone, nofun⟩
    exact m.inv_of_same inv hc hlive ⟨rfl, .zero⟩ rfl (by rw [hpt]; rfl) rfl

theorem Inv.spawnArg (hpt : s.point c = .spawnArg r n) :
    (match decide (n < maxSpawnArgs), r.args[n]? with
      | true, some arg =>
        { s.goto c (.spawnArg r (n + 1)) with
          params := { s.params with
            argvStorage := update s.params.argvStorage n (clipArg arg) } : SpawnState }
      | _, _ => s.goto c (.spawnArgc r n)).Inv := by
  obtain ⟨hlive, hpath, hstored⟩ := inv.known hc hpt nofun
  have hclip := r.clip_getElem? n
  have hnone := inv.noOtherParams (c := c) ⟨hlive, by rw [hpt]; rfl⟩
  split
  · next arg hlt harg =>
    rw [if_pos (by simpa using hlt), harg] at hclip
    have m : Moved s { s.goto c (.spawnArg r (n + 1)) with
        params := { s.params with
          argvStorage := update s.params.argvStorage n (clipArg arg) } } c
        (.spawnArg r (n + 1)) :=
      ⟨rfl, rfl, rfl, rfl, .inr hnone, .inl rfl, fun _ => hnone, nofun⟩
    exact m.inv_of_same inv hc hlive ⟨hpath, hstored.succ hclip⟩ rfl
      (by rw [hpt]; rfl) rfl
  · next hend =>
    have hlength := hstored.complete hend
    exact inv.goto hc hpt hlive (fun _ => rfl) nofun rfl ⟨hpath, hlength ▸ hstored, hlength⟩

theorem Inv.spawnArgc (hpt : s.point c = .spawnArgc r n) :
    { s.goto c (.spawnCreate r) with
      params := { s.params with argc := n } : SpawnState }.Inv := by
  obtain ⟨hlive, hpath, hstored, hlength⟩ := inv.known hc hpt nofun
  have hnone := inv.noOtherParams (c := c) ⟨hlive, by rw [hpt]; rfl⟩
  have m : Moved s { s.goto c (.spawnCreate r) with params := { s.params with argc := n } } c
      (.spawnCreate r) :=
    ⟨rfl, rfl, rfl, rfl, .inr hnone, .inl rfl, fun _ => hnone, nofun⟩
  exact m.inv_of_same inv hc hlive ⟨hpath, hstored, hlength⟩ rfl
    (by rw [hpt]; rfl) rfl

/-- The parent hands the area over to its child. -/
theorem Inv.create (hpt : s.point c = .spawnCreate r) (mem : Sched.TaskMemory) :
    (s.create c r mem).Inv := by
  obtain ⟨hlive, holds⟩ := inv.known hc hpt nofun
  have hnone := inv.noOtherParams (c := c) ⟨hlive, by rw [hpt]; rfl⟩
  unfold SpawnState.create
  rcases Sched.createTask_result s.sched mem stackSize with hfail | ⟨hsome, created⟩
  · rw [hfail]
    exact inv.goto hc hpt hlive nofun nofun rfl trivial
  rcases hresult : s.sched.createTask mem stackSize with ⟨sched, task⟩
  rw [hresult] at hsome created
  obtain rfl : task = some s.sched.count := hsome
  have hkernel : { s.kernel with sched : Kernel }.Inv := by
    refine inv.kernel.next (a := .createTask mem stackSize) ?_
    have hcaller : s.kernel.caller = some c := Kernel.caller_eq_some.mpr ⟨hc, hlive⟩
    simp [Kernel.next, hcaller, show s.kernel.sched.createTask mem stackSize = _ from hresult]
  have hlt : c < s.sched.count := inv.kernel.ring.current_lt c hc
  have hcount : sched.count = s.sched.count + 1 := created.count
  have hstate : ∀ p, p ≠ s.sched.count → (sched.task p).state = (s.sched.task p).state :=
    fun p hp => (created.field Task.state (fun _ _ => rfl) p).trans (if_neg hp)
  set s' : SpawnState := { s.goto c .outside with
    kernel := { s.kernel with sched }
    point := update (update s.point c .outside) s.sched.count .entryArgc
    spawnedFor := update s.spawnedFor s.sched.count (some r)
    entryLoads := update s.entryLoads s.sched.count []
    returned := s.returned ++ [((sched.task s.sched.count).id, r)] } with hs'
  have hpointn : s'.point s.sched.count = .entryArgc := update_self ..
  have hpointc : s'.point c = .outside := by
    rw [hs']
    simp only
    rw [update_of_ne (by omega), update_self]
  have hpoint : ∀ p, p ≠ c → p ≠ s.sched.count → s'.point p = s.point p := fun p hpc hp => by
    rw [hs']
    simp only
    rw [update_of_ne hp, update_of_ne hpc]
  have hspawned : ∀ p, p ≠ s.sched.count → s'.spawnedFor p = s.spawnedFor p := fun p hp =>
    update_of_ne hp ..
  have hloads : ∀ p, p ≠ s.sched.count → s'.entryLoads p = s.entryLoads p := fun p hp =>
    update_of_ne hp ..
  have hother : ∀ p, s'.point p ≠ .outside → p ≠ s.sched.count → p ≠ c ∧ s'.point p = s.point p :=
    fun p hout hp => by
      have hpc : p ≠ c := fun h => hout (h ▸ hpointc)
      exact ⟨hpc, hpoint p hpc hp⟩
  -- only the child uses the area
  have howner : ∀ p, s'.OwnsParams p → p = s.sched.count := fun p hp => by
    by_contra hne
    have hout : s'.point p ≠ .outside := fun h => by simp [OwnsParams, h, ownsParams] at hp
    obtain ⟨hpc, hsame⟩ := hother p hout hne
    exact hnone p hpc ⟨fun h => hp.1 ((hstate p hne).trans h), hsame ▸ hp.2⟩
  have hexec : ∀ p, s'.OwnsExec p → s.OwnsExec p := fun p hp => by
    have hne : p ≠ s.sched.count := fun h => by
      have := hp.2
      rw [h, hpointn] at this
      cases this
    have hout : s'.point p ≠ .outside := fun h => by simp [OwnsExec, h, ownsExec] at hp
    exact ⟨fun h => hp.1 ((hstate p hne).trans h), (hother p hout hne).2 ▸ hp.2⟩
  refine ⟨hkernel, fun p hp => ?_, fun p hend hcur => ?_, fun p q hp hq => ?_,
    fun p q hp hq => inv.execStorage p q (hexec p hp) (hexec q hq), fun p hp => ?_, fun p hp => ?_,
    ⟨fun x hx => ?_, fun p r' hr => ?_, inv.delivered.execLoads⟩⟩
  · have hge : s.sched.count + 1 ≤ p := hcount ▸ hp
    rw [hpoint p (by omega) (by omega), hspawned p (by omega)]
    exact inv.fresh p (by omega)
  · have hcur : s.sched.current = some p := created.current ▸ hcur
    obtain rfl : p = c := Option.some.inj (hcur.symm.trans hc)
    exact hpointc
  · exact (howner p hp).trans (howner q hq).symm
  · by_cases hnew : p = s.sched.count
    · rw [hnew, hpointn]
      exact ⟨r, update_self .., holds⟩
    · by_cases hout : s'.point p = .outside
      · rw [hout]
        trivial
      · obtain ⟨-, hsame⟩ := hother p hout hnew
        rw [hsame]
        exact (inv.point p fun h => hp ((hstate p hnew).trans h)).frame (fun _ => rfl) (fun _ => rfl)
          (hspawned p hnew)
  · by_cases hnew : p = s.sched.count
    · rw [hnew]
      exact update_self ..
    · have hout : s'.point p ≠ .outside := fun h => by
        rw [h] at hp
        cases hp
      rw [hloads p hnew]
      exact inv.entry p ((hother p hout hnew).2 ▸ hp)
  · rcases List.mem_append.mp hx with hx | hx
    · obtain ⟨p, hp, hid, hr⟩ := inv.delivered.returned x hx
      refine ⟨p, hcount ▸ hp.trans (Nat.lt_succ_self _), ?_, ?_⟩
      · exact (created.field_of_lt Task.id (fun _ _ => rfl) hp).trans hid
      · rw [hspawned p (by omega)]
        exact hr
    · obtain rfl := List.mem_singleton.mp hx
      exact ⟨s.sched.count, hcount ▸ Nat.lt_succ_self _, rfl, update_self ..⟩
  · by_cases hnew : p = s.sched.count
    · exact .inl ⟨hnew ▸ update_self .., by rw [hnew, hpointn]; rfl⟩
    · rw [hspawned p hnew] at hr
      rw [hloads p hnew]
      rcases inv.delivered.entryLoads p r' hr with ⟨hempty, hentry⟩ | hloaded
      · have hpc : p ≠ c := fun h => by simp [h, hpt, isEntry] at hentry
        exact .inl ⟨hempty, (hpoint p hpc hnew).symm ▸ hentry⟩
      · exact .inr hloaded

theorem Inv.entryArg {path : Text} (hpt : s.point c = .entryArg n path args) :
    (if args.length < n then
        s.goto c (.entryArg n path (args ++ [s.params.argvStorage args.length]))
      else s.goto c (.entryLoad path args)).Inv := by
  obtain ⟨hlive, r, hr, holds, rfl, rfl, hargs, hle⟩ := inv.known hc hpt nofun
  split_ifs with hlt
  · refine inv.goto hc hpt hlive (fun _ => rfl) nofun rfl ⟨r, hr, holds, rfl, rfl, ?_, ?_⟩
    · have hnext := holds.stored.2 args.length hlt
      rw [List.length_append, List.length_singleton, List.take_add_one, ← hargs, hnext]
      rfl
    · simpa using hlt
  · refine inv.goto hc hpt hlive nofun nofun rfl ⟨r, hr, ?_⟩
    have hlen : args.length = r.clip.args.length := by omega
    rw [hargs, hlen, List.take_length]
    rfl

theorem Inv.entryLoad {path : Text} (hpt : s.point c = .entryLoad path args) :
    { s.goto c .outside with
      entryLoads := update s.entryLoads c (s.entryLoads c ++ [⟨path, args⟩]) :
        SpawnState }.Inv := by
  obtain ⟨hlive, r, hr, hclip⟩ := inv.known hc hpt nofun
  have hempty : s.entryLoads c = [] := inv.entry c (by rw [hpt]; rfl)
  have m : Moved s { s.goto c .outside with
      entryLoads := update s.entryLoads c (s.entryLoads c ++ [⟨path, args⟩]) } c .outside :=
    ⟨rfl, rfl, rfl, rfl, .inl rfl, .inl rfl, nofun, nofun⟩
  refine m.inv inv hc hlive trivial (fun p hp => update_of_ne hp ..)
    (by simp [isEntry]) (fun r' hr' => .inr ?_) inv.delivered.execLoads
  obtain rfl : r = r' := Option.some.inj (hr.symm.trans hr')
  simp [hempty, hclip]

theorem Inv.execArg (hpt : s.point c = .execArg r n) (guard : s.MayExec c (.execArg r n)) :
    (match decide (n < maxSpawnArgs), r.args[n]? with
      | true, some arg =>
        { s.goto c (.execArg r (n + 1)) with
          execStorage := update s.execStorage n (clipArg arg) : SpawnState }
      | _, _ => s.goto c (.execOpen r n)).Inv := by
  obtain ⟨hlive, hstored⟩ := inv.known hc hpt nofun
  have hclip := r.clip_getElem? n
  have hnone : ∀ p, p ≠ c → ¬ s.OwnsExec p := by
    cases n with
    | zero =>
      exact fun p hp h => guard p (inv.lt_count fun hout => by
        simp [hout, OwnsExec, ownsExec] at h) hp h
    | succ n => exact inv.noOtherExec ⟨hlive, by rw [hpt]; simp [ownsExec]⟩
  split
  · next arg hlt harg =>
    rw [if_pos (by simpa using hlt), harg] at hclip
    have m : Moved s { s.goto c (.execArg r (n + 1)) with
        execStorage := update s.execStorage n (clipArg arg) } c (.execArg r (n + 1)) :=
      ⟨rfl, rfl, rfl, rfl, .inl rfl, .inr hnone, nofun, fun _ => hnone⟩
    exact m.inv_of_same inv hc hlive (hstored.succ hclip) rfl (by rw [hpt]; rfl) rfl
  · next hend =>
    have hlength := StoredUpTo.complete hstored hend
    have m : Moved s (s.goto c (.execOpen r n)) c (.execOpen r n) :=
      ⟨rfl, rfl, rfl, rfl, .inl rfl, .inl rfl, nofun, fun _ => hnone⟩
    exact m.inv_of_same inv hc hlive ⟨hstored, hlength⟩ rfl (by rw [hpt]; rfl) rfl

theorem Inv.execRead {i : Nat} (hpt : s.point c = .execRead r i args) :
    (match i with
      | 0 => { s.goto c .outside with
          execLoads := s.execLoads ++ [(r, Request.mk r.path args)] : SpawnState }
      | i + 1 => s.goto c (.execRead r i (s.execStorage i :: args))).Inv := by
  obtain ⟨hlive, hstored, hargs⟩ := inv.known hc hpt nofun
  cases i with
  | zero =>
    have m : Moved s { s.goto c .outside with
        execLoads := s.execLoads ++ [(r, ⟨r.path, args⟩)] } c .outside :=
      ⟨rfl, rfl, rfl, rfl, .inl rfl, .inl rfl, nofun, nofun⟩
    refine m.inv inv hc hlive trivial (fun _ _ => rfl) (by simp [isEntry])
      (fun r' hr' => .inr ?_) fun x hx => ?_
    · refine (inv.delivered.entryLoads c r' hr').resolve_left fun h => ?_
      simp [hpt, isEntry] at h
    · rcases List.mem_append.mp hx with hx | hx
      · exact inv.delivered.execLoads x hx
      · obtain rfl := List.mem_singleton.mp hx
        simp [hargs, Request.clip]
  | succ i =>
    have hget := hstored.2 i (Nat.lt_succ_self i)
    refine inv.goto hc hpt hlive nofun (fun _ => rfl) rfl
      ⟨⟨by have := hstored.1; omega, fun j hj => hstored.2 j (by omega)⟩, ?_⟩
    obtain ⟨hlt, hi⟩ := List.getElem?_eq_some_iff.mp hget
    rw [List.drop_eq_getElem_cons hlt, hi, hargs]

/-- One step of the current task. -/
theorem Inv.exec {mem : Sched.TaskMemory} {opened : Bool} (guard : s.MayExec c (s.point c))
    (h : s.exec c mem opened = some s') : s'.Inv := by
  unfold SpawnState.exec at h
  cases hpt : s.point c with rw [hpt] at h guard
  | outside => cases h
  | spawnPath r =>
    cases h
    exact inv.spawnPath hc hpt guard
  | spawnArg r n =>
    cases h
    exact inv.spawnArg hc hpt
  | spawnArgc r n =>
    cases h
    exact inv.spawnArgc hc hpt
  | spawnCreate r =>
    cases h
    exact inv.create hc hpt mem
  | entryArgc =>
    cases h
    obtain ⟨hlive, r, hr, holds⟩ := inv.known hc hpt nofun
    exact inv.goto hc hpt hlive (fun _ => rfl) nofun rfl ⟨r, hr, holds, holds.argc⟩
  | entryPath n =>
    cases h
    obtain ⟨hlive, r, hr, holds, hn⟩ := inv.known hc hpt nofun
    exact inv.goto hc hpt hlive (fun _ => rfl) nofun rfl ⟨r, hr, holds, hn, holds.path, by simp, by simp⟩
  | entryArg n path args =>
    cases h
    exact inv.entryArg hc hpt
  | entryLoad path args =>
    cases h
    exact inv.entryLoad hc hpt
  | execArg r n =>
    cases h
    exact inv.execArg hc hpt guard
  | execOpen r n =>
    cases h
    obtain ⟨hlive, hstored, hn⟩ := inv.known hc hpt nofun
    split_ifs
    · exact inv.goto hc hpt hlive nofun (fun _ => rfl) rfl ⟨hstored, by simp [hn]⟩
    · exact inv.goto hc hpt hlive nofun nofun rfl trivial
  | execRead r i args =>
    cases h
    exact inv.execRead hc hpt

end

/-! ### Scheduler calls -/

theorem Inv.sched {a : Action} {k : Kernel} (hcall : byCurrent a → s.mayCall)
    (h : s.kernel.next a = some k) : Inv { s with kernel := k } := by
  have hcount := Kernel.next_count inv.kernel h
  -- a terminated task is only revived as the current one, and then it is outside
  have hlive : ∀ p, s.point p ≠ .outside → (k.sched.task p).state ≠ .terminated →
      (s.sched.task p).state ≠ .terminated := fun p hp hstate hend => by
    rcases Kernel.next_terminated inv.kernel h (inv.lt_count hp) hend with hend' | ⟨hcur, -⟩
    · exact hstate hend'
    · exact hp (inv.ended p hend hcur)
  have hparams : ∀ p, OwnsParams { s with kernel := k } p → s.OwnsParams p := fun p hp =>
    ⟨hlive p (fun hout => by simp [OwnsParams, hout, ownsParams] at hp) hp.1, hp.2⟩
  have hexec : ∀ p, OwnsExec { s with kernel := k } p → s.OwnsExec p := fun p hp =>
    ⟨hlive p (fun hout => by simp [OwnsExec, hout, ownsExec] at hp) hp.1, hp.2⟩
  refine ⟨inv.kernel.next h, fun p hp => inv.fresh p (hcount.trans hp), fun p hend hcur => ?_,
    fun p q hp hq => inv.params p q (hparams p hp) (hparams q hq),
    fun p q hp hq => inv.execStorage p q (hexec p hp) (hexec q hq), fun p hp => ?_, inv.entry,
    ⟨fun x hx => ?_, inv.delivered.entryLoads, inv.delivered.execLoads⟩⟩
  · obtain ⟨hcur, hend | ⟨id, exitCode, rfl⟩⟩ := Kernel.next_current_terminated inv.kernel h hcur hend
    · exact inv.ended p hend hcur
    · exact hcall rfl p hcur
  · by_cases hout : s.point p = .outside
    · simp only [hout]
      trivial
    · exact (inv.point p (hlive p hout hp)).frame (fun _ => rfl) (fun _ => rfl) rfl
  · obtain ⟨p, hp, hid, hr⟩ := inv.delivered.returned x hx
    exact ⟨p, hp.trans_le hcount, (Kernel.next_id inv.kernel h hp).trans hid, hr⟩

theorem Inv.next {a : SpawnAction} (guard : s.OneAtATime a) (h : s.next a = some s') : s'.Inv := by
  have hcall : ∀ pt : SpawnPoint, s.call pt = some s' → pt.ownsParams = false →
      pt.ownsExec = false → pt.isEntry = false → (∀ c, (s.goto c pt).PointOk c pt) → s'.Inv := by
    intro pt h hparams hexec hentry hnew
    obtain ⟨c, hc, h⟩ := Option.bind_eq_some_iff.mp h
    obtain ⟨hc, hlive⟩ := Kernel.caller_eq_some.mp hc
    split_ifs at h with hout
    cases h
    exact inv.goto hc hout hlive (by simp [hparams]) (by simp [hexec]) hentry (hnew c)
  cases a with
  | sched a =>
    simp only [SpawnState.next] at h
    split_ifs at h with hmay
    obtain ⟨k, hk, rfl⟩ := Option.map_eq_some_iff.mp h
    exact inv.sched hmay hk
  | sysSpawn r => exact hcall _ h rfl rfl rfl fun _ => trivial
  | sysExec r => exact hcall _ h rfl rfl rfl fun _ => .zero
  | exec mem opened =>
    obtain ⟨c, hc, h⟩ := Option.bind_eq_some_iff.mp h
    exact inv.exec hc (guard c hc) h

end

end SpawnState

/-- **Requests that do not overlap are delivered.** In every state reached by
steps that begin to write an area only while nobody else uses it, every spawned
task loads the request of the call that returned its id, once, and every exec
loads its own arguments. -/
theorem delivered_of_oneAtATime {s : SpawnState}
    (h : (spawnSystem.restrict SpawnState.OneAtATime).Reachable s) : s.Delivered := by
  refine (h.invariant Inv (fun s hs => ?_) fun s a s' inv step => ?_).delivered
  · obtain ⟨hinit, hpoint, hspawned, hreturned, hloads⟩ := hs
    have hout : ∀ p, s.point p = .outside := fun p => by rw [hpoint]
    refine ⟨Kernel.inv_of_reachable (.init hinit), fun p _ => ⟨hout p, by rw [hspawned]⟩,
      fun p _ _ => hout p, fun p q hp _ => ?_, fun p q hp _ => ?_, fun p _ => ?_, fun p hp => ?_,
      ⟨?_, fun p r hr => ?_, ?_⟩⟩
    · simp [OwnsParams, hout p, ownsParams] at hp
    · simp [OwnsExec, hout p, ownsExec] at hp
    · rw [hout p]
      trivial
    · simp [hout p, isEntry] at hp
    · simp [hreturned]
    · simp [hspawned] at hr
    · simp [hloads]
  · exact inv.next step.1 step.2

/-! ### Runs -/

namespace SpawnState

instance (s : SpawnState) (p : Nat) : Decidable (s.OwnsParams p) :=
  inferInstanceAs (Decidable (_ ∧ _))

instance (s : SpawnState) (p : Nat) : Decidable (s.OwnsExec p) :=
  inferInstanceAs (Decidable (_ ∧ _))

instance (s : SpawnState) (c : Nat) : (point : SpawnPoint) → Decidable (s.MayExec c point)
  | .spawnPath _ => inferInstanceAs (Decidable (∀ p < s.sched.count, p ≠ c → ¬ s.OwnsParams p))
  | .execArg _ 0 => inferInstanceAs (Decidable (∀ p < s.sched.count, p ≠ c → ¬ s.OwnsExec p))
  | .execArg _ (_ + 1) | .outside | .spawnArg _ _ | .spawnArgc _ _ | .spawnCreate _ | .entryArgc
  | .entryPath _ | .entryArg _ _ _ | .entryLoad _ _ | .execOpen _ _ | .execRead _ _ _ =>
    isTrue trivial

instance (s : SpawnState) : (a : SpawnAction) → Decidable (s.OneAtATime a)
  | .exec _ _ => inferInstanceAs (Decidable (∀ c ∈ s.sched.current, s.MayExec c (s.point c)))
  | .sched _ | .sysSpawn _ | .sysExec _ => isTrue trivial

end SpawnState

def spawnBoot : SpawnState :=
  ⟨boot, ⟨[], fun _ => [], 0⟩, fun _ => [], fun _ => .outside, fun _ => none, fun _ => [], [], []⟩

theorem spawnBoot_init : spawnSystem.init spawnBoot := ⟨⟨_, rfl, rfl⟩, rfl, rfl, rfl, rfl⟩

def twoPrograms : List SpawnAction :=
  [.sched (.createTask plenty 16384), .sched (.createTask plenty 16384), .sched .start]

def steps (n : Nat) : List SpawnAction := List.replicate n (.exec plenty true)

def tick : SpawnAction := .sched (.tick 0)

/-- `ls` and `cat` with one argument each. -/
def listRequest : Request := ⟨[0x6C, 0x73], [[0x61]]⟩

def showRequest : Request := ⟨[0x63, 0x61, 0x74], [[0x62]]⟩

/-- The first task spawns, the child runs, and then the second task executes. -/
def orderlyRun : List SpawnAction :=
  twoPrograms ++ [.sysSpawn listRequest] ++ steps 5 ++ [tick, tick] ++ steps 5 ++ [tick, tick] ++
    [.sysExec showRequest] ++ steps 5

/-- Both tasks spawn before the first child runs. -/
def overlappingSpawns : List SpawnAction :=
  twoPrograms ++ [.sysSpawn listRequest] ++ steps 5 ++ [tick, .sysSpawn showRequest] ++ steps 5 ++
    [tick] ++ steps 5

/-- The second task copies its arguments while the first one loads. -/
def overlappingExecs : List SpawnAction :=
  twoPrograms ++ [.sysExec listRequest] ++ steps 3 ++ [tick, .sysExec showRequest] ++ steps 1 ++
    [tick] ++ steps 2

@[irreducible] def orderlyState : SpawnState :=
  (runActions (guarded SpawnState.next SpawnState.OneAtATime) spawnBoot orderlyRun).get
    (by decide +kernel)

theorem orderlyState_reachable :
    (spawnSystem.restrict OneAtATime).Reachable orderlyState := by
  unfold orderlyState
  exact reachable_get_guarded _ spawnBoot_init _

theorem orderlyState_loads :
    orderlyState.returned = [(3, listRequest)] ∧ orderlyState.entryLoads 2 = [listRequest] ∧
      orderlyState.execLoads = [(showRequest, showRequest)] := by
  decide +kernel

theorem orderlyState_delivered :
    (orderlyState.returned = [(3, listRequest)] ∧ orderlyState.entryLoads 2 = [listRequest] ∧
      orderlyState.execLoads = [(showRequest, showRequest)]) ∧ orderlyState.Delivered :=
  ⟨orderlyState_loads, delivered_of_oneAtATime orderlyState_reachable⟩

/-- The task spawned for `listRequest` has loaded `showRequest`. -/
def replacedSpawn (s : SpawnState) : Bool :=
  s.spawnedFor 2 = some listRequest ∧ s.entryLoads 2 = [showRequest]

/-- The task that asked for `listRequest` has loaded it with the other arguments. -/
def replacedExec (s : SpawnState) : Bool :=
  s.execLoads = [(listRequest, ⟨listRequest.path, showRequest.args⟩)]

theorem not_delivered_of_replacedSpawn {s : SpawnState} (h : replacedSpawn s = true) :
    ¬ s.Delivered := by
  simp only [replacedSpawn, decide_eq_true_eq] at h
  intro hd
  rcases hd.entryLoads 2 _ h.1 with ⟨hempty, -⟩ | hload
  · simp [h.2] at hempty
  · rw [h.2] at hload
    exact absurd hload (by decide)

theorem not_delivered_of_replacedExec {s : SpawnState} (h : replacedExec s = true) :
    ¬ s.Delivered := by
  simp only [replacedExec, decide_eq_true_eq] at h
  intro hd
  exact absurd (hd.execLoads _ (h ▸ List.mem_singleton_self _)) (by decide)

/-- A second spawn before the first child has run replaces its request, and a
second exec replaces the arguments of a load that has not read them yet. -/
theorem not_delivered :
    (∃ s, spawnSystem.Reachable s ∧ replacedSpawn s = true ∧ ¬ s.Delivered) ∧
      ∃ s, spawnSystem.Reachable s ∧ replacedExec s = true ∧ ¬ s.Delivered := by
  constructor
  · obtain ⟨s, hs, h⟩ := exists_reachable_of_any next spawnBoot_init overlappingSpawns
      (replacedSpawn · = true) (by decide +kernel)
    exact ⟨s, hs, h, not_delivered_of_replacedSpawn h⟩
  · obtain ⟨s, hs, h⟩ := exists_reachable_of_any next spawnBoot_init overlappingExecs
      (replacedExec · = true) (by decide +kernel)
    exact ⟨s, hs, h, not_delivered_of_replacedExec h⟩

end WengShiOS.Syscalls
