import ZenFs.Fs.Charge
import ZenFs.Meta.Crash

/-!
# The accounts of a mounted filesystem

Whatever is on the metadata zones, `Mount` starts from exact space counters, and
every run behind it keeps them: they never wrap and no zone is reset under a
live file, and without a failed or idle migration they stay exact.
-/

namespace ZenFs

/-! ## Repair -/

namespace Zbd

variable {d d' : Zbd} {f : ZoneFile}

/-- From `d` to `d'` the counters have followed the extents of a file. -/
structure Follows (d : Zbd) (es : List ZoneExtent) (d' : Zbd) (es' : List ZoneExtent) : Prop where
  used : ∀ i, d'.used i + spaceIn i es = d.used i + spaceIn i es'
  wrapped : d'.wrapped = d.wrapped

theorem Follows.countExtents (d : Zbd) (es new : List ZoneExtent) :
    Follows d es (d.countExtents new) (es ++ new) := by
  refine ⟨fun i ↦ ?_, countExtents_wrapped d new⟩
  rw [countExtents_used, spaceIn_append]
  omega

/-- The space of the extents that the scan adds is counted, also if it stops half way. -/
theorem recoverSparseExtents_spec {fuel : Nat} {i : ZoneId} {start stop : Nat}
    {es es' : List ZoneExtent} {st : Status}
    (h : d.recoverSparseExtents fuel i start stop es = some (d', es', st)) :
    ∃ new, es' = es ++ new ∧ d' = d.countExtents new := by
  obtain ⟨⟨t, st'⟩, hrun, heq⟩ := Option.map_eq_some_iff.mp h
  obtain ⟨hd, he, -⟩ : d.setZone i t.zone = d' ∧ t.extents = es' ∧ st' = st := by simpa using heq
  subst hd he
  obtain ⟨t', ht, hend⟩ := Loop.exists_head hrun
  obtain rfl : t = t' := SparseScan.turn_eq_inl hend
  refine ht.invariant (I := fun t ↦ ∃ new, t.extents = es ++ new ∧
    d.setZone i t.zone = d.countExtents new) ⟨[], (List.append_nil es).symm, ?_⟩ ?_
  · exact congrArg (fun zones ↦ { d with zones := zones }) (Function.update_eq_self i d.zones)
  · rintro t t' ⟨new, hes, hd⟩ hturn
    obtain ⟨-, buffer, -, -, rfl⟩ := SparseScan.turn_eq_inr.mp hturn
    have hnew : d.countExtents (new ++ [t.extent i (decodeFixed64 buffer)]) =
        (d.countExtents new).addUsed i (decodeFixed64 buffer) := List.foldl_append
    refine ⟨new ++ [t.extent i (decodeFixed64 buffer)], ?_, ?_⟩
    · exact (congrArg (· ++ [_]) hes).trans (List.append_assoc ..)
    · rw [hnew, ← hd]
      simp [SparseScan.push, addUsed, setZone]

/-- `Recover` counts what it finds, also if it stops half way, and changes no more of a
file than where it ends. -/
theorem recover_spec {fuel : Nat} {f' : ZoneFile} {st : Status}
    (h : d.recover fuel f = some (d', f', st)) :
    ∃ new start size,
    f' = { f with extents := f.extents ++ new, extentStart := start, fileSize := size } ∧
      d' = d.countExtents new := by
  have hsame : ∃ new start size,
      f = { f with extents := f.extents ++ new, extentStart := start, fileSize := size } ∧
        d = d.countExtents new := ⟨[], f.extentStart, f.fileSize, by rw [List.append_nil], rfl⟩
  unfold recover at h
  split at h
  · cases h
    exact hsame
  · split at h
    · cases h
      exact hsame
    · rename_i i _
      dsimp only at h
      split at h
      · cases h
        exact hsame
      · split at h
        · cases h
          exact ⟨[], _, _, by rw [List.append_nil], rfl⟩
        · split at h
          · obtain ⟨⟨d₁, es₁, st₁⟩, hscan, heq⟩ := Option.map_eq_some_iff.mp h
            obtain ⟨new, rfl, rfl⟩ := recoverSparseExtents_spec hscan
            cases st₁ with
            | ok =>
                cases heq
                exact ⟨new, _, _, rfl, rfl⟩
            | _ =>
                cases heq
                exact ⟨new, _, _, rfl, rfl⟩
          · cases h
            exact ⟨_, _, _, rfl, rfl⟩

end Zbd

namespace Store.Kept

variable {I : Store → Prop} {s s' : Store} {G : Geometry} {media : Media} {v : ValidZone}

theorem tryRecover {vs : List ValidZone} (hI : Kept I) (h : I s)
    (hok : ZenFs.tryRecover G media vs s = .ok (v, s')) : I s' := by
  induction vs generalizing s with
  | nil => cases hok
  | cons v' vs ih =>
      unfold ZenFs.tryRecover at hok
      split at hok
      · rename_i heq
        cases hok
        exact hI.recoverLoop _ h (.inl heq)
      · rename_i heq
        exact ih (hI.recoverLoop _ h (.inr heq)) hok
      · cases hok

theorem mountRecover {nr : Nat} (hI : Kept I) (h : I s)
    (hok : ZenFs.mountRecover G media nr s = .ok (v, s')) : I s' := by
  unfold ZenFs.mountRecover at hok
  split at hok
  · cases hok
  · split at hok
    · cases hok
    · cases hok
    · exact hI.tryRecover h hok

end Store.Kept

namespace Accounted

variable {s s' : Store} {G : Geometry}

theorem recoverFile {fuel : Nat} {r : Ref} {st : Status} (h : Accounted s) (hr : r ∈ s.live)
    (hrec : s.recoverFile fuel r = some (s', st)) : Accounted s' ∧ s'.live = s.live := by
  obtain ⟨⟨d, f, st'⟩, hd, heq⟩ := Option.map_eq_some_iff.mp hrec
  obtain ⟨new, start, size, hf', hcount⟩ := Zbd.recover_spec hd
  have hf : Zbd.Follows s.zbd (s.heap r).extents d f.extents := by
    rw [hcount, hf']
    exact .countExtents ..
  cases heq
  exact ⟨h.setFile hr hf.used hf.wrapped, rfl⟩

theorem repair {fuel : Nat} {rs : List Ref} {st : Status} (h : Accounted s)
    (hrs : ∀ r ∈ rs, r ∈ s.live) (hrep : s.repair fuel rs = some (s', st)) : Accounted s' := by
  induction rs generalizing s with
  | nil =>
      cases hrep
      exact h
  | cons r rs ih =>
      unfold Store.repair at hrep
      split at hrep
      · rename_i s₁ heq
        obtain ⟨h₁, hlive⟩ := h.recoverFile (hrs r List.mem_cons_self) heq
        exact ih h₁ (fun r' hr' ↦ hlive ▸ hrs r' (List.mem_cons_of_mem r hr')) hrep
      · exact (h.recoverFile (hrs r List.mem_cons_self) hrep).1

end Accounted

namespace Fs

variable {G : Geometry} {fs fs' : Fs}

/-! ## Mounting -/

/-- The space counters cover the extents, and what they count too much, if anything,
has been left by a migration. -/
def Accounts (fs : Fs) : Prop :=
  ∃ leak, Spending leak fs ∧
    (.persistFailed ∉ fs.hist → .redirectedInPlace ∉ fs.hist → leak = fun _ ↦ 0)

theorem Accounts.tick {c : Conduct} (h : Accounts fs) (ht : Tick G c fs fs') : Accounts fs' := by
  obtain ⟨leak, hs, hl⟩ := h
  obtain ⟨leak', hs', hl'⟩ := hs.tick ht
  have hpre := ht.hist_prefix
  refine ⟨leak', hs', fun hp hr ↦ ?_⟩
  have hleak := hl (fun hmem ↦ hp (hpre.subset hmem)) fun hmem ↦ hr (hpre.subset hmem)
  exact (hl' hp fun _ _ _ _ ↦ .of_notMem hpre hr).trans hleak

theorem spending_recovered {s : Store} (h : Accounted s) (media : Media) (nr : Nat) (v : ValidZone)
    (bufferSize : Nat) (env : Env) :
    Spending (fun _ ↦ 0) (recovered G s media nr v bufferSize env) where
  toCharged := h.charged
  writer := fun _ _ hw ↦ absurd hw nofun
  reader := fun _ _ hr ↦ absurd hr nofun
  bounded := fun ho i hi ↦ by
    have hno := List.any_eq_false.mp ho i (List.mem_range.mpr hi)
    exact Nat.lt_of_not_le fun hle ↦ hno (decide_eq_true hle)
  lost := fun _ ↦ rfl

theorem metaOnly_rollMetaZoneLocked (fs : Fs) : MetaOnly fs (fs.rollMetaZoneLocked G).1 := by
  unfold rollMetaZoneLocked
  dsimp only
  split
  · exact (metaOnly_withLog ..).trans (metaOnly_markAllSynced _)
  · exact (metaOnly_withLog ..).trans (metaOnly_note _ _)

theorem sameSpace_rollMetaZoneLocked (fs : Fs) : SameSpace fs (fs.rollMetaZoneLocked G).1 := by
  refine .of_metaOnly fs.metaOnly_rollMetaZoneLocked fun _ ↦ ?_
  unfold rollMetaZoneLocked
  dsimp only
  split
  · exact lost_withLog ..
  · rw [lost, note, List.filter_append]
    exact (List.append_nil _).trans (lost_withLog ..)

theorem Spending.resetZones {leak : ZoneId → Nat} (h : Spending leak fs) {is : List ZoneId}
    (his : ∀ i ∈ is, i < fs.zbd.nrZones) : Spending leak (fs.resetZones is).1 := by
  induction is generalizing fs with
  | nil => exact h
  | cons i is ih =>
      have his' : ∀ i ∈ is, i < fs.zbd.nrZones := fun j hj ↦ his j (List.mem_cons_of_mem i hj)
      unfold Fs.resetZones
      dsimp only
      split
      · exact ih h his'
      · rename_i hcond
        simp only [Bool.or_eq_true, not_or, Bool.not_eq_true] at hcond
        have h₁ := h.resetZone (his i List.mem_cons_self) hcond.2
        refine andThen_cases (P := fun x ↦ Spending leak x.1) (fun _ ↦ h₁) fun _ ↦
          ih h₁ fun j hj ↦ ?_
        rw [resetZone_nrZones]
        exact his' j hj

/-- What `Mount` hands over, from the state behind the repair on. -/
theorem exists_of_mount {fuel : Nat} {media : Media} {nr : Nat} {zbd : Zbd}
    {bufferSize : Nat} {env : Env} (hm : mount G fuel media nr zbd bufferSize env = some (.ok fs)) :
    ∃ v s s₁, mountRecover G media nr (Store.init zbd) = .ok (v, s) ∧
      s.repair fuel (s.files.entries.map (·.2)) = some (s₁, .ok) ∧
      ((recovered G s₁ media nr v bufferSize env).rollMetaZoneLocked G).2 = .ok ∧
      fs = ((recovered G s₁ media nr v bufferSize env).rollMetaZoneLocked
        G).1.resetUnusedIOZones.1 := by
  unfold mount at hm
  split at hm
  · cases hm
  · rename_i v s hrec
    obtain ⟨⟨s₁, st⟩, hrep, heq⟩ := Option.map_eq_some_iff.mp hm
    cases st with
    | ok =>
        dsimp only at heq
        refine ⟨v, s, s₁, hrec, hrep, ?_⟩
        by_cases hroll : ((recovered G s₁ media nr v bufferSize env).rollMetaZoneLocked G).2 = .ok
        · refine ⟨hroll, ?_⟩
          rw [andThen_ok hroll] at heq
          split at heq
          · rename_i fs₁ hx
            rw [hx]
            exact (Except.ok.inj heq).symm
          · cases heq
        · rw [andThen_of_ne hroll] at heq
          split at heq
          · rename_i fs₁ hx
            rw [hx] at hroll
            exact absurd rfl hroll
          · cases heq
    | _ => cases heq

/-- `Mount` starts with the counters of the extents it has recovered. -/
theorem spending_mount {fuel : Nat} {media : Media} {nr : Nat} {zbd : Zbd}
    {bufferSize : Nat} {env : Env}
    (hm : mount G fuel media nr zbd bufferSize env = some (.ok fs)) (hu : ∀ i, zbd.used i = 0)
    (hw : zbd.wrapped = false) : Spending (fun _ ↦ 0) fs := by
  obtain ⟨v, s, s₁, hrec, hrep, -, rfl⟩ := exists_of_mount hm
  have hs : Accounted s := Accounted.kept.mountRecover (.init hu hw) hrec
  have hlive : ∀ r ∈ s.files.entries.map (·.2), r ∈ s.live := fun r hr ↦ by
    obtain ⟨e, he, rfl⟩ := List.mem_map.mp hr
    exact hs.named e.1 e.2 (AList.mem_lookup_iff.mpr he)
  have h₁ := (spending_recovered (G := G) (hs.repair hlive hrep) media nr v bufferSize env).congr
    (sameSpace_rollMetaZoneLocked (G := G) _)
  exact h₁.resetZones fun _ hi ↦ List.mem_range.mp hi

theorem accounts_mount {fuel : Nat} {media : Media} {nr : Nat} {zbd : Zbd}
    {bufferSize : Nat} {env : Env}
    (hm : mount G fuel media nr zbd bufferSize env = some (.ok fs)) (hu : ∀ i, zbd.used i = 0)
    (hw : zbd.wrapped = false) : Accounts fs :=
  ⟨_, spending_mount hm hu hw, fun _ _ ↦ rfl⟩

theorem Reaches.mono {P P' : Fs → Env → Op → Prop} (h : Reaches G P fs fs')
    (hP : ∀ {fs env op}, P fs env op → P' fs env op) : Reaches G P' fs fs' := by
  induction h with
  | refl => exact .refl
  | step _ env op hp he ih => exact .step ih env op (hP hp) he

theorem Accounts.reaches (h : Accounts fs) (hr : Reaches G (fun _ _ _ ↦ True) fs fs') :
    Accounts fs' := by
  have hr' : Reaches G (Conduct.Allows {} G) fs fs' := hr.mono fun {fs env _} _ ↦
    ⟨trivial, fun extents _ ↦ Conduct.migratesAll_of_forall (fun _ _ _ ↦ trivial) _ extents,
      fun _ _ _ _ _ _ ↦ one_dvd _⟩
  exact hr'.invariant (fun _ _ _ ↦ one_dvd _) (fun _ _ h ht ↦ h.tick ht) h

/-! ## Runs -/

section Runs

variable {fuel : Nat} {media : Media} {nr : Nat} {zbd : Zbd} {bufferSize : Nat} {env : Env}

theorem Spending.stored_used {leak : ZoneId → Nat} (h : Spending leak fs)
    (ho : fs.overflowed = false) {i : ZoneId} (hi : i < fs.zbd.nrZones) :
    (fs.zbd.stored.zones i).usedCapacity = fs.zbd.used i :=
  Nat.mod_eq_of_lt (h.bounded ho i hi)

/-- In every run in which no counter overflows, whatever fails, a zone counts at least
the extents of live files in it, no subtraction wraps, and no zone with bytes of a live
file is reset. -/
theorem no_live_zone_is_reset (hm : mount G fuel media nr zbd bufferSize env = some (.ok fs))
    (hu : ∀ i, zbd.used i = 0) (hw : zbd.wrapped = false)
    (hr : Reaches G (fun _ _ _ ↦ True) fs fs') (ho : fs'.overflowed = false) :
    (∀ i < fs'.zbd.nrZones,
      ∑ r ∈ fs'.live, spaceIn i (fs'.heap r).extents ≤ (fs'.zbd.stored.zones i).usedCapacity) ∧
      fs'.zbd.wrapped = false ∧ ∀ i, Event.reset i true ∉ fs'.hist := by
  obtain ⟨leak, hs, -⟩ := (accounts_mount hm hu hw).reaches hr
  refine ⟨fun i hi ↦ ?_, hs.exact, fun i hi ↦ ?_⟩
  · rw [hs.stored_used ho hi, hs.used i]
    exact Nat.le_add_right _ _
  · have hmem : Event.reset i true ∈ fs'.lost := List.mem_filter.mpr ⟨hi, rfl⟩
    rw [hs.lost ho] at hmem
    cases hmem

/-- In every run in which no counter overflows and each migration persists its record
and moves what it copies, a zone counts exactly the extents of live files in it. -/
theorem used_capacity_is_exact (hm : mount G fuel media nr zbd bufferSize env = some (.ok fs))
    (hu : ∀ i, zbd.used i = 0) (hw : zbd.wrapped = false)
    (hr : Reaches G (fun _ _ _ ↦ True) fs fs') (ho : fs'.overflowed = false)
    (hp : Event.persistFailed ∉ fs'.hist) (hin : Event.redirectedInPlace ∉ fs'.hist) {i : ZoneId}
    (hi : i < fs'.zbd.nrZones) :
    (fs'.zbd.stored.zones i).usedCapacity = ∑ r ∈ fs'.live, spaceIn i (fs'.heap r).extents := by
  obtain ⟨leak, hs, hl⟩ := (accounts_mount hm hu hw).reaches hr
  rw [hs.stored_used ho hi, hs.used i, hl hp hin]
  exact Nat.add_zero _

end Runs

/-! ### A file that comes and goes -/

/-- Operations with their environments, as long as each of them is enabled and `p`
admits it. -/
def runOps (G : Geometry) (p : Fs → Env → Op → Bool) : Fs → List (Env × Op) → Option Fs
  | fs, [] => some fs
  | fs, (env, op) :: ops =>
      if fs.enabled op && p fs env op then runOps G p (fs.step G env op) ops else none

theorem Reaches.of_runOps {p : Fs → Env → Op → Bool} {P : Fs → Env → Op → Prop} {fs₀ : Fs}
    {ops : List (Env × Op)} (hP : ∀ fs, ∀ e ∈ ops, p fs e.1 e.2 = true → P fs e.1 e.2)
    (h : Reaches G P fs₀ fs) (hrun : runOps G p fs ops = some fs') : Reaches G P fs₀ fs' := by
  induction ops generalizing fs with
  | nil =>
      obtain rfl := Option.some.inj hrun
      exact h
  | cons e ops ih =>
      obtain ⟨env, op⟩ := e
      unfold runOps at hrun
      split at hrun
      · rename_i he
        rw [Bool.and_eq_true] at he
        have hstep : Reaches G P fs₀ (fs.step G env op) :=
          .step h env op (hP fs _ List.mem_cons_self he.2) he.1
        exact ih (fun fs e he ↦ hP fs e (List.mem_cons_of_mem _ he)) hstep hrun
      · cases hrun

/-- A device with two IO zones of four blocks. -/
def blankZbd : Zbd where
  blockSize := 16
  zoneSize := 64
  nrZones := 2
  zones := fun i ↦
    { (default : Zone) with start := i * 64, wp := i * 64, maxCapacity := 64, capacity := 64 }
  mem := fun _ ↦ 0

/-- The allocator takes the first zone, and resets succeed. -/
def firstZoneEnv : Env := { resets := fun _ ↦ .done 64, picks := [{ zone := some 0 }] }

/-- The filesystem that `MkFS` has made, mounted. -/
def mountBlank : Option (Except Status Fs) :=
  mount smallGeometry 0 (mkfsMedia smallGeometry fun _ ↦ 8) 2 blankZbd 64 firstZoneEnv

/-- A run on it that ends in a state with a given property. -/
theorem exists_run (p : Fs → Env → Op → Bool) (P : Fs → Env → Op → Prop) (ops : List (Env × Op))
    (q : Fs → Bool) (hP : ∀ fs, ∀ e ∈ ops, p fs e.1 e.2 = true → P fs e.1 e.2)
    (h : ((mountBlank.bind Except.toOption).bind fun fs ↦ runOps smallGeometry p fs ops).any
      q = true) :
    ∃ fs fs' : Fs, mountBlank = some (.ok fs) ∧ Reaches smallGeometry P fs fs' ∧ q fs' = true := by
  obtain ⟨fs', hrun, hq⟩ := (Option.any_eq_true _ _).mp h
  obtain ⟨fs, hm, hrun⟩ := Option.bind_eq_some_iff.mp hrun
  obtain ⟨x, hx, hm⟩ := Option.bind_eq_some_iff.mp hm
  refine ⟨fs, fs', ?_, .of_runOps hP .refl hrun, hq⟩
  cases x with
  | error e => cases hm
  | ok fs₁ =>
      obtain rfl := Option.some.inj hm
      exact hx

/-- Neither the record nor the roll for it reaches the device. -/
def failedMetaEnv : Env :=
  { firstZoneEnv with metas := [⟨.failedAfter 0, { snapshot := .failedAfter 0 }⟩] }

/-- The first deletion of the file is not persisted. -/
theorem no_live_zone_is_reset_deleted : ∃ fs fs' : Fs, mountBlank = some (.ok fs) ∧
    Event.persistFailed ∈ fs'.hist ∧ Event.reset 0 false ∈ fs'.hist ∧
    (∀ i < fs'.zbd.nrZones,
      ∑ r ∈ fs'.live, spaceIn i (fs'.heap r).extents ≤ (fs'.zbd.stored.zones i).usedCapacity) ∧
    fs'.zbd.wrapped = false ∧ ∀ i, Event.reset i true ∉ fs'.hist := by
  obtain ⟨fs, fs', hm, hr, hp⟩ := exists_run (fun _ _ _ ↦ true) (fun _ _ _ ↦ True)
    ([.openWritable "a" true false 0, .append 0 (List.replicate 16 7), .close 0, .destroy 0].map
      (firstZoneEnv, ·) ++ [(failedMetaEnv, .delete "a"), (firstZoneEnv, .delete "a")])
    (fun fs ↦ decide (Event.persistFailed ∈ fs.hist ∧ Event.reset 0 false ∈ fs.hist ∧
      fs.overflowed = false))
    (fun _ _ _ _ ↦ trivial) (by decide +kernel)
  obtain ⟨hfailed, hreset, ho⟩ := of_decide_eq_true hp
  exact ⟨fs, fs', hm, hfailed, hreset, no_live_zone_is_reset hm (fun _ ↦ rfl) rfl hr ho⟩

theorem used_capacity_is_exact_closed : ∃ fs fs' : Fs, mountBlank = some (.ok fs) ∧
    (fs'.zbd.stored.zones 0).usedCapacity = 16 ∧
    (fs'.zbd.stored.zones 0).usedCapacity = ∑ r ∈ fs'.live, spaceIn 0 (fs'.heap r).extents := by
  obtain ⟨fs, fs', hm, hr, hp⟩ := exists_run (fun _ _ _ ↦ true) (fun _ _ _ ↦ True)
    ([.openWritable "a" true false 0, .append 0 (List.replicate 16 7), .close 0].map
      (firstZoneEnv, ·))
    (fun fs ↦ decide ((fs.zbd.stored.zones 0).usedCapacity = 16 ∧ fs.overflowed = false ∧
      Event.persistFailed ∉ fs.hist ∧ Event.redirectedInPlace ∉ fs.hist ∧ 0 < fs.zbd.nrZones))
    (fun _ _ _ _ ↦ trivial) (by decide +kernel)
  obtain ⟨hused, ho, hfailed, hidle, hi⟩ := of_decide_eq_true hp
  exact ⟨fs, fs', hm, hused, used_capacity_is_exact hm (fun _ ↦ rfl) rfl hr ho hfailed hidle hi⟩

end Fs

end ZenFs
