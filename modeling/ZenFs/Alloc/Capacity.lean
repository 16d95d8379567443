import ZenFs.Alloc.Allocate

/-!
# The capacity of the zone that is returned

`AllocateIOZoneNoLock` returns an empty zone, or one that the search for an open zone
accepts.  The search does not always ask for the capacity that its caller wants: files
without level or keys are searched for with the default, and the request is cut to 32
bits.
-/

namespace ZenFs

namespace Alloc

/-- The same zones, but for some that are full and not empty now. -/
structure Table.Spent (t t' : Table) : Prop where
  ioZones : t'.ioZones = t.ioZones
  zone : ∀ i, t'.zone i = t.zone i ∨ (t'.zone i).isFull = true ∧ (t'.zone i).isEmpty = false

namespace Table.Spent

variable {t t' t'' : Table}

theorem of_same (hi : t'.ioZones = t.ioZones) (hz : t'.zone = t.zone) : t.Spent t' :=
  ⟨hi, fun i ↦ .inl (congrFun hz i)⟩

theorem trans (h : t.Spent t') (h' : t'.Spent t'') : t.Spent t'' where
  ioZones := h'.ioZones.trans h.ioZones
  zone := by
    intro i
    rcases h'.zone i with hi | hi
    · rw [hi]
      exact h.zone i
    · exact .inr hi

/-- A zone that is empty now has always been there. -/
theorem isEmptyZone {i : ZoneId} (h : t.Spent t') (he : t'.IsEmptyZone i) :
    t.IsEmptyZone i ∧ t'.zone i = t.zone i := by
  obtain ⟨hi, he⟩ := he
  rcases h.zone i with hz | ⟨-, hz⟩
  · exact ⟨⟨h.ioZones ▸ hi, hz ▸ he⟩, hz⟩
  · rw [he] at hz
    cases hz

/-- So has one that a policy accepts. -/
theorem fitting {i : ZoneId} {w : Placement} {min_capacity : Nat} (h : t.Spent t')
    (hf : t'.Fitting w min_capacity i) : t.Fitting w min_capacity i ∧ t'.zone i = t.zone i := by
  have hfull := hf.wanted.2
  obtain ⟨hfits, hi⟩ := hf
  rcases h.zone i with hz | ⟨hz, -⟩
  · exact ⟨⟨hz ▸ hfits, h.ioZones ▸ hi⟩, hz⟩
  · rw [hfull] at hz
    cases hz

end Table.Spent

namespace Allocator

variable {a : Allocator} {finish : ZoneId → Status}

theorem setZone_finish_spent (a : Allocator) (i : ZoneId) :
    a.table.Spent (a.setZone i ((a.table.zone i).finish a.table.zoneSize)).table := by
  refine ⟨rfl, fun j ↦ ?_⟩
  by_cases hj : j = i
  · subst hj
    right
    have := a.table.zoneSize_pos
    simp [setZone, IoZone.finish, IoZone.isFull, IoZone.isEmpty]
    omega
  · left
    simp [setZone, hj]

/-! ## Finishing zones

The functions that finish zones release whatever they acquire. -/

/-- The same flags, the same zones but for some that are full now, and the same deferred
status. -/
structure Finishes (a a' : Allocator) : Prop where
  busy : a'.table.busy = a.table.busy
  spent : a.table.Spent a'.table
  deferredStatus : a'.deferredStatus = a.deferredStatus

namespace Finishes

variable {a' a'' : Allocator}

theorem of_table (ht : a'.table = a.table) (hd : a'.deferredStatus = a.deferredStatus) :
    a.Finishes a' :=
  ⟨congrArg Table.busy ht, .of_same (congrArg Table.ioZones ht) (congrArg Table.zone ht), hd⟩

theorem refl (a : Allocator) : a.Finishes a := of_table rfl rfl

theorem trans (h : a.Finishes a') (h' : a'.Finishes a'') : a.Finishes a'' :=
  ⟨h'.busy.trans h.busy, h.spent.trans h'.spent, h'.deferredStatus.trans h.deferredStatus⟩

end Finishes

/-- A zone that has been acquired is released. -/
theorem checkRelease_acquired {busy : ZoneId → Bool} {i : ZoneId} (hi : busy i = false)
    (h : a.table.busy = Function.update busy i true) :
    a.checkRelease i = (a.withBusy busy, .ok) := by
  rw [checkRelease, h, TryLock.release_taken hi]
  rfl

theorem finishThresholdLoop_finishes (zs : List ZoneId) (a : Allocator) :
    a.Finishes (finishThresholdLoop finish zs a).1 := by
  induction zs generalizing a with
  | nil => exact .refl a
  | cons z zs ih =>
      rw [finishThresholdLoop]
      split
      · exact ih a
      rename_i hbusy
      rw [Bool.not_eq_true] at hbusy
      dsimp only
      split
      · split
        · rw [checkRelease_acquired hbusy rfl]
          have hfin : a.Finishes
              (a.setZone z ((a.table.zone z).finish a.table.zoneSize)).putActiveIOZoneToken :=
            ⟨rfl, setZone_finish_spent a z, rfl⟩
          exact hfin.trans (ih _)
        · rw [checkRelease_acquired hbusy rfl]
          exact .refl a
      · rw [checkRelease_acquired hbusy rfl]
        exact ih a

theorem applyFinishThreshold_finishes (a : Allocator) :
    a.Finishes (a.applyFinishThreshold finish).1 := by
  unfold applyFinishThreshold
  split
  · exact .refl a
  · exact finishThresholdLoop_finishes _ a

theorem finishCheapestIOZone_finishes (a : Allocator) :
    a.Finishes (a.finishCheapestIOZone finish).1 := by
  unfold finishCheapestIOZone
  have hr : TryLock.Ends (fun _ ↦ True) a.table.busy a.finishVictim :=
    TryLock.scan_none_ends fun _ _ _ _ _ _ ↦ trivial
  generalize a.finishVictim = r at hr
  dsimp only
  rw [hr.stuck]
  cases hv : r.best with
  | none =>
      have hflags : r.flags = a.table.busy := by rw [hr.flags, hv, TryLock.hold_none]
      exact ⟨hflags, .of_same rfl rfl, rfl⟩
  | some v =>
      have hflags : r.flags = Function.update a.table.busy v true := by
        rw [hr.flags, hv, TryLock.hold_some]
      dsimp only
      unfold finishAndRelease
      split
      · rw [checkRelease_acquired (hr.free v hv) hflags]
        exact ⟨rfl, setZone_finish_spent a v, rfl⟩
      · rw [checkRelease_acquired (hr.free v hv) hflags]
        exact .refl a

theorem getActiveIOZoneTokenIfAvailable_table (a : Allocator) :
    a.getActiveIOZoneTokenIfAvailable.1.table = a.table := by
  unfold getActiveIOZoneTokenIfAvailable
  split <;> rfl

theorem getActiveIOZoneTokenIfAvailable_deferredStatus (a : Allocator) :
    a.getActiveIOZoneTokenIfAvailable.1.deferredStatus = a.deferredStatus := by
  unfold getActiveIOZoneTokenIfAvailable
  split <;> rfl

theorem finishUntilToken_finishes {fuel : Nat} {s : Status} {a a' : Allocator}
    (h : finishUntilToken finish fuel a = some (a', s)) : a.Finishes a' := by
  induction fuel generalizing a with
  | zero => cases h
  | succ fuel ih =>
      rw [finishUntilToken] at h
      have hget : a.Finishes a.getActiveIOZoneTokenIfAvailable.1 :=
        .of_table (getActiveIOZoneTokenIfAvailable_table a)
          (getActiveIOZoneTokenIfAvailable_deferredStatus a)
      split at h
      · rename_i a₁ h₁
        obtain ⟨rfl, -⟩ := Prod.mk.inj (Option.some.inj h)
        rwa [h₁] at hget
      · rename_i a₁ h₁
        rw [h₁] at hget
        have hfin := @finishCheapestIOZone_finishes finish a₁
        split at h
        · rename_i a₂ h₂
          rw [h₂] at hfin
          exact hget.trans (hfin.trans (ih h))
        · rename_i a₂ s' _ h₂
          obtain ⟨rfl, -⟩ := Prod.mk.inj (Option.some.inj h)
          rw [h₂] at hfin
          exact hget.trans hfin

/-- A token, or zones that are finished for it. -/
theorem finishForToken_finishes {got_token : Bool} {fuel : Nat} {s : Status} {a' : Allocator}
    (h : (if got_token then some (a, .ok) else finishUntilToken finish fuel a) = some (a', s)) :
    a.Finishes a' := by
  split at h
  · obtain ⟨rfl, -⟩ := Prod.mk.inj (Option.some.inj h)
    exact .refl a
  · exact finishUntilToken_finishes h

theorem raiseMaxLevel_finishes (a : Allocator) (level : Int) :
    a.Finishes (a.raiseMaxLevel level) := by
  unfold raiseMaxLevel
  split
  · exact ⟨rfl, .of_same rfl rfl, rfl⟩
  · exact .refl a

/-- What happens in front of the search. -/
theorem beforeSearch_finishes (a : Allocator) (io_type : IOType) (level : Int) :
    a.Finishes (if io_type ≠ .kWAL then (a.raiseMaxLevel level).applyFinishThreshold finish
      else (a.raiseMaxLevel level, .ok)).1 := by
  split
  · exact (raiseMaxLevel_finishes a level).trans (applyFinishThreshold_finishes _)
  · exact raiseMaxLevel_finishes a level

/-- The zone that is returned is one of the zones that were there. -/
def Returns (P : ZoneId → Prop) (t : Table) (r : Allocation) : Prop :=
  ∀ i, r.status = .ok → r.zone = some i → P i ∧ (r.state.table.zone i).capacity =
    (t.zone i).capacity

theorem openEmptyZone_returns {w : Placement} {fuel : Nat} {file : FileInfo} {got_token : Bool}
    {level : Int} {r : Allocation}
    (h : a.openEmptyZone finish w fuel file got_token level = some r) :
    Returns a.table.IsEmptyZone a.table r := by
  unfold openEmptyZone at h
  split at h
  · cases h
  · rename_i a₁ h₁
    have hspent := (finishForToken_finishes h₁).spent
    split at h
    · cases h
    · rename_i o ho
      obtain ⟨hsel, -⟩ := allocateEmptyZone_selects ho
      dsimp only at h
      split at h
      · rename_i i hi
        obtain rfl := Option.some.inj h
        rintro j - hj
        obtain rfl := Option.some.inj hj
        obtain ⟨hempty, hsame⟩ := hspent.isEmptyZone (hsel.good _ hi)
        refine ⟨hempty, ?_⟩
        simp [label, setZone, hsel.zone, hsame]
      · obtain rfl := Option.some.inj h
        rintro j - ⟨⟩
      · obtain rfl := Option.some.inj h
        rintro j - ⟨⟩
  · obtain rfl := Option.some.inj h
    rintro j - ⟨⟩

theorem fillOrOpen_returns {w : Placement} {fuel : Nat} {file : FileInfo} {best_diff : Nat}
    {zone : Option ZoneId} {level : Int} {r : Allocation}
    (h : a.fillOrOpen finish w fuel file best_diff zone level = some r) :
    Returns (fun i ↦ a.table.IsEmptyZone i ∨ zone = some i) a.table r := by
  have hnew : ∀ {a' : Allocator} {got_token}, a'.table.zone = a.table.zone →
    a'.table.ioZones = a.table.ioZones →
      a'.openEmptyZone finish w fuel file got_token level = some r →
      Returns (fun i ↦ a.table.IsEmptyZone i ∨ zone = some i) a.table r := by
    intro a' got_token hz hi h i hs hri
    obtain ⟨hempty, hcap⟩ := openEmptyZone_returns h i hs hri
    unfold Table.IsEmptyZone at hempty
    rw [hz, hi] at hempty
    rw [hz] at hcap
    exact ⟨.inl hempty, hcap⟩
  unfold fillOrOpen at h
  split at h
  · split at h
    · obtain rfl := Option.some.inj h
      rintro i - hi
      exact ⟨.inr hi, rfl⟩
    · obtain rfl := Option.some.inj h
      rintro i - ⟨⟩
  · split at h
    rename_i a₁ got_token h₁
    have htable : a₁.table = a.table := by
      rw [← getActiveIOZoneTokenIfAvailable_table a, h₁]
    split at h
    · exact hnew (congrArg Table.zone htable) (congrArg Table.ioZones htable) h
    · rename_i i
      split at h
      · obtain rfl := Option.some.inj h
        rintro j - hj
        exact ⟨.inr hj, by rw [htable]⟩
      split at h
      · split at h
        · rename_i a₂ h₂
          obtain ⟨rfl, -⟩ := Prod.mk.inj h₂
          refine hnew ?_ ?_ h
          · show a₁.table.zone = a.table.zone
            rw [htable]
          · show a₁.table.ioZones = a.table.ioZones
            rw [htable]
        · obtain rfl := Option.some.inj h
          rintro j - ⟨⟩
      · obtain rfl := Option.some.inj h
        rintro j - hj
        refine ⟨.inr hj, ?_⟩
        rw [← htable]
        cases got_token <;> rfl

theorem waitForOpenIOZoneToken_table {prioritized : Bool} {a' : Allocator}
    (h : a.waitForOpenIOZoneToken prioritized = some a') : a'.table = a.table := by
  unfold waitForOpenIOZoneToken at h
  extract_lets limit at h
  split at h
  · obtain rfl := Option.some.inj h
    rfl
  · cases h

variable {w : Placement} {fuel : Nat} {file : FileInfo} {io_type : IOType} {level : Int}
  {min_capacity : Nat} {r : Allocation}

/-- A zone that is empty, or that the search for an open zone accepts. -/
def Selectable (t : Table) (w : Placement) (file : FileInfo) (level : Int) (min_capacity : Nat)
    (i : ZoneId) : Prop :=
  t.IsEmptyZone i ∨ t.Fitting w (effectiveMin file (min_capacity % 2 ^ 32) level) i

theorem findZone_returns (h : a.findZone finish w fuel file io_type level min_capacity = some r) :
    Returns (Selectable a.table w file level min_capacity) a.table r := by
  unfold findZone at h
  split at h
  · cases h
  · rename_i a₁ h₁
    rw [waitForOpenIOZoneToken_table h₁] at h
    split at h
    · cases h
    · rename_i s hs
      have hfits := getBestOpenZoneMatch_fits (t := a.table) ⟨rfl, rfl, rfl, rfl, rfl⟩ hs
      dsimp only at h
      split at h
      · intro i hok hi
        obtain ⟨hi, hcap⟩ := fillOrOpen_returns h i hok hi
        rw [← congrFun hfits.zone i]
        refine ⟨?_, hcap⟩
        rcases hi with hi | hi
        · left
          unfold Table.IsEmptyZone at hi ⊢
          rwa [← hfits.zone, ← hfits.ioZones]
        · exact .inr (hfits.good i hi)
      · obtain rfl := Option.some.inj h
        rintro i - ⟨⟩

/-- What is returned is empty, or fits what the search asks for. -/
theorem allocateIOZoneNoLock_returns
    (h : a.allocateIOZoneNoLock finish w fuel file io_type level min_capacity = some r) :
    Returns (Selectable a.table w file level min_capacity) a.table r := by
  unfold allocateIOZoneNoLock at h
  dsimp only at h
  split at h
  · have hspent := (@beforeSearch_finishes finish a io_type level).spent
    split at h
    · rename_i a₂ h₂
      rw [h₂] at hspent
      intro i hok hi
      obtain ⟨hi, hcap⟩ := findZone_returns h i hok hi
      rcases hi with hi | hi
      · obtain ⟨hi, hz⟩ := hspent.isEmptyZone hi
        exact ⟨.inl hi, hz ▸ hcap⟩
      · obtain ⟨hi, hz⟩ := hspent.fitting hi
        exact ⟨.inr hi, hz ▸ hcap⟩
    · obtain rfl := Option.some.inj h
      rintro i - ⟨⟩
  · obtain rfl := Option.some.inj h
    rintro i - ⟨⟩

/-! ## When the request is honoured -/

/-- Whatever is busy, and whatever the tokens, the parameters, the other files and the
backend decide, the zone that is returned has the capacity that was asked for. -/
def HonoursCapacity (t : Table) (file : FileInfo) (level : Int) (min_capacity : Nat) : Prop :=
  ∀ (a : Allocator) (finish : ZoneId → Status) (w : Placement) (fuel : Nat) (io_type : IOType)
    (r : Allocation), a.table.zone = t.zone → a.table.ioZones = t.ioZones → w.PointsInto t.ioZones →
    a.allocateIOZoneNoLock finish w fuel file io_type level min_capacity = some r → r.status = .ok →
    ∀ i, r.zone = some i → min_capacity ≤ (r.state.table.zone i).capacity

section Alone

variable {t : Table} {i : ZoneId}

/-- Only zone `i` is free, there are tokens, and there are not enough empty zones to give
up a match. -/
def alone (t : Table) (i : ZoneId) : Allocator where
  table := { t with busy := fun j ↦ j != i }
  maxNrOpenIoZones := 1
  maxNrActiveIoZones := 1

/-- Placement by lifetime on all levels. -/
def byLifetime (t : Table) : Placement where
  reserveZoneCount := t.ioZones.length
  upperLevelPolicy := .kLifetimeBased
  upperLevelPolicyFallback := .kLifetimeBased
  lowerLevelPolicy := .kLifetimeBased
  lowerLevelPolicyFallback := .kLifetimeBased
  middleLevelPolicy := .kLifetimeBased
  middleLevelPolicyFallback := .kLifetimeBased

theorem getPolicy_byLifetime (t : Table) (level : Int) :
    getPolicy (byLifetime t) level = .kLifetimeBased := by
  unfold getPolicy
  split
  · rfl
  split
  · rfl
  split <;> rfl

theorem getSecondaryPolicy_byLifetime (t : Table) (level : Int) :
    getSecondaryPolicy (byLifetime t) level = .kLifetimeBased := by
  unfold getSecondaryPolicy
  split
  · rfl
  split
  · rfl
  split <;> rfl

theorem byLifetime_pointsInto (t : Table) (zs : List ZoneId) : (byLifetime t).PointsInto zs :=
  ⟨nofun, nofun⟩

theorem bestZone_isSome {better : Nat → ZoneId → Option Nat} {score : Nat} {m : Nat}
    (hi : i ∈ t.ioZones) (hfree : t.busy i = false) (hfits : (t.zone i).fits m = true)
    (hb : (better score i).isSome) :
    (t.best m id better t.ioZones score).best.isSome := by
  refine TryLock.scan_isSome hi hfree ?_
  dsimp only [id]
  rwa [if_pos hfits]

/-- Placement by lifetime finds a zone whenever there is one. -/
theorem matchLifetimeBased_finds {file : FileInfo} {m : Nat} {s : Search} (hi : i ∈ s.table.ioZones)
    (hfree : s.table.busy i = false) (hfits : (s.table.zone i).fits m = true) :
    (matchLifetimeBased file m s).zoneOut.isSome := by
  unfold matchLifetimeBased Search.answer
  rw [Search.andThen_of_ends _ (bestZone_ends (w := {}))]
  refine bestZone_isSome hi hfree hfits ?_
  dsimp only
  rw [if_pos (getLifeTimeDiff_le _ _)]
  rfl

/-- Otherwise it reports the greatest difference. -/
theorem matchLifetimeBased_bestDiff {file : FileInfo} {m : Nat} {s : Search}
    (h : (matchLifetimeBased file m s).zoneOut = none) :
    (matchLifetimeBased file m s).bestDiff = LIFETIME_DIFF_NOT_GOOD := by
  unfold matchLifetimeBased Search.answer at h ⊢
  rw [Search.andThen_of_ends _ (bestZone_ends (w := {}))] at h ⊢
  exact TryLock.scan_score h

theorem getBestOpenZoneMatch_byLifetime {t' : Table} {file : FileInfo} {m : Nat} {s : Search}
    (hi : i ∈ s.table.ioZones) (hfree : s.table.busy i = false) (hnone : s.zoneOut = none) :
    ∃ s', getBestOpenZoneMatch (byLifetime t') file m s = some s' ∧
      ((s.table.zone i).fits (effectiveMin file m s.level) = true → s'.zoneOut.isSome) ∧
      (s'.zoneOut = none → LIFETIME_DIFF_COULD_BE_WORSE ≤ s'.bestDiff) := by
  unfold getBestOpenZoneMatch effectiveMin
  split
  · refine ⟨_, rfl, fun h ↦ matchLifetimeBased_finds hi hfree h, fun h ↦ ?_⟩
    rw [matchLifetimeBased_bestDiff h]
    decide
  dsimp only
  rw [getPolicy_byLifetime, getSecondaryPolicy_byLifetime, hnone]
  simp only [matchPolicy]
  split
  · rename_i hsome
    refine ⟨_, rfl, fun _ ↦ Option.isSome_iff_ne_none.mpr hsome, fun h ↦ absurd h hsome⟩
  rename_i hnone₁
  have hsearch := @matchLifetimeBased_finds i file m _ hi hfree
  split
  · rename_i hsome
    refine ⟨_, rfl, fun h ↦ absurd (hsearch h) ?_, fun h ↦ absurd h hsome⟩
    rw [not_not.mp hnone₁]
    exact Bool.false_ne_true
  · refine ⟨_, rfl, fun h ↦ absurd (hsearch h) ?_, fun _ ↦ le_max_left _ _⟩
    rw [not_not.mp hnone₁]
    exact Bool.false_ne_true

end Alone

theorem fillOrOpen_alone {a : Allocator} {t : Table} {i : ZoneId} {finish : ZoneId → Status}
    {fuel : Nat} {file : FileInfo} {best_diff : Nat} {zone : Option ZoneId} {level : Int}
    (htoken : a.activeIoZones < a.maxNrActiveIoZones)
    (hlength : a.table.ioZones.length = t.ioZones.length)
    (hzone : ∀ j, zone = some j → j = i)
    (hnone : zone = none → LIFETIME_DIFF_COULD_BE_WORSE ≤ best_diff ∧
      a.table.IsEmptyZone i ∧ ∀ j, a.table.busy j = (j != i)) :
    ∃ r, a.fillOrOpen finish (byLifetime t) fuel file best_diff zone level = some r ∧
    r.status = .ok ∧
      r.zone = some i := by
  unfold fillOrOpen
  cases zone with
  | some j =>
      obtain rfl := hzone j rfl
      split
      · exact ⟨_, rfl, rfl, rfl⟩
      unfold getActiveIOZoneTokenIfAvailable
      rw [if_pos htoken]
      have hcount : ¬ (byLifetime t).reserveZoneCount < a.table.getEmptyZoneCount :=
        Nat.not_lt.mpr (List.countP_le_length.trans hlength.le)
      dsimp only
      rw [if_neg (by simp), if_neg hcount]
      exact ⟨_, rfl, rfl, rfl⟩
  | none =>
      obtain ⟨hdiff, hempty, hbusy⟩ := hnone rfl
      rw [if_neg (Nat.not_lt.mpr hdiff)]
      unfold getActiveIOZoneTokenIfAvailable
      rw [if_pos htoken]
      dsimp only
      unfold openEmptyZone
      rw [if_pos rfl]
      dsimp only
      cases ho : a.table.allocateEmptyZone none (byLifetime t) level with
      | none => cases ho
      | some o =>
          obtain ⟨hsel, hsome⟩ := allocateEmptyZone_selects ho
          obtain ⟨j, hj⟩ :=
            Option.isSome_iff_exists.mp (hsome ⟨i, hempty.1, by simp [hbusy], hempty.2⟩)
          have hji : j = i := by simpa [hbusy] using hsel.free j hj
          subst hji
          simp only [hsel.status, hj]
          exact ⟨_, rfl, rfl, rfl⟩

/-- A zone that can be selected is returned when it is the only free one. -/
theorem alone_returned {t : Table} {i : ZoneId} {file : FileInfo} {level : Int} {min_capacity : Nat}
    (hi : i ∈ t.ioZones) (hsel : Selectable t (byLifetime t) file level min_capacity i) :
    ∃ r, (alone t i).allocateIOZoneNoLock (fun _ ↦ .ok) (byLifetime t) 0 file .kWAL level
      min_capacity = some r ∧ r.status = .ok ∧ r.zone = some i := by
  unfold allocateIOZoneNoLock
  obtain ⟨a, ha, hz, hio, hbusy, hdeferred, hopen, hactive⟩ : ∃ a,
    (alone t i).raiseMaxLevel level = a ∧
      a.table.zone = t.zone ∧ a.table.ioZones = t.ioZones ∧ (∀ j, a.table.busy j = (j != i)) ∧
      a.deferredStatus = .ok ∧ a.openIoZones < a.maxNrOpenIoZones ∧
      a.activeIoZones < a.maxNrActiveIoZones := by
    refine ⟨_, rfl, ?_⟩
    unfold raiseMaxLevel
    split <;> exact ⟨rfl, rfl, fun _ ↦ rfl, rfl, Int.zero_lt_one, Int.zero_lt_one⟩
  rw [ha]
  simp only [hdeferred, ne_eq, not_true_eq_false, if_false]
  unfold findZone waitForOpenIOZoneToken
  simp only [beq_self_eq_true, if_true, if_pos hopen]
  obtain ⟨s, hs, hfinds, hdiff⟩ := @getBestOpenZoneMatch_byLifetime i t file (min_capacity % 2 ^ 32)
    { table := a.table, level := level } (hio ▸ hi) (by simp [hbusy]) rfl
  have hfits := getBestOpenZoneMatch_fits (t := a.table) ⟨rfl, rfl, rfl, rfl, rfl⟩ hs
  have hstatus : s.status = .ok := hfits.status
  simp only [hs, hstatus]
  refine fillOrOpen_alone hactive ?_ ?_ ?_
  · exact congrArg List.length (hfits.ioZones.trans hio)
  · intro j hj
    simpa [hbusy] using hfits.free j hj
  · intro hnone
    refine ⟨hdiff hnone, ?_, ?_⟩
    · rcases hsel with he | hf
      · unfold Table.IsEmptyZone at he ⊢
        rwa [show s.table.zone = t.zone from hfits.zone.trans hz, show s.table.ioZones =
          t.ioZones from hfits.ioZones.trans hio]
      · have hsome := hfinds (by rw [hz]; exact hf.1)
        rw [hnone] at hsome
        cases hsome
    · intro j
      exact (congrFun (hfits.busy_of_none hnone) j).trans (hbusy j)

theorem HonoursCapacity.le {t : Table} {file : FileInfo} {level : Int} {min_capacity : Nat}
    (h : HonoursCapacity t file level min_capacity) {i : ZoneId} (hi : i ∈ t.ioZones)
    (hsel : (t.zone i).isEmpty = true ∨
      (t.zone i).fits (effectiveMin file (min_capacity % 2 ^ 32) level) = true) :
    min_capacity ≤ (t.zone i).capacity := by
  have hsel : Selectable t (byLifetime t) file level min_capacity i :=
    hsel.imp (fun he ↦ ⟨hi, he⟩) (fun hf ↦ ⟨hf, fun _ ↦ hi⟩)
  obtain ⟨r, hr, hok, hzone⟩ := alone_returned hi hsel
  have hcap := h (alone t i) _ (byLifetime t) _ _ r rfl rfl (byLifetime_pointsInto t _)
    hr hok i hzone
  rw [(allocateIOZoneNoLock_returns hr i hok hzone).2] at hcap
  exact hcap

/-- The request is honoured if and only if every zone that can be selected has the
capacity: the empty ones, and those that are accepted in place of a larger one. -/
theorem honoursCapacity_iff (t : Table) (file : FileInfo) (level : Int) (min_capacity : Nat) :
    HonoursCapacity t file level min_capacity ↔
      ∀ i ∈ t.ioZones, ((t.zone i).isEmpty = true ∨
        (t.zone i).fits (effectiveMin file (min_capacity % 2 ^ 32) level) = true) →
        min_capacity ≤ (t.zone i).capacity := by
  constructor
  · intro h i hi hsel
    exact h.le hi hsel
  · intro h a finish w fuel io_type r hz hio hw hr hok i hi
    obtain ⟨hsel, hcap⟩ := allocateIOZoneNoLock_returns hr i hok hi
    rw [hcap, hz]
    rcases hsel with ⟨hmem, he⟩ | ⟨hf, hmem⟩
    · exact h i (hio ▸ hmem) (.inl (hz ▸ he))
    · exact h i (hio ▸ hmem (hio ▸ hw)) (.inr (hz ▸ hf))

/-- A file without keys asks for a whole zone and gets one that is half full. -/
theorem request_not_honoured :
    ¬ ∀ (t : Table) (file : FileInfo) (level : Int) (min_capacity : Nat), min_capacity < 2 ^ 64 →
      (∀ i ∈ t.ioZones, min_capacity ≤ (t.zone i).maxCapacity) →
      HonoursCapacity t file level min_capacity := by
  intro h
  have hcap := (h halfWritten { hasKeys := false } 0 64 (by decide) (by decide)).le (i := 0)
    (by decide) (.inr (by decide))
  revert hcap
  decide

end Allocator

end Alloc

end ZenFs
