import ZenFs.Alloc.Match

/-!
# What zone selection acquires

Every routine ends with the busy flags it began with, but for the flag of the
zone it returns.  The loops have this from `TryLock.scan_ends` and
`TryLock.first_ends`; what is left are the routines that chain loops or hold two
candidates at once.
-/

namespace ZenFs

namespace Alloc

/-- A routine has returned a zone that was free and satisfies `P`, and has set its flag
and no other, or it has returned no zone and set no flag. -/
structure Selects (P : ZoneId → Prop) (t : Table) (o : Outcome) : Prop where
  status : o.status = .ok
  zone : o.table.zone = t.zone
  ioZones : o.table.ioZones = t.ioZones
  busy : o.table.busy = TryLock.hold t.busy o.zone
  free : ∀ i, o.zone = some i → t.busy i = false
  good : ∀ i, o.zone = some i → P i

namespace Selects

variable {P Q : ZoneId → Prop} {t t' : Table} {o : Outcome}

theorem mono (h : Selects P t o) (hPQ : ∀ i, P i → Q i) : Selects Q t o :=
  { h with good := fun i hi ↦ hPQ i (h.good i hi) }

/-- What a routine has looked at before does not matter if it has released it. -/
theorem of_same (h : Selects P t' o) (hz : t'.zone = t.zone) (hi : t'.ioZones = t.ioZones)
    (hb : t'.busy = t.busy) : Selects P t o where
  status := h.status
  zone := h.zone.trans hz
  ioZones := h.ioZones.trans hi
  busy := by rw [h.busy, hb]
  free := fun i hi ↦ hb ▸ h.free i hi
  good := h.good

/-- A routine that has returned no zone. -/
theorem busy_of_none (h : Selects P t o) (hn : o.zone = none) : o.table.busy = t.busy := by
  rw [h.busy, hn]
  rfl

end Selects

/-! ## Empty zones -/

section Empty

variable {t : Table} {out : Option ZoneId} {w : Placement} {o : Outcome} {level : Int}

/-- A free empty zone. -/
def Table.HasEmpty (t : Table) : Prop :=
  ∃ i ∈ t.ioZones, t.busy i = false ∧ (t.zone i).isEmpty = true

/-- An empty zone among the IO zones. -/
def Table.IsEmptyZone (t : Table) (i : ZoneId) : Prop := i ∈ t.ioZones ∧ (t.zone i).isEmpty = true

/-- The routine returns an empty zone, and does so if there is a free one. -/
def SelectsEmpty (t : Table) (o : Outcome) : Prop :=
  Selects t.IsEmptyZone t o ∧ (t.HasEmpty → o.zone.isSome)

theorem conclude_selects (out : Option ZoneId) {σ : Type} {P : ZoneId → Prop}
    {r : TryLock.Result ZoneId σ} (h : TryLock.Ends P t.busy r) :
    Selects P t (t.conclude out r) ∧ (t.conclude out r).zone = r.best := by
  unfold Table.conclude
  rw [h.stuck]
  exact ⟨⟨rfl, rfl, rfl, h.flags, h.free, h.good⟩, rfl⟩

theorem firstEmpty_ends {zs : List ZoneId} (hz : ∀ i ∈ zs, i ∈ t.ioZones) :
    TryLock.Ends t.IsEmptyZone t.busy (t.firstEmpty zs) :=
  have h := TryLock.first_ends zs 0
  { h with good := fun i hi ↦ ⟨hz i (h.good i hi).1, (h.good i hi).2⟩ }

theorem firstEmpty_isSome {zs : List ZoneId} (hz : zs.Perm t.ioZones) (h : t.HasEmpty) :
    (t.firstEmpty zs).best.isSome := by
  obtain ⟨i, hi, hfree, hempty⟩ := h
  exact TryLock.first_isSome (hz.mem_iff.mpr hi) hfree hempty 0

/-- The routines that look for the first empty zone in some order. -/
theorem firstEmpty_selects (out : Option ZoneId) {zs : List ZoneId} (hz : zs.Perm t.ioZones) :
    SelectsEmpty t (t.conclude out (t.firstEmpty zs)) := by
  obtain ⟨hs, hzone⟩ := conclude_selects out (firstEmpty_ends fun i ↦ hz.mem_iff.mp)
  refine ⟨hs, fun h ↦ ?_⟩
  rw [hzone]
  exact firstEmpty_isSome hz h

theorem allocateEmptyZoneDefault_selects : SelectsEmpty t (t.allocateEmptyZoneDefault out) :=
  firstEmpty_selects out (.refl _)

theorem allocateEmptyZoneRandom_selects : SelectsEmpty t (t.allocateEmptyZoneRandom out w) :=
  firstEmpty_selects out (w.shuffle_perm _)

theorem allocateEmptyZoneSequential_selects (h : t.allocateEmptyZoneSequential out = some o) :
    SelectsEmpty t o := by
  unfold Table.allocateEmptyZoneSequential at h
  split at h
  · cases h
  · obtain rfl := Option.some.inj h
    obtain ⟨hs, hsome⟩ := firstEmpty_selects out (t.ioZones.rotate_perm t.zonePos)
    generalize (t.zonePos + _) % t.ioZones.length = pos
    unfold Table.conclude at hs hsome ⊢
    rw [(firstEmpty_ends fun i ↦ List.mem_rotate.mp).stuck] at hs hsome ⊢
    exact ⟨⟨rfl, rfl, rfl, hs.busy, hs.free, hs.good⟩, hsome⟩

/-- The routines that look for the best empty zone. -/
theorem bestEmpty_selects (out : Option ZoneId) {σ : Type}
    {prefer : Option ZoneId → σ → ZoneId → Option σ}
    {score : σ} (hempty : ∀ best score z score', prefer best score z = some score' →
      (t.zone z).isEmpty = true)
    (hsome : ∀ z, (t.zone z).isEmpty = true → (prefer none score z).isSome) :
    SelectsEmpty t (t.conclude out (TryLock.scan false id prefer t.ioZones t.busy none score)) := by
  have hprefer : ∀ z ∈ t.ioZones, ∀ best score score', prefer best score z = some score' →
      t.IsEmptyZone (id z) :=
    fun z hz best score score' h ↦ ⟨hz, hempty best score z score' h⟩
  obtain ⟨hs, hzone⟩ :=
    conclude_selects out (@TryLock.scan_none_ends _ _ _ _ false _ _ _ t.busy _ hprefer _)
  refine ⟨hs, fun ⟨i, hi, hfree, he⟩ ↦ ?_⟩
  rw [hzone]
  exact TryLock.scan_isSome hi hfree (hsome i he)

theorem allocateEmptyZoneLeastWear_selects : SelectsEmpty t (t.allocateEmptyZoneLeastWear out) := by
  unfold Table.allocateEmptyZoneLeastWear
  refine bestEmpty_selects out (fun best score z score' h ↦ ?_) fun z hz ↦ ?_
  · split at h
    · assumption
    · cases h
  · simp [hz]

/-- Of two zones that are held the one farther away is released. -/
theorem chooseCloser_selects {l u : ZoneId} {m n : Nat} (hl : t.busy l = false)
    (hu : t.busy u = false) (hne : u ≠ l) (hle : t.IsEmptyZone l) (hue : t.IsEmptyZone u) :
    Selects t.IsEmptyZone t
      ({ t with busy := Function.update (Function.update t.busy u true) l true }.chooseCloser
        l u m n) := by
  unfold Table.chooseCloser
  split
  · refine ⟨rfl, rfl, rfl, ?_, by rintro i ⟨⟩; exact hl, by rintro i ⟨⟩; exact hle⟩
    exact congrArg Prod.fst (TryLock.release_old hne hu)
  · refine ⟨rfl, rfl, rfl, ?_, by rintro i ⟨⟩; exact hu, by rintro i ⟨⟩; exact hue⟩
    have hl' : Function.update t.busy u true l = false := by simpa [hne.symm] using hl
    exact congrArg Prod.fst (TryLock.release_taken hl')

theorem chooseCloser_isSome (t : Table) (l u : ZoneId) (m n : Nat) :
    (t.chooseCloser l u m n).zone.isSome := by
  unfold Table.chooseCloser
  split <;> rfl

theorem allocateOutside_selects {behind before : List ZoneId} {inBounds : Bool}
    (hbehind : ∀ i ∈ behind, i ∈ t.ioZones) (hbefore : ∀ i ∈ before, i ∈ t.ioZones)
    (h : t.allocateOutside out behind before inBounds = some o) : SelectsEmpty t o := by
  unfold Table.allocateOutside at h
  have habove := firstEmpty_ends hbehind
  generalize t.firstEmpty behind = above at h habove
  dsimp only at h
  rw [habove.stuck, Option.isSome_none, if_neg Bool.false_ne_true] at h
  split at h
  · cases h
  have hbelow := firstEmpty_ends (t := { t with busy := above.flags }) hbefore
  generalize Table.firstEmpty { t with busy := above.flags } before = below at h hbelow
  rw [hbelow.stuck, Option.isSome_none, if_neg Bool.false_ne_true] at h
  -- the flags behind both loops, and the zone below was free in front of them
  have hb : below.flags = TryLock.hold (TryLock.hold t.busy above.best) below.best := by
    rw [← habove.flags]
    exact hbelow.flags
  have hfree : ∀ l, below.best = some l → TryLock.hold t.busy above.best l = false := by
    rw [← habove.flags]
    exact hbelow.free
  cases hl : below.best with
  | none =>
      cases hu : above.best with
      | none =>
          simp only [hl, hu] at h
          obtain rfl := Option.some.inj h
          rw [hb, hl, hu]
          exact allocateEmptyZoneDefault_selects
      | some u =>
          simp only [hl, hu] at h
          obtain rfl := Option.some.inj h
          rw [hb, hl, hu]
          exact ⟨⟨rfl, rfl, rfl, rfl, by rintro i ⟨⟩; exact habove.free u hu,
            by rintro i ⟨⟩; exact habove.good u hu⟩, fun _ ↦ rfl⟩
  | some l =>
      have hfl := hfree l hl
      have hgl := hbelow.good l hl
      cases hu : above.best with
      | none =>
          simp only [hl, hu] at h
          obtain rfl := Option.some.inj h
          rw [hu] at hfl
          rw [hb, hl, hu]
          exact ⟨⟨rfl, rfl, rfl, rfl, by rintro i ⟨⟩; exact hfl, by rintro i ⟨⟩; exact hgl⟩,
            fun _ ↦ rfl⟩
      | some u =>
          simp only [hl, hu] at h
          obtain rfl := Option.some.inj h
          rw [hu, TryLock.hold_some] at hfl
          have hne : u ≠ l := by
            rintro rfl
            simp at hfl
          rw [Function.update_of_ne hne.symm] at hfl
          rw [hb, hl, hu]
          exact ⟨chooseCloser_selects hfl (habove.free u hu) hne hgl (habove.good u hu),
            fun _ ↦ chooseCloser_isSome ..⟩

theorem allocateEmptyZoneHotnessBased_selects
    (h : t.allocateEmptyZoneHotnessBased out w level = some o) : SelectsEmpty t o := by
  unfold Table.allocateEmptyZoneHotnessBased at h
  split at h
  · obtain rfl := Option.some.inj h
    exact allocateEmptyZoneLeastWear_selects
  split at h
  · cases h
  have hsorted : ∀ i ∈ w.sortByWear (fun i ↦ (t.zone i).resetCount) t.ioZones, i ∈ t.ioZones :=
    fun _ ↦ (w.sortByWear_perm _ _).mem_iff.mp
  dsimp only at h
  generalize hinside : (List.drop _ (List.take _ _) : List ZoneId) = inside at h
  have hin : TryLock.Ends t.IsEmptyZone t.busy (t.firstEmpty inside) := by
    refine firstEmpty_ends fun i hi ↦ ?_
    rw [← hinside] at hi
    exact hsorted i (List.mem_of_mem_take (List.mem_of_mem_drop hi))
  generalize t.firstEmpty inside = r at h hin
  rw [hin.stuck, Option.isSome_none, Bool.false_or] at h
  split at h
  · -- a zone in the interval
    rename_i hr
    obtain rfl := Option.some.inj h
    obtain ⟨hs, hzone⟩ := conclude_selects out hin
    exact ⟨hs, fun _ ↦ hzone ▸ hr⟩
  · rename_i hr
    have hflags : r.flags = t.busy := by
      rw [hin.flags, Option.not_isSome_iff_eq_none.mp hr]
      rfl
    rw [hflags] at h
    refine allocateOutside_selects ?_ ?_ h
    · intro i hi
      split at hi
      · cases hi
      · exact hsorted i (List.mem_of_mem_drop hi)
    · intro i hi
      exact hsorted i (List.mem_of_mem_take (List.mem_reverse.mp hi))

theorem allocateEmptyZone_selects (h : t.allocateEmptyZone out w level = some o) :
    SelectsEmpty t o := by
  unfold Table.allocateEmptyZone at h
  generalize ht' : (if 0 < level ∧ (t.maxLevel : Int) < level then
    { t with maxLevel := (level % 256).toNat } else t) = t' at h
  have hsame : t'.zone = t.zone ∧ t'.ioZones = t.ioZones ∧ t'.busy = t.busy := by
    rw [← ht']
    split <;> exact ⟨rfl, rfl, rfl⟩
  suffices hs : SelectsEmpty t' o by
    refine ⟨(hs.1.of_same hsame.1 hsame.2.1 hsame.2.2).mono fun i hi ↦ ?_, fun he ↦ hs.2 ?_⟩
    · unfold Table.IsEmptyZone at hi ⊢
      rwa [hsame.1, hsame.2.1] at hi
    · unfold Table.HasEmpty at he ⊢
      rwa [hsame.1, hsame.2.1, hsame.2.2]
  dsimp only at h
  split at h
  · obtain rfl := Option.some.inj h
    exact allocateEmptyZoneDefault_selects
  · exact allocateEmptyZoneSequential_selects h
  · obtain rfl := Option.some.inj h
    exact allocateEmptyZoneRandom_selects
  · obtain rfl := Option.some.inj h
    exact allocateEmptyZoneLeastWear_selects
  · exact allocateEmptyZoneHotnessBased_selects h
  · exact allocateEmptyZoneSequential_selects h

end Empty

/-! ## Placement policies -/

/-- What the caller of a policy gets. -/
def Search.outcome (s : Search) : Outcome :=
  { table := s.table, zone := s.zoneOut, status := s.status }

/-- A policy has been started with no zone. -/
structure Search.Started (t : Table) (s : Search) : Prop where
  zone : s.table.zone = t.zone
  ioZones : s.table.ioZones = t.ioZones
  busy : s.table.busy = t.busy
  zoneOut : s.zoneOut = none
  status : s.status = .ok

/-- The pointers that the policies follow lead to the given zones. -/
structure Placement.PointsInto (w : Placement) (zs : List ZoneId) : Prop where
  pointer : ∀ start i, w.pointer start = some (some i) → i ∈ zs
  zoneDiffs : ∀ i diff, (some i, diff) ∈ w.zoneDiffs → i ∈ zs

/-- A zone that is used, not full and large enough, and one of the IO zones. -/
def Table.Fitting (t : Table) (w : Placement) (min_capacity : Nat) (i : ZoneId) : Prop :=
  (t.zone i).fits min_capacity = true ∧ (w.PointsInto t.ioZones → i ∈ t.ioZones)

/-- A policy returns a fitting zone. -/
abbrev Fits (w : Placement) (min_capacity : Nat) (t : Table) (s : Search) : Prop :=
  Selects (t.Fitting w min_capacity) t s.outcome

section Policies

variable {t : Table} {w : Placement} {file : FileInfo} {min_capacity : Nat} {s s' : Search}

theorem best_ends {α σ : Type} {key : α → ZoneId} {better : σ → α → Option σ}
    {items : List α} {score : σ}
    (hitems : w.PointsInto t.ioZones → ∀ a ∈ items, key a ∈ t.ioZones) :
    TryLock.Ends (t.Fitting w min_capacity) t.busy
      (t.best min_capacity key better items score) := by
  refine TryLock.scan_none_ends fun a ha best score score' h ↦ ?_
  split at h
  · exact ⟨by assumption, fun hw ↦ hitems hw a ha⟩
  · cases h

/-- The loops over all zones. -/
theorem bestZone_ends {σ : Type} {better : σ → ZoneId → Option σ} {score : σ} :
    TryLock.Ends (t.Fitting w min_capacity) t.busy
      (t.best min_capacity id better t.ioZones score) :=
  best_ends fun _ _ ↦ id

/-- What a loop has found from the start is what the policy returns. -/
theorem Search.Started.fits {σ : Type} {r : TryLock.Result ZoneId σ} (hs : s.Started t)
    (hr : TryLock.Ends (s.table.Fitting w min_capacity) s.table.busy r)
    (htable : s'.table = { s.table with busy := r.flags }) (hzone : s'.zoneOut = r.best)
    (hstatus : s'.status = s.status) : Fits w min_capacity t s' where
  status := hstatus.trans hs.status
  zone := (congrArg Table.zone htable).trans hs.zone
  ioZones := (congrArg Table.ioZones htable).trans hs.ioZones
  busy := by
    rw [← hs.busy, show s'.outcome.zone = r.best from hzone, ← hr.flags]
    exact congrArg Table.busy htable
  free := by
    intro i hi
    rw [← hs.busy]
    exact hr.free i (hzone.symm.trans hi)
  good := by
    intro i hi
    unfold Table.Fitting
    rw [← hs.zone, ← hs.ioZones]
    exact hr.good i (hzone.symm.trans hi)

theorem Search.andThen_of_ends {σ : Type} {P : ZoneId → Prop} {r : TryLock.Result ZoneId σ}
    (k : Search → Search) (hr : TryLock.Ends P s.table.busy r) :
    s.andThen r k = k { s with table := { s.table with busy := r.flags } } := by
  unfold Search.andThen
  rw [hr.stuck]

theorem answer_fits {r : TryLock.Result ZoneId Nat} (hs : s.Started t)
    (hr : TryLock.Ends (s.table.Fitting w min_capacity) s.table.busy r) :
    Fits w min_capacity t (s.answer r) := by
  unfold Search.answer
  rw [Search.andThen_of_ends _ hr]
  exact hs.fits hr rfl rfl rfl

theorem place_fits {σ : Type} {r : TryLock.Result ZoneId σ} {diff : ZoneId → Nat} (hs : s.Started t)
    (hr : TryLock.Ends (s.table.Fitting w min_capacity) s.table.busy r) :
    Fits w min_capacity t (s.place r diff) := by
  unfold Search.place
  rw [Search.andThen_of_ends _ hr]
  cases hb : r.best with
  | none => exact hs.fits hr rfl (hs.zoneOut.trans hb.symm) rfl
  | some i => exact hs.fits hr rfl hb.symm rfl

/-- A policy that has tried no zone. -/
theorem untried_fits (hs : s.Started t) (htable : s'.table = s.table) (hzone : s'.zoneOut = none)
    (hstatus : s'.status = s.status) : Fits w min_capacity t s' :=
  hs.fits (r := { flags := s.table.busy, best := none, score := () })
    ⟨rfl, rfl, fun _ h ↦ (nomatch h), fun _ h ↦ (nomatch h)⟩ htable hzone hstatus

theorem unfit_fits (hs : s.Started t) : Fits w min_capacity t s.unfit :=
  untried_fits hs rfl hs.zoneOut rfl

theorem matchLifetimeBased_fits (hs : s.Started t) :
    Fits w min_capacity t (matchLifetimeBased file min_capacity s) :=
  answer_fits hs bestZone_ends

theorem matchKind_fits {kind : IoZone → Bool} (hs : s.Started t) :
    Fits w min_capacity t (matchKind min_capacity s kind) :=
  answer_fits hs bestZone_ends

theorem matchWeighted_fits {policy : PlacementPolicyType} {level : Int} {diff : ZoneId → Nat}
    (hs : s.Started t) : Fits w min_capacity t (matchWeighted w min_capacity s policy level diff) :=
  place_fits hs bestZone_ends

/-- The second loop of `MatchCAZA` starts with the flags that the first one has found. -/
theorem matchCAZA_fits (hs : s.Started t) : Fits w min_capacity t (matchCAZA w min_capacity s) := by
  unfold matchCAZA
  extract_lets caza overlapping_files r
  split
  · exact unfit_fits hs
  have hr : TryLock.Ends (s.table.Fitting w min_capacity) s.table.busy r := bestZone_ends
  split
  · rename_i hnone
    have hflags : r.flags = s.table.busy := by
      rw [hr.flags, hnone.2.1]
      rfl
    have hs' : { s with table := { s.table with busy := r.flags } }.Started t :=
      ⟨hs.zone, hs.ioZones, hflags.trans hs.busy, hs.zoneOut, hs.status⟩
    exact place_fits hs' bestZone_ends
  · exact place_fits hs hr

theorem zonesOf_mem {extents : List (Nat × Nat)} {items : List (ZoneId × Nat)} {zs : List ZoneId}
    (hw : w.PointsInto zs) (h : w.zonesOf extents = some items) : ∀ e ∈ items, e.1 ∈ zs := by
  induction extents generalizing items with
  | nil =>
      obtain rfl := Option.some.inj h
      exact fun _ he ↦ nomatch he
  | cons x extents ih =>
      rw [Placement.zonesOf] at h
      split at h
      · exact ih h
      · cases h
      · rename_i z hz
        obtain ⟨rest, hrest, rfl⟩ := Option.map_eq_some_iff.mp h
        intro e he
        rcases List.mem_cons.mp he with rfl | he
        · exact hw.pointer _ _ hz
        · exact ih hrest e he

/-- A round that finds no zone leaves the flags for the next one. -/
theorem chooseInRounds_ends {rounds : List (List (Nat × Nat))} {t : Table}
    {r : TryLock.Result ZoneId Nat} (h : chooseInRounds min_capacity w rounds t = some r) :
    TryLock.Ends (t.Fitting w min_capacity) t.busy r := by
  induction rounds generalizing t with
  | nil =>
      obtain rfl := Option.some.inj h
      exact ⟨rfl, rfl, fun _ h ↦ (nomatch h), fun _ h ↦ (nomatch h)⟩
  | cons extents rounds ih =>
      rw [chooseInRounds] at h
      cases hitems : w.zonesOf extents with
      | none =>
          rw [hitems] at h
          cases h
      | some items =>
          simp only [hitems] at h
          have hr : TryLock.Ends (t.Fitting w min_capacity) t.busy (t.best min_capacity Prod.fst
              (fun highest e ↦ if highest < e.2 then some e.2 else none) items 0) :=
            best_ends fun hw ↦ zonesOf_mem hw hitems
          generalize t.best min_capacity Prod.fst _ items 0 = r' at h hr
          rw [hr.stuck, Option.isSome_none, Bool.false_or] at h
          split at h
          · obtain rfl := Option.some.inj h
            exact hr
          · rename_i hnone
            have hflags : r'.flags = t.busy := by
              rw [hr.flags, Option.not_isSome_iff_eq_none.mp hnone]
              rfl
            rw [hflags] at h
            exact ih h

theorem place_of_map {m : Option (TryLock.Result ZoneId Nat)} {diff : ZoneId → Nat}
    (hs : s.Started t)
    (hm : ∀ r, m = some r → TryLock.Ends (s.table.Fitting w min_capacity) s.table.busy r)
    (h : m.map (fun r ↦ s.place r diff) = some s') : Fits w min_capacity t s' := by
  obtain ⟨r, hr, rfl⟩ := Option.map_eq_some_iff.mp h
  exact place_fits hs (hm r hr)

theorem diffZones_mem {diffs : List (Option ZoneId × Nat)} {items : List (ZoneId × Nat)}
    (h : Placement.diffZones diffs = some items) : ∀ e ∈ items, (some e.1, e.2) ∈ diffs := by
  induction diffs generalizing items with
  | nil =>
      obtain rfl := Option.some.inj h
      exact fun _ he ↦ nomatch he
  | cons x diffs ih =>
      obtain ⟨_ | z, diff⟩ := x
      · cases h
      · obtain ⟨rest, hrest, rfl⟩ := Option.map_eq_some_iff.mp h
        intro e he
        rcases List.mem_cons.mp he with rfl | he
        · exact List.mem_cons_self
        · exact List.mem_cons_of_mem _ (ih hrest e he)

theorem matchPlazaAdvanced_fits (hs : s.Started t)
    (h : matchPlazaAdvanced w min_capacity s = some s') : Fits w min_capacity t s' := by
  unfold matchPlazaAdvanced at h
  split at h
  · obtain rfl := Option.some.inj h
    exact matchKind_fits hs
  split at h
  · obtain rfl := Option.some.inj h
    exact unfit_fits hs
  · obtain ⟨items, hitems, rfl⟩ := Option.map_eq_some_iff.mp h
    exact place_fits hs (best_ends fun hw e he ↦ hw.zoneDiffs _ _ (diffZones_mem hitems e he))

theorem matchOAZA_fits (hs : s.Started t) (h : matchOAZA w min_capacity s = some s') :
    Fits w min_capacity t s' := by
  unfold matchOAZA at h
  split at h
  · obtain rfl := Option.some.inj h
    exact unfit_fits hs
  split at h
  · obtain rfl := Option.some.inj h
    exact untried_fits hs rfl hs.zoneOut rfl
  split at h
  · obtain rfl := Option.some.inj h
    exact unfit_fits hs
  split at h
  · cases h
  · refine place_of_map hs (fun r hr ↦ ?_) h
    split at hr
    · exact chooseInRounds_ends hr
    · exact chooseInRounds_ends hr

/-- The rank policies, which raise the level of the file first. -/
theorem matchMoved_fits {policy : PlacementPolicyType} {level : Int} (hs : s.Started t) {b : Bool}
    (h : (if b then none else some (matchWeighted w min_capacity s policy level fun _ ↦ 0)) =
      some s') :
    Fits w min_capacity t s' := by
  split at h
  · cases h
  · obtain rfl := Option.some.inj h
    exact matchWeighted_fits hs

theorem matchOverlapChildren_fits (hs : s.Started t)
    (h : matchOverlapChildren w min_capacity s = some s') : Fits w min_capacity t s' := by
  unfold matchOverlapChildren at h
  have hs : { s with level := movedLevel w s }.Started t :=
    ⟨hs.zone, hs.ioZones, hs.busy, hs.zoneOut, hs.status⟩
  generalize decide (s.level < movedLevel w s) = raised at h
  generalize { s with level := movedLevel w s } = s₁ at h hs
  dsimp only at h
  split at h
  · obtain rfl := Option.some.inj h
    exact unfit_fits hs
  · exact matchMoved_fits hs h

/-- Every policy keeps the flags but for the zone it returns. -/
theorem matchPolicy_fits {policy : PlacementPolicyType} (hs : s.Started t)
    (h : matchPolicy w file min_capacity s policy = some s') : Fits w min_capacity t s' := by
  cases policy with
  | kLifetimeBased | kTombstoneTTL =>
      obtain rfl := Option.some.inj h
      exact matchLifetimeBased_fits hs
  | kCAZA =>
      obtain rfl := Option.some.inj h
      exact matchCAZA_fits hs
  | kPlazaBase =>
      obtain rfl := Option.some.inj h
      unfold matchPlazaBase
      split
      · exact matchWeighted_fits hs
      · exact unfit_fits hs
  | kPlazaIntermediate =>
      obtain rfl := Option.some.inj h
      unfold matchPlazaIntermediate
      split
      · exact matchWeighted_fits hs
      · exact unfit_fits hs
  | kPlazaAdvanced => exact matchPlazaAdvanced_fits hs h
  | kSameLevelNearbyKeysSimple =>
      rw [matchPolicy, matchSameLevelNearbyKeysSimple] at h
      split at h
      · exact place_of_map hs (fun r hr ↦ chooseInRounds_ends hr) h
      · obtain rfl := Option.some.inj h
        exact unfit_fits hs
  | kArrivalTimeBased | kClusterTogether =>
      obtain rfl := Option.some.inj h
      exact matchKind_fits hs
  | kTombstoneDensity =>
      obtain rfl := Option.some.inj h
      unfold matchTombstoneDensity
      split
      · exact matchKind_fits hs
      · exact untried_fits hs rfl rfl rfl
  | kOverlapChildren => exact matchOverlapChildren_fits hs h
  | kOverlapGrandchildren | kCompensatedSize => exact matchMoved_fits hs h
  | kOAZA => exact matchOAZA_fits hs h
  | kLeveledLifetimeBased | kUserDefinedPlacement => cases h

/-- A policy that has returned no zone leaves the next one to start. -/
theorem started_of_fits (h : Fits w min_capacity t s) (hnone : s.zoneOut = none) :
    { s with status := Status.ok }.Started t :=
  ⟨h.zone, h.ioZones, h.busy_of_none hnone, hnone, rfl⟩

/-- The least capacity that `GetBestOpenZoneMatch` asks for. -/
def effectiveMin (file : FileInfo) (min_capacity : Nat) (level : Int) : Nat :=
  if level < 0 ∨ file.hasKeys = false ∨ file.ioType ≠ .kData then 0 else min_capacity

/-- The chain of policies. -/
theorem getBestOpenZoneMatch_fits (hs : s.Started t)
    (h : getBestOpenZoneMatch w file min_capacity s = some s') :
    Fits w (effectiveMin file min_capacity s.level) t s' := by
  unfold getBestOpenZoneMatch at h
  unfold effectiveMin
  split at h
  · rename_i hno
    obtain rfl := Option.some.inj h
    rw [if_pos hno]
    exact matchLifetimeBased_fits hs
  rename_i hno
  rw [if_neg hno]
  dsimp only at h
  cases hp : matchPolicy w file min_capacity s (getPolicy w s.level) with
  | none =>
      rw [hp] at h
      cases h
  | some s₁ =>
      have h₁ := matchPolicy_fits hs hp
      simp only [hp, hs.zoneOut] at h
      split at h
      · obtain rfl := Option.some.inj h
        exact h₁
      rename_i hnone
      have hs₁ := started_of_fits h₁ (not_not.mp hnone)
      cases hq : matchPolicy w file min_capacity { s₁ with status := .ok }
        (getSecondaryPolicy w s.level) with
      | none =>
          simp only [hq] at h
          cases h
      | some s₂ =>
          have h₂ := matchPolicy_fits hs₁ hq
          simp only [hq] at h
          split at h
          · obtain rfl := Option.some.inj h
            exact h₂
          rename_i hnone₂
          obtain rfl := Option.some.inj h
          have hs₂ := started_of_fits h₂ (not_not.mp hnone₂)
          have h₃ : Fits w min_capacity t (matchLifetimeBased file min_capacity
              { s₂ with bestDiff := raisedDiff w s₂ (getPolicy w s.level) s.level,
                        status := .ok }) :=
            matchLifetimeBased_fits ⟨hs₂.zone, hs₂.ioZones, hs₂.busy, hs₂.zoneOut, rfl⟩
          exact ⟨h₃.status, h₃.zone, h₃.ioZones, h₃.busy, h₃.free, h₃.good⟩

end Policies

/-! ## All routines -/

/-- The routines that select a zone. -/
inductive Routine where
  | policy (p : PlacementPolicyType)
  | bestOpenZoneMatch
  | emptyZoneDefault
  | emptyZoneSequential
  | emptyZoneLeastWear
  | emptyZoneRandom
  | emptyZoneHotnessBased
  | emptyZone
deriving DecidableEq, Repr

namespace Routine

/-- What the routine looks for. -/
def wants : Routine → IoZone → Prop
  | policy _ | bestOpenZoneMatch => fun z ↦ z.isUsed = true ∧ z.isFull = false
  | _ => fun z ↦ z.isEmpty = true

/-- The `AllocateEmptyZone` routines. -/
def allocatesEmpty : Routine → Bool
  | policy _ | bestOpenZoneMatch => false
  | _ => true

/-- A call with no zone; `none` is a fault. -/
def run (w : Placement) (file : FileInfo) (level : Int) (min_capacity bestDiff : Nat) (t : Table) :
    Routine → Option Outcome
  | policy p =>
      (matchPolicy w file min_capacity { table := t, level := level, bestDiff := bestDiff } p).map
        Search.outcome
  | bestOpenZoneMatch =>
      (getBestOpenZoneMatch w file min_capacity
        { table := t, level := level, bestDiff := bestDiff }).map Search.outcome
  | emptyZoneDefault => some (t.allocateEmptyZoneDefault none)
  | emptyZoneSequential => t.allocateEmptyZoneSequential none
  | emptyZoneLeastWear => some (t.allocateEmptyZoneLeastWear none)
  | emptyZoneRandom => some (t.allocateEmptyZoneRandom none w)
  | emptyZoneHotnessBased => t.allocateEmptyZoneHotnessBased none w level
  | emptyZone => t.allocateEmptyZone none w level

/-- Nothing is acquired, or a free zone that the routine wants, and nothing else. -/
def AcquiresReturned (r : Routine) (t : Table) (o : Outcome) : Prop :=
  match o.zone with
  | none => o.table.busy = t.busy
  | some i => t.busy i = false ∧ o.table.busy = Function.update t.busy i true ∧ r.wants (t.zone i)

end Routine

section Routines

variable {r : Routine} {t : Table} {o : Outcome}

theorem Selects.acquiresReturned {P : ZoneId → Prop} (h : Selects P t o)
    (hP : ∀ i, P i → r.wants (t.zone i)) : r.AcquiresReturned t o := by
  unfold Routine.AcquiresReturned
  split
  · rename_i hnone
    exact h.busy_of_none hnone
  · rename_i i hi
    refine ⟨h.free i hi, ?_, hP _ (h.good i hi)⟩
    rw [h.busy, hi]
    rfl

theorem Table.Fitting.wanted {w : Placement} {min_capacity : Nat} {i : ZoneId}
    (h : t.Fitting w min_capacity i) : (t.zone i).isUsed = true ∧ (t.zone i).isFull = false := by
  have h := h.1
  simp only [IoZone.fits, Bool.and_eq_true, Bool.not_eq_true'] at h
  exact h.1

/-- Every routine acquires what it returns, and the routines for empty zones find one
whenever there is one. -/
theorem selection_acquires_returned {w : Placement} {file : FileInfo} {level : Int}
    {min_capacity bestDiff : Nat} (h : r.run w file level min_capacity bestDiff t = some o) :
    r.AcquiresReturned t o ∧ (r.allocatesEmpty = true → t.HasEmpty → o.zone.isSome) := by
  have hs : ({ table := t, level := level, bestDiff := bestDiff } : Search).Started t :=
    ⟨rfl, rfl, rfl, rfl, rfl⟩
  have hempty : SelectsEmpty t o → (∀ i, t.IsEmptyZone i → r.wants (t.zone i)) →
      r.AcquiresReturned t o ∧ (r.allocatesEmpty = true → t.HasEmpty → o.zone.isSome) := by
    intro hsel hwants
    exact ⟨hsel.1.acquiresReturned hwants, fun _ ↦ hsel.2⟩
  cases r with
  | policy p =>
      obtain ⟨s', hs', rfl⟩ := Option.map_eq_some_iff.mp h
      exact ⟨(matchPolicy_fits hs hs').acquiresReturned fun _ ↦ Table.Fitting.wanted, nofun⟩
  | bestOpenZoneMatch =>
      obtain ⟨s', hs', rfl⟩ := Option.map_eq_some_iff.mp h
      exact ⟨(getBestOpenZoneMatch_fits hs hs').acquiresReturned fun _ ↦
        Table.Fitting.wanted, nofun⟩
  | emptyZoneDefault =>
      obtain rfl := Option.some.inj h
      exact hempty allocateEmptyZoneDefault_selects fun _ ↦ And.right
  | emptyZoneSequential => exact hempty (allocateEmptyZoneSequential_selects h) fun _ ↦ And.right
  | emptyZoneLeastWear =>
      obtain rfl := Option.some.inj h
      exact hempty allocateEmptyZoneLeastWear_selects fun _ ↦ And.right
  | emptyZoneRandom =>
      obtain rfl := Option.some.inj h
      exact hempty allocateEmptyZoneRandom_selects fun _ ↦ And.right
  | emptyZoneHotnessBased =>
      exact hempty (allocateEmptyZoneHotnessBased_selects h) fun _ ↦ And.right
  | emptyZone => exact hempty (allocateEmptyZone_selects h) fun _ ↦ And.right

end Routines

/-- Two zones, the first of them partly written. -/
def halfWritten : Table where
  zoneSize := 64
  ioZones := [0, 1]
  zone := fun i ↦ if i = 0 then
    { start := 0, maxCapacity := 64, capacity := 32, wp := 32, usedCapacity := 32 }
    else { start := 64, maxCapacity := 64, capacity := 64, wp := 64, usedCapacity := 0 }
  busy := fun _ ↦ false

theorem selection_acquires_returned_lifetime :
    ∃ o, (Routine.policy .kLifetimeBased).run {} {} 0 16 0 halfWritten = some o ∧ o.zone = some 0 ∧
      (Routine.policy .kLifetimeBased).AcquiresReturned halfWritten o ∧
      ((Routine.policy .kLifetimeBased).allocatesEmpty = true → halfWritten.HasEmpty →
        o.zone.isSome) :=
  ⟨_, rfl, rfl, selection_acquires_returned (w := {}) rfl⟩

end Alloc

end ZenFs
