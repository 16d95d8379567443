import ZenFs.Alloc.Select
import ZenFs.Levels.Records

/-!
# Placement by bytes

`MatchCAZA` puts a file where most bytes of the files lie that it overlaps with.  For a
file of level 0 that overlaps with nothing it wants to look at the files of its own level
instead; the map of their bytes stays empty.  Bytes are summed in doubles, which are exact
as long as no zone holds more than `2 ^ 53` of them.
-/

namespace ZenFs

namespace Alloc

section Most

variable (t : Table) (min_capacity : Nat) (files : List RecordedFile)

/-- The bytes of some files in a zone. -/
def bytesIn (i : ZoneId) : Nat := getPerZoneContribution files (t.zone i).start

/-- A usable zone holds bytes of the files. -/
def HoldsAny : Prop := ∃ i ∈ t.ioZones, t.usable min_capacity i = true ∧ 0 < bytesIn t files i

/-- A usable zone that holds as many bytes of the files as any other. -/
def HoldsMost (i : ZoneId) : Prop :=
  i ∈ t.ioZones ∧ t.usable min_capacity i = true ∧
    ∀ j ∈ t.ioZones, t.usable min_capacity j = true → bytesIn t files j ≤ bytesIn t files i

variable {t min_capacity files}

theorem usable_iff_free {i : ZoneId} :
    t.usable min_capacity i = true ↔ t.busy i = false ∧ (t.zone i).fits min_capacity = true := by
  simp [Table.usable]

/-- `ChooseZoneWithHighestContrib` finds a zone with the highest contribution, if there is
one. -/
theorem chooseZoneWithHighestContrib_spec (t : Table) (min_capacity : Nat)
    (files : List RecordedFile) :
    (chooseZoneWithHighestContrib t min_capacity (getPerZoneContribution files)).stuck = none ∧
      (HoldsAny t min_capacity files → ∃ i,
        (chooseZoneWithHighestContrib t min_capacity (getPerZoneContribution files)).best = some i ∧
          HoldsMost t min_capacity files i) ∧
      (¬ HoldsAny t min_capacity files →
        (chooseZoneWithHighestContrib t min_capacity (getPerZoneContribution files)).best =
        none) := by
  generalize hr : chooseZoneWithHighestContrib t min_capacity (getPerZoneContribution files) = r
  have hends : TryLock.Ends (fun i ↦ i ∈ t.ioZones ∧ (t.zone i).fits min_capacity = true ∧
      0 < bytesIn t files i) t.busy r := by
    rw [← hr]
    refine TryLock.scan_none_ends fun i hi best score score' hp ↦ ?_
    split at hp
    · rename_i hfits
      dsimp only at hp
      split at hp
      · rename_i hlt
        exact ⟨hi, hfits, Nat.zero_lt_of_lt hlt⟩
      · cases hp
    · cases hp
  obtain ⟨-, hval, hnone, hmost⟩ := @TryLock.scan_most _ _ _ true id t.busy
    (fun i ↦ (t.zone i).fits min_capacity) (bytesIn t files) t.ioZones none 0 nofun nofun r hr.symm
  refine ⟨hends.stuck, fun ⟨j, hj, huse, hpos⟩ ↦ ?_, fun hno ↦ ?_⟩
  · rw [usable_iff_free] at huse
    have hj := hmost j hj huse.1 huse.2
    cases hi : r.best with
    | none =>
        have := hnone hi
        dsimp only [id] at hj
        omega
    | some i =>
        refine ⟨i, rfl, (hends.good i hi).1,
          usable_iff_free.mpr ⟨hends.free i hi, (hends.good i hi).2.1⟩, fun k hk huk ↦ ?_⟩
        rw [hval i hi]
        rw [usable_iff_free] at huk
        exact hmost k hk huk.1 huk.2
  · cases hi : r.best with
    | none => rfl
    | some i =>
        have h := hends.good i hi
        exact absurd ⟨i, h.1, usable_iff_free.mpr ⟨hends.free i hi, h.2.1⟩, h.2.2⟩ hno

end Most

section Caza

variable {K : Type} (t : Records K) (r : Ref) (recorded : Ref → RecordedFile) (w : Placement)

/-- The placement of a file among those that are recorded. -/
def placementOf : Placement :=
  { w with
    overlappingFiles := fun level ↦ (t.getOverlappingFiles r level).map recorded
    sameLevelFiles := fun _ level ↦ (t.getSameLevelFiles level).map recorded }

/-- The level is placed by `kCAZA`. -/
def usesCAZA (level : Int) : Bool :=
  decide (getPolicy w level = .kCAZA) || decide (getSecondaryPolicy w level = .kCAZA)

/-- `overlapping_files` of `MatchCAZA`: the files of the levels around that of the file. -/
def overlappingCAZA (level : Int) : List RecordedFile :=
  (if usesCAZA w (level - 1) then (t.getOverlappingFiles r (level - 1)).map recorded else []) ++
    (if usesCAZA w (level + 1) then (t.getOverlappingFiles r (level + 1)).map recorded else [])

/-- `l0_files` of `MatchCAZA`. -/
def l0Files : List RecordedFile := (t.getSameLevelFiles 0).map recorded

/-- The zone has the most bytes of the overlapping files or, for a file of level 0 where
there are none, the most bytes of that level. -/
def PlacesByBytes (table : Table) (min_capacity : Nat) (level : Int) (zone_out : Option ZoneId) :
    Prop :=
  (HoldsAny table min_capacity (overlappingCAZA t r recorded w level) →
      ∃ i, zone_out = some i ∧
      HoldsMost table min_capacity (overlappingCAZA t r recorded w level) i) ∧
    (level = 0 → ¬ HoldsAny table min_capacity (overlappingCAZA t r recorded w level) →
      HoldsAny table min_capacity (l0Files t recorded) →
      ∃ i, zone_out = some i ∧ HoldsMost table min_capacity (l0Files t recorded) i)

variable {t r recorded w}

theorem not_holdsAny_nil (table : Table) (min_capacity : Nat) :
    ¬ HoldsAny table min_capacity [] := by
  rintro ⟨i, -, -, hpos⟩
  cases hpos

/-- The second loop has no contributions to go by. -/
theorem chooseZoneWithHighestContrib_zero (table : Table) (min_capacity : Nat) :
    (chooseZoneWithHighestContrib table min_capacity fun _ ↦ 0).stuck = none ∧
      (chooseZoneWithHighestContrib table min_capacity fun _ ↦ 0).best = none := by
  obtain ⟨hstuck, -, hnone⟩ := chooseZoneWithHighestContrib_spec table min_capacity []
  exact ⟨hstuck, hnone (not_holdsAny_nil table min_capacity)⟩

/-- The zone that `MatchCAZA` returns. -/
theorem matchCAZA_zoneOut (s : Search) (min_capacity : Nat) (hout : s.zoneOut = none)
    (hstatus : s.status = .ok) :
    (matchCAZA (placementOf t r recorded w) min_capacity s).status = .ok ∧
      (HoldsAny s.table min_capacity (overlappingCAZA t r recorded w s.level) → ∃ i,
        (matchCAZA (placementOf t r recorded w) min_capacity s).zoneOut = some i ∧
          HoldsMost s.table min_capacity (overlappingCAZA t r recorded w s.level) i) ∧
      (¬ HoldsAny s.table min_capacity (overlappingCAZA t r recorded w s.level) →
        (matchCAZA (placementOf t r recorded w) min_capacity s).zoneOut = none) := by
  have hfiles : matchCAZA (placementOf t r recorded w) min_capacity s =
      if overlappingCAZA t r recorded w s.level = [] ∧ 0 < s.level then s.unfit
      else
        let r' := chooseZoneWithHighestContrib s.table min_capacity
          (getPerZoneContribution (overlappingCAZA t r recorded w s.level))
        if r'.stuck = none ∧ r'.best = none ∧ s.level = 0 then
          let s := { s with table := { s.table with busy := r'.flags } }
          s.place (chooseZoneWithHighestContrib s.table min_capacity fun _ ↦ 0) fun _ ↦ 0
        else s.place r' fun _ ↦ 0 := rfl
  rw [hfiles]
  generalize overlappingCAZA t r recorded w s.level = files
  obtain ⟨hstuck, hsome, hnone⟩ := chooseZoneWithHighestContrib_spec s.table min_capacity files
  dsimp only
  generalize chooseZoneWithHighestContrib s.table min_capacity (getPerZoneContribution files) =
    r' at hstuck hsome hnone
  split
  · rename_i hempty
    rw [hempty.1]
    exact ⟨hstatus, fun h ↦ absurd h (not_holdsAny_nil _ _), fun _ ↦ hout⟩
  split
  · rename_i hsecond
    obtain ⟨hstuck', hnone'⟩ := chooseZoneWithHighestContrib_zero { s.table with busy := r'.flags }
      min_capacity
    unfold Search.place Search.andThen
    rw [hstuck']
    dsimp only
    rw [hnone']
    refine ⟨hstatus, fun h ↦ ?_, fun _ ↦ hout⟩
    obtain ⟨i, hi, -⟩ := hsome h
    rw [hsecond.2.1] at hi
    cases hi
  · unfold Search.place Search.andThen
    rw [hstuck]
    dsimp only
    by_cases hany : HoldsAny s.table min_capacity files
    · obtain ⟨i, hi, hmost⟩ := hsome hany
      rw [hi]
      exact ⟨hstatus, fun _ ↦ ⟨i, rfl, hmost⟩, fun h ↦ absurd hany h⟩
    · rw [hnone hany]
      exact ⟨hstatus, fun h ↦ absurd h hany, fun _ ↦ hout⟩

/-- `MatchCAZA` places by bytes, except for files of level 0 for which only the bytes of
their own level could tell. -/
theorem matchCAZA_byBytes_iff (t : Records K) (r : Ref) (recorded : Ref → RecordedFile)
    (w : Placement) (s : Search) (min_capacity : Nat) (hout : s.zoneOut = none)
    (hstatus : s.status = .ok) :
    (matchCAZA (placementOf t r recorded w) min_capacity s).status = .ok ∧
      (PlacesByBytes t r recorded w s.table min_capacity s.level
          (matchCAZA (placementOf t r recorded w) min_capacity s).zoneOut ↔
        s.level ≠ 0 ∨ HoldsAny s.table min_capacity (overlappingCAZA t r recorded w s.level) ∨
          ¬ HoldsAny s.table min_capacity (l0Files t recorded)) := by
  obtain ⟨hok, hsome, hnone⟩ := @matchCAZA_zoneOut _ t r recorded w s min_capacity hout hstatus
  refine ⟨hok, ?_⟩
  constructor
  · rintro ⟨-, hzero⟩
    by_contra hnot
    rw [not_or, not_or, not_not, not_not] at hnot
    obtain ⟨hlevel, hno, hl0⟩ := hnot
    obtain ⟨i, hi, -⟩ := hzero hlevel hno hl0
    rw [hnone hno] at hi
    cases hi
  · rintro (hlevel | hany | hl0)
    · exact ⟨hsome, fun h ↦ absurd h hlevel⟩
    · exact ⟨hsome, fun _ h ↦ absurd hany h⟩
    · exact ⟨hsome, fun _ _ h ↦ absurd h hl0⟩

end Caza

/-- A file of level 0 has been recorded, and file 0 is to be placed on the same level. -/
def oneOnLevelZero : Records Nat :=
  { Records.init Records.natOrder with
    files := fun _ ↦ { level := 0, ioType := .kData, hasKeys := true, smallest := 5, largest := 5 }
    lists := [[1]] }

/-- The recorded file lies in zone 0 of `halfWritten`. -/
def inZoneZero : Ref → RecordedFile := fun _ ↦ ⟨[(0, 32)], 0⟩

theorem matchCAZA_byBytes_iff_levelZero :
    (matchCAZA (placementOf oneOnLevelZero 0 inZoneZero {}) 16
      { table := halfWritten, level := 0 }).status = .ok ∧
      (PlacesByBytes oneOnLevelZero 0 inZoneZero {} halfWritten 16 0
          (matchCAZA (placementOf oneOnLevelZero 0 inZoneZero {}) 16
            { table := halfWritten, level := 0 }).zoneOut ↔
        (0 : Int) ≠ 0 ∨ HoldsAny halfWritten 16 (overlappingCAZA oneOnLevelZero 0 inZoneZero {} 0) ∨
          ¬ HoldsAny halfWritten 16 (l0Files oneOnLevelZero inZoneZero)) :=
  matchCAZA_byBytes_iff oneOnLevelZero 0 inZoneZero {} { table := halfWritten, level := 0 }
    16 rfl rfl

/-- Nothing overlaps on level 1, and the zone with the file of level 0 is not found. -/
theorem exists_levelZero_overlooked :
    ¬ ∀ (t : Records Nat) (r : Ref) (recorded : Ref → RecordedFile) (w : Placement) (s : Search)
    (min_capacity : Nat),
      s.zoneOut = none → s.status = .ok → s.level = (t.files r).level →
      PlacesByBytes t r recorded w s.table min_capacity s.level
        (matchCAZA (placementOf t r recorded w) min_capacity s).zoneOut := by
  intro h
  obtain ⟨-, hzero⟩ := h oneOnLevelZero 0 inZoneZero {} { table := halfWritten, level := 0 }
    16 rfl rfl rfl
  obtain ⟨i, hi, -⟩ := hzero rfl
    (by
      rintro ⟨i, -, -, hpos⟩
      cases hpos)
    ⟨0, by decide, by decide, by decide⟩
  have hnone : (matchCAZA (placementOf oneOnLevelZero 0 inZoneZero {}) 16
      { table := halfWritten, level := 0 }).zoneOut = none := rfl
  rw [hnone] at hi
  cases hi

end Alloc

end ZenFs
