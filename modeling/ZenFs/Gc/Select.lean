import ZenFs.Basic
import Mathlib.Data.List.Basic
import Mathlib.Algebra.Order.Ring.Int

/-!
# Selection of garbage zones

A pass of the garbage collector takes a snapshot of the zones and selects those whose
extents are moved.  `SelectGarbageZonesDefault` takes full zones with more garbage than a
threshold, which falls with the free space.  The arithmetic is that of 64-bit unsigned
numbers.
-/

namespace ZenFs

namespace Gc

/-- What is left of a number that is stored in a `uint64_t`. -/
def toUInt64 (n : Int) : Nat := (n % 2 ^ 64).toNat

theorem toUInt64_of_lt {n : Int} (h : 0 ≤ n) (h' : n < 2 ^ 64) : (toUInt64 n : Int) = n := by
  unfold toUInt64
  omega

/-- The fields of a `ZoneSnapshot` that the collector reads.  Its constructor divides by
`max_capacity`. -/
structure ZoneSnapshot where
  start : Nat
  capacity : Nat
  usedCapacity : Nat
  maxCapacity : Nat
  resetCount : Nat := 0
  maxCapacity_pos : 0 < maxCapacity := by decide
deriving DecidableEq, Repr

/-- The percentages that `LoadParamsFromFile` reads for the collector. -/
structure GcParams where
  gcStartLevel : Nat := 20
  gcStopLevel : Nat := 25
  gcSlope : Nat := 3
  startLevel_mem : 0 < gcStartLevel ∧ gcStartLevel < 100 := by decide
  stopLevel_mem : 0 < gcStopLevel ∧ gcStopLevel < 100 := by decide
  slope_mem : 0 < gcSlope ∧ gcSlope < 100 := by decide
deriving DecidableEq, Repr

/-- The names of the percentages in the file. -/
inductive GcParam where
  | gc_start_level
  | gc_stop_level
  | gc_slope
deriving DecidableEq, Repr

/-- The percentage that a value from the file stands for, if it is accepted. -/
def loadPercent (value_int : Int) : Option {n : Nat // 0 < n ∧ n < 100} :=
  if h : 0 < value_int ∧ value_int < 100 then some ⟨value_int.toNat, by omega⟩ else none

/-- The branches of `LoadParamsFromFile` for the percentages; other values are ignored. -/
def GcParams.load (p : GcParams) (type : GcParam) (value_int : Int) : GcParams :=
  match loadPercent value_int with
  | none => p
  | some ⟨n, hn⟩ =>
      match type with
      | .gc_start_level => { p with gcStartLevel := n, startLevel_mem := hn }
      | .gc_stop_level => { p with gcStopLevel := n, stopLevel_mem := hn }
      | .gc_slope => { p with gcSlope := n, slope_mem := hn }

section Default

variable (p : GcParams) (free_percent : Nat) (zones : List ZoneSnapshot)

/-- The threshold of `SelectGarbageZonesDefault`. -/
def threshold : Nat := toUInt64 (100 - p.gcSlope * (p.gcStartLevel - free_percent))

/-- `garbage_percent_approx`. -/
def ZoneSnapshot.garbagePercentApprox (zone : ZoneSnapshot) : Nat :=
  toUInt64 (100 - (toUInt64 (100 * zone.usedCapacity) / zone.maxCapacity : Nat))

/-- The test of `SelectGarbageZonesDefault`. -/
def isGarbageZone (zone : ZoneSnapshot) : Bool :=
  zone.capacity == 0 && decide (threshold p free_percent < zone.garbagePercentApprox) &&
    decide (zone.garbagePercentApprox < 100)

/-- `SelectGarbageZonesDefault`: the zones whose starts go to `migrate_zones_start`. -/
def selectGarbageZonesDefault : List ZoneSnapshot := zones.filter (isGarbageZone p free_percent)

/-- The threshold is the number that the formula stands for. -/
def Unwrapped : Prop :=
  (threshold p free_percent : Int) = 100 - p.gcSlope * (p.gcStartLevel - free_percent)

end Default

section Threshold

variable {p : GcParams} {free_percent f1 f2 : Nat} {zones : List ZoneSnapshot}

/-- The slope times the missing percentage has at most four digits. -/
theorem slope_mul_lt (p : GcParams) (h : free_percent ≤ p.gcStartLevel) :
    0 ≤ (p.gcSlope * (p.gcStartLevel - free_percent) : Int) ∧
      (p.gcSlope * (p.gcStartLevel - free_percent) : Int) < 10000 := by
  have hslope := p.slope_mem
  have hstart := p.startLevel_mem
  constructor
  · exact Int.mul_nonneg (by omega) (by omega)
  · calc (p.gcSlope * (p.gcStartLevel - free_percent) : Int)
        ≤ 99 * (p.gcStartLevel - free_percent) :=
        Int.mul_le_mul_of_nonneg_right (by omega) (by omega)
      _ < 10000 := by omega

theorem unwrapped_iff (h : free_percent ≤ p.gcStartLevel) :
    Unwrapped p free_percent ↔ p.gcSlope * (p.gcStartLevel - free_percent) ≤ 100 := by
  obtain ⟨hnonneg, hlt⟩ := slope_mul_lt p h
  have hcast : ((p.gcSlope * (p.gcStartLevel - free_percent) : Nat) : Int) =
      p.gcSlope * (p.gcStartLevel - free_percent) := by
    rw [Nat.cast_mul, Nat.cast_sub h]
  unfold Unwrapped threshold toUInt64
  generalize (p.gcSlope * (p.gcStartLevel - free_percent) : Int) = x at *
  omega

/-- A threshold that has wrapped is so high that nothing is selected. -/
theorem selectGarbageZonesDefault_of_wrapped (h : free_percent ≤ p.gcStartLevel)
    (hwrap : ¬ Unwrapped p free_percent) : selectGarbageZonesDefault p free_percent zones = [] := by
  have hhigh : 100 ≤ threshold p free_percent := by
    obtain ⟨hnonneg, hlt⟩ := slope_mul_lt p h
    unfold Unwrapped threshold toUInt64 at *
    generalize (p.gcSlope * (p.gcStartLevel - free_percent) : Int) = x at *
    omega
  refine List.filter_eq_nil_iff.mpr fun zone _ hsel ↦ ?_
  simp only [isGarbageZone, Bool.and_eq_true, decide_eq_true_eq] at hsel
  omega

/-- Less free space lowers the threshold. -/
theorem threshold_mono (hle : f1 ≤ f2) (hlevel : f2 ≤ p.gcStartLevel) (h1 : Unwrapped p f1) :
    threshold p f1 ≤ threshold p f2 := by
  have hmul : p.gcSlope * (p.gcStartLevel - f2) ≤ p.gcSlope * (p.gcStartLevel - f1) :=
    Nat.mul_le_mul_left _ (by omega)
  have h1' := (unwrapped_iff (hle.trans hlevel)).mp h1
  have h2 : Unwrapped p f2 := (unwrapped_iff hlevel).mpr (hmul.trans h1')
  have hcast : ∀ f ≤ p.gcStartLevel, (p.gcSlope * (p.gcStartLevel - f) : Int) =
      (p.gcSlope * (p.gcStartLevel - f) : Nat) := by
    intro f hf
    rw [Nat.cast_mul, Nat.cast_sub hf]
  unfold Unwrapped at h1 h2
  rw [hcast _ (hle.trans hlevel)] at h1
  rw [hcast _ hlevel] at h2
  omega

theorem selectGarbageZonesDefault_subset (hle : f1 ≤ f2) (hlevel : f2 ≤ p.gcStartLevel)
    (h1 : Unwrapped p f1) :
    ∀ zone ∈ selectGarbageZonesDefault p f2 zones, zone ∈ selectGarbageZonesDefault p f1 zones := by
  intro zone hzone
  have hmono := threshold_mono hle hlevel h1
  obtain ⟨hmem, hsel⟩ := List.mem_filter.mp hzone
  simp only [isGarbageZone, Bool.and_eq_true, decide_eq_true_eq] at hsel
  refine List.mem_filter.mpr ⟨hmem, ?_⟩
  simp only [isGarbageZone, Bool.and_eq_true, decide_eq_true_eq]
  exact ⟨⟨hsel.1.1, by omega⟩, hsel.2⟩

end Threshold

/-- What is selected with more free space is selected with less as well. -/
def SelectsAtLeast (p : GcParams) (zones : List ZoneSnapshot) (f1 f2 : Nat) : Prop :=
  ∀ zone ∈ selectGarbageZonesDefault p f2 zones, zone ∈ selectGarbageZonesDefault p f1 zones

/-- The threshold has not wrapped if the slope times the missing percentage is at most
100.  Where it has wrapped nothing is selected any more, so that less free space selects
fewer zones unless there are none to select. -/
theorem selectGarbageZonesDefault_mono_iff (p : GcParams) (zones : List ZoneSnapshot) (f1 f2 : Nat)
    (hle : f1 ≤ f2) (hlevel : f2 ≤ p.gcStartLevel) :
    ((SelectsAtLeast p zones f1 f2 ∧ Unwrapped p f1 ∧ Unwrapped p f2) ↔
        p.gcSlope * (p.gcStartLevel - f1) ≤ 100) ∧
      (SelectsAtLeast p zones f1 f2 ↔
        p.gcSlope * (p.gcStartLevel - f1) ≤ 100 ∨ selectGarbageZonesDefault p f2 zones = []) := by
  have h1 := unwrapped_iff (hle.trans hlevel)
  have h2 := unwrapped_iff hlevel
  have hmul : p.gcSlope * (p.gcStartLevel - f2) ≤ p.gcSlope * (p.gcStartLevel - f1) :=
    Nat.mul_le_mul_left _ (by omega)
  constructor
  · constructor
    · exact fun h ↦ h1.mp h.2.1
    · intro h
      exact ⟨selectGarbageZonesDefault_subset hle hlevel (h1.mpr h), h1.mpr h,
        h2.mpr (hmul.trans h)⟩
  · constructor
    · intro hsub
      by_cases hwrap : Unwrapped p f1
      · exact .inl (h1.mp hwrap)
      · refine .inr (List.eq_nil_iff_forall_not_mem.mpr fun zone hzone ↦ ?_)
        have hmem := hsub zone hzone
        rw [selectGarbageZonesDefault_of_wrapped (hle.trans hlevel) hwrap] at hmem
        cases hmem
    · rintro (h | hnil)
      · exact selectGarbageZonesDefault_subset hle hlevel (h1.mpr h)
      · intro zone hzone
        rw [hnil] at hzone
        cases hzone

/-- The zone with the most garbage is selected at 15 percent of free space, the other
one at 10 as well. -/
theorem selectGarbageZonesDefault_mono_iff_tenPercent :
    selectGarbageZonesDefault {} 15
    [⟨0, 0, 10, 100, 0, by decide⟩, ⟨100, 0, 20, 100, 0, by decide⟩] =
      [⟨0, 0, 10, 100, 0, by decide⟩] ∧
    (selectGarbageZonesDefault {} 10 [⟨0, 0, 10, 100, 0, by decide⟩,
      ⟨100, 0, 20, 100, 0, by decide⟩]).length = 2 ∧
    SelectsAtLeast {} [⟨0, 0, 10, 100, 0, by decide⟩, ⟨100, 0, 20, 100, 0, by decide⟩] 10 15 ∧
    Unwrapped {} 10 ∧ Unwrapped {} 15 :=
  ⟨by decide, by decide,
    (selectGarbageZonesDefault_mono_iff {} _ 10 15 (by decide) (by decide)).1.mpr (by decide)⟩

/-- With a slope of 10, a full zone with 60 percent of garbage is selected at 15 percent of
free space and not at 5. -/
theorem exists_fewer_selected :
    ¬ ∀ (p : GcParams) (zones : List ZoneSnapshot) (f1 f2 : Nat), f1 ≤ f2 → f2 ≤ p.gcStartLevel →
      SelectsAtLeast p zones f1 f2 ∧ Unwrapped p f1 ∧ Unwrapped p f2 := by
  intro h
  obtain ⟨hsub, -⟩ := h { gcSlope := 10 } [⟨0, 0, 40, 100, 0, by decide⟩] 5 15
    (by decide) (by decide)
  have hmem := hsub ⟨0, 0, 40, 100, 0, by decide⟩ (by decide)
  have hnone : selectGarbageZonesDefault { gcSlope := 10 } 5 [⟨0, 0, 40, 100, 0, by decide⟩] =
      [] := by decide
  rw [hnone] at hmem
  cases hmem

end Gc

end ZenFs
