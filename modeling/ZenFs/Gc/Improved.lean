import ZenFs.Gc.Order
import ZenFs.Levels.Label
import Mathlib.Data.Rat.Floor
import Mathlib.Data.List.Sort

/-!
# The improved selection

`SelectGarbageZonesImproved` wants to free as many zones as are missing to the stop level,
and takes them from the front of the sorted zones.  It passes over zones with more than
half of their capacity left, but not over zones without garbage.
-/

namespace ZenFs

namespace Gc

namespace ZoneSnapshot

variable (zone : ZoneSnapshot)

/-- The zone contains garbage: less of it is used than is written. -/
def hasGarbage : Bool := decide (zone.usedCapacity < zone.written)

/-- The zone is not passed over. -/
def isHalfWritten : Bool := !decide (1 / 2 < (zone.capacity / zone.maxCapacity : ℚ))

variable {zone} {a b : ZoneSnapshot}

theorem isHalfWritten_iff : zone.isHalfWritten = true ↔ 2 * zone.capacity ≤ zone.maxCapacity := by
  have hpos : (0 : ℚ) < zone.maxCapacity := Nat.cast_pos.mpr zone.maxCapacity_pos
  unfold isHalfWritten
  rw [Bool.not_eq_true', decide_eq_false_iff_not, not_lt, div_le_div_iff₀ hpos zero_lt_two,
    mul_comm, one_mul]
  exact_mod_cast Iff.rfl

theorem written_pos (h : zone.isHalfWritten = true) (hmax : zone.maxCapacity < 2 ^ 64) :
    0 < zone.written := by
  rw [isHalfWritten_iff] at h
  have hpos := zone.maxCapacity_pos
  unfold written toUInt64
  omega

/-- Among the zones that are not passed over, those with garbage have the lower ratios. -/
theorem hasGarbage_of_not_lessValid (ha : 0 < a.written) (hb : 0 < b.written)
    (hlt : b.lessValid a = false) (hgarbage : b.hasGarbage = true) : a.hasGarbage = true := by
  have hratio : ∀ {zone : ZoneSnapshot}, 0 < zone.written →
      zone.validRatio = some ((zone.usedCapacity / zone.written : ℚ) : ℚ) :=
    fun h ↦ if_neg (Nat.pos_iff_ne_zero.mp h)
  have hless : ∀ {zone : ZoneSnapshot}, 0 < zone.written →
      (zone.hasGarbage = true ↔ (zone.usedCapacity / zone.written : ℚ) < 1) := by
    intro zone h
    rw [div_lt_one (Nat.cast_pos.mpr h), Nat.cast_lt]
    exact decide_eq_true_iff
  unfold lessValid at hlt
  rw [hratio ha, hratio hb] at hlt
  have hle := not_lt.mp (of_decide_eq_false hlt)
  rw [hless ha]
  exact (WithTop.coe_le_coe.mp hle).trans_lt ((hless hb).mp hgarbage)

end ZoneSnapshot

section Default

variable {p : GcParams} {free_percent : Nat} {zone : ZoneSnapshot}

/-- The default selection takes full zones. -/
theorem isGarbageZone_capacity (h : isGarbageZone p free_percent zone = true) :
    zone.capacity = 0 := by
  simp only [isGarbageZone, Bool.and_eq_true, beq_iff_eq] at h
  exact h.1.1

/-- A percentage between the bounds has not wrapped. -/
theorem percent_lt {q : Nat} (hq : q < 2 ^ 64) (hlow : 0 < toUInt64 (100 - q))
    (hhigh : toUInt64 (100 - q) < 100) : q < 100 := by
  unfold toUInt64 at hlow hhigh
  omega

/-- They contain garbage, unless the percentage is computed from a product that has
wrapped. -/
theorem isGarbageZone_hasGarbage (h : isGarbageZone p free_percent zone = true)
    (hmax : zone.maxCapacity < 2 ^ 64)
    (hused : 100 * zone.usedCapacity < 2 ^ 64) : zone.hasGarbage = true := by
  have hcapacity := isGarbageZone_capacity h
  simp only [isGarbageZone, Bool.and_eq_true, decide_eq_true_eq] at h
  obtain ⟨⟨-, hlow⟩, hhigh⟩ := h
  have hproduct : toUInt64 (100 * zone.usedCapacity) = 100 * zone.usedCapacity := by
    have hcast := @toUInt64_of_lt (100 * zone.usedCapacity) (by omega) (by omega)
    omega
  have hwritten : zone.written = zone.maxCapacity := by
    have hcast := @toUInt64_of_lt (zone.maxCapacity - zone.capacity) (by omega) (by omega)
    unfold ZoneSnapshot.written
    omega
  have hquotient : 100 * zone.usedCapacity / zone.maxCapacity < 100 := by
    have hle : 100 * zone.usedCapacity / zone.maxCapacity ≤ 100 * zone.usedCapacity :=
      Nat.div_le_self _ _
    unfold ZoneSnapshot.garbagePercentApprox at hlow hhigh
    rw [hproduct] at hlow hhigh
    generalize 100 * zone.usedCapacity / zone.maxCapacity = q at hle hlow hhigh ⊢
    exact percent_lt (hle.trans_lt hused) (Nat.zero_lt_of_lt hlow) hhigh
  rw [Nat.div_lt_iff_lt_mul zone.maxCapacity_pos] at hquotient
  unfold ZoneSnapshot.hasGarbage
  rw [hwritten]
  exact decide_eq_true (by omega)

end Default

section Improved

variable (p : GcParams) (nr_zones free_percent : Nat)

/-- `free_target_percent`. -/
def freeTargetPercent : Int := toInt (p.gcStopLevel - free_percent)

/-- `free_target_zones`. -/
def freeTargetZones : Nat := ⌈(nr_zones * freeTargetPercent p free_percent / 100 : ℚ)⌉.toNat

/-- The loop over the sorted zones. -/
def takeZones (free_target_zones : Nat) : Nat → List ZoneSnapshot → List ZoneSnapshot
  | _, [] => []
  | reset_zone_count, zone :: zones =>
      if free_target_zones ≤ reset_zone_count then []
      else if 1 / 2 < (zone.capacity / zone.maxCapacity : ℚ) then
        takeZones free_target_zones reset_zone_count zones
      else zone :: takeZones free_target_zones (reset_zone_count + 1) zones

/-- `SelectGarbageZonesImproved`, behind the sort: the zones whose starts go to
`migrate_zones_start`. -/
def selectGarbageZonesImproved (sorted_snapshots : List ZoneSnapshot) : List ZoneSnapshot :=
  if freeTargetPercent p free_percent ≤ 0 then []
  else takeZones (freeTargetZones p nr_zones free_percent) 0 sorted_snapshots

/-- A sort with the comparison of the improved selection. -/
structure ZoneSort where
  run : List ZoneSnapshot → List ZoneSnapshot
  leaves : ∀ zones, SortLeaves zones (run zones)

/-- Sorting by insertion; a zone without a ratio goes to the end. -/
def ZoneSort.insertion : ZoneSort where
  run := List.insertionSort fun a b ↦ a.validRatio.getD ⊤ ≤ b.validRatio.getD ⊤
  leaves := by
    intro zones _
    have hkey : ∀ a b : ZoneSnapshot, a.validRatio.getD ⊤ ≤ b.validRatio.getD ⊤ →
        ¬ b.lessValid a = true := by
      intro a b hle hlt
      obtain ⟨x, hx, y, hy, hxy⟩ := ZoneSnapshot.lessValid_iff.mp hlt
      rw [Option.mem_def.mp hx, Option.mem_def.mp hy] at hle
      exact absurd hxy (not_lt.mpr hle)
    have : Std.Total fun a b : ZoneSnapshot ↦ a.validRatio.getD ⊤ ≤ b.validRatio.getD ⊤ :=
      ⟨fun _ _ ↦ le_total _ _⟩
    have : IsTrans ZoneSnapshot fun a b ↦ a.validRatio.getD ⊤ ≤ b.validRatio.getD ⊤ :=
      ⟨fun _ _ _ ↦ le_trans⟩
    exact ⟨List.perm_insertionSort _ zones, (List.pairwise_insertionSort _ zones).imp fun h ↦
      hkey _ _ h⟩

/-- On zones that the comparison does not order, a sort may do anything. -/
def ZoneSort.invalid {zones : List ZoneSnapshot} (sorted_snapshots : List ZoneSnapshot)
    (h : ¬ WeakOrder.StrictWeakOn (fun a b ↦ ZoneSnapshot.lessValid a b = true) (· ∈ zones)) :
    ZoneSort where
  run zones' := if zones' = zones then sorted_snapshots else ZoneSort.insertion.run zones'
  leaves := by
    intro zones'
    by_cases heq : zones' = zones
    · rw [heq]
      exact fun hvalid ↦ absurd hvalid h
    · rw [if_neg heq]
      exact ZoneSort.insertion.leaves zones'

theorem ZoneSort.invalid_run {zones sorted_snapshots : List ZoneSnapshot}
    (h : ¬ WeakOrder.StrictWeakOn (fun a b ↦ ZoneSnapshot.lessValid a b = true) (· ∈ zones)) :
    (ZoneSort.invalid sorted_snapshots h).run zones = sorted_snapshots := if_pos rfl

/-- A full zone, all of it valid. -/
def fullyValid : ZoneSnapshot where
  start := 0
  capacity := 0
  usedCapacity := 32
  maxCapacity := 32
  maxCapacity_pos := by decide

/-- There are as many zones with garbage as are wanted, or none without, and the sort puts
them in front. -/
def EnoughGarbage (zones : List ZoneSnapshot) : Prop :=
  freeTargetZones p nr_zones free_percent = 0 ∨
    ((∀ zone ∈ zones, zone.isUnwritten = false) ∨ ∀ a ∈ zones, ∀ b ∈ zones, a.lessValid b = false) ∧
      (freeTargetZones p nr_zones free_percent ≤
        zones.countP (fun zone ↦ zone.isHalfWritten && zone.hasGarbage) ∨
        ∀ zone ∈ zones, zone.isHalfWritten = true → zone.hasGarbage = true)

variable {p nr_zones free_percent} {zones : List ZoneSnapshot}

theorem takeZones_eq (n m : Nat) (zones : List ZoneSnapshot) :
    takeZones n m zones = (zones.filter ZoneSnapshot.isHalfWritten).take (n - m) := by
  induction zones generalizing m with
  | nil => simp [takeZones]
  | cons zone zones ih =>
      rw [takeZones]
      split
      · rename_i hle
        rw [Nat.sub_eq_zero_of_le hle, List.take_zero]
      rename_i hlt
      split
      · rename_i hpass
        rw [List.filter_cons_of_neg (by simpa [ZoneSnapshot.isHalfWritten] using hpass), ih]
      · rename_i hpass
        rw [List.filter_cons_of_pos (by simpa [ZoneSnapshot.isHalfWritten] using hpass), ih,
          show n - m = n - (m + 1) + 1 by omega, List.take_succ_cons]

theorem selectGarbageZonesImproved_eq (sorted_snapshots : List ZoneSnapshot) :
    selectGarbageZonesImproved p nr_zones free_percent sorted_snapshots =
      (sorted_snapshots.filter ZoneSnapshot.isHalfWritten).take
        (freeTargetZones p nr_zones free_percent) := by
  unfold selectGarbageZonesImproved
  rw [takeZones_eq, Nat.sub_zero]
  split
  · rename_i hle
    have hzero : freeTargetZones p nr_zones free_percent = 0 := by
      have hnum : (nr_zones * freeTargetPercent p free_percent / 100 : ℚ) ≤ 0 := by
        refine div_nonpos_of_nonpos_of_nonneg (mul_nonpos_of_nonneg_of_nonpos ?_ ?_) (by decide)
        · exact Nat.cast_nonneg _
        · exact Int.cast_nonpos.mpr hle
      exact Int.toNat_eq_zero.mpr (Int.ceil_le.mpr (by simpa using hnum))
    rw [hzero, List.take_zero]
  · rfl

/-- In the order that a sort leaves, the first zones contain garbage if there are enough
of them. -/
theorem improved_forall_iff (hmax : ∀ zone ∈ zones, zone.maxCapacity < 2 ^ 64)
    {sorted_snapshots : List ZoneSnapshot} (hperm : sorted_snapshots.Perm zones)
    (hordered : WeakOrder.Ordered (fun a b ↦ ZoneSnapshot.lessValid a b = true) sorted_snapshots) :
    (∀ zone ∈ selectGarbageZonesImproved p nr_zones free_percent sorted_snapshots,
      zone.hasGarbage = true) ↔
      freeTargetZones p nr_zones free_percent ≤
      zones.countP (fun zone ↦ zone.isHalfWritten && zone.hasGarbage) ∨
        ∀ zone ∈ zones, zone.isHalfWritten = true → zone.hasGarbage = true := by
  have hpair : (sorted_snapshots.filter ZoneSnapshot.isHalfWritten).Pairwise
      fun a b ↦ b.hasGarbage = true → a.hasGarbage = true := by
    refine List.Pairwise.imp_of_mem ?_ (List.Pairwise.filter _ hordered)
    intro a b ha hb hlt
    obtain ⟨ha, hahalf⟩ := List.mem_filter.mp ha
    obtain ⟨hb, hbhalf⟩ := List.mem_filter.mp hb
    exact ZoneSnapshot.hasGarbage_of_not_lessValid
      (ZoneSnapshot.written_pos hahalf (hmax a (hperm.mem_iff.mp ha)))
      (ZoneSnapshot.written_pos hbhalf (hmax b (hperm.mem_iff.mp hb))) (Bool.not_eq_true _ ▸ hlt)
  rw [selectGarbageZonesImproved_eq, WeakOrder.take_forall_iff hpair, List.countP_filter,
    hperm.countP_eq]
  refine or_congr ?_ ?_
  · simp only [Bool.and_comm]
  · simp only [List.mem_filter, and_imp, hperm.mem_iff]

/-- Whatever the sort leaves, the zones that are selected contain garbage: this needs
enough zones with garbage, and a comparison that can be sorted by. -/
theorem selectGarbageZonesImproved_garbage_iff (hmax : ∀ zone ∈ zones, zone.maxCapacity < 2 ^ 64) :
    (∀ sort : ZoneSort,
      ∀ zone ∈ selectGarbageZonesImproved p nr_zones free_percent (sort.run zones),
      zone.hasGarbage = true) ↔ EnoughGarbage p nr_zones free_percent zones := by
  unfold EnoughGarbage
  rw [← strictWeakOn_lessValid_iff]
  constructor
  · intro h
    by_cases hzero : freeTargetZones p nr_zones free_percent = 0
    · exact .inl hzero
    right
    have hvalid : WeakOrder.StrictWeakOn (fun a b ↦ ZoneSnapshot.lessValid a b = true)
        (· ∈ zones) := by
      by_contra hinvalid
      -- nothing is promised about the order, nor about what is in the list
      have hbad := h (.invalid [fullyValid] hinvalid) fullyValid
      rw [ZoneSort.invalid_run, selectGarbageZonesImproved_eq,
        List.filter_cons_of_pos (by decide +kernel),
        List.take_cons (Nat.pos_of_ne_zero hzero)] at hbad
      exact absurd (hbad List.mem_cons_self) (by decide)
    obtain ⟨hperm, hordered⟩ := ZoneSort.insertion.leaves zones hvalid
    exact ⟨hvalid, (improved_forall_iff hmax hperm hordered).mp (h _)⟩
  · rintro (hzero | ⟨hvalid, henough⟩) sort zone hzone
    · rw [selectGarbageZonesImproved_eq, hzero] at hzone
      cases hzone
    · obtain ⟨hperm, hordered⟩ := sort.leaves zones hvalid
      exact (improved_forall_iff hmax hperm hordered).mpr henough zone hzone

end Improved

end Gc

end ZenFs
