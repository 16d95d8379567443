import ZenFs.Gc.Select
import ZenFs.Lib.WeakOrder
import Mathlib.Algebra.Order.Field.Rat
import Mathlib.Order.WithBot

/-!
# The order of the improved selection

`SelectGarbageZonesImproved` sorts the zones by the ratio of their used bytes to their
written bytes, and selects from the front.  The ratio of a zone that nothing has been
written to is not a number.
-/

namespace ZenFs

namespace Gc

namespace ZoneSnapshot

variable (zone a b : ZoneSnapshot)

/-- `total_a` and `total_b`: the bytes that have been written. -/
def written : Nat := toUInt64 (zone.maxCapacity - zone.capacity)

/-- `1.00 * used_capacity / total`, without rounding: `0 / 0` is not a number, and any other
number divided by zero is infinite. -/
def validRatio : Option (WithTop ℚ) :=
  if zone.written = 0 then (if zone.usedCapacity = 0 then none else some ⊤)
  else some ((zone.usedCapacity / zone.written : ℚ) : ℚ)

/-- The comparison that `SelectGarbageZonesImproved` passes to `std::sort`. -/
def lessValid : Bool :=
  match a.validRatio, b.validRatio with
  | some x, some y => decide (x < y)
  | _, _ => false

/-- Nothing is written to the zone, and nothing is used of it. -/
def isUnwritten : Bool := zone.written == 0 && zone.usedCapacity == 0

variable {zone a b}

theorem lessValid_iff : a.lessValid b = true ↔ WeakOrder.keyLt validRatio a b := by
  unfold lessValid WeakOrder.keyLt
  cases a.validRatio <;> cases b.validRatio <;> simp

theorem lessValid_eq_keyLt : (fun a b ↦ lessValid a b = true) = WeakOrder.keyLt validRatio := by
  funext a b
  exact propext lessValid_iff

theorem validRatio_eq_none_iff : zone.validRatio = none ↔ zone.isUnwritten = true := by
  unfold validRatio isUnwritten
  by_cases hwritten : zone.written = 0
  · by_cases hused : zone.usedCapacity = 0 <;> simp [hwritten, hused]
  · simp [hwritten]

end ZoneSnapshot

/-- What `std::sort` promises: if the comparison is a strict weak order on the zones, it
leaves them in that order. -/
def SortLeaves (zones sorted_snapshots : List ZoneSnapshot) : Prop :=
  WeakOrder.StrictWeakOn (fun a b ↦ ZoneSnapshot.lessValid a b = true) (· ∈ zones) →
    sorted_snapshots.Perm zones ∧
      WeakOrder.Ordered (fun a b ↦ ZoneSnapshot.lessValid a b = true) sorted_snapshots

/-- The comparison is a strict weak order on the zones, and the sort leaves them with
increasing ratios. -/
def SortsByRatio (zones : List ZoneSnapshot) : Prop :=
  WeakOrder.StrictWeakOn (fun a b ↦ ZoneSnapshot.lessValid a b = true) (· ∈ zones) ∧
    ∀ sorted_snapshots, SortLeaves zones sorted_snapshots → sorted_snapshots.Perm zones ∧
      sorted_snapshots.Pairwise fun a b ↦ ∀ x ∈ a.validRatio, ∀ y ∈ b.validRatio, x ≤ y

/-- The comparison is a strict weak order on zones that are all written to, or all equal. -/
theorem strictWeakOn_lessValid_iff {zones : List ZoneSnapshot} :
    WeakOrder.StrictWeakOn (fun a b ↦ ZoneSnapshot.lessValid a b = true) (· ∈ zones) ↔
      (∀ zone ∈ zones, zone.isUnwritten = false) ∨ ∀ a ∈ zones, ∀ b ∈ zones,
      a.lessValid b = false := by
  have hkeys : (∀ zone ∈ zones, zone.isUnwritten = false) ↔
      ∀ zone ∈ zones, zone.validRatio ≠ none := by
    refine forall₂_congr fun zone _ ↦ ?_
    rw [ne_eq, ZoneSnapshot.validRatio_eq_none_iff, Bool.not_eq_true]
  have hnone : (∀ a ∈ zones, ∀ b ∈ zones, a.lessValid b = false) ↔
      ∀ a b, a ∈ zones → b ∈ zones → ¬ WeakOrder.keyLt ZoneSnapshot.validRatio a b := by
    simp only [← ZoneSnapshot.lessValid_iff, Bool.not_eq_true]
    exact ⟨fun h a b ha hb ↦ h a ha b hb, fun h a ha b hb ↦ h a b ha hb⟩
  rw [hkeys, hnone, ZoneSnapshot.lessValid_eq_keyLt, WeakOrder.strictWeakOn_keyLt_iff]

/-- The comparison is valid unless a zone to which nothing is written meets two zones with
different ratios. -/
theorem sortsByRatio_iff (zones : List ZoneSnapshot) :
    SortsByRatio zones ↔
      (∀ zone ∈ zones, zone.isUnwritten = false) ∨ ∀ a ∈ zones, ∀ b ∈ zones,
      a.lessValid b = false := by
  rw [← strictWeakOn_lessValid_iff]
  unfold SortsByRatio SortLeaves
  rw [ZoneSnapshot.lessValid_eq_keyLt]
  constructor
  · exact And.left
  · intro h
    refine ⟨h, fun sorted_snapshots hleaves ↦ ?_⟩
    obtain ⟨hperm, hordered⟩ := hleaves h
    exact ⟨hperm, hordered.keys_le⟩

/-- An empty zone together with a zone half of whose bytes are valid and one with all of
them. -/
theorem exists_not_sortsByRatio : ¬ ∀ zones : List ZoneSnapshot, SortsByRatio zones := by
  intro h
  obtain ⟨hvalid, -⟩ := h [⟨0, 0, 50, 100, 0, by decide⟩, ⟨100, 100, 0, 100, 0, by decide⟩,
    ⟨200, 0, 100, 100, 0, by decide⟩]
  have hbetween := hvalid.incomp ⟨0, 0, 50, 100, 0, by decide⟩ ⟨100, 100, 0, 100, 0, by decide⟩
    ⟨200, 0, 100, 100, 0, by decide⟩ (by simp) (by simp) (by simp)
    (by decide +kernel) (by decide +kernel) (by decide +kernel) (by decide +kernel)
  exact hbetween.1 (by decide +kernel)

end Gc

end ZenFs
