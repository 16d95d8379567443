import ZenFs.Basic
import ZenFs.Lib.TryLock
import Mathlib.Data.List.Rotate

/-!
# The zone table of the allocator, and empty zones

What zone selection sees of a `ZonedBlockDevice`: the IO zones with their busy
flags, the tunable parameters, and what the recorded files tell.  The five
`AllocateEmptyZone` routines are here; the placement policies follow in
`Alloc/Match.lean`.
-/

namespace ZenFs

namespace Alloc

/-- `PlacementPolicyType`. -/
inductive PlacementPolicyType where
  | kLifetimeBased
  | kLeveledLifetimeBased
  | kCAZA
  | kPlazaBase
  | kPlazaIntermediate
  | kPlazaAdvanced
  | kSameLevelNearbyKeysSimple
  | kArrivalTimeBased
  | kTombstoneDensity
  | kTombstoneTTL
  | kClusterTogether
  | kOverlapChildren
  | kOverlapGrandchildren
  | kCompensatedSize
  | kOAZA
  | kUserDefinedPlacement
deriving DecidableEq, Repr, Inhabited

/-- `EmptyZoneAllocType`. -/
inductive EmptyZoneAllocType where
  | kDefault
  | kSequential
  | kRandom
  | kLeastWear
  | kHotnessBased
  | kUserDefinedAlloc
deriving DecidableEq, Repr, Inhabited

/-- `Env::WriteLifeTimeHint`. -/
inductive WriteLifeTimeHint where
  | WLTH_NOT_SET
  | WLTH_NONE
  | WLTH_SHORT
  | WLTH_MEDIUM
  | WLTH_LONG
  | WLTH_EXTREME
deriving DecidableEq, Repr, Inhabited

/-- The number behind a hint. -/
def WriteLifeTimeHint.toNat : WriteLifeTimeHint → Nat
  | WLTH_NOT_SET => 0
  | WLTH_NONE => 1
  | WLTH_SHORT => 2
  | WLTH_MEDIUM => 3
  | WLTH_LONG => 4
  | WLTH_EXTREME => 5

/-- The fields of a `Zone` that selection reads or sets, without `busy_`. -/
structure IoZone where
  start : Nat
  maxCapacity : Nat
  capacity : Nat
  wp : Nat
  usedCapacity : Nat
  lifetime : WriteLifeTimeHint := .WLTH_NOT_SET
  level : Int := -1
  policy : PlacementPolicyType := .kLifetimeBased
  resetCount : Nat := 0
deriving DecidableEq, Repr, Inhabited

namespace IoZone

/-- `Zone::IsUsed`. -/
def isUsed (z : IoZone) : Bool := decide (0 < z.usedCapacity)

/-- `Zone::IsFull`. -/
def isFull (z : IoZone) : Bool := z.capacity == 0

/-- `Zone::IsEmpty`. -/
def isEmpty (z : IoZone) : Bool := z.wp == z.start

end IoZone

/-- The zones and their busy flags, `zenfs_parameters_.max_level`, and the static
variable `zone_pos` of `AllocateEmptyZoneSequential`. -/
structure Table where
  zoneSize : Nat
  zoneSize_pos : 0 < zoneSize := by decide
  ioZones : List ZoneId
  zone : ZoneId → IoZone
  busy : ZoneId → Bool
  maxLevel : Nat := 1
  zonePos : Nat := 0

/-- The status of a `CheckRelease` that found the flag of a zone cleared. -/
def Table.notReleased (t : Table) (i : ZoneId) : Status :=
  .corruption s!"Failed to unset busy flag of zone {(t.zone i).start / t.zoneSize}"

/-- A file that `levelwise_file_list_` holds: where its extents lie and how long they
are, and its rank. -/
structure RecordedFile where
  extents : List (Nat × Nat)
  rank : Nat := 0
deriving DecidableEq, Repr

/-- The parameters of the filesystem, and what a policy makes of the recorded files for
the file that is placed.  What floating point, random numbers or key comparisons decide
is left open: `hotRange` are the two indices that `AllocateEmptyZoneHotnessBased`
computes, `weighted` are the contribution maps of zone starts, `tooFar` tells where
`nearest_newzone_threshold` asks for another zone, and `zoneDiffs` is the map of
`MatchPlazaAdvanced`.  `rankable` tells that ranking divides by no zero.  `pointer` is
`zone_start_to_pointer_map_`, which may hold null. -/
structure Placement where
  emptyZoneAllocator : EmptyZoneAllocType := .kDefault
  reserveZoneCount : Nat := 10
  realCaza : Bool := true
  realOaza : Bool := true
  minBoundary : Int := 2
  maxBoundary : Int := 6
  upperLevelPolicy : PlacementPolicyType := .kClusterTogether
  upperLevelPolicyFallback : PlacementPolicyType := .kClusterTogether
  lowerLevelPolicy : PlacementPolicyType := .kClusterTogether
  lowerLevelPolicyFallback : PlacementPolicyType := .kClusterTogether
  middleLevelPolicy : PlacementPolicyType := .kClusterTogether
  middleLevelPolicyFallback : PlacementPolicyType := .kClusterTogether
  levels : Nat := 10
  overlappingFiles : Int → List RecordedFile := fun _ ↦ []
  overlapFileCount : Int → Nat := fun _ ↦ 0
  sameLevelFiles : PlacementPolicyType → Int → List RecordedFile := fun _ _ ↦ []
  sameLevelIndex : PlacementPolicyType → Int → Nat := fun _ _ ↦ 0
  fileRank : Nat := 0
  weighted : PlacementPolicyType → Int → Nat → Nat := fun _ _ _ ↦ 0
  tooFar : PlacementPolicyType → ZoneId → Bool := fun _ _ ↦ false
  zoneDiffs : List (Option ZoneId × Nat) := []
  rankable : PlacementPolicyType → Int → Bool := fun _ _ ↦ true
  isHighTombstone : Bool := false
  isNumericKey : Bool := false
  pointer : Nat → Option (Option ZoneId) := fun _ ↦ none
  hotRange : Nat → Int → Nat → Int × Int := fun _ _ _ ↦ (0, 0)
  shuffle : List ZoneId → List ZoneId := id
  sortByWear : (ZoneId → Nat) → List ZoneId → List ZoneId := fun _ ↦ id
  shuffle_perm : ∀ zs, (shuffle zs).Perm zs := by intro zs; exact .refl zs
  sortByWear_perm : ∀ f zs, (sortByWear f zs).Perm zs := by intro f zs; exact .refl zs

/-- What a routine returns: the zone through its `zone_out`, and the status. -/
structure Outcome where
  table : Table
  zone : Option ZoneId
  status : Status

namespace Table

variable (t : Table) (out : Option ZoneId)

/-- The end of a routine: the zone is handed out unless a zone could not be released. -/
def conclude {σ : Type} (r : TryLock.Result ZoneId σ) : Outcome :=
  match r.stuck with
  | none => { table := { t with busy := r.flags }, zone := r.best, status := .ok }
  | some i => { table := { t with busy := r.flags }, zone := out, status := t.notReleased i }

/-- The loop for the first empty zone of a list. -/
def firstEmpty (zs : List ZoneId) : TryLock.Result ZoneId Nat :=
  TryLock.first (fun i ↦ (t.zone i).isEmpty) zs t.busy 0

/-- `AllocateEmptyZoneDefault`. -/
def allocateEmptyZoneDefault : Outcome := t.conclude out (t.firstEmpty t.ioZones)

/-- `AllocateEmptyZoneSequential`, which goes on where the last call stopped.  A
position that is not in `io_zones` is a fault. -/
def allocateEmptyZoneSequential : Option Outcome :=
  if t.ioZones ≠ [] ∧ t.ioZones.length ≤ t.zonePos then none
  else
    let r := t.firstEmpty (t.ioZones.rotate t.zonePos)
    let traversed := if r.best.isSome || r.stuck.isSome then r.score + 1 else r.score
    some ({ t with zonePos := (t.zonePos + traversed) % t.ioZones.length }.conclude out r)

/-- `AllocateEmptyZoneLeastWear`: the last zone among those with the fewest resets. -/
def allocateEmptyZoneLeastWear : Outcome :=
  t.conclude out <| TryLock.scan false id (fun allocated _ z ↦
    if (t.zone z).isEmpty then
      match allocated with
      | none => some ()
      | some a => if (t.zone a).resetCount < (t.zone z).resetCount then none else some ()
    else none) t.ioZones t.busy none ()

variable (w : Placement)

/-- `AllocateEmptyZoneRandom`. -/
def allocateEmptyZoneRandom : Outcome := t.conclude out (t.firstEmpty (w.shuffle t.ioZones))

/-- The end of `AllocateEmptyZoneHotnessBased` with a zone below and a zone above the
interval; the one that is farther away is released. -/
def chooseCloser (lower_alloc upper_alloc : ZoneId) (lower_diff upper_diff : Nat) : Outcome :=
  if lower_diff < upper_diff then
    { table := { t with busy := (TryLock.release t.busy upper_alloc).1 }, zone := some lower_alloc,
      status := .ok }
  else
    { table := { t with busy := (TryLock.release t.busy lower_alloc).1 }, zone := some upper_alloc,
      status := .ok }

/-- `AllocateEmptyZoneHotnessBased` outside of the interval: the first empty zone behind
it and the first in front of it, or any zone.  An interval that begins behind the zones
is read out of bounds. -/
def allocateOutside (behind before : List ZoneId) (inBounds : Bool) : Option Outcome :=
  let above := t.firstEmpty behind
  if above.stuck.isSome then some (t.conclude out above)
  else if !inBounds then none
  else
    let t := { t with busy := above.flags }
    let below := t.firstEmpty before
    if below.stuck.isSome then some (t.conclude out below)
    else
      let t := { t with busy := below.flags }
      match below.best, above.best with
      | none, none => some (t.allocateEmptyZoneDefault out)
      | none, some u => some { table := t, zone := some u, status := .ok }
      | some l, none => some { table := t, zone := some l, status := .ok }
      | some l, some u => some (t.chooseCloser l u (below.score + 1) above.score)

/-- `AllocateEmptyZoneHotnessBased`: the interval of the level first, then the zones
around it.  Without levels the interval is infinite. -/
def allocateEmptyZoneHotnessBased (level : Int) : Option Outcome :=
  if level ≤ 0 then some (t.allocateEmptyZoneLeastWear out)
  else if t.maxLevel = 0 then none
  else
    let sorted := w.sortByWear (fun i ↦ (t.zone i).resetCount) t.ioZones
    let range := w.hotRange t.maxLevel level sorted.length
    let lower_index := (max range.1 0).toNat
    let upper_index := min range.2 sorted.length
    let r := t.firstEmpty ((sorted.take upper_index.toNat).drop lower_index)
    if r.stuck.isSome || r.best.isSome then some (t.conclude out r)
    else
      { t with busy := r.flags }.allocateOutside out
        (if upper_index < 0 then [] else sorted.drop upper_index.toNat)
        (sorted.take lower_index).reverse (decide (lower_index ≤ sorted.length))

/-- `AllocateEmptyZone`. -/
def allocateEmptyZone (level : Int) : Option Outcome :=
  let t := if 0 < level ∧ (t.maxLevel : Int) < level then
    { t with maxLevel := (level % 256).toNat } else t
  match w.emptyZoneAllocator with
  | .kDefault => some (t.allocateEmptyZoneDefault out)
  | .kSequential => t.allocateEmptyZoneSequential out
  | .kRandom => some (t.allocateEmptyZoneRandom out w)
  | .kLeastWear => some (t.allocateEmptyZoneLeastWear out)
  | .kHotnessBased => t.allocateEmptyZoneHotnessBased out w level
  | .kUserDefinedAlloc => t.allocateEmptyZoneSequential out

end Table

end Alloc

end ZenFs
