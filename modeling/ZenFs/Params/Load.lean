import ZenFs.Alloc.Basic
import ZenFs.Gc.Select
import ZenFs.Lib.Stream
import ZenFs.Lib.Words
import ZenFs.Params.Convert

/-!
# The parameter file

`LoadParamsFromFile` reads the file word by word and takes the words in pairs, a name and a
value.  Names that it does not know, and values out of range, are ignored; a value that is
no number is not.  `PrintStats` then prints what has been read.
-/

namespace ZenFs

namespace Params

open Alloc Gc

/-- `GCType`. -/
inductive GCType where
  | kDefaultGC
  | kImprovedGC
  | kUserDefinedGC
deriving DecidableEq, Repr

theorem gc_start_level_mem : 0 < 20 ∧ 20 < 100 := by decide

theorem gc_stop_level_mem : 0 < 25 ∧ 25 < 100 := by decide

theorem gc_slope_mem : 0 < 3 ∧ 3 < 100 := by decide

/-- `ZenfsParamContainer`, without `max_level`, which is no parameter.  The percentages of the
collector carry their range with them. -/
structure ZenfsParamContainer where
  nearestNewzoneThreshold : Double := .finite 0
  zoneFillThreshold : Double := Double.nearest (.finite (4 / 5))
  emptyZoneAllocator : EmptyZoneAllocType := .kDefault
  realCaza : UInt8 := 1
  realOaza : UInt8 := 1
  realZonekv : UInt8 := 1
  dynamicLevelAdjustment : UInt8 := 1
  zonesToOpen : List UInt8 := List.replicate 10 0
  averageValueSize : UInt64 := 4080
  minBoundary : UInt8 := 2
  maxBoundary : UInt8 := 6
  tombstoneDensity : Double := .finite (1 / 2)
  upperLevelPolicy : PlacementPolicyType := .kClusterTogether
  upperLevelPolicyFallback : PlacementPolicyType := .kClusterTogether
  lowerLevelPolicy : PlacementPolicyType := .kClusterTogether
  lowerLevelPolicyFallback : PlacementPolicyType := .kClusterTogether
  middleLevelPolicy : PlacementPolicyType := .kClusterTogether
  middleLevelPolicyFallback : PlacementPolicyType := .kClusterTogether
  fragmentationEnabled : UInt8 := 1
  gcType : GCType := .kDefaultGC
  gc : GcParams :=
    { startLevel_mem := gc_start_level_mem, stopLevel_mem := gc_stop_level_mem,
      slope_mem := gc_slope_mem }
  gcPauseSeconds : UInt64 := 10
  coldMigration : UInt8 := 0
  reserveZoneCount : UInt64 := 10
  bufferSizeMegabytes : UInt32 := 2
  bufferCountMax : UInt32 := 20
  logname : Text := "zarc_default.log".toList
  logZonestatsPlacementDelete : UInt8 := 1
  logZonestatsPlacementDeleteVerbose : UInt8 := 0

/-- The names that `LoadParamsFromFile` knows. -/
inductive Param where
  | logname
  | gc_type
  | empty_zone_allocator
  | upper_level_policy
  | upper_level_policy_fallback
  | lower_level_policy
  | lower_level_policy_fallback
  | middle_level_policy
  | middle_level_policy_fallback
  | average_value_size
  | tombstone_density
  | nearest_newzone_threshold
  | zone_fill_threshold
  | gc (type : GcParam)
  | reserve_zone_count
  | real_caza
  | real_oaza
  | real_zonekv
  | dynamic_level_adjustment
  | zones_to_open
  | min_boundary
  | max_boundary
  | fragmentation_enabled
  | gc_pause_seconds
  | cold_migration
  | buffer_size_megabytes
  | buffer_count_max
  | log_zonestats_placement_delete
  | log_zonestats_placement_delete_verbose
deriving DecidableEq, Repr

/-- The names as they stand in the file, in the order of the comparisons. -/
def paramNames : List (String × Param) :=
  [("logname", .logname), ("gc_type", .gc_type), ("empty_zone_allocator", .empty_zone_allocator),
    ("upper_level_policy", .upper_level_policy),
    ("upper_level_policy_fallback", .upper_level_policy_fallback),
    ("lower_level_policy", .lower_level_policy),
    ("lower_level_policy_fallback", .lower_level_policy_fallback),
    ("middle_level_policy", .middle_level_policy),
    ("middle_level_policy_fallback", .middle_level_policy_fallback),
    ("average_value_size", .average_value_size), ("tombstone_density", .tombstone_density),
    ("nearest_newzone_threshold", .nearest_newzone_threshold),
    ("zone_fill_threshold", .zone_fill_threshold),
    ("gc_start_level", .gc .gc_start_level), ("gc_stop_level", .gc .gc_stop_level),
    ("gc_slope", .gc .gc_slope),
    ("reserve_zone_count", .reserve_zone_count), ("real_caza", .real_caza),
    ("real_oaza", .real_oaza),
    ("real_zonekv", .real_zonekv), ("dynamic_level_adjustment", .dynamic_level_adjustment),
    ("zones_to_open", .zones_to_open), ("min_boundary", .min_boundary),
    ("max_boundary", .max_boundary),
    ("fragmentation_enabled", .fragmentation_enabled), ("gc_pause_seconds", .gc_pause_seconds),
    ("cold_migration", .cold_migration), ("buffer_size_megabytes", .buffer_size_megabytes),
    ("buffer_count_max", .buffer_count_max),
    ("log_zonestats_placement_delete", .log_zonestats_placement_delete),
    ("log_zonestats_placement_delete_verbose", .log_zonestats_placement_delete_verbose)]

/-- `empty_zone_allocator_map`. -/
def empty_zone_allocator_map : List (String × EmptyZoneAllocType) :=
  [("kDefault", .kDefault), ("kSequential", .kSequential), ("kRandom", .kRandom),
    ("kLeastWear", .kLeastWear),
    ("kHotnessBased", .kHotnessBased), ("kUserDefinedAlloc", .kUserDefinedAlloc)]

/-- `placement_policy_map`, in which `kPlazaBase` has two names. -/
def placement_policy_map : List (String × PlacementPolicyType) :=
  [("kLifetimeBased", .kLifetimeBased), ("kLeveledLifetimeBased", .kLeveledLifetimeBased),
    ("kCAZA", .kCAZA),
    ("kSameLevelNearbyKeys", .kPlazaBase), ("kPlazaBase", .kPlazaBase),
    ("KPlazaIntermediate", .kPlazaIntermediate),
    ("kPlazaAdvanced", .kPlazaAdvanced),
    ("kSameLevelNearbyKeysSimple", .kSameLevelNearbyKeysSimple),
    ("kArrivalTimeBased", .kArrivalTimeBased), ("kTombstoneDensity", .kTombstoneDensity),
    ("kTombstoneTTL", .kTombstoneTTL), ("kClusterTogether", .kClusterTogether),
    ("kOverlapChildren", .kOverlapChildren), ("kOverlapGrandchildren", .kOverlapGrandchildren),
    ("kCompensatedSize", .kCompensatedSize), ("kOAZA", .kOAZA),
    ("kUserDefinedPlacement", .kUserDefinedPlacement)]

/-- `gc_type_map`. -/
def gc_type_map : List (String × GCType) :=
  [("kDefaultGC", .kDefaultGC), ("kImprovedGC", .kImprovedGC), ("kUserDefinedGC", .kUserDefinedGC)]

/-- What stands under a name. -/
def find? {α : Type} (map : List (String × α)) (name : Text) : Option α :=
  (map.find? fun e ↦ e.1.toList == name).map Prod.snd

/-- The pieces between the commas, without the empty ones. -/
def pieces (value : Text) : List Text := Words.words (· == ',') value

/-- The loop over the pieces of `zones_to_open`. -/
def parseZonesToOpen : List Text → Except ConvError (List UInt8)
  | [] => .ok []
  | token :: tokens => do
      let value_int ← stoi token
      let parsed_zones_to_open ← parseZonesToOpen tokens
      return if 0 ≤ value_int ∧ value_int ≤ 255 then UInt8.ofInt value_int :: parsed_zones_to_open
        else parsed_zones_to_open

namespace ZenfsParamContainer

variable (p : ZenfsParamContainer)

/-- A number is converted, and stored if it is accepted. -/
def accept {α : Type} (value : Except ConvError α) (ok : α → Bool)
    (store : α → ZenfsParamContainer) : Except ConvError ZenfsParamContainer :=
  value.map fun x ↦ if ok x then store x else p

/-- The branch of `LoadParamsFromFile` for a parameter. -/
def set (value : Text) : Param → Except ConvError ZenfsParamContainer
  | .logname => .ok { p with logname := value }
  | .gc_type => .ok { p with gcType := (find? gc_type_map value).getD p.gcType }
  | .empty_zone_allocator =>
      .ok { p with
        emptyZoneAllocator := (find? empty_zone_allocator_map value).getD p.emptyZoneAllocator }
  | .upper_level_policy =>
      .ok { p with upperLevelPolicy := (find? placement_policy_map value).getD p.upperLevelPolicy }
  | .upper_level_policy_fallback =>
      .ok { p with
        upperLevelPolicyFallback :=
          (find? placement_policy_map value).getD p.upperLevelPolicyFallback }
  | .lower_level_policy =>
      .ok { p with lowerLevelPolicy := (find? placement_policy_map value).getD p.lowerLevelPolicy }
  | .lower_level_policy_fallback =>
      .ok { p with
        lowerLevelPolicyFallback :=
          (find? placement_policy_map value).getD p.lowerLevelPolicyFallback }
  | .middle_level_policy =>
      .ok { p with
        middleLevelPolicy := (find? placement_policy_map value).getD p.middleLevelPolicy }
  | .middle_level_policy_fallback =>
      .ok { p with
        middleLevelPolicyFallback :=
          (find? placement_policy_map value).getD p.middleLevelPolicyFallback }
  | .average_value_size =>
      p.accept (stoi value) (0 < ·) fun n ↦ { p with averageValueSize := UInt64.ofInt n }
  | .tombstone_density =>
      p.accept (stod value) (fun x ↦ x.ge 0 && x.le 1) fun x ↦ { p with tombstoneDensity := x }
  | .nearest_newzone_threshold =>
      p.accept (stod value) (·.ge 0) fun x ↦ { p with nearestNewzoneThreshold := x }
  | .zone_fill_threshold =>
      p.accept (stod value) (fun x ↦ x.ge 0 && x.le 1) fun x ↦ { p with zoneFillThreshold := x }
  | .gc type => (stoi value).map fun n ↦ { p with gc := p.gc.load type n }
  | .reserve_zone_count =>
      p.accept (stoi value) (fun n ↦ 0 ≤ n && n < 100) fun n ↦
        { p with reserveZoneCount := UInt64.ofInt n }
  | .real_caza => p.accept (stoi value) (fun n ↦ n = 0 || n = 1) fun n ↦ { p with
      realCaza := UInt8.ofInt n }
  | .real_oaza => p.accept (stoi value) (fun n ↦ n = 0 || n = 1) fun n ↦ { p with
      realOaza := UInt8.ofInt n }
  | .real_zonekv =>
      p.accept (stoi value) (fun n ↦ n = 0 || n = 1) fun n ↦ { p with realZonekv := UInt8.ofInt n }
  | .dynamic_level_adjustment =>
      (stoi value).map fun (n : Int) ↦ { p with dynamicLevelAdjustment := if n ≠ 0 then 1 else 0 }
  | .zones_to_open =>
      p.accept (parseZonesToOpen (pieces value)) (!·.isEmpty) fun zones ↦
        { p with zonesToOpen := zones }
  | .min_boundary =>
      p.accept (stoi value) (fun n ↦ 0 ≤ n && n < 100) fun n ↦
        { p with minBoundary := UInt8.ofInt n }
  | .max_boundary =>
      p.accept (stoi value) (fun n ↦ 0 ≤ n && n < 100) fun n ↦
        { p with maxBoundary := UInt8.ofInt n }
  | .fragmentation_enabled => (stoul value).map fun n ↦ { p with fragmentationEnabled := n.toUInt8 }
  | .gc_pause_seconds =>
      p.accept (stoi value) (fun n ↦ 0 < n && n < 1000) fun n ↦
        { p with gcPauseSeconds := UInt64.ofInt n }
  | .cold_migration => (stoi value).map fun n ↦ { p with coldMigration := UInt8.ofInt n }
  | .buffer_size_megabytes =>
      p.accept ((stoul value).map UInt64.toUInt32) (fun n ↦ 0 < n && n ≤ 1025) fun n ↦
        { p with bufferSizeMegabytes := n }
  | .buffer_count_max =>
      p.accept ((stoul value).map UInt64.toUInt32) (fun n ↦ 0 < n && n ≤ 100) fun n ↦
        { p with bufferCountMax := n }
  | .log_zonestats_placement_delete =>
      (stoul value).map fun n ↦ { p with logZonestatsPlacementDelete := n.toUInt32.toUInt8 }
  | .log_zonestats_placement_delete_verbose =>
      (stoul value).map fun n ↦ { p with logZonestatsPlacementDeleteVerbose := n.toUInt32.toUInt8 }

/-- The comparisons with the names; other pairs are ignored. -/
def load (e : Text × Text) (p : ZenfsParamContainer) : Except ConvError ZenfsParamContainer :=
  match find? paramNames e.1 with
  | none => .ok p
  | some type => p.set e.2 type

end ZenfsParamContainer

/-- `infile >> type >> value`. -/
def readEntry (infile : Text) : Option ((Text × Text) × Text) :=
  (Words.extract isSpace infile).bind fun (type, rest) ↦
    (Words.extract isSpace rest).map fun (value, rest) ↦ ((type, value), rest)

/-- The loop of `LoadParamsFromFile`: a pair of words is read, if there is one, and loaded. -/
def turn : Text → ZenfsParamContainer → Except ConvError (Option (ZenfsParamContainer × Text)) :=
  Stream.readThen readEntry ZenfsParamContainer.load

/-- The boundaries are put in order. -/
def ZenfsParamContainer.orderBoundaries (p : ZenfsParamContainer) : ZenfsParamContainer :=
  if p.maxBoundary ≤ p.minBoundary then { p with maxBoundary := p.minBoundary + 1 } else p

/-- `LoadParamsFromFile`, for the text of the file; there is none if it cannot be opened.  A
conversion that throws leaves what has been loaded before. -/
def loadParamsFromFile (p : ZenfsParamContainer) (infile : Text) :
    Except (ConvError × ZenfsParamContainer) ZenfsParamContainer :=
  (Stream.run turn infile p).map ZenfsParamContainer.orderBoundaries

/-- What is printed with a format. -/
inductive Arg where
  | nothing
  | string (s : Text)
  | number (n : Nat)
  | double (x : Double)
deriving DecidableEq, Repr

/-- `PrintStats`: the formats with what is printed.  There is no result where `zones_to_open`
is read behind its end. -/
def printStats (p : ZenfsParamContainer) : Option (List (String × Arg)) := do
  let zones_to_open ← (List.range 10).mapM fun i ↦
    (p.zonesToOpen[i]?).map fun zones ↦ (" %u", Arg.number zones.toNat)
  return [("UniZNS parameter initialization complete\n", .nothing),
      ("Log file name = %s\n", .string p.logname),
      ("gc_type = %d\n", .number p.gcType.ctorIdx),
      ("upper_level_policy = %d\n", .number p.upperLevelPolicy.ctorIdx),
      ("middle_level_policy = %d\n", .number p.middleLevelPolicy.ctorIdx),
      ("lower_level_policy = %d\n", .number p.lowerLevelPolicy.ctorIdx),
      ("GC start level = %lu\n", .number p.gc.gcStartLevel),
      ("GC stop level = %lu\n", .number p.gc.gcStopLevel),
      ("fragmentation = %u\n", .number p.fragmentationEnabled.toNat),
      ("nearest_newzone_threshold = %0.2lf\n", .double p.nearestNewzoneThreshold),
      ("zone_fill_threshold = %0.2lf\n", .double p.zoneFillThreshold),
      ("dynamic_level_adjustment = %u\n", .number p.dynamicLevelAdjustment.toNat),
      ("zones_to_open: ", .nothing)] ++ zones_to_open ++ [("\n", .nothing)]

end Params

end ZenFs
