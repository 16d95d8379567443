import ZenFs.Alloc.Basic

/-!
# Placement policies

The `Match` functions and the chain in `GetBestOpenZoneMatch`.  All their loops
try zones, look whether the zone is used, not full and large enough, and compare
it with the candidate by a score of their own.
-/

namespace ZenFs

namespace Alloc

/-- `LIFETIME_DIFF_NOT_GOOD`. -/
def LIFETIME_DIFF_NOT_GOOD : Nat := 100

/-- `LIFETIME_DIFF_COULD_BE_WORSE`. -/
def LIFETIME_DIFF_COULD_BE_WORSE : Nat := 50

/-- `IOType`. -/
inductive IOType where
  | kData
  | kFilter
  | kIndex
  | kMetadata
  | kWAL
  | kManifest
  | kLog
  | kUnknown
  | kInvalid
deriving DecidableEq, Repr, Inhabited

/-- What selection reads of the `ZoneFile` that asks for a zone, but for `level_`. -/
structure FileInfo where
  hasKeys : Bool := true
  ioType : IOType := .kData
  lifetime : WriteLifeTimeHint := .WLTH_NOT_SET
deriving DecidableEq, Repr, Inhabited

/-- `GetLifeTimeDiff`. -/
def getLifeTimeDiff (zone_lifetime file_lifetime : WriteLifeTimeHint) : Nat :=
  if file_lifetime = .WLTH_NOT_SET ∨ file_lifetime = .WLTH_NONE then
    if file_lifetime = zone_lifetime then 0 else LIFETIME_DIFF_NOT_GOOD
  else if file_lifetime.toNat < zone_lifetime.toNat then zone_lifetime.toNat - file_lifetime.toNat
  else if zone_lifetime = file_lifetime then LIFETIME_DIFF_COULD_BE_WORSE
  else LIFETIME_DIFF_NOT_GOOD

/-- No difference is greater than the one that stands for no match. -/
theorem getLifeTimeDiff_le (zone_lifetime file_lifetime : WriteLifeTimeHint) :
    getLifeTimeDiff zone_lifetime file_lifetime ≤ LIFETIME_DIFF_NOT_GOOD := by
  cases zone_lifetime <;> cases file_lifetime <;> decide

/-- What a policy leaves: the zones, `zone_out`, `best_diff_out`, the level of the file,
which some policies raise, and the status. -/
structure Search where
  table : Table
  zoneOut : Option ZoneId := none
  bestDiff : Nat := LIFETIME_DIFF_NOT_GOOD
  level : Int
  status : Status := .ok

/-- The test of all policies. -/
def IoZone.fits (min_capacity : Nat) (z : IoZone) : Bool :=
  z.isUsed && !z.isFull && decide (min_capacity ≤ z.capacity)

/-- The zone is not busy and passes the test. -/
def Table.usable (t : Table) (min_capacity : Nat) (i : ZoneId) : Bool :=
  !t.busy i && (t.zone i).fits min_capacity

/-- The loop of the policies over some items, each of which names a zone. -/
def Table.best {α σ : Type} (t : Table) (min_capacity : Nat) (key : α → ZoneId)
    (better : σ → α → Option σ) (items : List α) (score : σ) : TryLock.Result ZoneId σ :=
  TryLock.scan true key
    (fun _ score a ↦ if (t.zone (key a)).fits min_capacity then better score a else none)
    items t.busy none score

namespace Search

variable (s : Search)

/-- Behind a loop: a zone that could not be released ends the policy. -/
def andThen {σ : Type} (r : TryLock.Result ZoneId σ) (k : Search → Search) : Search :=
  match r.stuck with
  | none => k { s with table := { s.table with busy := r.flags } }
  | some i => { s with table := { s.table with busy := r.flags }, status := s.table.notReleased i }

/-- The end of the policies that set both results in any case. -/
def answer (r : TryLock.Result ZoneId Nat) : Search :=
  s.andThen r fun s ↦ { s with bestDiff := r.score, zoneOut := r.best }

/-- The end of the policies that set `zone_out` only if they have found a zone. -/
def place {σ : Type} (r : TryLock.Result ZoneId σ) (diff : ZoneId → Nat) : Search :=
  s.andThen r fun s ↦
    match r.best with
    | none => { s with bestDiff := LIFETIME_DIFF_NOT_GOOD }
    | some i => { s with bestDiff := diff i, zoneOut := some i }

/-- A policy that cannot be applied. -/
def unfit : Search := { s with bestDiff := LIFETIME_DIFF_NOT_GOOD }

end Search

section Choose

variable (t : Table) (min_capacity : Nat)

/-- `ChooseZoneWithHighestContrib`. -/
def chooseZoneWithHighestContrib (contribution : Nat → Nat) : TryLock.Result ZoneId Nat :=
  t.best min_capacity id (fun highest z ↦
    if highest < contribution (t.zone z).start then some (contribution (t.zone z).start) else none)
    t.ioZones 0

/-- The zones of some extents, where a null pointer is a fault. -/
def Placement.zonesOf (w : Placement) : List (Nat × Nat) → Option (List (ZoneId × Nat))
  | [] => some []
  | (start, length) :: extents =>
      match w.pointer start with
      | none => w.zonesOf extents
      | some none => none
      | some (some z) => (w.zonesOf extents).map ((z, length) :: ·)

/-- The rounds of `ChooseZoneWithClosestFile` and `ChooseZoneWithClosestRank`: the zone
with the longest extent, in the first round that finds one. -/
def chooseInRounds (w : Placement) :
    List (List (Nat × Nat)) → Table → Option (TryLock.Result ZoneId Nat)
  | [], t => some { flags := t.busy, best := none, score := 0 }
  | extents :: rounds, t =>
      match w.zonesOf extents with
      | none => none
      | some items =>
          let r := t.best min_capacity Prod.fst (fun highest e ↦ if highest < e.2 then some e.2
            else none) items 0
          if r.stuck.isSome || r.best.isSome then some r
          else chooseInRounds w rounds { t with busy := r.flags }

/-- The files in front of a position, the nearest first, and those behind it. -/
def around (files : List RecordedFile) (index : Nat) : List RecordedFile × List RecordedFile :=
  ((files.take index).reverse, files.drop (index + 1))

/-- `ChooseZoneWithClosestFile`. -/
def chooseZoneWithClosestFile (w : Placement) (zonefile_index : Nat)
    (own_level_files : List RecordedFile) : Option (TryLock.Result ZoneId Nat) :=
  let (before, behind) := around own_level_files zonefile_index
  let extents := fun f : Option RecordedFile ↦ (f.map RecordedFile.extents).getD []
  chooseInRounds min_capacity w (List.zipWithAll (fun p n ↦ extents p ++ extents n) before behind) t

/-- `labs` of the difference of two ranks, which have 64 bits. -/
def rankDiff (a b : Nat) : Nat := (Int.bmod (a - b) (2 ^ 64)).natAbs

/-- The files in the order in which `ChooseZoneWithClosestRank` looks at them.  The loop
ends in front of the first file of the ranking. -/
def closestRanks (rank : Nat) : Nat → List RecordedFile → List RecordedFile → List RecordedFile
  | 0, _, _ => []
  | fuel + 1, p :: p' :: before, n :: behind =>
      if rankDiff rank p.rank < rankDiff n.rank rank then p :: closestRanks rank fuel (p' :: before)
        (n :: behind)
      else n :: closestRanks rank fuel (p :: p' :: before) behind
  | _, _, _ => []

/-- `ChooseZoneWithClosestRank`. -/
def chooseZoneWithClosestRank (w : Placement) (zonefile_index : Nat)
    (own_level_ranking : List RecordedFile) : Option (TryLock.Result ZoneId Nat) :=
  let (before, behind) := around own_level_ranking zonefile_index
  chooseInRounds min_capacity w
    ((closestRanks w.fileRank own_level_ranking.length before behind).map RecordedFile.extents) t

end Choose

/-- `GetPerZoneContribution` of some files, each of which counts in full. -/
def getPerZoneContribution (files : List RecordedFile) (start : Nat) : Nat :=
  ((files.flatMap RecordedFile.extents).map fun e ↦ if e.1 = start then e.2 else 0).sum

section Policies

variable (w : Placement) (file : FileInfo) (min_capacity : Nat) (s : Search)

/-- `GetPolicy`. -/
def getPolicy (level : Int) : PlacementPolicyType :=
  if level < 0 then .kLifetimeBased
  else if level ≤ w.minBoundary then w.upperLevelPolicy
  else if w.maxBoundary ≤ level then w.lowerLevelPolicy
  else w.middleLevelPolicy

/-- `GetSecondaryPolicy`. -/
def getSecondaryPolicy (level : Int) : PlacementPolicyType :=
  if level < 0 then .kLifetimeBased
  else if level ≤ w.minBoundary then w.upperLevelPolicyFallback
  else if w.maxBoundary ≤ level then w.lowerLevelPolicyFallback
  else w.middleLevelPolicyFallback

/-- `level` is an index of `levelwise_file_list_`. -/
def Placement.hasLevel (level : Int) : Bool := decide (0 ≤ level ∧ level < w.levels)

/-- `MatchLifetimeBased`: the last zone with the lowest lifetime difference. -/
def matchLifetimeBased : Search :=
  s.answer <| s.table.best min_capacity id (fun best_diff z ↦
    let diff := getLifeTimeDiff (s.table.zone z).lifetime file.lifetime
    if diff ≤ best_diff then some diff else none) s.table.ioZones LIFETIME_DIFF_NOT_GOOD

/-- `MatchCAZA`.  The second map of contributions is never filled. -/
def matchCAZA : Search :=
  let caza := fun level ↦
    decide (getPolicy w level = .kCAZA) || decide (getSecondaryPolicy w level = .kCAZA)
  let overlapping_files :=
    (if caza (s.level - 1) then w.overlappingFiles (s.level - 1) else []) ++
      (if caza (s.level + 1) then w.overlappingFiles (s.level + 1) else [])
  if overlapping_files = [] ∧ 0 < s.level then s.unfit
  else
    let r := chooseZoneWithHighestContrib s.table min_capacity
      (getPerZoneContribution overlapping_files)
    if r.stuck = none ∧ r.best = none ∧ s.level = 0 then
      let s := { s with table := { s.table with busy := r.flags } }
      s.place (chooseZoneWithHighestContrib s.table min_capacity fun _ ↦ 0) fun _ ↦ 0
    else s.place r fun _ ↦ 0

/-- The policies that choose by weighted contributions of the files of the level. -/
def matchWeighted (policy : PlacementPolicyType) (level : Int) (diff : ZoneId → Nat) : Search :=
  s.place (chooseZoneWithHighestContrib s.table min_capacity (w.weighted policy level)) diff

/-- The difference that a policy of the PLAZA family reports for a zone. -/
def Placement.plazaDiff (policy : PlacementPolicyType) (i : ZoneId) : Nat :=
  if w.tooFar policy i then LIFETIME_DIFF_COULD_BE_WORSE else 0

/-- `MatchPlazaBase`. -/
def matchPlazaBase : Search :=
  if w.hasLevel s.level then
    matchWeighted w min_capacity s .kPlazaBase s.level (w.plazaDiff .kPlazaBase)
  else s.unfit

/-- `MatchPlazaIntermediate`. -/
def matchPlazaIntermediate : Search :=
  if w.hasLevel s.level then
    matchWeighted w min_capacity s .kPlazaIntermediate s.level (w.plazaDiff .kPlazaIntermediate)
  else s.unfit

/-- The policies that look for any zone of one kind, and take the last. -/
def matchKind (kind : IoZone → Bool) : Search :=
  s.answer <| s.table.best min_capacity id
    (fun _ z ↦ if kind (s.table.zone z) then some 0 else none)
    s.table.ioZones LIFETIME_DIFF_NOT_GOOD

/-- `MatchArrivalTimeBased`. -/
def matchArrivalTimeBased : Search :=
  matchKind min_capacity s fun z ↦ max 1 z.level == max 1 s.level

/-- The zones of `zone_max_diff_map`, where a null pointer is a fault. -/
def Placement.diffZones : List (Option ZoneId × Nat) → Option (List (ZoneId × Nat))
  | [] => some []
  | (none, _) :: _ => none
  | (some z, diff) :: rest => (Placement.diffZones rest).map ((z, diff) :: ·)

/-- `MatchPlazaAdvanced`. -/
def matchPlazaAdvanced : Option Search :=
  if s.level < 2 || !w.isNumericKey then some (matchArrivalTimeBased min_capacity s)
  else if !w.hasLevel s.level then some s.unfit
  else (Placement.diffZones w.zoneDiffs).map fun items ↦
    s.place (s.table.best min_capacity Prod.fst (fun chosen_diff e ↦
      if e.2 ≤ chosen_diff then some e.2 else none) items (10 ^ 100)) (w.plazaDiff .kPlazaAdvanced)

/-- `MatchSameLevelNearbyKeysSimple`. -/
def matchSameLevelNearbyKeysSimple : Option Search :=
  if w.hasLevel s.level then
    (chooseZoneWithClosestFile s.table min_capacity w
      (w.sameLevelIndex .kSameLevelNearbyKeysSimple s.level)
      (w.sameLevelFiles .kSameLevelNearbyKeysSimple s.level)).map fun r ↦ s.place r fun _ ↦ 0
  else some s.unfit

/-- `MatchTombstoneDensity`. -/
def matchTombstoneDensity : Search :=
  if w.isHighTombstone then matchKind min_capacity s fun z ↦ z.policy == .kTombstoneDensity
  else { s.unfit with zoneOut := none }

/-- `MatchTombstoneTTL`. -/
def matchTombstoneTTL : Search := matchLifetimeBased file min_capacity s

/-- `MatchClusterTogether`. -/
def matchClusterTogether : Search := matchKind min_capacity s fun z ↦ z.policy == .kClusterTogether

/-- The level that a file gets to by trivial moves. -/
def trivialMoves (max_level : Nat) : Nat → Int → Int
  | 0, level => level
  | fuel + 1, level =>
      if (max_level : Int) ≤ level ∨ w.overlapFileCount (level + 1) ≠ 0 then level
      else trivialMoves max_level fuel (level + 1)

/-- The level that the rank policies work with. -/
def movedLevel : Int :=
  trivialMoves w s.table.maxLevel ((s.table.maxLevel : Int) - s.level).toNat s.level

/-- `MatchOverlapChildren`, which records the file under its new level, so that there is
such a level if it is a deeper one.  Ranking divides by the sizes of the files. -/
def matchOverlapChildren : Option Search :=
  let raised := decide (s.level < movedLevel w s)
  let s := { s with level := movedLevel w s }
  if !(w.hasLevel s.level || raised) then some s.unfit
  else if !w.rankable .kOverlapChildren s.level then none
  else some (matchWeighted w min_capacity s .kOverlapChildren s.level fun _ ↦ 0)

/-- `MatchOverlapGrandchildren`, which does not look whether there is such a level. -/
def matchOverlapGrandchildren : Option Search :=
  let level := movedLevel w s
  if !w.hasLevel level || !w.rankable .kOverlapGrandchildren level then none
  else some (matchWeighted w min_capacity s .kOverlapGrandchildren level fun _ ↦ 0)

/-- `MatchCompensatedSize`, which does not either. -/
def matchCompensatedSize : Option Search :=
  let level := movedLevel w s
  if !w.hasLevel level then none
  else some (matchWeighted w min_capacity s .kCompensatedSize level fun _ ↦ 0)

/-- `MatchOAZA`. -/
def matchOAZA : Option Search :=
  if !w.hasLevel s.level then some s.unfit
  else if s.level < s.table.maxLevel ∧ w.overlapFileCount (s.level + 1) = 0 then
    some { s.unfit with level := s.level + 1 }
  else if s.level = s.table.maxLevel ∧ w.overlapFileCount (s.level - 1) = 0 then some s.unfit
  else if !w.rankable .kOAZA s.level then none
  else
    let zonefile_index := w.sameLevelIndex .kOAZA s.level
    let own_level_ranking := w.sameLevelFiles .kOAZA s.level
    (if w.realOaza then
        chooseZoneWithClosestRank s.table min_capacity w zonefile_index own_level_ranking
      else chooseZoneWithClosestFile s.table min_capacity w zonefile_index own_level_ranking).map
        fun r ↦ s.place r fun _ ↦ 0

/-- A call through `function_map`, in which two policies are missing. -/
def matchPolicy : PlacementPolicyType → Option Search
  | .kLifetimeBased => some (matchLifetimeBased file min_capacity s)
  | .kCAZA => some (matchCAZA w min_capacity s)
  | .kPlazaBase => some (matchPlazaBase w min_capacity s)
  | .kPlazaIntermediate => some (matchPlazaIntermediate w min_capacity s)
  | .kPlazaAdvanced => matchPlazaAdvanced w min_capacity s
  | .kSameLevelNearbyKeysSimple => matchSameLevelNearbyKeysSimple w min_capacity s
  | .kArrivalTimeBased => some (matchArrivalTimeBased min_capacity s)
  | .kTombstoneDensity => some (matchTombstoneDensity w min_capacity s)
  | .kTombstoneTTL => some (matchTombstoneTTL file min_capacity s)
  | .kClusterTogether => some (matchClusterTogether min_capacity s)
  | .kOverlapChildren => matchOverlapChildren w min_capacity s
  | .kOverlapGrandchildren => matchOverlapGrandchildren w min_capacity s
  | .kCompensatedSize => matchCompensatedSize w min_capacity s
  | .kOAZA => matchOAZA w min_capacity s
  | .kLeveledLifetimeBased | .kUserDefinedPlacement => none

/-- What the difference is raised to when the primary policy has found nothing. -/
def raisedDiff (primary : PlacementPolicyType) (level : Int) : Nat :=
  let max_level : Int := s.table.maxLevel
  let a := if primary = .kArrivalTimeBased ∨ primary = .kClusterTogether ∨
      (primary = .kTombstoneDensity ∧ w.isHighTombstone = true) ∨
      (primary = .kCAZA ∧ w.realCaza = true) ∨
      (primary = .kOAZA ∧ w.realOaza = false ∧ s.level < max_level) then
    LIFETIME_DIFF_COULD_BE_WORSE else 0
  let b := if primary = .kOAZA ∧ w.realOaza = true ∧ level < max_level ∧ level < s.level then
    LIFETIME_DIFF_NOT_GOOD else 0
  max (max a b) s.bestDiff

/-- `GetBestOpenZoneMatch`.  The first call leaves `min_capacity` to its default. -/
def getBestOpenZoneMatch : Option Search :=
  if s.level < 0 ∨ file.hasKeys = false ∨
    file.ioType ≠ .kData then some (matchLifetimeBased file 0 s)
  else
    let level := s.level
    let primary_policy := getPolicy w level
    let old_zone := s.zoneOut
    match matchPolicy w file min_capacity s primary_policy with
    | none => none
    | some s =>
        if s.zoneOut ≠ old_zone then some s
        else
          match matchPolicy w file min_capacity { s with status := .ok }
            (getSecondaryPolicy w level) with
          | none => none
          | some s =>
              let s := { s with bestDiff := raisedDiff w s primary_policy level }
              if s.zoneOut ≠ old_zone then some s
              else
                let s := matchLifetimeBased file min_capacity { s with status := .ok }
                some { s with bestDiff := max LIFETIME_DIFF_COULD_BE_WORSE s.bestDiff }

end Policies

end Alloc

end ZenFs
