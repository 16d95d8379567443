import ZenFs.Alloc.Match
import ZenFs.Levels.Label
import ZenFs.Lib.Reach
import ZenFs.Lib.Shelves
import Mathlib.Data.Finset.Basic

/-!
# Records of the files of each level

`levelwise_file_list_` holds, for each level of the LSM tree, the files of that level
in the order of their smallest keys.  The placement policies read it, and some write
it.  Here are the list, the functions that add and remove a file, and the policies up
to the point where they go from files to zones; the choice of the zone is in
`Alloc/Match.lean`.  What the policies read of the list is what is returned.
-/

namespace ZenFs

open Alloc (IOType PlacementPolicyType)

/-- The comparisons of keys: `sstableKeyCompare` with the comparator of the user, which
is a total order on keys up to keys that compare equal, and the internal comparator. -/
structure KeyCompare (K : Type) where
  compare : K → K → Int
  internal : K → K → Int
  total : ∀ a b, compare a b ≤ 0 ∨ compare b a ≤ 0
  trans : ∀ a b c, compare a b ≤ 0 → compare b c ≤ 0 → compare a c ≤ 0

/-- The fields of a `ZoneFile` that records are about. -/
structure KeyedFile (K : Type) where
  level : Int := -1
  ioType : IOType := .kUnknown
  hasKeys : Bool := false
  smallest : K
  largest : K
  isRecorded : Bool := false
  isDeleted : Bool := false
  openForWr : Bool := false

namespace KeyedFile

variable {K : Type}

/-- `ZoneFile::UpdateInternalKeys`. -/
def updateInternalKeys (f : KeyedFile K) (key : K) : KeyedFile K :=
  { f with
    smallest := if f.hasKeys then f.smallest else key
    largest := key
    hasKeys := true }

/-- `ZoneFile::UpdateInternalKeysRange`. -/
def updateInternalKeysRange (f : KeyedFile K) (order : KeyCompare K) (first last : K) :
    KeyedFile K :=
  { f with
    smallest := if !f.hasKeys || decide (order.internal first f.smallest < 0) then first
      else f.smallest
    largest := if !f.hasKeys || decide (order.internal f.largest last < 0) then last else f.largest
    hasKeys := true }

end KeyedFile

/-- The files, `levelwise_file_list_` and `zenfs_parameters_.max_level`. -/
structure Records (K : Type) where
  order : KeyCompare K
  files : Ref → KeyedFile K
  live : Finset Ref := ∅
  lists : List (List Ref) := []
  maxLevel : Nat := 1

namespace Records

variable {K : Type} (t : Records K) (r : Ref)

def setFile (f : KeyedFile K) : Records K := { t with files := Function.update t.files r f }

/-- The smallest key of a file is not larger than that of another. -/
def le (x y : Ref) : Prop := t.order.compare (t.files x).smallest (t.files y).smallest ≤ 0

instance : DecidableRel t.le := fun _ _ ↦ inferInstanceAs (Decidable (_ ≤ _))

/-- `AddZoneFileRecordNoLock` does something. -/
def recordable (f : KeyedFile K) : Bool :=
  f.hasKeys && decide (0 ≤ f.level) && decide (f.ioType = .kData)

/-- `ZonedBlockDevice::AddZoneFileRecordNoLock`. -/
def addZoneFileRecordNoLock : Records K :=
  let f := t.files r
  if !f.hasKeys then t
  else if f.level < 0 then t
  else if f.ioType ≠ .kData then t
  else { t with lists := Shelves.put t.le r f.level.toNat t.lists }

theorem addZoneFileRecordNoLock_eq : t.addZoneFileRecordNoLock r =
    if recordable (t.files r) then { t with
      lists := Shelves.put t.le r (t.files r).level.toNat t.lists }
    else t := by
  unfold addZoneFileRecordNoLock recordable
  cases hkeys : (t.files r).hasKeys with
  | false => simp [hkeys]
  | true =>
      by_cases hlevel : (t.files r).level < 0
      · simp [hkeys, hlevel]
      · by_cases hdata : (t.files r).ioType = .kData
          <;> simp [hkeys, hlevel, hdata, not_lt.mp hlevel]

/-- `ZonedBlockDevice::RemoveZoneFileRecordNoLock`. -/
def removeZoneFileRecordNoLock : Records K := { t with lists := Shelves.take r t.lists }

/-- `ZonedBlockDevice::IsOverlapping`. -/
def isOverlapping (a b : KeyedFile K) : Bool :=
  if t.order.compare a.largest b.smallest < 0 then false
  else if 0 < t.order.compare a.smallest b.largest then false
  else true

/-- `level` is an index of `levelwise_file_list_`. -/
def hasLevel (level : Int) : Bool := decide (0 ≤ level ∧ level < t.lists.length)

/-- `levelwise_file_list_[level]`. -/
def levelList (level : Int) : Except Fault (List Ref) :=
  if t.hasLevel level then .ok (t.lists.getD level.toNat []) else .error .outOfRange

/-- `ZonedBlockDevice::GetOverlappingFiles`. -/
def getOverlappingFiles (target_level : Int) : List Ref :=
  if t.hasLevel target_level then
    (t.lists.getD target_level.toNat []).filter fun x ↦
      decide (x ≠ r) && t.isOverlapping (t.files r) (t.files x)
  else []

/-- `ZonedBlockDevice::GetOverlapFileCount`. -/
def getOverlapFileCount (target_level : Int) : Nat := (t.getOverlappingFiles r target_level).length

/-- `ZonedBlockDevice::GetSameLevelFiles`. -/
def getSameLevelFiles (target_level : Int) : List Ref :=
  if t.hasLevel target_level then t.lists.getD target_level.toNat [] else []

/-- The loop that simulates trivial moves, with the number of levels that are left. -/
def trivialMoves : Nat → Int → Int
  | 0, level => level
  | n + 1, level =>
      if t.getOverlapFileCount r (level + 1) ≠ 0 then level else trivialMoves n (level + 1)

/-- The level a file gets to by trivial moves. -/
def movedLevel : Int := t.trivialMoves r (t.maxLevel - (t.files r).level).toNat (t.files r).level

/-- What a policy leaves and what it has read: `own_level_ranking` or its likes, and
`upper_level_ranking`. -/
structure Ranked (K : Type) where
  records : Records K
  own : List Ref := []
  upper : List Ref := []

/-- The two lists that the policies by rank copy: the file and the others of its level,
and those of the level above, which is looked at from `first` on. -/
def rankFiles (level first : Int) : Except Fault (Ranked K) :=
  match t.levelList level with
  | .error e => .error e
  | .ok own =>
      let own_level_ranking := r :: own.filter (· ≠ r)
      if first ≤ level - 1 then
        match t.levelList (level - 1) with
        | .error e => .error e
        | .ok upper => .ok { records := t, own := own_level_ranking, upper := upper.filter (· ≠ r) }
      else .ok { records := t, own := own_level_ranking }

/-- The file moves to another level together with its record. -/
def relevel (level : Int) : Records K :=
  let t := t.removeZoneFileRecordNoLock r
  (t.setFile r { t.files r with level := level }).addZoneFileRecordNoLock r

/-- `MatchCAZA`, which reads the levels around that of the file if `caza` tells that they
are placed by this policy. -/
def matchCAZA (caza : Int → Bool) : Except Fault (Ranked K) :=
  let level := (t.files r).level
  .ok { records := t
        own := (if caza (level - 1) then t.getOverlappingFiles r (level - 1) else []) ++
          (if caza (level + 1) then t.getOverlappingFiles r (level + 1) else []) }

/-- `MatchPlazaBase`, `MatchPlazaIntermediate` and, from level 2 on, `MatchPlazaAdvanced`. -/
def matchPlaza : Except Fault (Ranked K) :=
  let level := (t.files r).level
  if t.hasLevel level then .ok { records := t, own := t.getSameLevelFiles level }
  else .ok { records := t }

/-- `MatchSameLevelNearbyKeysSimple`. -/
def matchSameLevelNearbyKeysSimple : Except Fault (Ranked K) :=
  let level := (t.files r).level
  if t.hasLevel level then
    let t := (t.removeZoneFileRecordNoLock r).addZoneFileRecordNoLock r
    match t.levelList level with
    | .error e => .error e
    | .ok own => .ok { records := t, own := own }
  else .ok { records := t }

/-- `MatchOverlapChildren`. -/
def matchOverlapChildren : Except Fault (Ranked K) :=
  let level := t.movedLevel r
  let t := if (t.files r).level < level then t.relevel r level else t
  if t.hasLevel level then t.rankFiles r level 0 else .ok { records := t }

/-- `MatchOverlapGrandchildren`. -/
def matchOverlapGrandchildren : Except Fault (Ranked K) := t.rankFiles r (t.movedLevel r) 1

/-- `MatchCompensatedSize`. -/
def matchCompensatedSize : Except Fault (Ranked K) := t.rankFiles r (t.movedLevel r) 1

/-- `MatchOAZA`. -/
def matchOAZA : Except Fault (Ranked K) :=
  let level := (t.files r).level
  if !t.hasLevel level then .ok { records := t }
  else if level < t.maxLevel ∧ t.getOverlapFileCount r (level + 1) = 0 then
    .ok { records := t.relevel r (level + 1) }
  else if level = t.maxLevel ∧ t.getOverlapFileCount r (level - 1) = 0 then .ok { records := t }
  else
    match t.levelList level with
    | .error e => .error e
    | .ok own => .ok { records := t, own := r :: own.filter (· ≠ r) }

/-- The policies in `function_map`; the others have no function.  `numeric` tells whether the
smallest key is a number. -/
def matchPolicy (caza : Int → Bool) (numeric : Bool) :
    PlacementPolicyType → Option (Except Fault (Ranked K))
  | .kLifetimeBased | .kArrivalTimeBased | .kTombstoneDensity | .kTombstoneTTL |
  .kClusterTogether =>
      some (.ok { records := t })
  | .kCAZA => some (t.matchCAZA r caza)
  | .kPlazaBase | .kPlazaIntermediate => some (t.matchPlaza r)
  | .kPlazaAdvanced =>
      if (t.files r).level < 2 ∨ numeric = false then some (.ok { records := t })
      else some (t.matchPlaza r)
  | .kSameLevelNearbyKeysSimple => some (t.matchSameLevelNearbyKeysSimple r)
  | .kOverlapChildren => some (t.matchOverlapChildren r)
  | .kOverlapGrandchildren => some (t.matchOverlapGrandchildren r)
  | .kCompensatedSize => some (t.matchCompensatedSize r)
  | .kOAZA => some (t.matchOAZA r)
  | .kLeveledLifetimeBased | .kUserDefinedPlacement => none

/-! ## Runs -/

/-- A function that changes files or records, with what it decides from data that is not
modelled. -/
inductive Act (K : Type) where
  | create (r : Ref) (ioType : IOType)
  | updateInternalKeys (r : Ref) (key : K)
  | updateInternalKeysRange (r : Ref) (first last : K)
  | setLevel (r : Ref) (level : Int)
  | allocate (r : Ref) (primary fallback : PlacementPolicyType) (caza : Int → Bool)
      (numeric found empty : Bool)
  | closeWR (r : Ref) (persisted : Bool)
  | moveFileToNewLevel (r : Ref) (level : Int)
  | reopen (r : Ref)
  | delete (r : Ref)
  | destroy (r : Ref)

/-- The greatest level that an allocation has seen, in eight bits. -/
def noteLevel (level : Int) : Records K :=
  if (t.maxLevel : Int) < level then { t with maxLevel := level.toNat % 256 } else t

/-- What `GetBestOpenZoneMatch` does to the records: the primary policy, and the fallback
policy unless a zone was `found`. -/
def getBestOpenZoneMatch (primary fallback : PlacementPolicyType) (caza : Int → Bool)
    (numeric found : Bool) : Option (Records K) :=
  if recordable (t.files r) = false then some t
  else
    match t.matchPolicy r caza numeric primary with
    | some (.ok ranked) =>
        if found then some ranked.records
        else
          match ranked.records.matchPolicy r caza numeric fallback with
          | some (.ok ranked) => some ranked.records
          | _ => none
    | _ => none

/-- `ZoneFile::CreateOrUpdateRecord`. -/
def createOrUpdateRecord : Records K :=
  let f := t.files r
  if f.level < 0 then t
  else
    let t := if f.isRecorded then t.removeZoneFileRecordNoLock r else t
    let t := t.addZoneFileRecordNoLock r
    t.setFile r { t.files r with isRecorded := true }

/-- Whether a function can run: a writer works on a file that is open, names lead to files
that are not deleted, and a file without names is destroyed by its last holder. -/
def Enabled : Act K → Prop
  | .create r _ => r ∉ t.live
  | .updateInternalKeys r _ | .updateInternalKeysRange r _ _ | .setLevel r _ | .closeWR r _ =>
      r ∈ t.live ∧ (t.files r).openForWr = true
  | .allocate r _ _ _ _ _ _ => r ∈ t.live
  | .moveFileToNewLevel r _ | .delete r => r ∈ t.live ∧ (t.files r).isDeleted = false
  | .reopen r => r ∈ t.live ∧ (t.files r).isDeleted = false ∧ (t.files r).openForWr = false
  | .destroy r => r ∈ t.live ∧ (t.files r).isDeleted = true

instance (a : Act K) : Decidable (t.Enabled a) := by
  cases a <;> unfold Enabled <;> infer_instance

/-- What a function does.  An allocation under a policy that indexes outside of the list
has no result. -/
def perform [Inhabited K] : Act K → Option (Records K)
  | .create r ioType =>
      some { t.setFile r { ioType := ioType, smallest := default, largest := default,
                           openForWr := true } with
        live := insert r t.live }
  | .updateInternalKeys r key => some (t.setFile r ((t.files r).updateInternalKeys key))
  | .updateInternalKeysRange r first last =>
      some (t.setFile r ((t.files r).updateInternalKeysRange t.order first last))
  | .setLevel r level => some (t.setFile r { t.files r with level := level })
  | .allocate r primary fallback caza numeric found empty =>
      ((t.noteLevel (t.files r).level).getBestOpenZoneMatch r primary fallback caza
        numeric found).map fun t ↦ if empty then t.noteLevel (t.files r).level else t
  | .closeWR r persisted =>
      let t := t.createOrUpdateRecord r
      some (t.setFile r { t.files r with openForWr := !persisted })
  | .moveFileToNewLevel r level => some (t.relevel r level)
  | .reopen r => some (t.setFile r { t.files r with openForWr := true })
  | .delete r =>
      some ((t.setFile r { t.files r with isDeleted := true }).removeZoneFileRecordNoLock r)
  | .destroy r => some { t with live := t.live.erase r }

/-- One function runs. -/
def step [Inhabited K] (t : Records K) (a : Act K) : Option (Records K) :=
  if t.Enabled a then t.perform a else none

/-- After the mount nothing is recorded. -/
def init [Inhabited K] (order : KeyCompare K) : Records K where
  order := order
  files := fun _ ↦ { smallest := default, largest := default }

/-! ## Indices -/

section Indices

variable {t} {r} {level : Int}

theorem levelList_eq_ok (h : t.hasLevel level = true) :
    t.levelList level = .ok (t.lists.getD level.toNat []) := if_pos h

theorem hasLevel_of_getOverlapFileCount (h : t.getOverlapFileCount r level ≠ 0) :
    t.hasLevel level = true := by
  by_contra hl
  simp [getOverlapFileCount, getOverlappingFiles, hl] at h

/-- The simulation stops below a level with an overlapping file, or after all its turns. -/
theorem trivialMoves_spec (n : Nat) (level : Int) :
    level ≤ t.trivialMoves r n level ∧
      ((t.trivialMoves r n level < level + n ∧
          t.getOverlapFileCount r (t.trivialMoves r n level + 1) ≠ 0) ∨
        (t.trivialMoves r n level = level + n ∧
          ∀ l, level < l → l ≤ level + n → t.getOverlapFileCount r l = 0)) := by
  induction n generalizing level with
  | zero => exact ⟨Int.le_refl _, .inr ⟨by simp [trivialMoves], fun l h h' ↦ by omega⟩⟩
  | succ n ih =>
      rw [trivialMoves]
      split
      · rename_i hov
        exact ⟨Int.le_refl _, .inl ⟨by omega, hov⟩⟩
      · rename_i hov
        obtain ⟨hle, ⟨hlt, hstop⟩ | ⟨heq, hnone⟩⟩ := ih (level + 1)
        · exact ⟨by omega, .inl ⟨by omega, hstop⟩⟩
        · refine ⟨by omega, .inr ⟨by omega, fun l h h' ↦ ?_⟩⟩
          by_cases hl : l = level + 1
          · rw [hl]
            exact not_not.mp hov
          · exact hnone l (by omega) (by omega)

/-- A recorded file overlaps on one of the levels that the simulation of trivial moves
looks at. -/
def Stopped (t : Records K) (r : Ref) : Prop :=
  ∃ l, (t.files r).level < l ∧ l ≤ t.maxLevel ∧ t.getOverlapFileCount r l ≠ 0

theorem hasLevel_movedLevel_iff (h : 0 ≤ (t.files r).level) :
    t.hasLevel (t.movedLevel r) = true ↔
      max (t.files r).level t.maxLevel < t.lists.length ∨ t.Stopped r := by
  obtain ⟨hle, ⟨hlt, hstop⟩ | ⟨heq, hnone⟩⟩ :=
    t.trivialMoves_spec (r := r) (t.maxLevel - (t.files r).level).toNat (t.files r).level
  · rw [← movedLevel] at hle hlt hstop
    refine iff_of_true ?_ (.inr ⟨t.movedLevel r + 1, by omega, by omega, hstop⟩)
    have := hasLevel_of_getOverlapFileCount hstop
    rw [hasLevel, decide_eq_true_eq] at this ⊢
    omega
  · rw [← movedLevel] at heq
    rw [hasLevel, decide_eq_true_eq]
    constructor
    · intro hl
      exact .inl (by omega)
    · rintro (hl | ⟨l, hl, hmax, hov⟩)
      · omega
      · exact absurd (hnone l hl (by omega)) hov

theorem rankFiles_ne_iff {first : Int} (hfirst : 0 ≤ first) :
    t.rankFiles r level first ≠ .error .outOfRange ↔ t.hasLevel level = true := by
  unfold rankFiles levelList
  by_cases hl : t.hasLevel level = true
  · simp only [hl, if_true]
    refine iff_of_true ?_ trivial
    split
    · rename_i hup
      have hupper : t.hasLevel (level - 1) = true := by
        rw [hasLevel, decide_eq_true_eq] at hl ⊢
        omega
      simp [hupper]
    · simp
  · simp [hl]

theorem length_addZoneFileRecordNoLock (t : Records K) (r : Ref) :
    t.lists.length ≤ (t.addZoneFileRecordNoLock r).lists.length := by
  rw [addZoneFileRecordNoLock_eq]
  split
  · rw [Shelves.length_put]
    exact Nat.le_max_left _ _
  · exact Nat.le_refl _

theorem matchSameLevelNearbyKeysSimple_ne (t : Records K) (r : Ref) :
    t.matchSameLevelNearbyKeysSimple r ≠ .error .outOfRange := by
  unfold matchSameLevelNearbyKeysSimple
  dsimp only
  split
  · rename_i hl
    have hlen := length_addZoneFileRecordNoLock (t.removeZoneFileRecordNoLock r) r
    have htake : (t.removeZoneFileRecordNoLock r).lists.length = t.lists.length :=
      Shelves.length_take
    rw [levelList_eq_ok]
    · simp
    · rw [hasLevel, decide_eq_true_eq] at hl ⊢
      omega
  · simp

theorem matchOverlapChildren_ne (t : Records K) (r : Ref) :
    t.matchOverlapChildren r ≠ .error .outOfRange := by
  unfold matchOverlapChildren
  dsimp only
  generalize t.movedLevel r = level
  generalize (if (t.files r).level < level then t.relevel r level else t) = u
  split
  · rename_i hl
    exact (rankFiles_ne_iff (Int.le_refl 0)).mpr hl
  · simp

theorem matchOAZA_ne (t : Records K) (r : Ref) : t.matchOAZA r ≠ .error .outOfRange := by
  unfold matchOAZA
  dsimp only
  split
  · simp
  · rename_i hl
    split
    · simp
    · split
      · simp
      · rw [levelList_eq_ok (by simpa using hl)]
        simp

/-- A policy indexes `levelwise_file_list_` only below its size, except that
`MatchOverlapGrandchildren` and `MatchCompensatedSize` need the level they arrive at: all
levels from that of the file up to `max_level` are there, or a recorded file overlaps on
one of those that follow. -/
theorem matchPolicy_inBounds (t : Records K) (r : Ref) (h : 0 ≤ (t.files r).level)
    (caza : Int → Bool) (numeric : Bool) (policy : PlacementPolicyType) :
    t.matchPolicy r caza numeric policy ≠ some (.error .outOfRange) ↔
      (policy ≠ .kOverlapGrandchildren ∧ policy ≠ .kCompensatedSize) ∨
        max (t.files r).level t.maxLevel < t.lists.length ∨ t.Stopped r := by
  have hrank : ∀ first : Int, 0 ≤ first → (some (t.rankFiles r (t.movedLevel r) first) ≠
      some (.error .outOfRange) ↔ max (t.files r).level t.maxLevel < t.lists.length ∨
      t.Stopped r) := by
    intro first hfirst
    rw [ne_eq, Option.some_inj, ← ne_eq, rankFiles_ne_iff hfirst, hasLevel_movedLevel_iff h]
  have hplaza : some (t.matchPlaza r) ≠ some (.error .outOfRange) := by
    unfold matchPlaza
    dsimp only
    split <;> simp
  cases policy with
  | kOverlapGrandchildren | kCompensatedSize =>
      simpa only [matchPolicy, matchOverlapGrandchildren, matchCompensatedSize, ne_eq,
        not_true_eq_false, and_false, false_and, false_or] using hrank 1 (by decide)
  | kPlazaBase | kPlazaIntermediate => exact iff_of_true hplaza (.inl (by simp))
  | kPlazaAdvanced =>
      refine iff_of_true ?_ (.inl (by simp))
      rw [matchPolicy]
      split
      · simp
      · exact hplaza
  | kSameLevelNearbyKeysSimple =>
      exact iff_of_true (mt Option.some.inj (matchSameLevelNearbyKeysSimple_ne t r))
        (.inl (by simp))
  | kOverlapChildren =>
      exact iff_of_true (mt Option.some.inj (matchOverlapChildren_ne t r)) (.inl (by simp))
  | kOAZA => exact iff_of_true (mt Option.some.inj (matchOAZA_ne t r)) (.inl (by simp))
  | kCAZA => exact iff_of_true (by simp [matchPolicy, matchCAZA]) (.inl (by simp))
  | _ => exact iff_of_true (by simp [matchPolicy]) (.inl (by simp))

end Indices

/-- Numbers as keys. -/
def natOrder : KeyCompare Nat where
  compare := fun a b ↦ a - b
  internal := fun a b ↦ a - b
  total := fun a b ↦ by omega
  trans := fun a b c ↦ by omega

/-- A table file is created, gets the first level and its first key. -/
def tableRun (r : Ref) (level : Int) (key : Nat) : List (Act Nat) :=
  [.create r .kData, .setLevel r level, .updateInternalKeys r key]

theorem matchPolicy_inBounds_twoLevels : ∃ t : Records Nat,
    runAll step (init natOrder) (tableRun 1 1 5 ++ [.closeWR 1 true] ++ tableRun 0 0 5) = some t ∧
      t.matchPolicy 0 (fun _ ↦ false) true .kCompensatedSize ≠ some (.error .outOfRange) := by
  obtain ⟨t, ht, h⟩ := Option.map_eq_some_iff.mp (show ((runAll step (init natOrder)
    (tableRun 1 1 5 ++ [.closeWR 1 true] ++ tableRun 0 0 5)).map fun t ↦
      (t.lists.length, t.maxLevel, (t.files 0).level)) = some (2, 1, 0) by decide)
  rw [Prod.mk.injEq, Prod.mk.injEq] at h
  obtain ⟨hlen, hmax, hlevel⟩ := h
  refine ⟨t, ht, (matchPolicy_inBounds t 0 (by omega) _ _ _).mpr (.inr (.inl ?_))⟩
  rw [hlen, hmax, hlevel]
  decide

/-- Right after the mount there is no level for `MatchCompensatedSize` to index. -/
theorem exists_policy_outOfRange :
    ¬ ∀ t : Records Nat, Reach step (fun _ _ ↦ True) (init natOrder) t →
      ∀ r ∈ t.live, 0 ≤ (t.files r).level → (t.files r).hasKeys = true →
        ∀ caza numeric policy, t.matchPolicy r caza numeric policy ≠ some (.error .outOfRange) := by
  intro h
  have hrun : ∃ t, runAll step (init natOrder) (tableRun 0 0 5) = some t := ⟨_, rfl⟩
  obtain ⟨t, ht⟩ := hrun
  obtain rfl := Option.some.inj ht
  exact h _ (.of_runAll (tableRun 0 0 5) (fun _ _ ↦ trivial) rfl) 0 (by decide) (by decide) rfl
    (fun _ ↦ false) true .kCompensatedSize rfl

end Records

end ZenFs
