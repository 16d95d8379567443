import ZenFs.Levels.WellFormed

/-!
# What ranking divides by

Two helpers rank files by what they overlap with: one divides by the compensated size of
each file, the other by its number of entries.  Both are zero for a new file.  A file is
ranked as soon as it has a level and keys; entries and sizes come with `UpdateMetadata`.
-/

namespace ZenFs

open Alloc (PlacementPolicyType)

/-- The fields of a `ZoneFile` that sizes are computed from. -/
structure FileSizes where
  numEntries : Nat := 0
  numDeletions : Nat := 0
  numRangeDeletions : Nat := 0
  fileSizeMeta : Nat := 0
  fileSize : Nat := 0
  allocSize : Nat := 0
  compensatedRangeDeletionSize : Nat := 0
  compensatedFileSize : Nat := 0
deriving DecidableEq, Repr

namespace FileSizes

variable (z : FileSizes) (average_value_size : Nat)

/-- `ZoneFile::UpdateMetadata`. -/
def updateMetadata (num_entries num_deletions num_range_deletions file_size
    compensated_range_deletion_size : Nat) : FileSizes :=
  { z with
    numEntries := max z.numEntries num_entries
    numDeletions := max z.numDeletions num_deletions
    numRangeDeletions := max z.numRangeDeletions num_range_deletions
    fileSizeMeta := max z.fileSizeMeta file_size
    compensatedRangeDeletionSize :=
      max z.compensatedRangeDeletionSize compensated_range_deletion_size }

/-- `ZoneFile::UpdateMetadata` with the properties of a table. -/
def updateTableProperties (num_entries num_deletions num_range_deletions data_size : Nat) :
    FileSizes :=
  { z with
    numEntries := max z.numEntries num_entries
    numDeletions := max z.numDeletions num_deletions
    numRangeDeletions := max z.numRangeDeletions num_range_deletions
    fileSizeMeta := max z.fileSizeMeta data_size }

/-- The size that is known of the file. -/
def knownSize : Nat := max (max z.fileSizeMeta z.fileSize) z.allocSize

/-- `(num_deletions_ - num_range_deletions_) * 2`, in 64 bits. -/
def tombstones : Nat := ((2 * (z.numDeletions - z.numRangeDeletions : Int)) % 2 ^ 64).toNat

/-- `ZoneFile::ComputeCompensatedSize`. -/
def computeCompensatedSize : FileSizes :=
  { z with
    fileSizeMeta := z.knownSize
    compensatedFileSize :=
      (z.knownSize + (if z.numEntries ≤ z.tombstones then (z.tombstones - z.numEntries) *
        average_value_size * 2 else 0) + z.compensatedRangeDeletionSize) % 2 ^ 64 }

/-- The compensated size is positive, and computed without wrapping. -/
def Sized : Prop :=
  z.numRangeDeletions ≤ z.numDeletions ∧ 2 * (z.numDeletions - z.numRangeDeletions) < 2 ^ 64 ∧
    0 < z.knownSize + (2 * (z.numDeletions - z.numRangeDeletions) - z.numEntries) *
    average_value_size * 2 +
      z.compensatedRangeDeletionSize ∧
    z.knownSize + (2 * (z.numDeletions - z.numRangeDeletions) - z.numEntries) *
      average_value_size * 2 + z.compensatedRangeDeletionSize < 2 ^ 64

instance : Decidable (z.Sized average_value_size) := by
  unfold Sized
  infer_instance

variable {z average_value_size}

theorem knownSize_computeCompensatedSize :
    (z.computeCompensatedSize average_value_size).knownSize = z.knownSize := by
  unfold computeCompensatedSize knownSize
  dsimp only
  omega

theorem Sized.computeCompensatedSize (h : z.Sized average_value_size) :
    (z.computeCompensatedSize average_value_size).Sized average_value_size := by
  unfold Sized at h ⊢
  rwa [knownSize_computeCompensatedSize]

theorem Sized.compensatedFileSize_pos (h : z.Sized average_value_size) :
    0 < (z.computeCompensatedSize average_value_size).compensatedFileSize := by
  obtain ⟨hranges, htwice, hpos, hlt⟩ := h
  have htombstones : z.tombstones = 2 * (z.numDeletions - z.numRangeDeletions) := by
    unfold tombstones
    omega
  unfold FileSizes.computeCompensatedSize
  dsimp only
  rw [htombstones]
  split
  · rwa [Nat.mod_eq_of_lt hlt]
  · rename_i hfew
    rw [Nat.sub_eq_zero_of_le (by omega), Nat.zero_mul, Nat.zero_mul] at hpos hlt
    rwa [Nat.mod_eq_of_lt hlt]

end FileSizes

/-- The records with the sizes of the files, the divisors that have been passed to the
helpers so far, and whether one of them was a zero to divide by. -/
structure Ranking (K : Type) where
  records : Records K
  sizes : Ref → FileSizes := fun _ ↦ {}
  averageValueSize : Nat := 4080
  divisors : List Nat := []
  fault : Bool := false

namespace Ranking

open Records (Act Ranked recordable)

variable {K : Type} (s : Ranking K) (r : Ref)

/-- What the two helpers have in common.  They look at no divisor if a level is missing. -/
def overlapRankHelper (divisor : FileSizes → Nat) (container : List Ref)
    (own_level target_level : Int) : Ranking K :=
  if s.fault then s
  else
    { s with
      divisors := s.divisors ++ container.map fun x ↦ divisor (s.sizes x)
      fault := s.records.hasLevel own_level && s.records.hasLevel target_level &&
        container.any fun x ↦ divisor (s.sizes x) == 0 }

/-- `OverlapRankHelperSizeBased`. -/
def overlapRankHelperSizeBased := s.overlapRankHelper (·.compensatedFileSize)

/-- `OverlapRankHelperKeyBased`. -/
def overlapRankHelperKeyBased := s.overlapRankHelper (·.numEntries)

/-- The file and the recorded files, whose compensated sizes are computed anew. -/
def recompute : Ranking K :=
  { s with
    sizes := fun x ↦
      if x ∈ r :: s.records.lists.flatten then
        (s.sizes x).computeCompensatedSize s.averageValueSize
      else s.sizes x }

/-- What a policy does beyond `Records.matchPolicy`. -/
def rank (ranked : Ranked K) : PlacementPolicyType → Ranking K
  | .kOverlapChildren =>
      let level := s.records.movedLevel r
      let s := { s.recompute r with records := ranked.records }
      (s.overlapRankHelperSizeBased ranked.own level (level + 1)).overlapRankHelperSizeBased
        ranked.upper (level - 1) level
  | .kOverlapGrandchildren =>
      let level := s.records.movedLevel r
      let s := { s.recompute r with records := ranked.records }
      (s.overlapRankHelperSizeBased ranked.own level (level + 2)).overlapRankHelperSizeBased
        ranked.upper (level - 1) (level + 1)
  | .kCompensatedSize => { s.recompute r with records := ranked.records }
  | .kOAZA =>
      let level := (s.records.files r).level
      let target_level := if level < s.records.maxLevel then level + 1 else level - 1
      let s := { s.recompute r with records := ranked.records }
      s.overlapRankHelperKeyBased ranked.own level target_level
  | _ => { s with records := ranked.records }

/-- A policy. -/
def matchPolicy (caza : Int → Bool) (numeric : Bool) (policy : PlacementPolicyType) :
    Option (Ranking K) :=
  match s.records.matchPolicy r caza numeric policy with
  | some (.ok ranked) => some (s.rank r ranked policy)
  | _ => none

/-- `GetBestOpenZoneMatch`. -/
def getBestOpenZoneMatch (primary fallback : PlacementPolicyType) (caza : Int → Bool)
    (numeric found : Bool) : Option (Ranking K) :=
  if recordable (s.records.files r) = false then some s
  else
    (s.matchPolicy r caza numeric primary).bind fun s ↦
      if found || s.fault then some s else s.matchPolicy r caza numeric fallback

/-- What an allocation notes about the level of the file. -/
def noteLevel : Ranking K := { s with records := s.records.noteLevel (s.records.files r).level }

/-- What an allocation does. -/
def allocate (primary fallback : PlacementPolicyType) (caza : Int → Bool)
    (numeric found empty : Bool) : Option (Ranking K) :=
  let s := s.noteLevel r
  (s.getBestOpenZoneMatch r primary fallback caza numeric found).map fun s ↦ if empty then
    s.noteLevel r else s

/-- A function on files or records, an update of the metadata, or a change of the sizes of
a file by a write or an allocation. -/
inductive Label (K : Type) where
  | act (a : Act K)
  | updateMetadata (r : Ref) (num_entries num_deletions num_range_deletions file_size
      compensated_range_deletion_size average_value_size : Nat)
  | updateTableProperties (r : Ref) (num_entries num_deletions num_range_deletions data_size : Nat)
  | setSizes (r : Ref) (file_size alloc_size : Nat)

def setSizes (z : FileSizes) : Ranking K := { s with sizes := Function.update s.sizes r z }

/-- One function runs; a division by zero is the last thing that happens. -/
def step [Inhabited K] (s : Ranking K) (l : Label K) : Option (Ranking K) :=
  if s.fault then none
  else
    match l with
    | .act (.allocate r primary fallback caza numeric found empty) =>
        if r ∈ s.records.live then s.allocate r primary fallback caza numeric found empty else none
    | .act (.create r ioType) =>
        (s.records.step (.create r ioType)).map fun t ↦ { s.setSizes r {} with records := t }
    | .act a => (s.records.step a).map fun t ↦ { s with records := t }
    | .updateMetadata r num_entries num_deletions num_range_deletions file_size crds
        average_value_size =>
        if r ∈ s.records.live then
          let s := s.setSizes r <|
            (s.sizes r).updateMetadata num_entries num_deletions num_range_deletions file_size crds
          some (if average_value_size = 0 then s else { s with
            averageValueSize := average_value_size })
        else none
    | .updateTableProperties r num_entries num_deletions num_range_deletions data_size =>
        if r ∈ s.records.live then
          some <| s.setSizes r <|
            (s.sizes r).updateTableProperties num_entries num_deletions
            num_range_deletions data_size
        else none
    | .setSizes r file_size alloc_size =>
        if r ∈ s.records.live then
          some (s.setSizes r { s.sizes r with fileSize := file_size, allocSize := alloc_size })
        else none

/-- After the mount. -/
def init [Inhabited K] (order : KeyCompare K) : Ranking K where
  records := Records.init order

/-- The policies that rank by size. -/
def ranksBySize : PlacementPolicyType → Bool
  | .kOverlapChildren | .kOverlapGrandchildren => true
  | _ => false

/-- One of the policies that are tried. -/
def tried (primary fallback : PlacementPolicyType) (found : Bool) (p : PlacementPolicyType → Bool) :
    Prop :=
  p primary = true ∨ found = false ∧ p fallback = true

/-- The steps that never divide by zero: a file has entries when it is recorded and when it
is ranked by its entries; all files that are ranked by size have one; and no file gets the
place of a file that is still listed. -/
def Counted (s : Ranking K) : Label K → Prop
  | .act (.create r _) => r ∉ s.records.lists.flatten
  | .act (.closeWR r _) => recordable (s.records.files r) = true → 0 < (s.sizes r).numEntries
  | .act (.moveFileToNewLevel r level) =>
      recordable { s.records.files r with level := level } = true → 0 < (s.sizes r).numEntries
  | .act (.allocate r primary fallback _ _ found _) => recordable (s.records.files r) = true →
      (tried primary fallback found Records.records → 0 < (s.sizes r).numEntries) ∧
        (tried primary fallback found ranksBySize →
          ∀ x ∈ r :: s.records.lists.flatten, (s.sizes x).Sized s.averageValueSize)
  | _ => True

instance (primary fallback : PlacementPolicyType) (found : Bool) (p : PlacementPolicyType → Bool) :
    Decidable (tried primary fallback found p) := by
  unfold tried
  infer_instance

instance (s : Ranking K) (l : Label K) : Decidable (s.Counted l) := by
  apply l.casesOn (motive := fun l ↦ Decidable (s.Counted l))
  case act =>
    intro a
    apply a.casesOn (motive := fun a ↦ Decidable (s.Counted (.act a))) <;> intros
      <;> unfold Counted <;> infer_instance
  all_goals
    intros
    unfold Counted
    infer_instance

end Ranking

/-! ## Who is listed and who is ranked -/

namespace Records

variable {K : Type} {t : Records K} {r x : Ref}

theorem mem_addZoneFileRecordNoLock (h : x ∈ (t.addZoneFileRecordNoLock r).lists.flatten) :
    (recordable (t.files r) = true ∧ x = r) ∨ x ∈ t.lists.flatten := by
  rw [addZoneFileRecordNoLock_eq] at h
  split at h
  · rename_i hrec
    rcases List.mem_cons.mp ((Shelves.put_perm _ _ _).mem_iff.mp h) with rfl | h
    · exact .inl ⟨hrec, rfl⟩
    · exact .inr h
  · exact .inr h

theorem mem_removeZoneFileRecordNoLock (h : x ∈ (t.removeZoneFileRecordNoLock r).lists.flatten) :
    x ∈ t.lists.flatten :=
  (Shelves.mem_flatten_take.mp h).1

theorem mem_relevel {level : Int} (h : x ∈ (t.relevel r level).lists.flatten) :
    (recordable { t.files r with level := level } = true ∧ x = r) ∨ x ∈ t.lists.flatten := by
  rcases mem_addZoneFileRecordNoLock h with ⟨hrec, rfl⟩ | h
  · left
    simpa [setFile, removeZoneFileRecordNoLock] using hrec
  · exact .inr (mem_removeZoneFileRecordNoLock h)

theorem mem_createOrUpdateRecord (h : x ∈ (t.createOrUpdateRecord r).lists.flatten) :
    (recordable (t.files r) = true ∧ x = r) ∨ x ∈ t.lists.flatten := by
  unfold createOrUpdateRecord at h
  dsimp only at h
  split at h
  · exact .inr h
  · rcases mem_addZoneFileRecordNoLock h with ⟨hrec, rfl⟩ | h
    · left
      split at hrec <;> exact ⟨hrec, rfl⟩
    · split at h
      · exact .inr (mem_removeZoneFileRecordNoLock h)
      · exact .inr h

/-- A policy lists nothing but the file, and only if it is one that records. -/
theorem matchPolicy_listed {caza : Int → Bool} {numeric : Bool} {policy : PlacementPolicyType}
    {ranked : Ranked K} (h : t.matchPolicy r caza numeric policy = some (.ok ranked))
    (hx : x ∈ ranked.records.lists.flatten) :
    (records policy = true ∧ x = r) ∨ x ∈ t.lists.flatten := by
  rcases matchPolicy_records h with heq | ⟨hrec, heq | ⟨level, heq⟩⟩
  · rw [heq] at hx
    exact .inr hx
  · rw [heq] at hx
    rcases mem_addZoneFileRecordNoLock hx with ⟨-, rfl⟩ | hx
    · exact .inl ⟨hrec, rfl⟩
    · exact .inr (mem_removeZoneFileRecordNoLock hx)
  · rw [heq] at hx
    exact (mem_relevel hx).imp_left fun h ↦ ⟨hrec, h.2⟩

theorem getBestOpenZoneMatch_listed {primary fallback : PlacementPolicyType} {caza : Int → Bool}
    {numeric found : Bool} {u : Records K}
    (h : t.getBestOpenZoneMatch r primary fallback caza numeric found = some u)
    (hx : x ∈ u.lists.flatten) : x = r ∨ x ∈ t.lists.flatten := by
  unfold getBestOpenZoneMatch at h
  split at h
  · obtain rfl := Option.some.inj h
    exact .inr hx
  split at h
  · rename_i ranked hprimary
    have hfirst : ∀ y ∈ ranked.records.lists.flatten, y = r ∨ y ∈ t.lists.flatten :=
      fun y hy ↦ (matchPolicy_listed hprimary hy).imp_left And.right
    split at h
    · obtain rfl := Option.some.inj h
      exact hfirst x hx
    split at h
    · rename_i ranked' hfallback
      obtain rfl := Option.some.inj h
      rcases matchPolicy_listed hfallback hx with ⟨-, rfl⟩ | hx
      · exact .inl rfl
      · exact hfirst x hx
    · cases h
  · cases h

theorem mem_of_levelList {level : Int} {xs : List Ref} (h : t.levelList level = .ok xs)
    (hx : x ∈ xs) : x ∈ t.lists.flatten := by
  unfold levelList at h
  split at h
  · cases h
    rw [List.getD_eq_getElem?_getD] at hx
    cases hget : t.lists[level.toNat]? with
    | none =>
        rw [hget] at hx
        cases hx
    | some ys =>
        rw [hget] at hx
        exact List.mem_flatten_of_mem (List.mem_of_getElem? hget) hx
  · cases h

/-- The file is ranked with files that are listed. -/
theorem rankFiles_mem {level first : Int} {ranked : Ranked K}
    (h : t.rankFiles r level first = .ok ranked)
    (hx : x ∈ ranked.own ∨ x ∈ ranked.upper) : x ∈ r :: t.lists.flatten := by
  have hcons : ∀ {xs : List Ref}, (∀ y ∈ xs, y ∈ t.lists.flatten) → x ∈ r :: xs.filter (· ≠ r) →
      x ∈ r :: t.lists.flatten := by
    intro xs hxs hx
    rcases List.mem_cons.mp hx with rfl | hx
    · exact List.mem_cons_self
    · exact List.mem_cons_of_mem _ (hxs x (List.mem_of_mem_filter hx))
  unfold rankFiles at h
  split at h
  · cases h
  · rename_i own hown
    dsimp only at h
    split at h
    · split at h
      · cases h
      · rename_i upper hupper
        cases h
        rcases hx with hx | hx
        · exact hcons (fun _ ↦ mem_of_levelList hown) hx
        · exact hcons (fun _ ↦ mem_of_levelList hupper) (List.mem_cons_of_mem _ hx)
    · cases h
      rcases hx with hx | hx
      · exact hcons (fun _ ↦ mem_of_levelList hown) hx
      · cases hx

theorem matchOverlapChildren_mem {ranked : Ranked K} (h : t.matchOverlapChildren r = .ok ranked)
    (hx : x ∈ ranked.own ∨ x ∈ ranked.upper) : x ∈ r :: ranked.records.lists.flatten := by
  unfold matchOverlapChildren at h
  dsimp only at h
  generalize (if (t.files r).level < t.movedLevel r then t.relevel r (t.movedLevel r)
    else t) = u at h
  split at h
  · rw [rankFiles_records h]
    exact rankFiles_mem h hx
  · cases h
    rcases hx with hx | hx <;> cases hx

theorem matchOAZA_mem {ranked : Ranked K} (h : t.matchOAZA r = .ok ranked) (hx : x ∈ ranked.own) :
    x ∈ r :: t.lists.flatten := by
  unfold matchOAZA at h
  dsimp only at h
  split at h
  · cases h
    cases hx
  split at h
  · cases h
    cases hx
  split at h
  · cases h
    cases hx
  split at h
  · cases h
  · rename_i own hown
    cases h
    rcases List.mem_cons.mp hx with rfl | hx
    · exact List.mem_cons_self
    · exact List.mem_cons_of_mem _ (mem_of_levelList hown (List.mem_of_mem_filter hx))

end Records

/-! ## Runs -/

namespace Ranking

open Records (Act Ranked recordable)

variable {K : Type} {s s' : Ranking K} {r : Ref} {caza : Int → Bool} {numeric : Bool}
  {policy : PlacementPolicyType}

/-- Every file that is listed has entries, and nothing has been divided by zero. -/
structure Safe (s : Ranking K) : Prop where
  listed : ∀ x ∈ s.records.lists.flatten, 0 < (s.sizes x).numEntries
  divisors : ∀ d ∈ s.divisors, 0 < d
  noFault : s.fault = false

/-- Every file that may be ranked by size has one. -/
def AllSized (s : Ranking K) (r : Ref) : Prop :=
  ∀ x ∈ r :: s.records.lists.flatten, (s.sizes x).Sized s.averageValueSize

/-- What a helper does to files that all have a divisor. -/
structure Passed (s s' : Ranking K) : Prop where
  records : s'.records = s.records
  sizes : s'.sizes = s.sizes
  averageValueSize : s'.averageValueSize = s.averageValueSize
  divisors : ∀ d ∈ s'.divisors, d ∈ s.divisors ∨ 0 < d
  noFault : s'.fault = s.fault

theorem Passed.trans {s'' : Ranking K} (h : Passed s s') (h' : Passed s' s'') : Passed s s'' where
  records := h'.records.trans h.records
  sizes := h'.sizes.trans h.sizes
  averageValueSize := h'.averageValueSize.trans h.averageValueSize
  divisors := fun d hd ↦ (h'.divisors d hd).elim (h.divisors d) .inr
  noFault := h'.noFault.trans h.noFault

theorem overlapRankHelper_passed {divisor : FileSizes → Nat} {container : List Ref}
    (own_level target_level : Int)
    (hnone : s.fault = false) (h : ∀ x ∈ container, 0 < divisor (s.sizes x)) :
    Passed s (s.overlapRankHelper divisor container own_level target_level) := by
  have hany : (container.any fun x ↦ divisor (s.sizes x) == 0) = false := by
    rw [List.any_eq_false]
    intro x hx hzero
    rw [beq_iff_eq] at hzero
    have := h x hx
    omega
  unfold overlapRankHelper
  rw [hnone, if_neg Bool.false_ne_true, hany, Bool.and_false]
  refine ⟨rfl, rfl, rfl, fun d hd ↦ ?_, hnone.symm⟩
  rcases List.mem_append.mp hd with hd | hd
  · exact .inl hd
  · obtain ⟨x, hx, rfl⟩ := List.mem_map.mp hd
    exact .inr (h x hx)

theorem numEntries_recompute (s : Ranking K) (r x : Ref) :
    ((s.recompute r).sizes x).numEntries = (s.sizes x).numEntries := by
  unfold recompute
  dsimp only
  split <;> rfl

theorem sized_recompute {x : Ref} (h : (s.sizes x).Sized s.averageValueSize) :
    ((s.recompute r).sizes x).Sized s.averageValueSize := by
  unfold recompute
  dsimp only
  split
  · exact h.computeCompensatedSize
  · exact h

theorem compensatedFileSize_recompute (h : s.AllSized r) {x : Ref}
    (hx : x ∈ r :: s.records.lists.flatten) :
    0 < ((s.recompute r).sizes x).compensatedFileSize := by
  unfold recompute
  dsimp only
  rw [if_pos hx]
  exact (h x hx).compensatedFileSize_pos

/-- What a policy does to the sizes: it may compute some anew. -/
def SameSizes (s s' : Ranking K) : Prop :=
  s'.averageValueSize = s.averageValueSize ∧
    ∀ x, (s'.sizes x).numEntries = (s.sizes x).numEntries ∧
      ((s.sizes x).Sized s.averageValueSize → (s'.sizes x).Sized s.averageValueSize)

/-- What a policy leaves if it passes no zero. -/
structure Ranks (s s' : Ranking K) (ranked : Ranked K) : Prop where
  divisors : ∀ d ∈ s'.divisors, 0 < d
  noFault : s'.fault = false
  records : s'.records = ranked.records
  sizes : SameSizes s s'

theorem Passed.ranks {ranked : Ranked K}
    (h : Passed { s.recompute r with records := ranked.records } s')
    (hs : s.Safe) : Ranks s s' ranked where
  divisors := fun d hd ↦ (h.divisors d hd).elim (hs.divisors d) id
  noFault := h.noFault.trans hs.noFault
  records := h.records
  sizes := by
    refine ⟨h.averageValueSize, fun x ↦ ?_⟩
    rw [h.sizes]
    exact ⟨numEntries_recompute s r x, sized_recompute⟩

/-- A policy passes no zero if the file has entries when it is recorded, and all files have
a size when they are ranked by it. -/
theorem rank_ranks {ranked : Ranked K} (hs : s.Safe)
    (hm : s.records.matchPolicy r caza numeric policy = some (.ok ranked))
    (hentries : Records.records policy = true → 0 < (s.sizes r).numEntries)
    (hsized : ranksBySize policy = true → s.AllSized r) :
    Ranks s (s.rank r ranked policy) ranked := by
  have hpass : ∀ {container : List Ref}, (∀ x ∈ container, x ∈ r :: s.records.lists.flatten) →
    s.AllSized r →
      ∀ x ∈ container, 0 < ((s.recompute r).sizes x).compensatedFileSize :=
    fun hmem hall x hx ↦ compensatedFileSize_recompute hall (hmem x hx)
  have hrest : Ranks s { s with records := ranked.records } ranked :=
    ⟨hs.divisors, hs.noFault, rfl, rfl, fun _ ↦ ⟨rfl, id⟩⟩
  cases policy with
  | kOverlapChildren =>
      have hmem : ∀ x, x ∈ ranked.own ∨ x ∈ ranked.upper → x ∈ r :: s.records.lists.flatten := by
        intro x hx
        rcases List.mem_cons.mp (Records.matchOverlapChildren_mem (Option.some.inj hm) hx) with
          rfl | hx
        · exact List.mem_cons_self
        · rcases Records.matchPolicy_listed hm hx with ⟨-, rfl⟩ | hx
          · exact List.mem_cons_self
          · exact List.mem_cons_of_mem _ hx
      have hown := @overlapRankHelper_passed K { s.recompute r with records := ranked.records }
        (·.compensatedFileSize)
        ranked.own (s.records.movedLevel r) (s.records.movedLevel r + 1) hs.noFault
        (hpass (fun x hx ↦ hmem x (.inl hx)) (hsized rfl))
      refine (hown.trans (overlapRankHelper_passed _ _ (hown.noFault.trans hs.noFault) ?_)).ranks hs
      rw [hown.sizes]
      exact hpass (fun x hx ↦ hmem x (.inr hx)) (hsized rfl)
  | kOverlapGrandchildren =>
      have hmem : ∀ x, x ∈ ranked.own ∨ x ∈ ranked.upper → x ∈ r :: s.records.lists.flatten :=
        fun _ hx ↦ Records.rankFiles_mem (Option.some.inj hm) hx
      have hown := @overlapRankHelper_passed K { s.recompute r with records := ranked.records }
        (·.compensatedFileSize)
        ranked.own (s.records.movedLevel r) (s.records.movedLevel r + 2) hs.noFault
        (hpass (fun x hx ↦ hmem x (.inl hx)) (hsized rfl))
      refine (hown.trans (overlapRankHelper_passed _ _ (hown.noFault.trans hs.noFault) ?_)).ranks hs
      rw [hown.sizes]
      exact hpass (fun x hx ↦ hmem x (.inr hx)) (hsized rfl)
  | kOAZA =>
      refine Passed.ranks (r := r) (overlapRankHelper_passed _ _ hs.noFault ?_) hs
      intro x hx
      show 0 < ((s.recompute r).sizes x).numEntries
      rw [numEntries_recompute]
      rcases List.mem_cons.mp (Records.matchOAZA_mem (Option.some.inj hm) hx) with rfl | hx
      · exact hentries rfl
      · exact hs.listed x hx
  | kCompensatedSize => exact Passed.ranks (r := r) ⟨rfl, rfl, rfl, fun _ ↦ .inl, rfl⟩ hs
  | _ => exact hrest

/-- A policy keeps the state safe. -/
theorem matchPolicy_safe (hs : s.Safe) (h : s.matchPolicy r caza numeric policy = some s')
    (hentries : Records.records policy = true → 0 < (s.sizes r).numEntries)
    (hsized : ranksBySize policy = true → s.AllSized r) :
    s'.Safe ∧ SameSizes s s' ∧ ∀ x ∈ s'.records.lists.flatten,
    x ∈ r :: s.records.lists.flatten := by
  unfold matchPolicy at h
  split at h
  · rename_i ranked hm
    obtain rfl := Option.some.inj h
    have hranks := rank_ranks hs hm hentries hsized
    refine ⟨⟨fun x hx ↦ ?_, hranks.divisors, hranks.noFault⟩, hranks.sizes, fun x hx ↦ ?_⟩
    · rw [hranks.records] at hx
      rw [(hranks.sizes.2 x).1]
      rcases Records.matchPolicy_listed hm hx with ⟨hrec, rfl⟩ | hx
      · exact hentries hrec
      · exact hs.listed x hx
    · rw [hranks.records] at hx
      rcases Records.matchPolicy_listed hm hx with ⟨-, rfl⟩ | hx
      · exact List.mem_cons_self
      · exact List.mem_cons_of_mem _ hx
  · cases h

theorem getBestOpenZoneMatch_safe {primary fallback : PlacementPolicyType} {found : Bool}
    (hs : s.Safe) (hcounted : recordable (s.records.files r) = true →
      (tried primary fallback found Records.records → 0 < (s.sizes r).numEntries) ∧
        (tried primary fallback found ranksBySize → s.AllSized r))
    (h : s.getBestOpenZoneMatch r primary fallback caza numeric found = some s') : s'.Safe := by
  unfold getBestOpenZoneMatch at h
  split at h
  · obtain rfl := Option.some.inj h
    exact hs
  · rename_i hrec
    obtain ⟨hentries, hsized⟩ := hcounted (Bool.not_eq_false _ ▸ hrec)
    obtain ⟨s₁, hprimary, h⟩ := Option.bind_eq_some_iff.mp h
    obtain ⟨hsafe, ⟨havg, hsame⟩, hlisted⟩ :=
      matchPolicy_safe hs hprimary (fun hp ↦ hentries (.inl hp)) fun hp ↦ hsized (.inl hp)
    rw [hsafe.noFault, Bool.or_false] at h
    split at h
    · obtain rfl := Option.some.inj h
      exact hsafe
    · rename_i hfound
      rw [Bool.not_eq_true] at hfound
      refine (matchPolicy_safe hsafe h (fun hp ↦ ?_) fun hp x hx ↦ ?_).1
      · rw [(hsame r).1]
        exact hentries (.inr ⟨hfound, hp⟩)
      · -- the primary policy has listed no file but this one
        rw [havg]
        refine (hsame x).2 (hsized (.inr ⟨hfound, hp⟩) x ?_)
        rcases List.mem_cons.mp hx with rfl | hx
        · exact List.mem_cons_self
        · exact hlisted x hx

theorem noteLevel_safe (hs : s.Safe) : (s.noteLevel r).Safe := by
  obtain ⟨maxLevel, heq⟩ := s.records.noteLevel_eq (s.records.files r).level
  unfold noteLevel
  rw [heq]
  exact ⟨hs.listed, hs.divisors, hs.noFault⟩

/-- Other records, of which those that are listed have entries. -/
theorem Safe.of_records {t : Records K} {sizes : Ref → FileSizes} (hs : s.Safe)
    (h : ∀ x ∈ t.lists.flatten, 0 < (sizes x).numEntries) :
    ({ s with records := t, sizes := sizes } : Ranking K).Safe :=
  ⟨h, hs.divisors, hs.noFault⟩

/-- A change of the sizes that leaves at least as many entries. -/
theorem setSizes_safe {z : FileSizes} (hs : s.Safe) (h : (s.sizes r).numEntries ≤ z.numEntries) :
    (s.setSizes r z).Safe := by
  refine ⟨fun x hx ↦ ?_, hs.divisors, hs.noFault⟩
  by_cases hxr : x = r
  · subst hxr
    simp only [setSizes, Function.update_self]
    exact (hs.listed x hx).trans_le h
  · simp only [setSizes, Function.update_of_ne hxr]
    exact hs.listed x hx

theorem overlapRankHelper_records (divisor : FileSizes → Nat) (container : List Ref)
    (own_level target_level : Int) :
    (s.overlapRankHelper divisor container own_level target_level).records = s.records := by
  unfold overlapRankHelper
  split <;> rfl

theorem rank_records (ranked : Ranked K) : (s.rank r ranked policy).records = ranked.records := by
  cases policy with
  | kOverlapChildren | kOverlapGrandchildren =>
      exact (overlapRankHelper_records _ _ _ _).trans (overlapRankHelper_records _ _ _ _)
  | kOAZA => exact overlapRankHelper_records _ _ _ _
  | _ => rfl

theorem matchPolicy_records (h : s.matchPolicy r caza numeric policy = some s') :
    ∃ ranked, s.records.matchPolicy r caza numeric policy = some (.ok ranked) ∧
    s'.records = ranked.records := by
  unfold matchPolicy at h
  split at h
  · rename_i ranked hm
    obtain rfl := Option.some.inj h
    exact ⟨ranked, hm, rank_records ranked⟩
  · cases h

theorem getBestOpenZoneMatch_records {primary fallback : PlacementPolicyType} {found : Bool}
    (h : s.getBestOpenZoneMatch r primary fallback caza numeric found = some s')
    (hnone : s'.fault = false) :
    s.records.getBestOpenZoneMatch r primary fallback caza numeric found = some s'.records := by
  unfold getBestOpenZoneMatch at h
  unfold Records.getBestOpenZoneMatch
  split at h
  · rename_i hrec
    obtain rfl := Option.some.inj h
    exact if_pos hrec
  · rename_i hrec
    obtain ⟨s₁, hprimary, h⟩ := Option.bind_eq_some_iff.mp h
    obtain ⟨ranked, hm, heq⟩ := matchPolicy_records hprimary
    rw [if_neg hrec, hm]
    dsimp only
    split at h
    · rename_i hstop
      obtain rfl := Option.some.inj h
      rw [hnone, Bool.or_false] at hstop
      rw [if_pos hstop, heq]
    · rename_i hgo
      obtain ⟨ranked', hm', heq'⟩ := matchPolicy_records h
      rw [heq] at hm'
      rw [if_neg (fun hfound ↦ hgo (by rw [hfound, Bool.true_or])), hm', heq']

variable [Inhabited K]

/-- The file that a function records. -/
def recordedBy (s : Ranking K) : Act K → Option Ref
  | .closeWR r _ => if recordable (s.records.files r) then some r else none
  | .moveFileToNewLevel r level =>
      if recordable { s.records.files r with level := level } then some r else none
  | .allocate r _ _ _ _ _ _ => some r
  | _ => none

/-- A function lists nothing but the file that it records. -/
theorem step_listed {a : Act K} {t : Records K} (ht : s.records.step a = some t) {x : Ref}
    (hx : x ∈ t.lists.flatten) : s.recordedBy a = some x ∨ x ∈ s.records.lists.flatten := by
  unfold Records.step at ht
  split at ht
  · cases a with
    | allocate r primary fallback caza numeric found empty =>
        obtain ⟨u, hu, rfl⟩ := Option.map_eq_some_iff.mp ht
        have hx : x ∈ u.lists.flatten := by
          split at hx
          · rwa [(u.noteLevel_eq _).choose_spec] at hx
          · exact hx
        obtain ⟨maxLevel, heq⟩ := s.records.noteLevel_eq (s.records.files r).level
        rw [heq] at hu
        exact (Records.getBestOpenZoneMatch_listed hu hx).imp_left (congrArg some ·.symm)
    | closeWR r persisted =>
        obtain rfl := Option.some.inj ht
        rcases Records.mem_createOrUpdateRecord hx with ⟨hrec, rfl⟩ | hx
        · exact .inl (if_pos hrec)
        · exact .inr hx
    | moveFileToNewLevel r level =>
        obtain rfl := Option.some.inj ht
        rcases Records.mem_relevel hx with ⟨hrec, rfl⟩ | hx
        · exact .inl (if_pos hrec)
        · exact .inr hx
    | delete r =>
        obtain rfl := Option.some.inj ht
        exact .inr (Records.mem_removeZoneFileRecordNoLock hx)
    | _ =>
        obtain rfl := Option.some.inj ht
        exact .inr hx
  · cases ht

/-- A function that is no allocation. -/
theorem act_safe {a : Act K} {t : Records K} (hs : s.Safe) (ht : s.records.step a = some t)
    (hentries : ∀ r, s.recordedBy a = some r → 0 < (s.sizes r).numEntries) :
    ({ s with records := t } : Ranking K).Safe := by
  refine hs.of_records fun x hx ↦ ?_
  rcases step_listed ht hx with hrec | hx
  · exact hentries x hrec
  · exact hs.listed x hx

/-- One step. -/
theorem step_safe {l : Label K} (hs : s.Safe) (hcounted : s.Counted l) (h : s.step l = some s') :
    s'.Safe := by
  unfold step at h
  rw [if_neg (Bool.not_eq_true _ ▸ hs.noFault)] at h
  cases l with
  | act a =>
      cases a with
      | allocate r primary fallback caza numeric found empty =>
          dsimp only at h
          split at h
          · obtain ⟨s₁, h₁, rfl⟩ := Option.map_eq_some_iff.mp h
            obtain ⟨maxLevel, heq⟩ := s.records.noteLevel_eq (s.records.files r).level
            have hsafe : s₁.Safe := by
              refine getBestOpenZoneMatch_safe (noteLevel_safe hs) ?_ h₁
              unfold noteLevel AllSized
              rw [heq]
              exact hcounted
            split
            · exact noteLevel_safe hsafe
            · exact hsafe
          · cases h
      | create r ioType =>
          obtain ⟨t, ht, rfl⟩ := Option.map_eq_some_iff.mp h
          refine hs.of_records fun x hx ↦ ?_
          have hx : x ∈ s.records.lists.flatten := (step_listed ht hx).resolve_left nofun
          have hxr : x ≠ r := by
            rintro rfl
            exact hcounted hx
          show 0 < (Function.update s.sizes r {} x).numEntries
          rw [Function.update_of_ne hxr]
          exact hs.listed x hx
      | closeWR r persisted =>
          obtain ⟨t, ht, rfl⟩ := Option.map_eq_some_iff.mp h
          refine act_safe hs ht fun x hx ↦ ?_
          obtain ⟨hrec, ⟨⟩⟩ := Option.ite_none_right_eq_some.mp hx
          exact hcounted hrec
      | moveFileToNewLevel r level =>
          obtain ⟨t, ht, rfl⟩ := Option.map_eq_some_iff.mp h
          refine act_safe hs ht fun x hx ↦ ?_
          obtain ⟨hrec, ⟨⟩⟩ := Option.ite_none_right_eq_some.mp hx
          exact hcounted hrec
      | _ =>
          obtain ⟨t, ht, rfl⟩ := Option.map_eq_some_iff.mp h
          exact act_safe hs ht nofun
  | updateMetadata r num_entries num_deletions num_range_deletions file_size crds
      average_value_size =>
      dsimp only at h
      split at h
      · obtain rfl := Option.some.inj h
        have hsafe : (s.setSizes r _).Safe := setSizes_safe hs
          (z := (s.sizes r).updateMetadata num_entries num_deletions num_range_deletions
            file_size crds)
          (le_max_left (s.sizes r).numEntries num_entries)
        split
        · exact hsafe
        · exact ⟨hsafe.listed, hsafe.divisors, hsafe.noFault⟩
      · cases h
  | updateTableProperties r num_entries num_deletions num_range_deletions data_size =>
      dsimp only at h
      split at h
      · obtain rfl := Option.some.inj h
        exact setSizes_safe hs
          (z := (s.sizes r).updateTableProperties num_entries num_deletions
            num_range_deletions data_size)
          (le_max_left (s.sizes r).numEntries num_entries)
      · cases h
  | setSizes r file_size alloc_size =>
      dsimp only at h
      split at h
      · obtain rfl := Option.some.inj h
        exact setSizes_safe hs (Nat.le_refl _)
      · cases h

/-- As long as nothing is divided by zero, the records change as they do by themselves. -/
theorem step_records {a : Act K} (h : s.step (.act a) = some s') (hnone : s'.fault = false) :
    s.records.step a = some s'.records := by
  unfold step at h
  split at h
  · cases h
  cases a with
  | allocate r primary fallback caza numeric found empty =>
      dsimp only at h
      split at h
      · rename_i hlive
        obtain ⟨s₁, h₁, rfl⟩ := Option.map_eq_some_iff.mp h
        have hnone₁ : s₁.fault = false := by
          cases empty <;> exact hnone
        have hrecords := getBestOpenZoneMatch_records h₁ hnone₁
        refine (if_pos hlive).trans (Option.map_eq_some_iff.mpr ⟨s₁.records, hrecords, ?_⟩)
        cases empty <;> rfl
      · cases h
  | _ =>
      obtain ⟨t, ht, rfl⟩ := Option.map_eq_some_iff.mp h
      exact ht

/-- In every run whose steps are counted, no file with a zero divisor is ranked. -/
theorem divisors_pos (order : KeyCompare K) (h : Reach step Counted (init order) s) :
    (∀ d ∈ s.divisors, 0 < d) ∧ s.fault = false := by
  have hsafe : s.Safe := by
    refine h.invariant (I := Safe) ⟨?_, ?_, rfl⟩ step_safe
    · rintro x ⟨⟩
    · rintro d ⟨⟩
  exact ⟨hsafe.divisors, hsafe.noFault⟩

/-- A table file, with its first key but without metadata, asks for a zone next to a file
that is recorded. -/
def newFile (primary : PlacementPolicyType) : List (Label Nat) :=
  (Records.tableRun 1 1 5).map .act ++ [.updateMetadata 1 1 0 0 100 0 0, .act (.closeWR 1 true)] ++
    (Records.tableRun 0 0 5).map .act ++
      [.act (.allocate 0 primary .kArrivalTimeBased (fun _ ↦ false) true true false)]

/-- The same with metadata. -/
def knownFile : List (Label Nat) :=
  (Records.tableRun 1 1 5).map .act ++ [.updateMetadata 1 1 0 0 100 0 0, .act (.closeWR 1 true)] ++
    (Records.tableRun 0 0 5).map .act ++ [.updateMetadata 0 2 0 0 200 0 0,
      .act (.allocate 0 .kOAZA .kOverlapChildren (fun _ ↦ false) true false false)]

theorem divisors_pos_knownFile : ∃ s, Reach step Counted (init Records.natOrder) s ∧
    s.divisors = [2, 200] ∧ (∀ d ∈ s.divisors, 0 < d) ∧ s.fault = false := by
  obtain ⟨s, hs, hd⟩ := Option.map_eq_some_iff.mp (show ((runAll (fun s l ↦
    if decide (Counted s l) then step s l else none) (init Records.natOrder) knownFile).map
      divisors) = some [2, 200] by decide)
  have hreach := Reach.of_decided hs
  exact ⟨s, hreach, hd, divisors_pos Records.natOrder hreach⟩

/-- `MatchOAZA` divides by the entries of the new file, and `MatchOverlapChildren` by its
size. -/
theorem exists_zero_divisor :
    (¬ ∀ s : Ranking Nat, Reach step (fun _ _ ↦ True) (init Records.natOrder) s →
      ∀ d ∈ s.divisors, 0 < d) ∧ ∀ primary ∈ [PlacementPolicyType.kOAZA, .kOverlapChildren],
        ∃ s, runAll step (init Records.natOrder) (newFile primary) = some s ∧ s.divisors = [0] ∧
        s.fault = true := by
  have hruns : ∀ primary ∈ [PlacementPolicyType.kOAZA, .kOverlapChildren],
      ∃ s, runAll step (init Records.natOrder) (newFile primary) = some s ∧ s.divisors = [0] ∧
      s.fault = true := by
    intro primary hprimary
    have hmap : ((runAll step (init Records.natOrder) (newFile primary)).map fun s ↦
      (s.divisors, s.fault)) =
        some ([0], true) := by
      revert primary
      decide
    obtain ⟨s, hs, h⟩ := Option.map_eq_some_iff.mp hmap
    exact ⟨s, hs, Prod.mk.inj h⟩
  refine ⟨fun h ↦ ?_, hruns⟩
  obtain ⟨s, hs, hd, -⟩ := hruns .kOAZA List.mem_cons_self
  have hpos := h s (.of_any hs) 0
  rw [hd] at hpos
  exact absurd (hpos List.mem_cons_self) (Nat.lt_irrefl 0)

end Ranking

end ZenFs
