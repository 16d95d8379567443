import ZenFs.Alloc.Hotness
import ZenFs.Gc.Select
import ZenFs.Levels.Label

/-!
# Migration of cold files

`MigrateColdFiles` compares, for each zone, the average level of its extents with the
level that its place in the order of the reset counts stands for, and moves the extents of
a zone whose files are too cold for it.  The zone is remembered by its start, in an `int`.
-/

namespace ZenFs

namespace Gc

/-- The fields of a `ZoneExtentSnapshot`. -/
structure ZoneExtentSnapshot where
  start : Nat
  length : Nat
  zoneStart : Nat
  level : Int := -1
  filename : String := ""
deriving DecidableEq, Repr

/-- The parts of a `ZenFSSnapshot` that the collector reads. -/
structure ZenFSSnapshot where
  zones : List ZoneSnapshot := []
  extents : List ZoneExtentSnapshot := []
deriving DecidableEq, Repr

/-- An order that a sort of some zones by their reset counts may leave. -/
structure WearOrder (zones : List ZoneSnapshot) where
  sorted : List ZoneSnapshot
  perm : sorted.Perm zones := by decide
  byResetCount : sorted.Pairwise (·.resetCount ≤ ·.resetCount) := by decide

section Cold

variable (snapshot : ZenFSSnapshot) (order : WearOrder snapshot.zones) (max_level : Nat)

/-- The extents that count for the average level of a zone. -/
def levelExtents (zone_start : Nat) : List ZoneExtentSnapshot :=
  snapshot.extents.filter fun ext ↦ decide (0 ≤ ext.level) && decide (0 < ext.length) &&
    ext.zoneStart == zone_start

/-- `level_map` of a zone behind both loops: the average level, weighted by length. -/
def averageLevel (zone_start : Nat) : ℚ :=
  ((levelExtents snapshot zone_start).map fun ext ↦ (ext.level * ext.length : ℚ)).sum /
    ((levelExtents snapshot zone_start).map fun ext ↦ (ext.length : ℚ)).sum

/-- `diff` of the zone at position `i`, unless it is not in `size_map`. -/
def levelDiff (i : Nat) (zone : ZoneSnapshot) : Option Int :=
  if levelExtents snapshot zone.start = [] then none
  else
    let interval : ℚ := order.sorted.length / max_level
    let ideal_bin := truncate (i / interval)
    let real_bin := truncate (averageLevel snapshot zone.start)
    some (real_bin - ideal_bin)

/-- The loop over the sorted zones; it leaves `max_diff` and `zone_start_max_diff`. -/
def maxDiffLoop : Nat → List ZoneSnapshot → Int × Int → Int × Int
  | _, [], acc => acc
  | i, zone :: zones, (max_diff, zone_start_max_diff) =>
      match levelDiff snapshot order max_level i zone with
      | none => maxDiffLoop (i + 1) zones (max_diff, zone_start_max_diff)
      | some diff =>
          if diff ≤ max_diff then maxDiffLoop (i + 1) zones (max_diff, zone_start_max_diff)
          else maxDiffLoop (i + 1) zones (diff, toInt zone.start)

/-- `MigrateColdFiles`: the extents that are passed to `MigrateExtents`. -/
def migrateColdFiles : List ZoneExtentSnapshot :=
  let zone_start_max_diff := (maxDiffLoop snapshot order max_level 0 order.sorted (0, -1)).2
  if zone_start_max_diff < 3 then []
  else
    snapshot.extents.filter fun ext ↦
      decide (0 ≤ zone_start_max_diff) &&
        decide ((ext.zoneStart : Int) = zone_start_max_diff % 2 ^ 32)

/-- The zone at position `k` has the greatest difference `d`, and is the first that has it. -/
structure FirstGreatest (k : Nat) (zone : ZoneSnapshot) (d : Int) : Prop where
  get : order.sorted[k]? = some zone
  diff : levelDiff snapshot order max_level k zone = some d
  le : ∀ k' zone' d', order.sorted[k']? = some zone' → levelDiff snapshot order max_level k' zone' =
    some d' → d' ≤ d
  lt : ∀ k' zone' d', k' < k → order.sorted[k']? = some zone' →
    levelDiff snapshot order max_level k' zone' = some d' → d' < d

/-- The extents of the first zone with the greatest difference are moved, if it is 3 or
more; nothing is moved otherwise. -/
structure MovesColdest : Prop where
  moves : ∀ k zone d, FirstGreatest snapshot order max_level k zone d → 3 ≤ d →
    migrateColdFiles snapshot order max_level = snapshot.extents.filter (·.zoneStart == zone.start)
  keeps : (∀ k zone d, order.sorted[k]? = some zone → levelDiff snapshot order max_level k zone =
    some d → d < 3) → migrateColdFiles snapshot order max_level = []

variable {snapshot order max_level}

theorem FirstGreatest.unique {k k' : Nat} {zone zone' : ZoneSnapshot} {d d' : Int}
    (h : FirstGreatest snapshot order max_level k zone d)
    (h' : FirstGreatest snapshot order max_level k' zone' d') : zone = zone' ∧ d = d' := by
  have hd : d = d' := Int.le_antisymm (h'.le k zone d h.get h.diff)
    (h.le k' zone' d' h'.get h'.diff)
  have hk : k = k' := by
    rcases Nat.lt_trichotomy k k' with hlt | heq | hlt
    · have := h'.lt k zone d hlt h.get h.diff
      omega
    · exact heq
    · have := h.lt k' zone' d' hlt h'.get h'.diff
      omega
  subst hk
  exact ⟨Option.some.inj (h.get.symm.trans h'.get), hd⟩

/-- The loop ends with what it began with, or with the first zone that has the greatest
difference. -/
theorem maxDiffLoop_spec (i : Nat) (zones : List ZoneSnapshot)
    (max_diff zone_start_max_diff : Int) :
    (maxDiffLoop snapshot order max_level i zones (max_diff, zone_start_max_diff) =
      (max_diff, zone_start_max_diff) ∧
        ∀ (k : Nat) zone d, zones[k]? = some zone →
        levelDiff snapshot order max_level (i + k) zone = some d →
          d ≤ max_diff) ∨
      ∃ (k : Nat) (zone : ZoneSnapshot) (d : Int), zones[k]? = some zone ∧
        levelDiff snapshot order max_level (i + k) zone = some d ∧ max_diff < d ∧
        maxDiffLoop snapshot order max_level i zones (max_diff, zone_start_max_diff) =
        (d, toInt zone.start) ∧
        ∀ (k' : Nat) zone' d', zones[k']? = some zone' →
        levelDiff snapshot order max_level (i + k') zone' = some d' →
          d' ≤ d ∧ (k' < k → d' < d) := by
  induction zones generalizing i max_diff zone_start_max_diff with
  | nil => exact .inl ⟨rfl, nofun⟩
  | cons zone zones ih =>
      have hshift : ∀ k, i + (k + 1) = i + 1 + k := fun k ↦ by omega
      -- a zone that does not raise the maximum
      have hskip : (∀ d, levelDiff snapshot order max_level i zone = some d → d ≤ max_diff) →
          maxDiffLoop snapshot order max_level i (zone :: zones) (max_diff, zone_start_max_diff) =
            maxDiffLoop snapshot order max_level (i + 1) zones (max_diff, zone_start_max_diff) := by
        intro hle
        rw [maxDiffLoop]
        cases hd : levelDiff snapshot order max_level i zone with
        | none => rfl
        | some d => exact if_pos (hle d hd)
      by_cases hle : ∀ d, levelDiff snapshot order max_level i zone = some d → d ≤ max_diff
      · rw [hskip hle]
        obtain ⟨heq, hall⟩ | ⟨k, z, d, hget, hdiff, hlt, heq, hall⟩ :=
          ih (i + 1) max_diff zone_start_max_diff
        · refine .inl ⟨heq, fun k z d hget hdiff ↦ ?_⟩
          cases k with
          | zero =>
              obtain rfl := Option.some.inj hget
              exact hle d hdiff
          | succ k => exact hall k z d hget (hshift k ▸ hdiff)
        · refine .inr ⟨k + 1, z, d, hget, (hshift k).symm ▸ hdiff, hlt, heq,
            fun k' z' d' hget' hdiff' ↦ ?_⟩
          cases k' with
          | zero =>
              obtain rfl := Option.some.inj hget'
              have := hle d' hdiff'
              exact ⟨by omega, fun _ ↦ by omega⟩
          | succ k' =>
              obtain ⟨hd', hlt'⟩ := hall k' z' d' hget' (hshift k' ▸ hdiff')
              exact ⟨hd', fun hk ↦ hlt' (by omega)⟩
      · push Not at hle
        obtain ⟨d₀, hd₀, hlt₀⟩ := hle
        have hstep : maxDiffLoop snapshot order max_level i (zone :: zones)
          (max_diff, zone_start_max_diff) =
            maxDiffLoop snapshot order max_level (i + 1) zones (d₀, toInt zone.start) := by
          rw [maxDiffLoop, hd₀]
          exact if_neg (by omega)
        rw [hstep]
        obtain ⟨heq, hall⟩ | ⟨k, z, d, hget, hdiff, hlt, heq, hall⟩ :=
          ih (i + 1) d₀ (toInt zone.start)
        · refine .inr ⟨0, zone, d₀, rfl, hd₀, hlt₀, heq, fun k' z' d' hget' hdiff' ↦ ⟨?_, by omega⟩⟩
          cases k' with
          | zero =>
              obtain rfl := Option.some.inj hget'
              rw [Nat.add_zero, hd₀] at hdiff'
              exact (Option.some.inj hdiff').ge
          | succ k' => exact hall k' z' d' hget' (hshift k' ▸ hdiff')
        · refine .inr ⟨k + 1, z, d, hget, (hshift k).symm ▸ hdiff, by omega, heq,
            fun k' z' d' hget' hdiff' ↦ ?_⟩
          cases k' with
          | zero =>
              obtain rfl := Option.some.inj hget'
              rw [Nat.add_zero, hd₀] at hdiff'
              obtain rfl := Option.some.inj hdiff'
              exact ⟨by omega, fun _ ↦ hlt⟩
          | succ k' =>
              obtain ⟨hd', hlt'⟩ := hall k' z' d' hget' (hshift k' ▸ hdiff')
              exact ⟨hd', fun hk ↦ hlt' (by omega)⟩

/-- With a first greatest difference that is positive, the extents behind the narrowed
start are moved if that is 3 or more. -/
theorem migrateColdFiles_of_pos {k : Nat} {zone : ZoneSnapshot} {d : Int}
    (h : FirstGreatest snapshot order max_level k zone d) (hd : 0 < d) :
    migrateColdFiles snapshot order max_level =
      if toInt zone.start < 3 then []
      else snapshot.extents.filter fun ext ↦ decide ((ext.zoneStart : Int) = toInt zone.start) := by
  have hloop : (maxDiffLoop snapshot order max_level 0 order.sorted (0, -1)).2 =
      toInt zone.start := by
    obtain ⟨-, hall⟩ | ⟨k', zone', d', hget, hdiff, -, heq, hall⟩ :=
      @maxDiffLoop_spec snapshot order max_level 0 order.sorted 0 (-1)
    · have := hall k zone d h.get (by rw [Nat.zero_add]; exact h.diff)
      omega
    · simp only [Nat.zero_add] at hdiff hall
      have hfirst : FirstGreatest snapshot order max_level k' zone' d' :=
        ⟨hget, hdiff, fun j z e hj he ↦ (hall j z e hj he).1, fun j z e hlt hj he ↦
          (hall j z e hj he).2 hlt⟩
      rw [heq, (h.unique hfirst).1]
  unfold migrateColdFiles
  dsimp only
  rw [hloop]
  split
  · rfl
  · rename_i hlarge
    have hmod : toInt zone.start % 2 ^ 32 = toInt zone.start := by
      unfold toInt at hlarge ⊢
      rw [Int.bmod_def] at hlarge ⊢
      omega
    have hnonneg : decide (0 ≤ toInt zone.start) = true := decide_eq_true (by omega)
    refine List.filter_congr fun ext _ ↦ ?_
    rw [hmod, hnonneg, Bool.true_and]

/-- Without a positive difference nothing is moved. -/
theorem migrateColdFiles_of_le
    (h : ∀ k zone d, order.sorted[k]? = some zone → levelDiff snapshot order max_level k zone =
      some d → d ≤ 0) :
    migrateColdFiles snapshot order max_level = [] := by
  unfold migrateColdFiles
  obtain ⟨heq, -⟩ | ⟨k, zone, d, hget, hdiff, hlt, -, -⟩ :=
    @maxDiffLoop_spec snapshot order max_level 0 order.sorted 0 (-1)
  · rw [heq]
    rfl
  · have := h k zone d hget (by rw [← hdiff, Nat.zero_add])
    omega

/-- If there is a difference there is a first greatest one. -/
theorem exists_firstGreatest {k : Nat} {zone : ZoneSnapshot} {d : Int}
    (hget : order.sorted[k]? = some zone)
    (hdiff : levelDiff snapshot order max_level k zone = some d) (hd : 0 < d) :
    ∃ k' zone' d', FirstGreatest snapshot order max_level k' zone' d' ∧ d ≤ d' := by
  obtain ⟨-, hall⟩ | ⟨k', zone', d', hget', hdiff', -, -, hall⟩ :=
    @maxDiffLoop_spec snapshot order max_level 0 order.sorted 0 (-1)
  · have := hall k zone d hget (by rw [Nat.zero_add]; exact hdiff)
    omega
  · simp only [Nat.zero_add] at hdiff' hall
    exact ⟨k', zone', d',
      ⟨hget', hdiff', fun j z e hj he ↦ (hall j z e hj he).1, fun j z e hlt hj he ↦
        (hall j z e hj he).2 hlt⟩,
      (hall k zone d hget hdiff).1⟩

/-- A zone with a difference has extents. -/
theorem exists_extent {k : Nat} {zone : ZoneSnapshot} {d : Int}
    (h : levelDiff snapshot order max_level k zone = some d) :
    ∃ ext ∈ snapshot.extents, ext.zoneStart = zone.start := by
  unfold levelDiff at h
  split at h
  · cases h
  · rename_i hne
    obtain ⟨ext, hext⟩ := List.exists_mem_of_ne_nil _ hne
    obtain ⟨hmem, htest⟩ := List.mem_filter.mp hext
    simp only [Bool.and_eq_true, beq_iff_eq] at htest
    exact ⟨ext, hmem, htest.2⟩

end Cold

/-- `MigrateColdFiles` moves the zone it chose if the zone starts behind 2 and in front of
`2 ^ 31`; a zone chosen for a difference below 3 is moved just as well, unless nothing lies
behind its narrowed start. -/
theorem migrateColdFiles_movesColdest_iff (snapshot : ZenFSSnapshot)
    (order : WearOrder snapshot.zones) (max_level : Nat) :
    MovesColdest snapshot order max_level ↔
      ∀ k zone d, FirstGreatest snapshot order max_level k zone d → 0 < d →
        (3 ≤ d → 3 ≤ zone.start ∧ zone.start < 2 ^ 31) ∧
          (d < 3 → toInt zone.start < 3 ∨ ∀ ext ∈ snapshot.extents, (ext.zoneStart : Int) ≠
            toInt zone.start) := by
  constructor
  · intro hmoves k zone d hfirst hd
    constructor
    · intro h3
      have heq := (hmoves.moves k zone d hfirst h3).symm.trans (migrateColdFiles_of_pos hfirst hd)
      obtain ⟨ext, hext, hstart⟩ := exists_extent hfirst.diff
      have hmem : ext ∈ snapshot.extents.filter (·.zoneStart == zone.start) :=
        List.mem_filter.mpr ⟨hext, by simpa using hstart⟩
      rw [heq] at hmem
      split at hmem
      · cases hmem
      · rename_i hlarge
        have hto := of_decide_eq_true (List.mem_filter.mp hmem).2
        rw [hstart] at hto
        unfold toInt at hto hlarge
        rw [Int.bmod_def] at hto hlarge
        omega
    · intro h3
      have hnone := hmoves.keeps fun k' zone' d' hget hdiff ↦
        (hfirst.le k' zone' d' hget hdiff).trans_lt h3
      rw [migrateColdFiles_of_pos hfirst hd] at hnone
      split at hnone
      · rename_i hsmall
        exact .inl hsmall
      · refine .inr fun ext hext hstart ↦ List.filter_eq_nil_iff.mp hnone ext hext ?_
        exact decide_eq_true hstart
  · intro h
    constructor
    · intro k zone d hfirst h3
      obtain ⟨hge, hlt⟩ := (h k zone d hfirst (by omega)).1 h3
      rw [migrateColdFiles_of_pos hfirst (by omega), toInt_of_lt (by omega) (by omega),
        if_neg (by omega)]
      refine List.filter_congr fun ext _ ↦ ?_
      rw [Bool.eq_iff_iff, decide_eq_true_eq, beq_iff_eq]
      omega
    · intro hbelow
      by_cases hpos : ∃ k zone d, order.sorted[k]? = some zone ∧
          levelDiff snapshot order max_level k zone = some d ∧ 0 < d
      · obtain ⟨k, zone, d, hget, hdiff, hd⟩ := hpos
        obtain ⟨k', zone', d', hfirst, hle⟩ := exists_firstGreatest hget hdiff hd
        have hsmall :=
          (h k' zone' d' hfirst (by omega)).2 (hbelow k' zone' d' hfirst.get hfirst.diff)
        rw [migrateColdFiles_of_pos hfirst (by omega)]
        split
        · rfl
        · rename_i hlarge
          refine List.filter_eq_nil_iff.mpr fun ext hext hstart ↦ ?_
          rcases hsmall with hsmall | hnone
          · exact hlarge hsmall
          · exact hnone ext hext (of_decide_eq_true hstart)
      · refine migrateColdFiles_of_le fun k zone d hget hdiff ↦ not_lt.mp fun hd ↦
          hpos ⟨k, zone, d, hget, hdiff, hd⟩

/-- A zone with extents of level 4, the least worn of two. -/
def coldZone (start : Nat) : ZenFSSnapshot where
  zones := [⟨start, 0, 50, 100, 0, by decide⟩, ⟨64, 0, 50, 100, 1, by decide⟩]
  extents := [{ start := start, length := 50, zoneStart := start, level := 4 }]

/-- The zone that is chosen starts at 4 GiB and nothing is moved. -/
theorem exists_coldest_kept :
    ¬ ∀ (snapshot : ZenFSSnapshot) (order : WearOrder snapshot.zones) (max_level : Nat),
      MovesColdest snapshot order max_level := by
  intro h
  let order : WearOrder (coldZone (2 ^ 32)).zones :=
    { sorted := (coldZone (2 ^ 32)).zones
      perm := .refl _
      byResetCount := by decide }
  have hdiff : levelDiff (coldZone (2 ^ 32)) order 4 0 ⟨2 ^ 32, 0, 50, 100, 0, by decide⟩ =
      some 4 := by
    decide +kernel
  have hother : levelDiff (coldZone (2 ^ 32)) order 4 1 ⟨64, 0, 50, 100, 1, by decide⟩ = none := by
    decide +kernel
  have hfirst : FirstGreatest (coldZone (2 ^ 32)) order 4 0
      ⟨2 ^ 32, 0, 50, 100, 0, by decide⟩ 4 := by
    refine ⟨rfl, hdiff, fun k zone d hget hd ↦ ?_, fun k zone d hlt ↦
      absurd hlt (Nat.not_lt_zero k)⟩
    match k with
    | 0 =>
        obtain rfl := Option.some.inj hget
        rw [hdiff] at hd
        exact (Option.some.inj hd).ge
    | 1 =>
        obtain rfl := Option.some.inj hget
        rw [hother] at hd
        cases hd
    | _ + 2 => cases hget
  have hnone : migrateColdFiles (coldZone (2 ^ 32)) order 4 = [] := by decide +kernel
  have hmoves := (h (coldZone (2 ^ 32)) order 4).moves 0 _ 4 hfirst (by decide)
  rw [hnone] at hmoves
  cases hmoves

end Gc

end ZenFs
