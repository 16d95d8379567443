import ZenFs.Alloc.Select
import Mathlib.Algebra.Order.Floor.Semiring
import Mathlib.Data.List.Sort
import Mathlib.Data.Rat.Floor
import Mathlib.Tactic.Linarith

/-!
# The zone nearest to the interval of a level

`AllocateEmptyZoneHotnessBased` sorts the zones by their reset counts and gives each
level an interval of positions.  It looks for a free empty zone in the interval of the
level, then behind it and in front of it.  This file says which zone it takes, and when
that is a nearest one.
-/

namespace ZenFs

/-- A rational number that is stored in an integer: it is rounded toward zero. -/
def truncate (q : ℚ) : ℤ := if 0 ≤ q then ⌊q⌋ else ⌈q⌉

theorem truncate_of_nonneg {q : ℚ} (h : 0 ≤ q) : truncate q = ⌊q⌋ := if_pos h

theorem truncate_nonneg {q : ℚ} (h : 0 ≤ q) : 0 ≤ truncate q := by
  rw [truncate_of_nonneg h]
  exact Int.floor_nonneg.mpr h

theorem truncate_le {q : ℚ} (h : 0 ≤ q) : (truncate q : ℚ) ≤ q := by
  rw [truncate_of_nonneg h]
  exact Int.floor_le q

namespace Alloc

/-- The two indices of `AllocateEmptyZoneHotnessBased`, computed without rounding. -/
def exactRange (max_level : Nat) (level : Int) (n : Nat) : Int × Int :=
  let interval : ℚ := n / max_level
  (truncate (interval * (level - 1)), ⌈interval * level⌉)

/-- The interval of a level is not empty and lies within the zones. -/
theorem exactRange_spec {max_level n : Nat} {level : Int} (h : 1 ≤ level) (hmax : level ≤ max_level)
    (hn : 0 < n) :
    0 ≤ (exactRange max_level level n).1 ∧
      (exactRange max_level level n).1 < (exactRange max_level level n).2 ∧
      (exactRange max_level level n).2 ≤ n := by
  have hmax' : (0 : ℚ) < max_level := by
    have : (0 : ℤ) < max_level := by omega
    exact_mod_cast this
  have hinterval : (0 : ℚ) < n / max_level := div_pos (by exact_mod_cast hn) hmax'
  have hlow : (0 : ℚ) ≤ n / max_level * (level - 1) := by
    have : (1 : ℚ) ≤ level := by exact_mod_cast h
    exact mul_nonneg hinterval.le (by linarith)
  refine ⟨truncate_nonneg hlow, ?_, Int.ceil_le.mpr ?_⟩
  · have hlt : (n / max_level * (level - 1) : ℚ) < n / max_level * level :=
      mul_lt_mul_of_pos_left (by linarith) hinterval
    exact Int.cast_lt.mp ((truncate_le hlow).trans_lt (hlt.trans_le (Int.le_ceil _)))
  · calc (n / max_level * level : ℚ)
        ≤ n / max_level * max_level := by
          have : (level : ℚ) ≤ max_level := by exact_mod_cast hmax
          exact mul_le_mul_of_nonneg_left this hinterval.le
      _ = ((n : ℤ) : ℚ) := by
          rw [div_mul_cancel₀ _ hmax'.ne']
          rfl

namespace Table

variable (t : Table) (w : Placement) (level : Int)

/-- The zones in the order of their reset counts. -/
def sortedIoZones : List ZoneId := w.sortByWear (fun i ↦ (t.zone i).resetCount) t.ioZones

/-- `lower_index`. -/
def lowerIndex : Nat := (max (w.hotRange t.maxLevel level (t.sortedIoZones w).length).1 0).toNat

/-- `upper_index`. -/
def upperIndex : Nat :=
  (min (w.hotRange t.maxLevel level (t.sortedIoZones w).length).2 (t.sortedIoZones w).length).toNat

/-- There is a free empty zone at position `k`. -/
def Available (k : Nat) : Prop :=
  ∃ i, (t.sortedIoZones w)[k]? = some i ∧ t.busy i = false ∧ (t.zone i).isEmpty = true

/-- How far position `k` is from the interval, whose last position is in front of
`upper_index`. -/
def distance (k : Nat) : Nat := (t.lowerIndex w level - k) + (k - (t.upperIndex w level - 1))

/-- A free empty zone is handed out, and no other is nearer to the interval. -/
def ReturnsNearest (o : Outcome) : Prop :=
  ∃ k i, (t.sortedIoZones w)[k]? = some i ∧ o.zone = some i ∧ t.Available w k ∧
    ∀ j, t.Available w j → t.distance w level k ≤ t.distance w level j

/-- Nothing is free in the interval, and the first free empty zone behind it is farther
away by one than the first in front of it. -/
def OneBehind : Prop :=
  ∃ l u, l < t.lowerIndex w level ∧ t.upperIndex w level ≤ u ∧ t.Available w l ∧ t.Available w u ∧
    (∀ k, l < k → k < u → ¬ t.Available w k) ∧ u - t.upperIndex w level = t.lowerIndex w level - l

section Search

variable {t w level}

theorem range_spec (hrange : w.hotRange = exactRange) (h : 1 ≤ level) (hmax : level ≤ t.maxLevel)
    (hn : 0 < (t.sortedIoZones w).length) :
    t.lowerIndex w level < t.upperIndex w level ∧
    t.upperIndex w level ≤ (t.sortedIoZones w).length := by
  obtain ⟨hlow, hlt, hle⟩ := exactRange_spec h hmax hn
  unfold lowerIndex upperIndex
  rw [hrange]
  omega

theorem not_available_iff {k : Nat} :
    ¬ t.Available w k ↔
      ∀ i, (t.sortedIoZones w)[k]? = some i → t.busy i = false → (t.zone i).isEmpty = false := by
  simp only [Available, not_exists, not_and, Bool.not_eq_true]

/-- The loop for the first empty zone goes past the zones that are busy or not empty. -/
theorem firstEmpty_spec (t : Table) (zs : List ZoneId) :
    ((t.firstEmpty zs).best = none ∧ ∀ i ∈ zs, t.busy i = false → (t.zone i).isEmpty = false) ∨
      ∃ k i, zs[k]? = some i ∧ t.busy i = false ∧ (t.zone i).isEmpty = true ∧
        (t.firstEmpty zs).best = some i ∧ (t.firstEmpty zs).score = k ∧
        ∀ j i', j < k → zs[j]? = some i' → t.busy i' = false → (t.zone i').isEmpty = false := by
  simpa only [Nat.zero_add, firstEmpty] using @TryLock.first_spec _ _ (fun i ↦ (t.zone i).isEmpty)
    t.busy zs 0

/-- The loop over the interval. -/
theorem interval_spec (lower upper : Nat) :
    ((t.firstEmpty (((t.sortedIoZones w).take upper).drop lower)).best = none ∧
        ∀ k, lower ≤ k → k < upper → ¬ t.Available w k) ∨
      ∃ k i, lower ≤ k ∧ k < upper ∧ (t.sortedIoZones w)[k]? = some i ∧ t.Available w k ∧
        (t.firstEmpty (((t.sortedIoZones w).take upper).drop lower)).best = some i := by
  have hget : ∀ k, (((t.sortedIoZones w).take upper).drop lower)[k]? =
      if lower + k < upper then (t.sortedIoZones w)[lower + k]? else none := by
    intro k
    rw [List.getElem?_drop, List.getElem?_take]
  obtain ⟨hnone, hall⟩ | ⟨k, i, hk, hfree, hempty, hbest, -, -⟩ :=
    t.firstEmpty_spec (((t.sortedIoZones w).take upper).drop lower)
  · refine .inl ⟨hnone, fun k hl hu ↦ not_available_iff.mpr fun i hi ↦ hall i ?_⟩
    refine List.mem_of_getElem? (i := k - lower) ?_
    rw [hget, Nat.add_sub_cancel' hl, if_pos hu, hi]
  · rw [hget] at hk
    split at hk
    · rename_i hlt
      exact .inr ⟨lower + k, i, Nat.le_add_right .., hlt, hk, ⟨i, hk, hfree, hempty⟩, hbest⟩
    · cases hk

/-- The loop behind the interval. -/
theorem behind_spec (upper : Nat) :
    ((t.firstEmpty ((t.sortedIoZones w).drop upper)).best = none ∧ ∀ k, upper ≤ k →
      ¬ t.Available w k) ∨ ∃ u i, upper ≤ u ∧ (t.sortedIoZones w)[u]? = some i ∧ t.Available w u ∧
        (t.firstEmpty ((t.sortedIoZones w).drop upper)).best = some i ∧
        (t.firstEmpty ((t.sortedIoZones w).drop upper)).score = u - upper ∧
        ∀ k, upper ≤ k → k < u → ¬ t.Available w k := by
  obtain ⟨hnone, hall⟩ | ⟨k, i, hk, hfree, hempty, hbest, hscore, hbefore⟩ :=
    t.firstEmpty_spec ((t.sortedIoZones w).drop upper)
  · refine .inl ⟨hnone, fun k hu ↦ not_available_iff.mpr fun i hi ↦ hall i ?_⟩
    refine List.mem_of_getElem? (i := k - upper) ?_
    rw [List.getElem?_drop, Nat.add_sub_cancel' hu, hi]
  · rw [List.getElem?_drop] at hk
    refine .inr ⟨upper + k, i, Nat.le_add_right .., hk, ⟨i, hk, hfree, hempty⟩, hbest, ?_, ?_⟩
    · exact hscore.trans (by omega)
    · intro j hu hj
      refine not_available_iff.mpr fun i' hi' ↦ hbefore (j - upper) i' (by omega) ?_
      rw [List.getElem?_drop, Nat.add_sub_cancel' hu, hi']

/-- The loop in front of the interval, which goes backwards. -/
theorem before_spec {lower : Nat} (hlower : lower ≤ (t.sortedIoZones w).length) :
    ((t.firstEmpty ((t.sortedIoZones w).take lower).reverse).best = none ∧
        ∀ k, k < lower → ¬ t.Available w k) ∨
      ∃ l i, l < lower ∧ (t.sortedIoZones w)[l]? = some i ∧ t.Available w l ∧
        (t.firstEmpty ((t.sortedIoZones w).take lower).reverse).best = some i ∧
        (t.firstEmpty ((t.sortedIoZones w).take lower).reverse).score + 1 = lower - l ∧
        ∀ k, l < k → k < lower → ¬ t.Available w k := by
  have hlen : ((t.sortedIoZones w).take lower).length = lower := by
    rw [List.length_take, Nat.min_eq_left hlower]
  have hget : ∀ k, k < lower →
      ((t.sortedIoZones w).take lower).reverse[k]? = (t.sortedIoZones w)[lower - 1 - k]? := by
    intro k hk
    rw [List.getElem?_reverse (by rw [hlen]; exact hk), hlen, List.getElem?_take, if_pos (by omega)]
  obtain ⟨hnone, hall⟩ | ⟨k, i, hk, hfree, hempty, hbest, hscore, hbefore⟩ :=
    t.firstEmpty_spec ((t.sortedIoZones w).take lower).reverse
  · refine .inl ⟨hnone, fun k hk ↦ not_available_iff.mpr fun i hi ↦ hall i ?_⟩
    refine List.mem_of_getElem? (i := lower - 1 - k) ?_
    rw [hget _ (by omega), show lower - 1 - (lower - 1 - k) = k by omega, hi]
  · have hlt : k < lower := by
      have := (List.getElem?_eq_some_iff.mp hk).1
      rwa [List.length_reverse, hlen] at this
    rw [hget k hlt] at hk
    refine .inr ⟨lower - 1 - k, i, by omega, hk, ⟨i, hk, hfree, hempty⟩, hbest, ?_, ?_⟩
    · omega
    · intro j hl hj
      refine not_available_iff.mpr fun i' hi' ↦ hbefore (lower - 1 - j) i' (by omega) ?_
      rw [hget _ (by omega), show lower - 1 - (lower - 1 - j) = j by omega, hi']

/-- Which of the zones that the two loops have found is handed out. -/
def closer (below above : TryLock.Result ZoneId Nat) : Option ZoneId :=
  match below.best, above.best with
  | none, u => u
  | some l, none => some l
  | some l, some u => if below.score + 1 < above.score then some l else some u

theorem chooseCloser_zone (t : Table) (l u : ZoneId) (m n : Nat) :
    (t.chooseCloser l u m n).status = .ok ∧
      (t.chooseCloser l u m n).zone = if m < n then some l else some u := by
  unfold chooseCloser
  split <;> exact ⟨rfl, rfl⟩

/-- The second loop does not see the zone that the first one holds, which lies on the
other side of the interval. -/
theorem allocateOutside_zone (out : Option ZoneId) {behind before : List ZoneId}
    (hapart : ∀ i ∈ before, i ∉ behind)
    (hsome : (t.firstEmpty behind).best ≠ none ∨ (t.firstEmpty before).best ≠ none) :
    ∃ o, t.allocateOutside out behind before true = some o ∧ o.status = .ok ∧
      o.zone = closer (t.firstEmpty before) (t.firstEmpty behind) := by
  have habove : TryLock.Ends (fun i ↦ i ∈ behind ∧ (t.zone i).isEmpty = true) t.busy
      (t.firstEmpty behind) :=
    TryLock.first_ends behind 0
  have hbelow : (Table.firstEmpty { t with busy := (t.firstEmpty behind).flags } before).stuck =
      none :=
    (TryLock.first_ends before 0).stuck
  have hsame : ∀ i ∈ before, (t.firstEmpty behind).flags i = t.busy i := by
    intro i hi
    rw [habove.flags]
    cases hu : (t.firstEmpty behind).best with
    | none => rfl
    | some u =>
        have hne : i ≠ u := fun heq ↦ hapart i hi (heq ▸ (habove.good u hu).1)
        simp [hne]
  obtain ⟨hbest, hscore⟩ : (Table.firstEmpty { t with busy := (t.firstEmpty behind).flags }
    before).best =
        (t.firstEmpty before).best ∧
      (Table.firstEmpty { t with busy := (t.firstEmpty behind).flags } before).score =
        (t.firstEmpty before).score :=
    TryLock.first_congr hsame 0
  unfold allocateOutside closer
  dsimp only
  rw [habove.stuck, hbelow, hbest, hscore]
  cases hl : (t.firstEmpty before).best with
  | none =>
      cases hu : (t.firstEmpty behind).best with
      | none => simp [hl, hu] at hsome
      | some u => exact ⟨_, rfl, rfl, rfl⟩
  | some l =>
      cases hu : (t.firstEmpty behind).best with
      | none => exact ⟨_, rfl, rfl, rfl⟩
      | some u => exact ⟨_, rfl, chooseCloser_zone _ _ _ _ _⟩

end Search

/-! ## The nearest zone -/

section Nearest

variable {t w level}

/-- A zone in the interval is a nearest one. -/
theorem distance_of_mem {k : Nat} (hl : t.lowerIndex w level ≤ k) (hu : k < t.upperIndex w level) :
    t.distance w level k = 0 := by
  unfold distance
  omega

theorem distance_before {k : Nat} (hlt : t.lowerIndex w level < t.upperIndex w level)
    (hk : k < t.lowerIndex w level) : t.distance w level k = t.lowerIndex w level - k := by
  unfold distance
  omega

theorem distance_behind {k : Nat} (hlt : t.lowerIndex w level < t.upperIndex w level)
    (hk : t.upperIndex w level ≤ k) : t.distance w level k = k - t.upperIndex w level + 1 := by
  unfold distance
  omega

/-- With no zone twice in the table, a zone has one position. -/
theorem position_eq (hnodup : t.ioZones.Nodup) {k k' : Nat} {i : ZoneId}
    (hk : (t.sortedIoZones w)[k]? = some i) (hk' : (t.sortedIoZones w)[k']? = some i) : k = k' :=
  have hsorted : (t.sortedIoZones w).Nodup := (w.sortByWear_perm _ _).nodup_iff.mpr hnodup
  (List.getElem?_inj (List.getElem?_eq_some_iff.mp hk).1 hsorted).mp (hk.trans hk'.symm)

theorem returnsNearest_iff (hnodup : t.ioZones.Nodup) {o : Outcome} {k : Nat} {i : ZoneId}
    (hk : (t.sortedIoZones w)[k]? = some i) (ho : o.zone = some i) (havail : t.Available w k) :
    t.ReturnsNearest w level o ↔ ∀ j, t.Available w j →
    t.distance w level k ≤ t.distance w level j := by
  constructor
  · rintro ⟨k', i', hk', ho', -, hmin⟩
    rw [ho] at ho'
    obtain rfl := Option.some.inj ho'
    obtain rfl := position_eq hnodup hk hk'
    exact hmin
  · exact fun hmin ↦ ⟨k, i, hk, ho, havail, hmin⟩

/-- Outside of the interval the nearest zones are the first ones on either side. -/
theorem available_cases (hinside : ∀ k, t.lowerIndex w level ≤ k → k < t.upperIndex w level →
    ¬ t.Available w k)
    {k : Nat} (hk : t.Available w k) : k < t.lowerIndex w level ∨ t.upperIndex w level ≤ k := by
  by_contra hin
  rw [not_or, not_lt, not_le] at hin
  exact hinside k hin.1 hin.2 hk

/-- With a free empty zone on both sides, the zone behind is taken as long as it is no
farther from `upper_index` than the other one from `lower_index`. -/
theorem closer_nearest_iff (hnodup : t.ioZones.Nodup)
    (hlt : t.lowerIndex w level < t.upperIndex w level)
    (hinside : ∀ k, t.lowerIndex w level ≤ k → k < t.upperIndex w level → ¬ t.Available w k)
    {l u : Nat} {il iu : ZoneId} (hl : l < t.lowerIndex w level) (hu : t.upperIndex w level ≤ u)
    (hgetl : (t.sortedIoZones w)[l]? = some il) (hgetu : (t.sortedIoZones w)[u]? = some iu)
    (havl : t.Available w l) (havu : t.Available w u)
    (hminl : ∀ k, l < k → k < t.lowerIndex w level → ¬ t.Available w k)
    (hminu : ∀ k, t.upperIndex w level ≤ k → k < u → ¬ t.Available w k) {o : Outcome}
    (ho : o.zone = if t.lowerIndex w level - l < u - t.upperIndex w level then some il
      else some iu) :
    t.ReturnsNearest w level o ↔ ¬ t.OneBehind w level := by
  have hcases : ∀ k, t.Available w k → k ≤ l ∨ u ≤ k := by
    intro k hk
    by_contra hin
    rw [not_or, not_le, not_le] at hin
    rcases available_cases hinside hk with h | h
    · exact hminl k hin.1 h hk
    · exact hminu k h hin.2 hk
  have hone : t.OneBehind w level ↔ u - t.upperIndex w level = t.lowerIndex w level - l := by
    constructor
    · rintro ⟨l', u', hl', hu', havl', havu', hmin', heq⟩
      -- the first zones on either side are these two
      have hll : l' = l := by
        rcases hcases l' havl' with h | h
        · by_contra hne
          exact hmin' l (by omega) (by omega) havl
        · omega
      have huu : u' = u := by
        rcases hcases u' havu' with h | h
        · omega
        · by_contra hne
          exact hmin' u (by omega) (by omega) havu
      rwa [hll, huu] at heq
    · intro heq
      refine ⟨l, u, hl, hu, havl, havu, fun k hlk hku hk ↦ ?_, heq⟩
      rcases hcases k hk with h | h <;> omega
  have hdl := distance_before hlt hl
  have hdu := distance_behind hlt hu
  have hle : ∀ k, t.Available w k →
      min (t.distance w level l) (t.distance w level u) ≤ t.distance w level k := by
    intro k hk
    rcases hcases k hk with h | h
    · rw [distance_before hlt (k := k) (by omega)]
      omega
    · rw [distance_behind hlt (k := k) (by omega)]
      omega
  rw [hone]
  split at ho
  · rename_i hfar
    refine (returnsNearest_iff hnodup hgetl ho havl).trans (iff_of_true (fun k hk ↦ ?_) (by omega))
    have := hle k hk
    omega
  · rename_i hnear
    rw [returnsNearest_iff hnodup hgetu ho havu]
    constructor
    · intro hmin
      have := hmin l havl
      omega
    · intro hne k hk
      have := hle k hk
      omega

theorem allocateOutside_nearest_iff (hnodup : t.ioZones.Nodup) (out : Option ZoneId)
    (hlt : t.lowerIndex w level < t.upperIndex w level)
    (hle : t.upperIndex w level ≤ (t.sortedIoZones w).length)
    (hinside : ∀ k, t.lowerIndex w level ≤ k → k < t.upperIndex w level → ¬ t.Available w k)
    {j : Nat} (havail : t.Available w j) :
    ∃ o, t.allocateOutside out ((t.sortedIoZones w).drop (t.upperIndex w level))
        ((t.sortedIoZones w).take (t.lowerIndex w level)).reverse true = some o ∧ o.status = .ok ∧
      (t.ReturnsNearest w level o ↔ ¬ t.OneBehind w level) := by
  have hsorted : (t.sortedIoZones w).Nodup := (w.sortByWear_perm _ _).nodup_iff.mpr hnodup
  have hapart : ∀ i ∈ ((t.sortedIoZones w).take (t.lowerIndex w level)).reverse,
      i ∉ (t.sortedIoZones w).drop (t.upperIndex w level) := by
    intro i hi hd
    exact List.disjoint_take_drop hsorted hlt.le (List.mem_reverse.mp hi) hd
  have hbehind := behind_spec (t := t) (w := w) (t.upperIndex w level)
  have hbefore := before_spec (t := t) (w := w) (hlt.le.trans hle)
  rcases hbehind with ⟨hnone, hnobehind⟩ | ⟨u, iu, hu, hgetu, havu, hbestu, hscoreu, hminu⟩
  · rcases hbefore with ⟨-, hnobefore⟩ | ⟨l, il, hl, hgetl, havl, hbestl, -, hminl⟩
    · rcases available_cases hinside havail with h | h
      · exact absurd havail (hnobefore j h)
      · exact absurd havail (hnobehind j h)
    · obtain ⟨o, ho, hstatus, hzone⟩ :=
        allocateOutside_zone (t := t) out hapart (.inr (by simp [hbestl]))
      rw [closer, hbestl, hnone] at hzone
      refine ⟨o, ho, hstatus,
        iff_of_true ((returnsNearest_iff hnodup hgetl hzone havl).mpr fun k hk ↦ ?_) ?_⟩
      · rcases available_cases hinside hk with h | h
        · rw [distance_before hlt hl, distance_before hlt h]
          by_contra hfar
          exact hminl k (by omega) h hk
        · exact absurd hk (hnobehind k h)
      · rintro ⟨-, u, -, hu, -, hav, -⟩
        exact hnobehind u hu hav
  · rcases hbefore with ⟨hnone, hnobefore⟩ | ⟨l, il, hl, hgetl, havl, hbestl, hscorel, hminl⟩
    · obtain ⟨o, ho, hstatus, hzone⟩ :=
        allocateOutside_zone (t := t) out hapart (.inl (by simp [hbestu]))
      rw [closer, hnone, hbestu] at hzone
      refine ⟨o, ho, hstatus,
        iff_of_true ((returnsNearest_iff hnodup hgetu hzone havu).mpr fun k hk ↦ ?_) ?_⟩
      · rcases available_cases hinside hk with h | h
        · exact absurd hk (hnobefore k h)
        · rw [distance_behind hlt hu, distance_behind hlt h]
          by_contra hfar
          exact hminu k h (by omega) hk
      · rintro ⟨l, -, hl, -, hav, -⟩
        exact hnobefore l hl hav
    · obtain ⟨o, ho, hstatus, hzone⟩ :=
        allocateOutside_zone (t := t) out hapart (.inl (by simp [hbestu]))
      rw [closer, hbestl, hbestu] at hzone
      dsimp only at hzone
      rw [hscorel, hscoreu] at hzone
      exact ⟨o, ho, hstatus,
        closer_nearest_iff hnodup hlt hinside hl hu hgetl hgetu havl havu hminl hminu hzone⟩

/-- A free empty zone has a position. -/
theorem HasEmpty.available (h : t.HasEmpty) (w : Placement) : ∃ k, t.Available w k := by
  obtain ⟨i, hi, hfree, hempty⟩ := h
  obtain ⟨k, hk⟩ :=
    List.mem_iff_getElem?.mp ((w.sortByWear_perm (fun i ↦ (t.zone i).resetCount) _).mem_iff.mpr hi)
  exact ⟨k, i, hk, hfree, hempty⟩

/-- `AllocateEmptyZoneHotnessBased` hands out a free empty zone nearest to the interval of
the level, unless the two that come into question are apart by one: then it takes the one
behind the interval, which is farther away. -/
theorem allocateEmptyZoneHotnessBased_nearest_iff (t : Table) (w : Placement) (out : Option ZoneId)
    (level : Int) (hrange : w.hotRange = exactRange) (hnodup : t.ioZones.Nodup) (hlevel : 1 ≤ level)
    (hmax : level ≤ t.maxLevel) (hempty : t.HasEmpty) :
    ∃ o, t.allocateEmptyZoneHotnessBased out w level = some o ∧ o.status = .ok ∧
      (t.ReturnsNearest w level o ↔ ¬ t.OneBehind w level) := by
  obtain ⟨j, havail⟩ := hempty.available w
  have hlen : 0 < (t.sortedIoZones w).length := by
    obtain ⟨i, hi, -⟩ := havail
    exact Nat.zero_lt_of_lt (List.getElem?_eq_some_iff.mp hi).1
  obtain ⟨hlt, hle⟩ := range_spec hrange hlevel hmax hlen
  have hupper : min (w.hotRange t.maxLevel level (t.sortedIoZones w).length).2
    (t.sortedIoZones w).length =
      (t.upperIndex w level : Int) := by
    unfold upperIndex at hlt ⊢
    omega
  have hends : TryLock.Ends _ t.busy (t.firstEmpty
      (((t.sortedIoZones w).take (t.upperIndex w level)).drop (t.lowerIndex w level))) :=
    TryLock.first_ends _ 0
  unfold allocateEmptyZoneHotnessBased
  rw [if_neg (by omega), if_neg (by omega)]
  dsimp only
  rw [← sortedIoZones, hupper, ← lowerIndex, Int.toNat_natCast, hends.stuck]
  obtain ⟨hnone, hinside⟩ | ⟨k, i, hl, hu, hget, hav, hbest⟩ :=
    interval_spec (t := t) (w := w) (t.lowerIndex w level) (t.upperIndex w level)
  · rw [hends.flags, hnone]
    simpa [show ¬ ((t.upperIndex w level : Int) < 0) by omega, hlt.le.trans hle] using
      allocateOutside_nearest_iff hnodup out hlt hle hinside havail
  · rw [hbest, if_pos (by simp)]
    refine ⟨_, rfl, ?_, iff_of_true ?_ ?_⟩
    · simp [conclude, hends.stuck]
    · refine (returnsNearest_iff hnodup hget (by simp [conclude, hends.stuck, hbest]) hav).mpr
        fun k' _ ↦ ?_
      rw [distance_of_mem hl hu]
      exact Nat.zero_le _
    · rintro ⟨l, u, hl', hu', -, -, hmin, -⟩
      exact hmin k (by omega) (by omega) hav

end Nearest

end Table

/-- The exact range, and an insertion sort. -/
def wearAware : Placement where
  emptyZoneAllocator := .kHotnessBased
  hotRange := exactRange
  sortByWear := fun f zs ↦ zs.insertionSort (f · ≤ f ·)
  sortByWear_perm := fun f zs ↦ List.perm_insertionSort (f · ≤ f ·) zs

/-- Four empty zones that have been reset as often as their numbers say; the two in the
middle are busy. -/
def busyMiddle : Table where
  zoneSize := 128
  ioZones := [0, 1, 2, 3]
  zone := fun i ↦
    { start := 128 * i, maxCapacity := 128, capacity := 128, wp := 128 * i, usedCapacity := 0,
      resetCount := i }
  busy := fun i ↦ i == 1 || i == 2
  maxLevel := 4

theorem allocateEmptyZoneHotnessBased_nearest_iff_busyMiddle :
    ∃ o, busyMiddle.allocateEmptyZoneHotnessBased none wearAware 1 = some o ∧ o.status = .ok ∧
      (busyMiddle.ReturnsNearest wearAware 1 o ↔ ¬ busyMiddle.OneBehind wearAware 1) :=
  Table.allocateEmptyZoneHotnessBased_nearest_iff busyMiddle wearAware none 1 rfl
    (by decide) (by decide) (by decide) ⟨0, by decide, rfl, rfl⟩

/-- Zone 0 is next to the interval of level 2, which is zone 1, and zone 3 is handed out. -/
theorem exists_nearer_zone :
    ¬ ∀ (t : Table) (w : Placement) (level : Int), w.hotRange = exactRange →
      (∀ f zs, (w.sortByWear f zs).Pairwise (f · ≤ f ·)) → t.ioZones.Nodup → 1 ≤ level →
      level ≤ t.maxLevel →
      t.HasEmpty → ∃ o, t.allocateEmptyZoneHotnessBased none w level = some o ∧ o.status = .ok ∧
        t.ReturnsNearest w level o := by
  intro h
  have hsorted : ∀ f zs, (wearAware.sortByWear f zs).Pairwise (f · ≤ f ·) := by
    intro f zs
    exact List.pairwise_insertionSort _ zs
  obtain ⟨o, ho, -, k, i, hk, hzone, -, hmin⟩ :=
    h busyMiddle wearAware 2 rfl hsorted (by decide) (by decide) (by decide)
      ⟨0, by decide, rfl, rfl⟩
  have h3 : o.zone = some 3 := by
    have hrun : (busyMiddle.allocateEmptyZoneHotnessBased none wearAware 2).map Outcome.zone =
        some (some 3) := by
      decide +kernel
    rw [ho] at hrun
    exact Option.some.inj hrun
  rw [h3] at hzone
  obtain rfl := Option.some.inj hzone
  have horder : busyMiddle.sortedIoZones wearAware = [0, 1, 2, 3] := by decide
  have hk3 : k = 3 := Table.position_eq (by decide) hk (by rw [horder]; rfl)
  have hfar : busyMiddle.distance wearAware 2 3 = 2 ∧ busyMiddle.distance wearAware 2 0 = 1 := by
    decide +kernel
  have := hmin 0 ⟨0, by rw [horder]; rfl, rfl, rfl⟩
  rw [hk3, hfar.1, hfar.2] at this
  omega

end Alloc

end ZenFs
