import ZenFs.Alloc.Select
import ZenFs.Lib.Outward

/-!
# The zone of the closest rank

`ChooseZoneWithClosestRank` walks outward from the new file in the ranking of its level,
and stops as soon as one side has no file left.  This file says to which file the walk
comes first, and when the zone it takes belongs to a file of the closest rank.
-/

namespace ZenFs

namespace Alloc

section ClosestRank

variable (t : Table) (w : Placement) (min_capacity : Nat)

/-- The zone is usable and holds an extent of the file that is not empty. -/
def holdsIn (f : RecordedFile) (i : ZoneId) : Bool :=
  t.usable min_capacity i &&
    f.extents.any fun e ↦ decide (0 < e.2) && decide (w.pointer e.1 = some (some i))

/-- The file has an extent that is not empty in a usable zone. -/
def isUsable (f : RecordedFile) : Bool :=
  f.extents.any fun e ↦
    decide (0 < e.2) && ((w.pointer e.1).join.map (t.usable min_capacity)).getD false

/-- How far the rank of a file is from that of the new file. -/
def rankDistance (f : RecordedFile) : Nat := max f.rank w.fileRank - min f.rank w.fileRank

/-- The zone that is taken when the walk comes to a file. -/
def roundZone (f : RecordedFile) : Option ZoneId :=
  (w.zonesOf f.extents).bind fun items ↦
    (t.best min_capacity Prod.fst (fun highest e ↦ if highest < e.2 then some e.2 else none)
      items 0).best

variable (ranking : List RecordedFile) (index : Nat)

/-- The files of the ranking but for the new one. -/
def others : List RecordedFile := (around ranking index).1 ++ (around ranking index).2

/-- A usable file whose rank is as close to that of the new file as that of any other. -/
def IsClosest (f : RecordedFile) : Prop :=
  f ∈ others ranking index ∧ isUsable t w min_capacity f = true ∧
    ∀ g ∈ others ranking index, isUsable t w min_capacity g = true →
    rankDistance w f ≤ rankDistance w g

/-- If another file is usable, a zone of a closest one is chosen. -/
def ChoosesClosest (r : TryLock.Result ZoneId Nat) : Prop :=
  (∃ f ∈ others ranking index, isUsable t w min_capacity f = true) →
    ∃ i f, r.best = some i ∧ IsClosest t w min_capacity ranking index f ∧
    holdsIn t w min_capacity f i = true

/-- The side of the new file on which it is less far to the first usable file, or to the
end.  The first file of the ranking is on neither side. -/
def nearerSide : List RecordedFile :=
  let before := (around ranking index).1.dropLast
  let behind := (around ranking index).2
  let way := Outward.wayTo (fun f ↦ rankDiff w.fileRank f.rank) (isUsable t w min_capacity)
  if way before < way behind then before else behind

/-- There is a usable file on the nearer side.  If its rank is so far that `labs` goes
wrong, the rank of no other usable file may be closer. -/
def ComesToClosest : Prop :=
  ∃ f, (nearerSide t w min_capacity ranking index).find? (isUsable t w min_capacity) = some f ∧
    (rankDistance w f ≤ 2 ^ 63 ∨
      ∀ g ∈ others ranking index, isUsable t w min_capacity g = true →
      rankDistance w f ≤ rankDistance w g)

/-- A file whose rank is so far that `labs` goes wrong shares no usable zone with a file
whose rank is closer or still farther. -/
def FarApart : Prop :=
  ∀ f ∈ others ranking index, ∀ g ∈ others ranking index, 2 ^ 63 < rankDistance w f →
    ∀ i, holdsIn t w min_capacity f i = true → holdsIn t w min_capacity g i = true →
      rankDistance w f = rankDistance w g

end ClosestRank

section Round

variable {t : Table} {w : Placement} {min_capacity : Nat}

theorem isUsable_iff {f : RecordedFile} :
    isUsable t w min_capacity f = true ↔ ∃ i, holdsIn t w min_capacity f i = true := by
  simp only [isUsable, holdsIn, List.any_eq_true, Bool.and_eq_true, decide_eq_true_eq]
  constructor
  · rintro ⟨e, he, hpos, hpointer⟩
    cases hp : w.pointer e.1 with
    | none => simp [hp] at hpointer
    | some z =>
        cases z with
        | none => simp [hp] at hpointer
        | some i =>
            rw [hp] at hpointer
            exact ⟨i, hpointer, e, he, hpos, hp⟩
  · rintro ⟨i, hi, e, he, hpos, hpointer⟩
    exact ⟨e, he, hpos, by rw [hpointer]; exact hi⟩

/-- Without null pointers all zones of the extents are looked at. -/
theorem zonesOf_spec (hnull : ∀ start, w.pointer start ≠ some none) (extents : List (Nat × Nat)) :
    ∃ items, w.zonesOf extents = some items ∧
      ∀ e : ZoneId × Nat, e ∈ items ↔ ∃ start, (start, e.2) ∈ extents ∧
      w.pointer start = some (some e.1) := by
  induction extents with
  | nil => exact ⟨[], rfl, by simp⟩
  | cons x extents ih =>
      obtain ⟨start, length⟩ := x
      obtain ⟨items, hitems, hmem⟩ := ih
      rw [Placement.zonesOf]
      cases hp : w.pointer start with
      | none =>
          refine ⟨items, hitems, fun e ↦ (hmem e).trans ?_⟩
          constructor
          · rintro ⟨s, hs, he⟩
            exact ⟨s, List.mem_cons_of_mem _ hs, he⟩
          · rintro ⟨s, hs, he⟩
            rcases List.mem_cons.mp hs with heq | hs
            · obtain ⟨rfl, -⟩ := Prod.mk.inj heq
              rw [hp] at he
              cases he
            · exact ⟨s, hs, he⟩
      | some z =>
          cases z with
          | none => exact absurd hp (hnull start)
          | some i =>
              refine ⟨(i, length) :: items, by rw [hitems]; rfl, fun e ↦ ?_⟩
              rw [List.mem_cons, hmem]
              constructor
              · rintro (rfl | ⟨s, hs, he⟩)
                · exact ⟨start, List.mem_cons_self, hp⟩
                · exact ⟨s, List.mem_cons_of_mem _ hs, he⟩
              · rintro ⟨s, hs, he⟩
                rcases List.mem_cons.mp hs with heq | hs
                · obtain ⟨rfl, hlen⟩ := Prod.mk.inj heq
                  rw [hp] at he
                  obtain rfl := Option.some.inj (Option.some.inj he)
                  exact .inl (Prod.ext rfl hlen)
                · exact .inr ⟨s, hs, he⟩

/-- The loop over the extents of one file takes a zone with an extent that is not empty. -/
theorem roundZone_holds (hnull : ∀ start, w.pointer start ≠ some none) {f : RecordedFile}
    {i : ZoneId} (h : roundZone t w min_capacity f = some i) :
    holdsIn t w min_capacity f i = true := by
  obtain ⟨items, hitems, hmem⟩ := zonesOf_spec hnull f.extents
  have hends : TryLock.Ends (fun i ↦ (t.zone i).fits min_capacity = true ∧ ∃ e ∈ items, e.1 = i ∧
    0 < e.2) t.busy
      (t.best min_capacity Prod.fst (fun highest e ↦ if highest < e.2 then some e.2 else none)
        items 0) := by
    refine TryLock.scan_none_ends fun e he best score score' hp ↦ ?_
    split at hp
    · rename_i hfits
      dsimp only at hp
      split at hp
      · exact ⟨hfits, e, he, rfl, by omega⟩
      · cases hp
    · cases hp
  rw [roundZone, hitems] at h
  obtain ⟨hfits, e, he, rfl, hpos⟩ := hends.good i h
  obtain ⟨start, hstart, hpointer⟩ := (hmem e).mp he
  simp only [holdsIn, Table.usable, hends.free _ h, hfits, Bool.not_false, Bool.true_and,
    List.any_eq_true, Bool.and_eq_true, decide_eq_true_eq]
  exact ⟨_, hstart, hpos, hpointer⟩

theorem roundZone_isSome (hnull : ∀ start, w.pointer start ≠ some none) {f : RecordedFile} :
    (roundZone t w min_capacity f).isSome = isUsable t w min_capacity f := by
  rw [Bool.eq_iff_iff, isUsable_iff]
  constructor
  · intro h
    obtain ⟨i, hi⟩ := Option.isSome_iff_exists.mp h
    exact ⟨i, roundZone_holds hnull hi⟩
  · rintro ⟨i, hi⟩
    obtain ⟨items, hitems, hmem⟩ := zonesOf_spec hnull f.extents
    simp only [holdsIn, Table.usable, Bool.and_eq_true, Bool.not_eq_true', List.any_eq_true,
      decide_eq_true_eq] at hi
    obtain ⟨⟨hfree, hfits⟩, e, he, hpos, hpointer⟩ := hi
    rw [roundZone, hitems]
    refine TryLock.scan_isSome (a := (i, e.2)) ((hmem _).mpr ⟨e.1, he, hpointer⟩) hfree ?_
    simp [hfits, hpos]

/-- The rounds end with the first usable file. -/
theorem chooseInRounds_eq (hnull : ∀ start, w.pointer start ≠ some none)
    (files : List RecordedFile) :
    ∃ r, chooseInRounds min_capacity w (files.map RecordedFile.extents) t = some r ∧
    r.stuck = none ∧
      r.best = (files.find? (isUsable t w min_capacity)).bind (roundZone t w min_capacity) := by
  induction files with
  | nil => exact ⟨_, rfl, rfl, rfl⟩
  | cons f files ih =>
      obtain ⟨items, hitems, -⟩ := zonesOf_spec hnull f.extents
      have hround : roundZone t w min_capacity f = (t.best min_capacity Prod.fst
          (fun highest e ↦ if highest < e.2 then some e.2 else none) items 0).best := by
        rw [roundZone, hitems]
        rfl
      have hends : TryLock.Ends (fun _ ↦ True) t.busy (t.best min_capacity Prod.fst
          (fun highest e ↦ if highest < e.2 then some e.2 else none) items 0) :=
        TryLock.scan_none_ends fun _ _ _ _ _ _ ↦ trivial
      rw [List.map_cons, chooseInRounds, hitems]
      dsimp only
      rw [hends.stuck, Option.isSome_none, Bool.false_or, ← hround, roundZone_isSome hnull]
      cases hu : isUsable t w min_capacity f with
      | true =>
          rw [List.find?_cons_of_pos hu]
          exact ⟨_, rfl, hends.stuck, hround.symm⟩
      | false =>
          have hnone : roundZone t w min_capacity f = none := by
            rw [← Option.not_isSome_iff_eq_none, roundZone_isSome hnull, hu]
            exact Bool.false_ne_true
          rw [List.find?_cons_of_neg (by simp [hu]), hends.flags, ← hround, hnone]
          exact ih

end Round

/-! ## The walk -/

section Walk

theorem rankDiff_comm (a b : Nat) : rankDiff a b = rankDiff b a := by
  simp only [rankDiff, Int.bmod_def]
  omega

theorem rankDiff_of_le {a b : Nat} (h : max a b - min a b ≤ 2 ^ 63) :
    rankDiff a b = max a b - min a b := by
  simp only [rankDiff, Int.bmod_def]
  omega

theorem rankDiff_le {a b : Nat} (ha : a < 2 ^ 64) (hb : b < 2 ^ 64) :
    rankDiff a b ≤ max a b - min a b := by
  simp only [rankDiff, Int.bmod_def]
  omega

theorem closestRanks_eq (rank fuel : Nat) (before behind : List RecordedFile) :
    closestRanks rank fuel before behind =
      Outward.walk (fun f ↦ rankDiff rank f.rank) fuel before.dropLast behind := by
  induction fuel generalizing before behind with
  | zero => rfl
  | succ fuel ih =>
      match before, behind with
      | [], _ => rfl
      | [_], _ => rfl
      | _ :: _ :: _, [] => rfl
      | p :: p' :: before, n :: behind =>
          rw [closestRanks, ih, ih, rankDiff_comm n.rank rank]
          rfl

variable {w : Placement} {ranking : List RecordedFile} {index : Nat} {file : RecordedFile}

theorem around_eq (hfile : ranking[index]? = some file) :
    ranking = (around ranking index).1.reverse ++ file :: (around ranking index).2 := by
  obtain ⟨hlt, rfl⟩ := List.getElem?_eq_some_iff.mp hfile
  rw [around, List.reverse_reverse, ← List.drop_eq_getElem_cons hlt, List.take_append_drop]

/-- On either side the ranks lead away from that of the new file. -/
theorem around_away (hsorted : ranking.Pairwise (·.rank ≤ ·.rank))
    (hfile : ranking[index]? = some file) (hrank : file.rank = w.fileRank) :
    (around ranking index).1.Pairwise (fun f g ↦ rankDistance w f ≤ rankDistance w g) ∧
      (around ranking index).2.Pairwise (fun f g ↦ rankDistance w f ≤ rankDistance w g) := by
  rw [around_eq hfile, List.pairwise_append, List.pairwise_reverse, List.pairwise_cons] at hsorted
  obtain ⟨hbefore, ⟨hfirst, hbehind⟩, hcross⟩ := hsorted
  have hle : ∀ f ∈ (around ranking index).1, f.rank ≤ w.fileRank := fun f hf ↦
    hrank ▸ hcross f (List.mem_reverse.mpr hf) file List.mem_cons_self
  have hge : ∀ f ∈ (around ranking index).2, w.fileRank ≤ f.rank := fun f hf ↦ hrank ▸ hfirst f hf
  constructor
  · refine hbefore.imp_of_mem fun {f g} hf hg h ↦ ?_
    have := hle f hf
    have := hle g hg
    unfold rankDistance
    omega
  · refine hbehind.imp_of_mem fun {f g} hf hg h ↦ ?_
    have := hge f hf
    have := hge g hg
    unfold rankDistance
    omega

theorem length_around (hfile : ranking[index]? = some file) :
    (around ranking index).1.length + (around ranking index).2.length < ranking.length := by
  have h := congrArg List.length (around_eq hfile)
  simp only [List.length_append, List.length_reverse, List.length_cons] at h
  omega

end Walk

section Closest

variable {t : Table} {w : Placement} {min_capacity : Nat} {ranking : List RecordedFile}
  {index : Nat} {file : RecordedFile}

/-- The first file on the nearer side is a closest one, as long as `labs` tells its
distance. -/
theorem isClosest_of_find? (hsorted : ranking.Pairwise (·.rank ≤ ·.rank))
    (hfile : ranking[index]? = some file)
    (hrank : file.rank = w.fileRank) (h64 : ∀ f ∈ ranking, f.rank < 2 ^ 64) {f : RecordedFile}
    (hf : (nearerSide t w min_capacity ranking index).find? (isUsable t w min_capacity) = some f)
    (hnear : rankDistance w f ≤ 2 ^ 63) : IsClosest t w min_capacity ranking index f := by
  obtain ⟨hbefore, hbehind⟩ := around_away hsorted hfile hrank
  have h64' : ∀ g ∈ others ranking index, rankDiff w.fileRank g.rank ≤ rankDistance w g := by
    intro g hg
    have hmem : g ∈ ranking := by
      rw [around_eq hfile]
      rcases List.mem_append.mp hg with h | h
      · exact List.mem_append_left _ (List.mem_reverse.mpr h)
      · exact List.mem_append_right _ (List.mem_cons_of_mem _ h)
    have hfilemem := h64 file (List.mem_of_getElem? hfile)
    rw [hrank] at hfilemem
    have := rankDiff_le hfilemem (h64 g hmem)
    unfold rankDistance
    omega
  have hd : rankDiff w.fileRank f.rank = rankDistance w f := by
    unfold rankDistance at hnear ⊢
    rw [rankDiff_of_le (by omega)]
    omega
  have hd1 : ∀ g ∈ (around ranking index).1, rankDiff w.fileRank g.rank ≤ rankDistance w g :=
    fun g hg ↦ h64' g (List.mem_append_left _ hg)
  have hd2 : ∀ g ∈ (around ranking index).2, rankDiff w.fileRank g.rank ≤ rankDistance w g :=
    fun g hg ↦ h64' g (List.mem_append_right _ hg)
  have huse := List.find?_some hf
  have hway := Outward.le_wayTo_of_find? (d := fun f ↦ rankDiff w.fileRank f.rank) hf
  have hmem := List.mem_of_find?_eq_some hf
  unfold nearerSide at hf hway hmem
  dsimp only at hf hway hmem
  split at hf
  · rename_i hlt
    rw [if_pos hlt] at hway hmem
    have hfirst : (around ranking index).1.find? (isUsable t w min_capacity) = some f := by
      have hne : (around ranking index).1 ≠ [] := by
        rintro hnil
        rw [hnil] at hmem
        cases hmem
      rw [← List.dropLast_concat_getLast hne, List.find?_append, hf]
      rfl
    refine ⟨List.mem_append_left _ (List.dropLast_subset _ hmem), huse, fun g hg hug ↦ ?_⟩
    rcases List.mem_append.mp hg with h | h
    · exact Outward.le_of_find? hbefore hfirst h hug
    · have := Outward.wayTo_le_of_mem hbehind hd2 h hug
      omega
  · rename_i hle
    rw [if_neg hle] at hway hmem
    refine ⟨List.mem_append_right _ hmem, huse, fun g hg hug ↦ ?_⟩
    rcases List.mem_append.mp hg with h | h
    · have := Outward.wayTo_dropLast_le hbefore hd1 h hug
      omega
    · exact Outward.le_of_find? hbehind hf h hug

theorem nearerSide_subset : nearerSide t w min_capacity ranking index ⊆ others ranking index := by
  unfold nearerSide
  dsimp only
  split
  · exact fun f hf ↦ List.mem_append_left _ (List.dropLast_subset _ hf)
  · exact fun f hf ↦ List.mem_append_right _ hf

/-- The zone that is chosen belongs to the first usable file on the nearer side. -/
theorem chooseZoneWithClosestRank_eq (t : Table) {w : Placement} (min_capacity : Nat)
    (hnull : ∀ start, w.pointer start ≠ some none) (hfile : ranking[index]? = some file) :
    ∃ r, chooseZoneWithClosestRank t min_capacity w index ranking = some r ∧ r.stuck = none ∧
      r.best = ((nearerSide t w min_capacity ranking index).find? (isUsable t w min_capacity)).bind
        (roundZone t w min_capacity) := by
  obtain ⟨r, hr, hstuck, hbest⟩ := @chooseInRounds_eq t w min_capacity hnull
    (closestRanks w.fileRank ranking.length (around ranking index).1 (around ranking index).2)
  have hlen := length_around hfile
  rw [closestRanks_eq, Outward.find?_walk (by rw [List.length_dropLast]; omega)] at hbest
  refine ⟨r, hr, hstuck, ?_⟩
  rw [hbest]
  unfold nearerSide
  dsimp only
  split <;> rfl

/-- `ChooseZoneWithClosestRank` chooses a zone of a closest file if the walk comes to one
before either side has no file left, and only then, unless a file that `labs` takes to be
closer than it is happens to share its zone with one. -/
theorem chooseZoneWithClosestRank_closest_iff (t : Table) (w : Placement) (min_capacity index : Nat)
    (ranking : List RecordedFile) (file : RecordedFile)
    (hnull : ∀ start, w.pointer start ≠ some none)
    (hsorted : ranking.Pairwise (·.rank ≤ ·.rank)) (hfile : ranking[index]? = some file)
    (hrank : file.rank = w.fileRank) (h64 : ∀ f ∈ ranking, f.rank < 2 ^ 64) :
    ∃ r, chooseZoneWithClosestRank t min_capacity w index ranking = some r ∧ r.stuck = none ∧
      ((∀ f ∈ others ranking index, isUsable t w min_capacity f = false) ∨
          ComesToClosest t w min_capacity ranking index →
          ChoosesClosest t w min_capacity ranking index r) ∧
      (FarApart t w min_capacity ranking index → ChoosesClosest t w min_capacity ranking index r →
        (∀ f ∈ others ranking index, isUsable t w min_capacity f = false) ∨
          ComesToClosest t w min_capacity ranking index) := by
  obtain ⟨r, hr, hstuck, hbest⟩ := chooseZoneWithClosestRank_eq t min_capacity hnull hfile
  refine ⟨r, hr, hstuck, ?_, fun hfar hchoose ↦ ?_⟩
  · rintro (hnone | ⟨f, hf, hclose⟩) ⟨g, hg, hug⟩
    · rw [hnone g hg] at hug
      cases hug
    · rw [hf, Option.bind_some] at hbest
      have huse : isUsable t w min_capacity f = true := List.find?_some hf
      obtain ⟨i, hi⟩ : ∃ i, roundZone t w min_capacity f = some i := by
        rw [← Option.isSome_iff_exists, roundZone_isSome hnull]
        exact huse
      refine ⟨i, f, hbest.trans hi, ?_, roundZone_holds hnull hi⟩
      rcases hclose with hnear | hclosest
      · exact isClosest_of_find? hsorted hfile hrank h64 hf hnear
      · exact ⟨nearerSide_subset (List.mem_of_find?_eq_some hf), huse, hclosest⟩
  · by_cases hany : ∃ f ∈ others ranking index, isUsable t w min_capacity f = true
    · obtain ⟨i, g, hi, ⟨hg, -, hclosest⟩, hin⟩ := hchoose hany
      rw [hbest] at hi
      obtain ⟨f, hf, hround⟩ := Option.bind_eq_some_iff.mp hi
      refine .inr ⟨f, hf, or_iff_not_imp_left.mpr fun hlong ↦ ?_⟩
      have hsame := hfar f (nearerSide_subset (List.mem_of_find?_eq_some hf)) g hg (by omega) i
        (roundZone_holds hnull hround) hin
      rw [hsame]
      exact hclosest
    · refine .inl fun f hf ↦ ?_
      rw [← Bool.not_eq_true]
      exact fun huse ↦ hany ⟨f, hf, huse⟩

end Closest

/-- A new file of rank 5, and the zones of `halfWritten` by their starts. -/
def rankFive : Placement where
  fileRank := 5
  pointer := fun start ↦ if start = 0 then some (some 0) else none

theorem rankFive_pointer (start : Nat) : rankFive.pointer start ≠ some none := by
  unfold rankFive
  dsimp only
  split <;> simp

/-- Two files on either side of the new one; the nearer one has bytes in zone 0. -/
def rankedAround : List RecordedFile :=
  [⟨[], 1⟩, ⟨[(0, 32)], 3⟩, ⟨[], 5⟩, ⟨[], 9⟩]

theorem chooseZoneWithClosestRank_closest_iff_rankedAround :
    ∃ r, chooseZoneWithClosestRank halfWritten 16 rankFive 2 rankedAround = some r ∧
    r.stuck = none ∧
      ChoosesClosest halfWritten rankFive 16 rankedAround 2 r := by
  obtain ⟨r, hr, hstuck, h, -⟩ := chooseZoneWithClosestRank_closest_iff halfWritten rankFive 16
    2 rankedAround ⟨[], 5⟩ rankFive_pointer (by decide) rfl rfl (by decide)
  exact ⟨r, hr, hstuck, h (.inr ⟨⟨[(0, 32)], 3⟩, rfl, .inl (by decide)⟩)⟩

/-- The new file is the last of the ranking: no other file is looked at. -/
theorem exists_closest_overlooked :
    ¬ ∀ (t : Table) (w : Placement) (min_capacity index : Nat) (ranking : List RecordedFile)
    (file : RecordedFile),
      (∀ start, w.pointer start ≠ some none) → ranking.Pairwise (·.rank ≤ ·.rank) →
      ranking[index]? = some file → file.rank = w.fileRank → (∀ f ∈ ranking, f.rank < 2 ^ 64) →
      ∃ r, chooseZoneWithClosestRank t min_capacity w index ranking = some r ∧ r.stuck = none ∧
        ChoosesClosest t w min_capacity ranking index r := by
  intro h
  obtain ⟨r, hr, -, hchoose⟩ := h halfWritten rankFive 16 1 [⟨[(0, 32)], 3⟩, ⟨[], 5⟩] ⟨[], 5⟩
    rankFive_pointer (by decide) rfl rfl (by decide)
  have hnone : (chooseZoneWithClosestRank halfWritten 16 rankFive 1 [⟨[(0, 32)], 3⟩, ⟨[], 5⟩]).map
      TryLock.Result.best = some none := rfl
  rw [hr] at hnone
  obtain ⟨i, f, hi, -⟩ := hchoose ⟨⟨[(0, 32)], 3⟩, by decide, by decide⟩
  rw [Option.map_some, hi] at hnone
  cases hnone

end Alloc

end ZenFs
