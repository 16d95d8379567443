import ZenFs.Zbd.Zone
import Mathlib.Data.List.GetD
import Mathlib.Order.Lattice

/-!
# Level labels of zones

A zone carries the level of the LSM tree it is used for, and for each level the
number of bytes it holds.  `Zone::UpdateBytesOfLevel` changes one of these numbers
and moves the label to the level with the most bytes.  This file says when a call,
and when a sequence of calls, stays within the vector, and what it leaves.
-/

namespace ZenFs

/-- Why a call of `Zone::UpdateBytesOfLevel` has no result: it indexes outside of
`bytes_of_level`, or its loop, which counts in eight bits, does not end. -/
inductive Fault where
  | outOfRange
  | endless
deriving DecidableEq, Repr

/-- `level_` and `bytes_of_level` of a `Zone`, as its constructor sets them. -/
structure ZoneLabel where
  level : Int := -1
  bytesOfLevel : List Int := List.replicate 5 0
deriving DecidableEq, Repr

/-- What is left of a number that is stored in an `int`. -/
def toInt (n : Int) : Int := Int.bmod n (2 ^ 32)

theorem toInt_of_lt {n : Int} (h : -(2 ^ 31) ≤ n) (h' : n < 2 ^ 31) : toInt n = n := by
  unfold toInt
  rw [Int.bmod_eq_of_le] <;> omega

namespace ZoneLabel

/-- `bytes_of_level[i]`. -/
def index (b : List Int) (i : Int) : Except Fault Int :=
  if 0 ≤ i ∧ i < b.length then .ok (b.getD i.toNat 0) else .error .outOfRange

/-- `if (level >= (int)bytes_of_level.size()) bytes_of_level.resize(level+1, 0);` -/
def resize (b : List Int) (level : Int) : List Int :=
  if b.length ≤ level then b ++ List.replicate ((level + 1).toNat - b.length) 0 else b

/-- The loop over `bytes_of_level`, for the indices that are still to come. -/
def chooseLevel (b : List Int) (chosen_level : Int) : List Nat → Except Fault Int
  | [] => .ok chosen_level
  | i :: is =>
      match index b i, index b chosen_level with
      | .ok x, .ok y => chooseLevel b (if y < x then i else chosen_level) is
      | _, _ => .error .outOfRange

/-- `Zone::UpdateBytesOfLevel`.  With 256 levels or more the counter of the loop wraps
around below the size. -/
def updateBytesOfLevel (z : ZoneLabel) (dynamic : Bool) (level bytes : Int) :
    Except Fault ZoneLabel :=
  let b := resize z.bytesOfLevel level
  match index b level with
  | .error e => .error e
  | .ok n =>
      let b := b.set level.toNat (max (toInt (n + bytes)) 0)
      if !dynamic || decide (level < 0) then .ok { z with bytesOfLevel := b }
      else
        match chooseLevel b z.level (List.range (min b.length 256)) with
        | .error e => .error e
        | .ok chosen_level =>
            if 256 ≤ b.length then .error .endless
            else .ok { level := chosen_level, bytesOfLevel := b }

/-- The part of `Zone::Reset` that is about levels. -/
def reset (z : ZoneLabel) : ZoneLabel :=
  { level := -1, bytesOfLevel := List.replicate z.bytesOfLevel.length 0 }

/-- The number of bytes at a level; there are none where the vector ends. -/
def bytes (z : ZoneLabel) (level : Int) : Int := z.bytesOfLevel.getD level.toNat 0

/-- The zone can count at a level: the level is not negative and, where the label moves
with the counts, the label is a position of the vector after it has grown. -/
def Admits (z : ZoneLabel) (dynamic : Bool) (level : Int) : Prop :=
  0 ≤ level ∧
    (dynamic = true → 0 ≤ z.level ∧ z.level < max (z.bytesOfLevel.length : Int) (level + 1))

instance (z : ZoneLabel) (dynamic : Bool) (level : Int) : Decidable (z.Admits dynamic level) :=
  inferInstanceAs (Decidable (_ ∧ _))

/-- The deepest level that the zone has a count for. -/
def deepest (z : ZoneLabel) : Int := z.bytesOfLevel.length - 1

/-- The zone has a label, which is no deeper than the level or than all that the zone has a
count for. -/
def Reaches (z : ZoneLabel) (level : Int) : Prop := 0 ≤ z.level ∧ z.level ≤ max level z.deepest

instance (z : ZoneLabel) (level : Int) : Decidable (z.Reaches level) :=
  inferInstanceAs (Decidable (_ ∧ _))

theorem admits_iff {z : ZoneLabel} {dynamic : Bool} {level : Int} :
    z.Admits dynamic level ↔ 0 ≤ level ∧ (dynamic = true → z.Reaches level) := by
  have hmax : z.level < max (z.bytesOfLevel.length : Int) (level + 1) ↔
      z.level ≤ max level z.deepest := by
    unfold deepest
    omega
  rw [Admits, Reaches, hmax]

/-- The label is a position of the vector. -/
def InRange (z : ZoneLabel) : Prop := 0 ≤ z.level ∧ z.level < z.bytesOfLevel.length

section Update

variable {z z' : ZoneLabel} {dynamic : Bool} {level n : Int} {b : List Int}

theorem length_resize (b : List Int) (level : Int) :
    ((resize b level).length : Int) = max (b.length : Int) (level + 1) := by
  unfold resize
  split
  · rw [List.length_append, List.length_replicate]
    omega
  · omega

theorem getD_resize (b : List Int) (level : Int) (k : Nat) :
    (resize b level).getD k 0 = b.getD k 0 := by
  unfold resize
  split
  · rcases Nat.lt_or_ge k b.length with hk | hk
    · rw [List.getD_append _ _ _ _ hk]
    · rw [List.getD_append_right _ _ _ _ hk, List.getD_eq_default _ _ hk]
      rcases Nat.lt_or_ge (k - b.length) ((level + 1).toNat - b.length) with hr | hr
      · rw [List.getD_replicate _ hr]
      · rw [List.getD_eq_default _ _ (by simpa using hr)]
  · rfl

theorem index_of_mem {i : Int} (h : 0 ≤ i) (h' : i < b.length) :
    index b i = .ok (b.getD i.toNat 0) := if_pos ⟨h, h'⟩

theorem index_of_notMem {i : Int} (h : ¬ (0 ≤ i ∧ i < b.length)) :
    index b i = .error .outOfRange := if_neg h

theorem index_resize (z : ZoneLabel) {level : Int} (h : 0 ≤ level) :
    index (resize z.bytesOfLevel level) level = .ok (z.bytes level) := by
  have hlen := length_resize z.bytesOfLevel level
  rw [index_of_mem h (by omega), getD_resize]
  rfl

/-- The loop reads the vector at the label in its first turn, and from then on only at
positions it has visited. -/
theorem chooseLevel_ok {is : List Nat} (his : ∀ i ∈ is, i < b.length) {c : Int} (hc : 0 ≤ c)
    (hc' : c < b.length) : ∃ c', chooseLevel b c is = .ok c' ∧ 0 ≤ c' ∧ c' < b.length := by
  induction is generalizing c with
  | nil => exact ⟨c, rfl, hc, hc'⟩
  | cons i is ih =>
      have hi : (i : Int) < b.length := by exact_mod_cast his i (by simp)
      rw [chooseLevel, index_of_mem (Int.natCast_nonneg i) hi, index_of_mem hc hc']
      refine ih (fun j hj ↦ his j (by simp [hj])) ?_ ?_ <;> split <;> omega

theorem chooseLevel_outOfRange {is : List Nat} (his : is ≠ []) {c : Int}
    (hc : ¬ (0 ≤ c ∧ c < b.length)) : chooseLevel b c is = .error .outOfRange := by
  cases is with
  | nil => exact absurd rfl his
  | cons i is =>
      rw [chooseLevel, index_of_notMem hc]
      cases index b i <;> rfl

/-- A call on a zone that does not admit the level leaves the vector. -/
theorem updateBytesOfLevel_of_not_admits (h : ¬ z.Admits dynamic level) :
    z.updateBytesOfLevel dynamic level n = .error .outOfRange := by
  have hlen := length_resize z.bytesOfLevel level
  by_cases hl : 0 ≤ level
  · have hneg : ¬ level < 0 := by omega
    obtain ⟨rfl, h⟩ : dynamic = true ∧
        ¬ (0 ≤ z.level ∧ z.level < max (z.bytesOfLevel.length : Int) (level + 1)) := by
      refine ⟨?_, fun hz ↦ h ⟨hl, fun _ ↦ hz⟩⟩
      cases dynamic with
      | true => rfl
      | false => exact absurd ⟨hl, by simp⟩ h
    simp only [updateBytesOfLevel, index_resize z hl, Bool.not_true, Bool.false_or,
      decide_eq_true_eq, if_neg hneg]
    rw [chooseLevel_outOfRange _ (by rwa [List.length_set, hlen])]
    rw [ne_eq, List.range_eq_nil, List.length_set]
    omega
  · rw [updateBytesOfLevel, index_of_notMem (fun h ↦ hl h.1)]

/-- A call on a zone that admits the level changes the count of the level and no
other, and leaves the label within the vector; unless it never returns. -/
theorem updateBytesOfLevel_of_admits (h : z.Admits dynamic level) :
    z.updateBytesOfLevel dynamic level n = .error .endless ∨
      ∃ z', z.updateBytesOfLevel dynamic level n = .ok z' ∧
        (∀ l, 0 ≤ l → z'.bytes l = if l = level then max (toInt (z.bytes level + n)) 0
          else z.bytes l) ∧
        (dynamic = true → z'.InRange) ∧
        (z'.bytesOfLevel.length : Int) = max (z.bytesOfLevel.length : Int) (level + 1) := by
  have hlen := length_resize z.bytesOfLevel level
  obtain ⟨hl, hz⟩ := h
  have hneg : ¬ level < 0 := by omega
  have hbytes : ∀ l, 0 ≤ l → ((resize z.bytesOfLevel level).set level.toNat
      (max (toInt (z.bytes level + n)) 0)).getD l.toNat 0 =
        if l = level then max (toInt (z.bytes level + n)) 0 else z.bytes l := by
    intro l hl'
    rw [List.getD_eq_getElem?_getD, List.getElem?_set]
    by_cases hll : l = level
    · subst hll
      rw [if_pos rfl, if_pos (by omega), if_pos rfl]
      rfl
    · rw [if_neg (by omega), if_neg hll, ← List.getD_eq_getElem?_getD, getD_resize]
      rfl
  simp only [updateBytesOfLevel, index_resize z hl]
  cases dynamic with
  | false =>
      refine .inr ⟨_, rfl, hbytes, by simp, ?_⟩
      rw [List.length_set, hlen]
  | true =>
      obtain ⟨hz, hz'⟩ := hz rfl
      simp only [Bool.not_true, Bool.false_or, decide_eq_true_eq, if_neg hneg]
      generalize hb : (resize z.bytesOfLevel level).set level.toNat
        (max (toInt (z.bytes level + n)) 0) = b at hbytes ⊢
      have hblen : (b.length : Int) = max (z.bytesOfLevel.length : Int) (level + 1) := by
        rw [← hb, List.length_set, hlen]
      have hrange : ∀ i ∈ List.range (min b.length 256), i < b.length := by
        intro i hi
        rw [List.mem_range] at hi
        omega
      obtain ⟨c, hc, hc₀, hc₁⟩ := chooseLevel_ok hrange hz (by omega)
      simp only [hc]
      split
      · exact .inl rfl
      · exact .inr ⟨_, rfl, hbytes, fun _ ↦ ⟨hc₀, hc₁⟩, hblen⟩

end Update

@[simp] theorem bytes_reset (z : ZoneLabel) (level : Int) : z.reset.bytes level = 0 := by
  rw [bytes, reset]
  rcases Nat.lt_or_ge level.toNat z.bytesOfLevel.length with h | h
  · exact List.getD_replicate _ h
  · exact List.getD_eq_default _ _ (by simpa using h)

end ZoneLabel

/-! ## Sequences of calls -/

/-- A call of `Zone::UpdateBytesOfLevel`, with the zone it is made on. -/
structure LevelCall where
  zone : ZoneId
  level : Int
  bytes : Int
deriving DecidableEq, Repr

namespace LevelCall

/-- The calls of one function, in order. -/
def updateAll (dynamic : Bool) (labels : ZoneId → ZoneLabel) :
    List LevelCall → Except Fault (ZoneId → ZoneLabel)
  | [] => .ok labels
  | c :: cs =>
      match (labels c.zone).updateBytesOfLevel dynamic c.level c.bytes with
      | .error e => .error e
      | .ok z => updateAll dynamic (Function.update labels c.zone z) cs

/-- No call has a negative level and, where labels move, the first call on each zone
finds a label that is a position of the vector after it has grown. -/
def Admitted (dynamic : Bool) (labels : ZoneId → ZoneLabel) (cs : List LevelCall) : Prop :=
  ∀ pre c post, cs = pre ++ c :: post → 0 ≤ c.level ∧
    (dynamic = true → (∀ c' ∈ pre, c'.zone ≠ c.zone) → (labels c.zone).Admits dynamic c.level)

theorem admitted_iff_getElem {dynamic : Bool} {labels : ZoneId → ZoneLabel} {cs : List LevelCall} :
    Admitted dynamic labels cs ↔ ∀ k : Fin cs.length, 0 ≤ cs[k].level ∧
      (dynamic = true → (∀ c' ∈ cs.take k, c'.zone ≠ cs[k].zone) →
        (labels cs[k].zone).Admits dynamic cs[k].level) := by
  constructor
  · intro h k
    exact h (cs.take k) cs[k] (cs.drop (k + 1)) (by simp)
  · rintro h pre c post rfl
    have := h ⟨pre.length, by simp⟩
    simpa using this

instance (dynamic : Bool) (labels : ZoneId → ZoneLabel) (cs : List LevelCall) :
    Decidable (Admitted dynamic labels cs) := decidable_of_iff _ admitted_iff_getElem.symm

theorem admitted_iff_find? {dynamic : Bool} {labels : ZoneId → ZoneLabel} {cs : List LevelCall} :
    Admitted dynamic labels cs ↔ (∀ c ∈ cs, 0 ≤ c.level) ∧
      (dynamic = true → ∀ i c, cs.find? (fun c ↦ c.zone = i) = some c →
        (labels i).Reaches c.level) := by
  constructor
  · intro h
    refine ⟨fun c hc ↦ ?_, fun hd i c hc ↦ ?_⟩
    · obtain ⟨pre, post, rfl⟩ := List.append_of_mem hc
      exact (h pre c post rfl).1
    · obtain ⟨hi, pre, post, rfl, hpre⟩ := List.find?_eq_some_iff_append.mp hc
      obtain rfl : c.zone = i := of_decide_eq_true hi
      exact (ZoneLabel.admits_iff.mp
        ((h pre c post rfl).2 hd fun c' hc' ↦ by simpa using hpre c' hc')).2 hd
  · rintro ⟨hl, hz⟩ pre c post rfl
    have hc : 0 ≤ c.level := hl c (by simp)
    refine ⟨hc, fun hd hpre ↦ ZoneLabel.admits_iff.mpr ⟨hc, fun _ ↦ hz hd c.zone c ?_⟩⟩
    rw [List.find?_eq_some_iff_append]
    exact ⟨by simp, pre, post, rfl, fun c' hc' ↦ by simpa using hpre c' hc'⟩

/-- How much the calls add to the count of a level in a zone. -/
def moved (i : ZoneId) (l : Int) (cs : List LevelCall) : Int :=
  (cs.map fun c ↦ if c.zone = i ∧ c.level = l then c.bytes else 0).sum

@[simp] theorem moved_nil (i : ZoneId) (l : Int) : moved i l [] = 0 := rfl

@[simp] theorem moved_cons (i : ZoneId) (l : Int) (c : LevelCall) (cs : List LevelCall) :
    moved i l (c :: cs) = (if c.zone = i ∧ c.level = l then c.bytes else 0) + moved i l cs := by
  simp [moved]

@[simp] theorem moved_append (i : ZoneId) (l : Int) (cs cs' : List LevelCall) :
    moved i l (cs ++ cs') = moved i l cs + moved i l cs' := by
  simp [moved]

section Sequences

variable {dynamic : Bool} {labels labels' : ZoneId → ZoneLabel} {c : LevelCall}
  {cs : List LevelCall}

theorem admitted_nil : Admitted dynamic labels [] := by
  intro pre c post h
  simp at h

theorem Admitted.head (h : Admitted dynamic labels (c :: cs)) :
    (labels c.zone).Admits dynamic c.level := by
  obtain ⟨hl, hz⟩ := h [] c cs rfl
  exact ⟨hl, fun hd ↦ (hz hd (by simp)).2 hd⟩

/-- A call leaves a label that admits every level from zero on. -/
theorem admitted_cons {z : ZoneLabel} (hc : (labels c.zone).Admits dynamic c.level)
    (hz : dynamic = true → z.InRange) :
    Admitted dynamic labels (c :: cs) ↔ Admitted dynamic (Function.update labels c.zone z) cs := by
  constructor
  · intro h pre c' post hcs
    obtain ⟨hl, hadm⟩ := h (c :: pre) c' post (by rw [hcs, List.cons_append])
    refine ⟨hl, fun hd hpre ↦ ?_⟩
    by_cases hzone : c.zone = c'.zone
    · rw [← hzone, Function.update_self]
      obtain ⟨h₀, h₁⟩ := hz hd
      exact ⟨hl, fun _ ↦ ⟨h₀, by omega⟩⟩
    · rw [Function.update_of_ne (Ne.symm hzone)]
      refine hadm hd fun x hx ↦ ?_
      rcases List.mem_cons.mp hx with rfl | hx
      · exact hzone
      · exact hpre x hx
  · intro h pre c' post hcs
    cases pre with
    | nil =>
        obtain ⟨rfl, -⟩ := List.cons.inj hcs
        exact ⟨hc.1, fun _ _ ↦ hc⟩
    | cons x pre =>
        obtain ⟨rfl, hcs'⟩ := List.cons.inj hcs
        obtain ⟨hl, hadm⟩ := h pre c' post hcs'
        refine ⟨hl, fun hd hpre ↦ ?_⟩
        have hne : c'.zone ≠ c.zone := (hpre c (by simp)).symm
        simpa [Function.update_of_ne hne] using hadm hd fun x hx ↦ hpre x (by simp [hx])

/-- A sequence of calls that comes to an end stays within the vectors exactly if it is
admitted. -/
theorem updateAll_spec (dynamic : Bool) (labels : ZoneId → ZoneLabel) (cs : List LevelCall) :
    updateAll dynamic labels cs = .error .endless ∨
      (updateAll dynamic labels cs = .error .outOfRange ∧ ¬ Admitted dynamic labels cs) ∨
      (∃ labels', updateAll dynamic labels cs = .ok labels') ∧ Admitted dynamic labels cs := by
  induction cs generalizing labels with
  | nil => exact .inr (.inr ⟨⟨labels, rfl⟩, admitted_nil⟩)
  | cons c cs ih =>
      by_cases hc : (labels c.zone).Admits dynamic c.level
      · rcases ZoneLabel.updateBytesOfLevel_of_admits (n := c.bytes) hc with he | ⟨z, he, -, hz, -⟩
        · exact .inl (by rw [updateAll, he])
        · rw [updateAll, he, admitted_cons hc hz]
          exact ih _
      · refine .inr (.inl ⟨?_, fun h ↦ hc h.head⟩)
        rw [updateAll, ZoneLabel.updateBytesOfLevel_of_not_admits hc]

/-- Calls under which no count leaves the range of an `int` from zero on add up. -/
theorem bytes_updateAll (h : updateAll dynamic labels cs = .ok labels')
    (hfit : ∀ pre, pre <+: cs → ∀ i l, 0 ≤ l →
      0 ≤ (labels i).bytes l + moved i l pre ∧ (labels i).bytes l + moved i l pre < 2 ^ 31)
    (i : ZoneId) {l : Int} (hl : 0 ≤ l) :
    (labels' i).bytes l = (labels i).bytes l + moved i l cs := by
  induction cs generalizing labels with
  | nil =>
      obtain rfl := Except.ok.inj h
      simp
  | cons c cs ih =>
      have hc : (labels c.zone).Admits dynamic c.level := by
        by_contra hc
        simp [updateAll, ZoneLabel.updateBytesOfLevel_of_not_admits hc] at h
      rcases ZoneLabel.updateBytesOfLevel_of_admits (n := c.bytes) hc with he | ⟨z, he, hz, -⟩
      · simp [updateAll, he] at h
      · rw [updateAll, he] at h
        have hfirst := hfit [c] (by simp) c.zone c.level hc.1
        have hstep : ∀ i l, 0 ≤ l →
            (Function.update labels c.zone z i).bytes l = (labels i).bytes l + moved i l [c] := by
          intro i l hl
          by_cases hi : i = c.zone
          · subst hi
            rw [Function.update_self, hz l hl]
            by_cases hll : l = c.level
            · subst hll
              simp only [moved_cons, moved_nil, and_self, if_true, Int.add_zero] at hfirst ⊢
              rw [toInt_of_lt (by omega) hfirst.2, max_eq_left hfirst.1]
            · simp [hll, Ne.symm hll]
          · rw [Function.update_of_ne hi]
            simp [Ne.symm hi]
        rw [ih h ?_, hstep i l hl]
        · simp only [moved_cons, moved_nil]
          omega
        · intro pre hpre i l hl
          have := hfit (c :: pre) ((List.prefix_cons_inj c).mpr hpre) i l hl
          rw [hstep i l hl]
          simp only [moved_cons, moved_nil] at this ⊢
          omega

end Sequences

end LevelCall

end ZenFs
