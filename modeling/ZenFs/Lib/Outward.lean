import Mathlib.Data.List.Basic
import Mathlib.Order.Lattice

/-!
# Walking outward between two lists

A walk compares the heads of two lists, takes the nearer one and goes on, until one of
the lists is used up.  It comes to the first good element of the list in which it has
less far to go.
-/

namespace Outward

variable {α : Type*} (d : α → Nat)

/-- The elements in the order of the walk.  The head of the second list is taken unless
the other one is strictly nearer. -/
def walk : Nat → List α → List α → List α
  | fuel + 1, x :: xs, y :: ys =>
      if d x < d y then x :: walk fuel xs (y :: ys) else y :: walk fuel (x :: xs) ys
  | _, _, _ => []

variable (good : α → Bool)

/-- The greatest distance on the way to the first good element, or to the end of the list
if there is none. -/
def wayTo : List α → Int
  | [] => -1
  | a :: as => if good a then d a else max (d a : Int) (wayTo as)

variable {d good}

theorem le_wayTo (a : α) (as : List α) : (d a : Int) ≤ wayTo d good (a :: as) := by
  rw [wayTo]
  split
  · exact Int.le_refl _
  · exact Int.le_max_left _ _

theorem wayTo_of_good {a : α} (as : List α) (h : good a = true) : wayTo d good (a :: as) = d a := by
  rw [wayTo, if_pos h]

theorem wayTo_of_not {a : α} (as : List α) (h : good a = false) :
    wayTo d good (a :: as) = max (d a : Int) (wayTo d good as) := by
  rw [wayTo, h, if_neg Bool.false_ne_true]

/-- What the walk comes to first. -/
theorem find?_walk {fuel : Nat} {xs ys : List α} (h : xs.length + ys.length ≤ fuel) :
    (walk d fuel xs ys).find? good =
      if wayTo d good xs < wayTo d good ys then xs.find? good else ys.find? good := by
  induction fuel generalizing xs ys with
  | zero =>
      obtain rfl : xs = [] := List.length_eq_zero_iff.mp (by omega)
      obtain rfl : ys = [] := List.length_eq_zero_iff.mp (by omega)
      rfl
  | succ fuel ih =>
      cases xs with
      | nil =>
          cases ys with
          | nil => rfl
          | cons y ys =>
              have := @le_wayTo _ d good y ys
              rw [if_pos (by rw [wayTo]; omega)]
              rfl
      | cons x xs =>
          cases ys with
          | nil =>
              have := @le_wayTo _ d good x xs
              rw [if_neg (by rw [wayTo]; omega)]
              rfl
          | cons y ys =>
              rw [List.length_cons, List.length_cons] at h
              have hx := @le_wayTo _ d good x xs
              have hy := @le_wayTo _ d good y ys
              rw [walk]
              split
              · -- the way in the second list is longer than this step
                rename_i hlt
                cases hg : good x with
                | true =>
                    have hway := wayTo_of_good (d := d) xs hg
                    rw [List.find?_cons_of_pos hg, List.find?_cons_of_pos hg, if_pos (by omega)]
                | false =>
                    have hway := wayTo_of_not (d := d) xs hg
                    rw [List.find?_cons_of_neg (by simp [hg]), ih (by rw [List.length_cons]; omega),
                      List.find?_cons_of_neg (l := xs) (by simp [hg])]
                    exact if_congr (by omega) rfl rfl
              · rename_i hle
                cases hg : good y with
                | true =>
                    have hway := wayTo_of_good (d := d) ys hg
                    rw [List.find?_cons_of_pos hg, List.find?_cons_of_pos (l := ys) hg,
                      if_neg (by omega)]
                | false =>
                    have hway := wayTo_of_not (d := d) ys hg
                    rw [List.find?_cons_of_neg (by simp [hg]), ih (by rw [List.length_cons]; omega),
                      List.find?_cons_of_neg (l := ys) (by simp [hg])]
                    exact if_congr (by omega) rfl rfl

/-- The way to an element is at least as far as the element. -/
theorem le_wayTo_of_find? {as : List α} {a : α} (h : as.find? good = some a) :
    (d a : Int) ≤ wayTo d good as := by
  induction as with
  | nil => cases h
  | cons b as ih =>
      cases hb : good b with
      | true =>
          rw [List.find?_cons_of_pos hb] at h
          obtain rfl := Option.some.inj h
          exact le_wayTo b as
      | false =>
          rw [List.find?_cons_of_neg (by simp [hb])] at h
          have := ih h
          simp only [wayTo, hb, Bool.false_eq_true, if_false]
          omega

theorem wayTo_le {as : List α} {n : Int} (hn : -1 ≤ n) (h : ∀ a ∈ as, (d a : Int) ≤ n) :
    wayTo d good as ≤ n := by
  induction as with
  | nil => exact hn
  | cons a as ih =>
      obtain ⟨ha, has⟩ := List.forall_mem_cons.mp h
      have := ih has
      rw [wayTo]
      split <;> omega

/-- A list in which all elements in front of a good one are at most as far as `n` leads at
most as far. -/
theorem wayTo_le_of_append {as bs : List α} {a : α} {n : Int} (ha : good a = true)
    (hn : (d a : Int) ≤ n) (has : ∀ b ∈ as, (d b : Int) ≤ n) :
    wayTo d good (as ++ a :: bs) ≤ n := by
  induction as with
  | nil => simpa [wayTo, ha] using hn
  | cons b as ih =>
      obtain ⟨hb, has⟩ := List.forall_mem_cons.mp has
      have := ih has
      rw [List.cons_append, wayTo]
      split <;> omega

/-! ## Lists that lead away

The elements of such a list are farther and farther off, measured by `n`; the walk
measures them by `d`, which is at most as much. -/

section Away

variable {n : α → Nat} {xs : List α} {a : α}

theorem wayTo_le_of_mem (haway : xs.Pairwise fun x y ↦ n x ≤ n y) (hd : ∀ x ∈ xs, d x ≤ n x)
    (ha : a ∈ xs) (hgood : good a = true) : wayTo d good xs ≤ n a := by
  obtain ⟨as, bs, rfl⟩ := List.append_of_mem ha
  have has := (List.pairwise_append.mp haway).2.2
  refine wayTo_le_of_append hgood (by exact_mod_cast hd a ha) fun b hb ↦ ?_
  have := hd b (List.mem_append_left _ hb)
  have := has b hb a List.mem_cons_self
  omega

/-- The last element does not lie on the way. -/
theorem wayTo_dropLast_le (haway : xs.Pairwise fun x y ↦ n x ≤ n y) (hd : ∀ x ∈ xs, d x ≤ n x)
    (ha : a ∈ xs) (hgood : good a = true) : wayTo d good xs.dropLast ≤ n a := by
  obtain ⟨as, bs, rfl⟩ := List.append_of_mem ha
  have has := (List.pairwise_append.mp haway).2.2
  have hle : ∀ b ∈ as, (d b : Int) ≤ n a := by
    intro b hb
    have := hd b (List.mem_append_left _ hb)
    have := has b hb a List.mem_cons_self
    omega
  rcases bs.eq_nil_or_concat with rfl | ⟨bs, b, rfl⟩
  · rw [List.dropLast_concat]
    exact wayTo_le (by omega) hle
  · rw [List.concat_eq_append, ← List.cons_append, ← List.append_assoc, List.dropLast_concat]
    exact wayTo_le_of_append hgood (by exact_mod_cast hd a ha) hle

/-- The first good element is the nearest. -/
theorem le_of_find? (haway : xs.Pairwise fun x y ↦ n x ≤ n y) {f : α} (hf : xs.find? good = some f)
    (ha : a ∈ xs) (hgood : good a = true) : n f ≤ n a := by
  obtain ⟨-, as, bs, rfl, hnot⟩ := List.find?_eq_some_iff_append.mp hf
  rcases List.mem_append.mp ha with h | h
  · have := hnot a h
    simp [hgood] at this
  · rcases List.mem_cons.mp h with rfl | h
    · exact Nat.le_refl _
    · exact (List.pairwise_cons.mp (List.pairwise_append.mp haway).2.1).1 a h

end Away

end Outward
