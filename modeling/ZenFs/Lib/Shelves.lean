import Mathlib.Data.List.Basic
import Mathlib.Tactic.Common

/-!
# Shelves

A row of lists, the shelves, each of them sorted.  An entry is put on the shelf with a
given number, behind all entries that are not larger, or taken from wherever it is.
`Sound` says that the entries belong where they are, in order, and that none occurs
twice; putting and taking entries keep it.
-/

namespace Shelves

universe u

variable {α : Type u} {le le' : α → α → Prop} {good good' : Nat → α → Prop} {x y : α}
  {l : Nat} {xs : List α} {t : List (List α)}

section Operations

variable [DecidableRel le]

/-- Put an entry in front of the first larger one. -/
def insert (le : α → α → Prop) [DecidableRel le] (x : α) : List α → List α
  | [] => [x]
  | y :: ys => if le y x then y :: insert le x ys else x :: y :: ys

/-- Put an entry on shelf `l`, after adding empty shelves where there are too few. -/
def put (le : α → α → Prop) [DecidableRel le] (x : α) : Nat → List (List α) → List (List α)
  | 0, [] => [[x]]
  | 0, xs :: t => insert le x xs :: t
  | l + 1, [] => [] :: put le x l []
  | l + 1, xs :: t => xs :: put le x l t

/-- Take an entry from all shelves. -/
def take [DecidableEq α] (x : α) (t : List (List α)) : List (List α) :=
  t.map (·.filter (· ≠ x))

end Operations

/-- Every entry belongs on its shelf, the shelves are sorted, and no entry occurs twice. -/
structure Sound (good : Nat → α → Prop) (le : α → α → Prop) (t : List (List α)) : Prop where
  good : ∀ l xs, t[l]? = some xs → ∀ x ∈ xs, good l x
  sorted : ∀ xs ∈ t, xs.Pairwise le
  once : t.flatten.Nodup

theorem Sound.nil : Sound good le [] where
  good := fun l xs h ↦ by simp at h
  sorted := fun xs h ↦ by simp at h
  once := List.nodup_nil

/-- Entries may change as long as they stay good and in order. -/
theorem Sound.congr (h : Sound good le t) (hgood : ∀ l, ∀ x ∈ t.flatten, good l x → good' l x)
    (hle : ∀ x ∈ t.flatten, ∀ y ∈ t.flatten, le x y → le' x y) : Sound good' le' t where
  good := fun l xs hxs x hx ↦
    hgood l x (List.mem_flatten.mpr ⟨xs, List.mem_of_getElem? hxs, hx⟩) (h.good l xs hxs x hx)
  sorted := fun xs hxs ↦ (h.sorted xs hxs).imp_of_mem fun ha hb ↦
    hle _ (List.mem_flatten.mpr ⟨xs, hxs, ha⟩) _ (List.mem_flatten.mpr ⟨xs, hxs, hb⟩)
  once := h.once

section Take

variable [DecidableEq α]

theorem mem_flatten_take : y ∈ (take x t).flatten ↔ y ∈ t.flatten ∧ y ≠ x := by
  simp only [take, List.mem_flatten, List.mem_map]
  constructor
  · rintro ⟨ys, ⟨zs, hzs, rfl⟩, hy⟩
    rw [List.mem_filter, decide_eq_true_eq] at hy
    exact ⟨⟨zs, hzs, hy.1⟩, hy.2⟩
  · rintro ⟨⟨zs, hzs, hy⟩, hne⟩
    exact ⟨_, ⟨zs, hzs, rfl⟩, List.mem_filter.mpr ⟨hy, decide_eq_true hne⟩⟩

theorem length_take : (take x t).length = t.length := List.length_map _

theorem flatten_take_sublist (x : α) (t : List (List α)) :
    (take x t).flatten.Sublist t.flatten := by
  induction t with
  | nil => exact List.Sublist.refl _
  | cons ys t ih =>
      rw [take, List.map_cons, List.flatten_cons, List.flatten_cons]
      exact List.filter_sublist.append ih

theorem Sound.take (h : Sound good le t) (x : α) : Sound good le (take x t) where
  good := by
    intro l xs hxs y hy
    rw [Shelves.take, List.getElem?_map, Option.map_eq_some_iff] at hxs
    obtain ⟨zs, hzs, rfl⟩ := hxs
    exact h.good l zs hzs y (List.mem_of_mem_filter hy)
  sorted := by
    intro xs hxs
    obtain ⟨zs, hzs, rfl⟩ := List.mem_map.mp hxs
    exact (h.sorted zs hzs).filter _
  once := (flatten_take_sublist x t).nodup h.once

end Take

section Put

variable [DecidableRel le]

theorem insert_perm (x : α) (xs : List α) : (insert le x xs).Perm (x :: xs) := by
  induction xs with
  | nil => exact .refl _
  | cons y ys ih =>
      rw [insert]
      split
      · exact (ih.cons y).trans (.swap x y ys)
      · exact .refl _

theorem insert_sorted (htotal : ∀ a b, le a b ∨ le b a) (htrans : ∀ a b c, le a b → le b c → le a c)
    (h : xs.Pairwise le) : (insert le x xs).Pairwise le := by
  induction h with
  | nil => exact List.pairwise_singleton le x
  | @cons y ys hy hys ih =>
      rw [insert]
      split
      · rename_i hyx
        refine .cons (fun z hz ↦ ?_) ih
        rcases List.mem_cons.mp ((insert_perm x ys).mem_iff.mp hz) with rfl | hz
        · exact hyx
        · exact hy z hz
      · rename_i hyx
        have hxy : le x y := (htotal x y).resolve_right hyx
        refine .cons (fun z hz ↦ ?_) (.cons hy hys)
        rcases List.mem_cons.mp hz with rfl | hz
        · exact hxy
        · exact htrans x y z hxy (hy z hz)

theorem length_put (x : α) (l : Nat) (t : List (List α)) :
    (put le x l t).length = max t.length (l + 1) := by
  induction l generalizing t with
  | zero => cases t <;> simp [put]
  | succ l ih => cases t <;> simp [put, ih]

theorem put_perm (x : α) (l : Nat) (t : List (List α)) :
    (put le x l t).flatten.Perm (x :: t.flatten) := by
  induction l generalizing t with
  | zero =>
      cases t with
      | nil => exact .refl _
      | cons xs t => exact (insert_perm x xs).append_right _
  | succ l ih =>
      cases t with
      | nil => exact ih []
      | cons xs t => exact ((ih t).append_left xs).trans List.perm_middle

/-- The shelves besides shelf `l` are as they were, or new and empty. -/
theorem mem_put {k : Nat} (h : (put le x l t)[k]? = some xs) (hy : y ∈ xs) :
    (k = l ∧ y = x) ∨ ∃ ys, t[k]? = some ys ∧ y ∈ ys := by
  induction l generalizing t k with
  | zero =>
      cases t with
      | nil =>
          cases k with
          | zero =>
              obtain rfl : [x] = xs := Option.some.inj h
              exact .inl ⟨rfl, List.mem_singleton.mp hy⟩
          | succ k => simp [put] at h
      | cons ys t =>
          cases k with
          | zero =>
              obtain rfl : insert le x ys = xs := Option.some.inj h
              rcases List.mem_cons.mp ((insert_perm x ys).mem_iff.mp hy) with rfl | hy
              · exact .inl ⟨rfl, rfl⟩
              · exact .inr ⟨ys, rfl, hy⟩
          | succ k => exact .inr ⟨xs, h, hy⟩
  | succ l ih =>
      cases t with
      | nil =>
          cases k with
          | zero =>
              obtain rfl : [] = xs := Option.some.inj h
              simp at hy
          | succ k =>
              rcases ih (t := []) h with ⟨rfl, rfl⟩ | ⟨ys, hys, -⟩
              · exact .inl ⟨rfl, rfl⟩
              · simp at hys
      | cons ys t =>
          cases k with
          | zero =>
              obtain rfl : ys = xs := Option.some.inj h
              exact .inr ⟨ys, rfl, hy⟩
          | succ k =>
              rcases ih (t := t) h with ⟨rfl, rfl⟩ | h
              · exact .inl ⟨rfl, rfl⟩
              · exact .inr h

theorem put_sorted (htotal : ∀ a b, le a b ∨ le b a) (htrans : ∀ a b c, le a b → le b c → le a c)
    (h : ∀ xs ∈ t, xs.Pairwise le) : ∀ xs ∈ put le x l t, xs.Pairwise le := by
  induction l generalizing t with
  | zero =>
      cases t with
      | nil =>
          intro xs hxs
          obtain rfl := List.mem_singleton.mp hxs
          exact List.pairwise_singleton le x
      | cons ys t =>
          rw [put, List.forall_mem_cons]
          rw [List.forall_mem_cons] at h
          exact ⟨insert_sorted htotal htrans h.1, h.2⟩
  | succ l ih =>
      cases t with
      | nil =>
          rw [put, List.forall_mem_cons]
          exact ⟨.nil, ih (by simp)⟩
      | cons ys t =>
          rw [put, List.forall_mem_cons]
          rw [List.forall_mem_cons] at h
          exact ⟨h.1, ih h.2⟩

/-- An entry that is nowhere and belongs on shelf `l` can be put there. -/
theorem Sound.put (h : Sound good le t) (htotal : ∀ a b, le a b ∨ le b a)
    (htrans : ∀ a b c, le a b → le b c → le a c) (hx : x ∉ t.flatten) (hl : good l x) :
    Sound good le (put le x l t) where
  good := by
    intro k xs hxs y hy
    rcases mem_put hxs hy with ⟨rfl, rfl⟩ | ⟨ys, hys, hy⟩
    · exact hl
    · exact h.good k ys hys y hy
  sorted := put_sorted htotal htrans h.sorted
  once := (put_perm x l t).nodup_iff.mpr (List.nodup_cons.mpr ⟨hx, h.once⟩)

end Put

end Shelves
