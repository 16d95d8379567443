import Mathlib.Data.List.GetD
import Mathlib.Tactic.Common

/-!
# Linear memories

A linear memory assigns a cell to every address.  A device and a heap buffer
are both read and written by contiguous runs of cells, so the whole library is
about two operations: `read`, which copies a run out, and `write`, which
overwrites one.  Nothing here looks at the contents of a cell.
-/

namespace ZenFs

universe u

/-- A memory with cells of type `α` at every natural address. -/
abbrev Mem (α : Type u) := Nat → α

namespace Mem

variable {α : Type u}

/-- The `n` cells from address `a` on. -/
def read (m : Mem α) (a n : Nat) : List α := (List.range n).map fun i ↦ m (a + i)

/-- Overwrite the cells from address `a` on by `xs`. -/
def write (m : Mem α) (a : Nat) (xs : List α) : Mem α := fun b ↦
  if a ≤ b then xs.getD (b - a) (m b) else m b

/-- Set the `n` cells from address `a` on to `x`, as `memset` does. -/
def fill (m : Mem α) (a n : Nat) (x : α) : Mem α := m.write a (List.replicate n x)

@[simp] theorem length_read (m : Mem α) (a n : Nat) : (m.read a n).length = n := by
  simp [read]

@[simp] theorem read_zero (m : Mem α) (a : Nat) : m.read a 0 = [] := rfl

theorem getElem?_read (m : Mem α) (a n i : Nat) :
    (m.read a n)[i]? = if i < n then some (m (a + i)) else none := by
  by_cases h : i < n <;> simp [read, h]

/-- Two reads agree as soon as the memories agree on the cells read. -/
theorem read_congr {m m' : Mem α} {a n : Nat} (h : ∀ b, a ≤ b → b < a + n → m b = m' b) :
    m.read a n = m'.read a n := by
  apply List.map_congr_left
  intro i hi
  rw [List.mem_range] at hi
  exact h (a + i) (by omega) (by omega)

theorem read_add (m : Mem α) (a n k : Nat) :
    m.read a (n + k) = m.read a n ++ m.read (a + n) k := by
  apply List.ext_getElem?
  intro i
  by_cases h : i < n
  · rw [List.getElem?_append_left (by simpa using h)]
    simp only [getElem?_read, h, show i < n + k by omega, if_true]
  · rw [List.getElem?_append_right (by simpa using h)]
    simp only [getElem?_read, length_read]
    by_cases h' : i < n + k
    · rw [if_pos h', if_pos (by omega), show a + n + (i - n) = a + i by omega]
    · rw [if_neg h', if_neg (by omega)]

theorem take_read (m : Mem α) (a n k : Nat) (h : k ≤ n) : (m.read a n).take k = m.read a k := by
  obtain ⟨j, rfl⟩ := Nat.exists_eq_add_of_le h
  rw [read_add, List.take_append_of_le_length (by simp), List.take_of_length_le (by simp)]

theorem drop_read (m : Mem α) (a n k : Nat) (h : k ≤ n) :
    (m.read a n).drop k = m.read (a + k) (n - k) := by
  obtain ⟨j, rfl⟩ := Nat.exists_eq_add_of_le h
  rw [read_add, List.drop_append_of_le_length (by simp), List.drop_of_length_le (by simp)]
  simp

theorem write_of_lt (m : Mem α) {a b : Nat} (xs : List α) (h : b < a) : m.write a xs b = m b := by
  simp [write, Nat.not_le.mpr h]

theorem write_of_ge (m : Mem α) {a b : Nat} (xs : List α) (h : a + xs.length ≤ b) :
    m.write a xs b = m b := by
  simp only [write]
  split
  · rw [List.getD_eq_default _ _ (by omega)]
  · rfl

theorem write_of_mem (m : Mem α) {a b : Nat} (xs : List α) (h : a ≤ b) (h' : b < a + xs.length) :
    m.write a xs b = xs.get ⟨b - a, by omega⟩ := by
  simp only [write, if_pos h]
  rw [List.getD_eq_getElem _ _ (by omega)]
  rfl

@[simp] theorem write_nil (m : Mem α) (a : Nat) : m.write a [] = m := by
  funext b
  simp [write]

/-- Writing `xs` and then `ys` right behind it is one write. -/
theorem write_append (m : Mem α) (a : Nat) (xs ys : List α) :
    (m.write a xs).write (a + xs.length) ys = m.write a (xs ++ ys) := by
  funext b
  by_cases h1 : b < a
  · rw [write_of_lt _ _ (by omega), write_of_lt _ _ h1, write_of_lt _ _ h1]
  · by_cases h2 : b < a + xs.length
    · rw [write_of_lt _ _ h2]
      simp only [write, if_pos (Nat.le_of_not_lt h1)]
      rw [List.getD_append _ _ _ _ (by omega)]
    · simp only [write, if_pos (Nat.le_of_not_lt h1), if_pos (Nat.le_of_not_lt h2)]
      rw [List.getD_append_right _ _ _ _ (by omega), List.getD_eq_default xs _ (by omega),
        show b - (a + xs.length) = b - a - xs.length by omega]

/-- What was written can be read back. -/
theorem read_write (m : Mem α) (a : Nat) (xs : List α) :
    (m.write a xs).read a xs.length = xs := by
  apply List.ext_getElem?
  intro i
  rw [getElem?_read]
  split
  · rw [write_of_mem _ _ (by omega) (by omega)]
    simp_all
  · rw [List.getElem?_eq_none (by omega)]

/-- A read of a prefix of what was written. -/
theorem read_write_take (m : Mem α) (a n : Nat) (xs : List α) (h : n ≤ xs.length) :
    (m.write a xs).read a n = xs.take n := by
  rw [← take_read _ a xs.length n h, read_write]

/-- A read from the middle of what was written. -/
theorem read_write_mid (m : Mem α) (a : Nat) {k n : Nat} (xs : List α) (h : k + n ≤ xs.length) :
    (m.write a xs).read (a + k) n = (xs.drop k).take n := by
  have hdrop : xs.drop k = (m.write a xs).read (a + k) (xs.length - k) := by
    rw [← drop_read _ _ _ _ (by omega), read_write]
  rw [hdrop, take_read _ _ _ _ (by omega)]

/-- Two runs of cells, one behind the other. -/
theorem read_eq_append_iff (m : Mem α) (a : Nat) (xs ys : List α) :
    m.read a (xs ++ ys).length = xs ++ ys ↔ m.read a xs.length = xs ∧
    m.read (a + xs.length) ys.length = ys := by
  rw [List.length_append, read_add]
  constructor
  · intro h
    exact List.append_inj h (length_read ..)
  · rintro ⟨hxs, hys⟩
    rw [hxs, hys]

/-- A write does not disturb a run of cells in front of it. -/
theorem read_write_of_le (m : Mem α) {a b n : Nat} (xs : List α) (h : a + n ≤ b) :
    (m.write b xs).read a n = m.read a n :=
  read_congr fun _ _ hc ↦ write_of_lt _ _ (by omega)

/-- A write does not disturb a run of cells behind it. -/
theorem read_write_of_ge (m : Mem α) {a b n : Nat} (xs : List α) (h : b + xs.length ≤ a) :
    (m.write b xs).read a n = m.read a n :=
  read_congr fun _ hc _ ↦ write_of_ge _ _ (by omega)

end Mem

end ZenFs
