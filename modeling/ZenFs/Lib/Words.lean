import Mathlib.Data.List.Basic

/-!
# Words between blanks

The words of a text are its longest pieces without blanks.  A reader takes them off the
text one by one, skipping the blanks in front.
-/

namespace Words

universe u

variable {α : Type u} {blank : α → Bool} {a : α} {l w rest : List α}

/-- The words of a text. -/
def words (blank : α → Bool) (l : List α) : List (List α) := (l.splitOnP blank).filter (!·.isEmpty)

/-- The first word of a text and what is behind it, if there is a word. -/
def extract (blank : α → Bool) (l : List α) : Option (List α × List α) :=
  match l.dropWhile blank with
  | [] => none
  | a :: l => some ((a :: l).takeWhile (!blank ·), (a :: l).dropWhile (!blank ·))

theorem words_cons (h : blank a = true) : words blank (a :: l) = words blank l := by
  have hsplit := List.splitOnP_append_cons [] l h
  rw [List.nil_append, List.splitOnP_nil] at hsplit
  rw [words, hsplit]
  rfl

theorem words_dropWhile (blank : α → Bool) (l : List α) :
    words blank (l.dropWhile blank) = words blank l := by
  induction l with
  | nil => rfl
  | cons a l ih =>
      by_cases ha : blank a = true
      · rw [List.dropWhile_cons_of_pos ha, ih, words_cons ha]
      · rw [List.dropWhile_cons_of_neg ha]

/-- A word in front of the end or of a blank. -/
theorem words_append (hw : ∀ a ∈ w, blank a = false) (hne : w ≠ [])
    (hrest : ∀ a ∈ rest.head?, blank a = true) :
    words blank (w ++ rest) = w :: words blank rest := by
  cases rest with
  | nil =>
      rw [List.append_nil, words, List.splitOnP_eq_singleton hw,
        List.filter_cons_of_pos (by simpa using hne)]
      rfl
  | cons a rest =>
      have ha := hrest a rfl
      rw [words_cons ha, words, List.splitOnP_append_cons_of_forall_mem hw a ha,
        List.filter_cons_of_pos (by simpa using hne)]
      rfl

theorem words_of_extract_none (h : extract blank l = none) : words blank l = [] := by
  rw [← words_dropWhile]
  unfold extract at h
  split at h
  · next hl =>
      rw [hl]
      rfl
  · cases h

/-- What is taken off is a piece without blanks, which goes on to the end or to a blank. -/
theorem extract_spec (h : extract blank l = some (w, rest)) :
    l.dropWhile blank = w ++ rest ∧ w ≠ [] ∧ (∀ a ∈ w, blank a = false) ∧
      ∀ a ∈ rest.head?, blank a = true := by
  unfold extract at h
  split at h
  · cases h
  · next a l' hl =>
      obtain ⟨rfl, rfl⟩ := Prod.mk.inj (Option.some.inj h)
      have ha : blank a = false := by
        have hhead := List.head?_dropWhile_not blank l
        rw [hl] at hhead
        simpa using hhead
      refine ⟨by rw [hl, List.takeWhile_append_dropWhile], by simp [ha], fun b hb ↦ ?_,
        fun b hb ↦ ?_⟩
      · simpa using List.all_eq_true.mp List.all_takeWhile b hb
      · have hhead := List.head?_dropWhile_not (!blank ·) (a :: l')
        rw [Option.mem_def.mp hb] at hhead
        simpa using hhead

/-- The reader takes off the first word. -/
theorem words_of_extract (h : extract blank l = some (w, rest)) :
    words blank l = w :: words blank rest := by
  obtain ⟨hl, hne, hw, hrest⟩ := extract_spec h
  rw [← words_dropWhile, hl, words_append hw hne hrest]

theorem length_lt_of_extract (h : extract blank l = some (w, rest)) : rest.length < l.length := by
  obtain ⟨hl, hne, -, -⟩ := extract_spec h
  have hle : (l.dropWhile blank).length ≤ l.length := (List.dropWhile_suffix _).length_le
  have hpos := List.length_pos_iff.mpr hne
  rw [hl, List.length_append] at hle
  omega

end Words
