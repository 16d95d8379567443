import Mathlib.Tactic.Common

/-!
# Runs of a machine

A machine takes a step for each label that is enabled in its state; a thread, a
call or the outcome of a device operation may be part of the label.  A run whose
labels all satisfy a condition reaches a state, and a property that the steps
under that condition keep holds in all of them.
-/

namespace ZenFs

universe u v

variable {σ : Type u} {ι : Type v} {step : σ → ι → Option σ} {ok ok' : σ → ι → Prop} {s t : σ}

/-- `t` is reached from `s` by steps with labels that satisfy `ok` in the state
they are taken in. -/
inductive Reach (step : σ → ι → Option σ) (ok : σ → ι → Prop) (s : σ) : σ → Prop
  | refl : Reach step ok s s
  | tail {t u : σ} {i : ι} (h : Reach step ok s t) (hi : ok t i) (hu : step t i = some u) :
      Reach step ok s u

/-- A list of steps. -/
def runAll (step : σ → ι → Option σ) : σ → List ι → Option σ
  | s, [] => some s
  | s, i :: is => (step s i).bind fun t ↦ runAll step t is

namespace Reach

/-- What the steps keep holds in every state that is reached. -/
theorem invariant {I : σ → Prop} (h : Reach step ok s t) (hs : I s)
    (hstep : ∀ {t u i}, I t → ok t i → step t i = some u → I u) : I t := by
  induction h with
  | refl => exact hs
  | tail _ hi hu ih => exact hstep ih hi hu

theorem mono (h : Reach step ok s t) (hok : ∀ {t i}, ok t i → ok' t i) : Reach step ok' s t := by
  induction h with
  | refl => exact .refl
  | tail _ hi hu ih => exact ih.tail (hok hi) hu

theorem head {i : ι} {s' : σ} (hi : ok s i) (hs : step s i = some s') (h : Reach step ok s' t) :
    Reach step ok s t := by
  induction h with
  | refl => exact Reach.refl.tail hi hs
  | tail _ hi hu ih => exact ih.tail hi hu

/-- A list of steps is a run. -/
theorem of_runAll (is : List ι) (hok : ∀ s i, ok s i) (h : runAll step s is = some t) :
    Reach step ok s t := by
  induction is generalizing s with
  | nil =>
      obtain rfl := Option.some.inj h
      exact .refl
  | cons i is ih =>
      rw [runAll, Option.bind_eq_some_iff] at h
      obtain ⟨s', hs, h⟩ := h
      exact head (hok s i) hs (ih h)

theorem of_any {is : List ι} (h : runAll step s is = some t) : Reach step (fun _ _ ↦ True) s t :=
  of_runAll is (fun _ _ ↦ trivial) h

/-- A list of steps each of which is checked before it is taken. -/
theorem of_checked {ok : σ → ι → Bool} (is : List ι)
    (h : runAll (fun s i ↦ if ok s i then step s i else none) s is = some t) :
    Reach step (fun s i ↦ ok s i = true) s t := by
  induction is generalizing s with
  | nil =>
      obtain rfl := Option.some.inj h
      exact .refl
  | cons i is ih =>
      rw [runAll, Option.bind_eq_some_iff] at h
      obtain ⟨s', hs, h⟩ := h
      split at hs
      · rename_i hok
        exact head hok hs (ih h)
      · cases hs

theorem of_decided {ok : σ → ι → Prop} [∀ s i, Decidable (ok s i)] {is : List ι}
    (h : runAll (fun s i ↦ if decide (ok s i) then step s i else none) s is = some t) :
    Reach step ok s t :=
  (of_checked is h).mono fun h ↦ of_decide_eq_true h

end Reach

end ZenFs
