import Mathlib.Tactic.Common

/-!
# Loops

A loop whose body either leaves it with a result or goes on in another state.  What
holds at the head of the loop is proved by an invariant, and that it ends by a measure
that the turns make smaller.
-/

namespace Loop

universe u v

variable {σ : Type u} {ρ : Type v} {turn : σ → ρ ⊕ σ} {s t : σ}

/-- `t` is a state in which the body is entered if the loop is entered in `s`. -/
inductive Head (turn : σ → ρ ⊕ σ) (s : σ) : σ → Prop
  | start : Head turn s s
  | next {t t' : σ} (h : Head turn s t) (ht : turn t = .inr t') : Head turn s t'

/-- The loop with a bound on the number of turns. -/
def run (turn : σ → ρ ⊕ σ) : Nat → σ → Option ρ
  | 0, _ => none
  | fuel + 1, s =>
      match turn s with
      | .inl r => some r
      | .inr s' => run turn fuel s'

theorem Head.invariant {I : σ → Prop} (h : Head turn s t) (hs : I s)
    (hturn : ∀ {t t'}, I t → turn t = .inr t' → I t') : I t := by
  induction h with
  | start => exact hs
  | next _ ht ih => exact hturn ih ht

theorem Head.head {s' : σ} (hs : turn s = .inr s') (h : Head turn s' t) : Head turn s t := by
  induction h with
  | start => exact .next .start hs
  | next _ ht ih => exact .next ih ht

/-- The loop is left in one of the states at its head. -/
theorem exists_head {fuel : Nat} {r : ρ} (h : run turn fuel s = some r) :
    ∃ t, Head turn s t ∧ turn t = .inl r := by
  induction fuel generalizing s with
  | zero => simp [run] at h
  | succ fuel ih =>
      rw [run] at h
      cases hs : turn s with
      | inl r' =>
          rw [hs] at h
          exact ⟨s, .start, by rw [hs, Option.some.inj h]⟩
      | inr s' =>
          rw [hs] at h
          obtain ⟨t, ht, hr⟩ := ih h
          exact ⟨t, ht.head hs, hr⟩

/-- Entered in a later state, the loop ends in the same way. -/
theorem Head.run_eq {fuel : Nat} {r : ρ} (ht : Head turn s t) (h : run turn fuel s = some r) :
    ∃ fuel', run turn fuel' t = some r := by
  induction ht with
  | start => exact ⟨fuel, h⟩
  | next _ hturn ih =>
      obtain ⟨fuel', h'⟩ := ih
      cases fuel' with
      | zero => simp [run] at h'
      | succ fuel' =>
          rw [run, hturn] at h'
          exact ⟨fuel', h'⟩

/-- More turns do not change the result. -/
theorem run_mono {fuel fuel' : Nat} {r : ρ} (h : run turn fuel s = some r) (hle : fuel ≤ fuel') :
    run turn fuel' s = some r := by
  induction fuel generalizing s fuel' with
  | zero => simp [run] at h
  | succ fuel ih =>
      cases fuel' with
      | zero => omega
      | succ fuel' =>
          rw [run] at h ⊢
          cases hs : turn s with
          | inl r' => rwa [hs] at h
          | inr s' =>
              rw [hs] at h
              exact ih h (by omega)

theorem run_unique {fuel fuel' : Nat} {r r' : ρ} (h : run turn fuel s = some r)
    (h' : run turn fuel' s = some r') : r = r' := by
  rcases Nat.le_total fuel fuel' with hle | hle
  · exact Option.some.inj ((run_mono h hle).symm.trans h')
  · exact Option.some.inj (h.symm.trans (run_mono h' hle))

/-- A loop that keeps to states in which it goes on never ends. -/
theorem run_eq_none {I : σ → Prop} (hI : ∀ {t}, I t → ∃ t', turn t = .inr t' ∧ I t') (hs : I s)
    (fuel : Nat) : run turn fuel s = none := by
  induction fuel generalizing s with
  | zero => rfl
  | succ fuel ih =>
      obtain ⟨s', hs', hI'⟩ := hI hs
      rw [run, hs']
      exact ih hI'

/-- A loop each turn of which makes the measure smaller ends. -/
theorem exists_run (measure : σ → Nat)
    (h : ∀ t, Head turn s t → ∀ t', turn t = .inr t' → measure t' < measure t) :
    ∃ fuel r, run turn fuel s = some r := by
  induction hm : measure s using Nat.strongRecOn generalizing s with
  | ind m ih =>
      cases hs : turn s with
      | inl r => exact ⟨1, r, by rw [run, hs]⟩
      | inr s' =>
          have hlt : measure s' < m := hm ▸ h s .start s' hs
          obtain ⟨fuel, r, hr⟩ := ih _ hlt (fun t ht ↦ h t (ht.head hs)) rfl
          exact ⟨fuel + 1, r, by rw [run, hs]; exact hr⟩

end Loop
