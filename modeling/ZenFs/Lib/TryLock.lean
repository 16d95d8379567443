import Mathlib.Data.List.Basic
import Mathlib.Logic.Function.Basic

/-!
# Loops over locks

A loop tries the locks of a list one after the other, keeps the best one it has
got so far, and releases the others by hand.  Whatever it prefers, it ends with
the flags it began with, but for the flag of the lock it returns.
-/

namespace TryLock

variable {ι α σ : Type*} [DecidableEq ι]

/-- The flags with one more lock held. -/
def hold (f : ι → Bool) : Option ι → ι → Bool
  | none => f
  | some i => Function.update f i true

/-- A release clears the flag, and tells whether it was set. -/
def release (f : ι → Bool) (i : ι) : (ι → Bool) × Bool := (Function.update f i false, f i)

/-- What a loop ends with.  `stuck` is a lock that could not be released. -/
structure Result (ι σ : Type*) where
  flags : ι → Bool
  best : Option ι
  score : σ
  stuck : Option ι := none

/-- Try all items in turn; an item for which `prefer` gives a score replaces the
candidate.  `tidy` tells whether the new lock is released again when the old one
cannot be. -/
def scan (tidy : Bool) (key : α → ι) (prefer : Option ι → σ → α → Option σ) :
    List α → (ι → Bool) → Option ι → σ → Result ι σ
  | [], f, best, score => { flags := f, best := best, score := score }
  | a :: as, f, best, score =>
      if f (key a) then scan tidy key prefer as f best score
      else
        let f := Function.update f (key a) true
        match prefer best score a with
        | none =>
            match release f (key a) with
            | (f, true) => scan tidy key prefer as f best score
            | (f, false) => { flags := f, best := best, score := score, stuck := some (key a) }
        | some score' =>
            match best with
            | none => scan tidy key prefer as f (some (key a)) score'
            | some old =>
                match release f old with
                | (f, true) => scan tidy key prefer as f (some (key a)) score'
                | (f, false) =>
                    if tidy then
                      let (f, ok) := release f (key a)
                      { flags := f, best := best, score := score,
                        stuck := some (if ok then old else key a) }
                    else { flags := f, best := best, score := score, stuck := some old }

/-- Try the locks in turn and keep the first that passes a test.  The score is the
number of locks in front of it. -/
def first (test : ι → Bool) : List ι → (ι → Bool) → Nat → Result ι Nat
  | [], f, n => { flags := f, best := none, score := n }
  | i :: is, f, n =>
      if f i then first test is f (n + 1)
      else
        let f := Function.update f i true
        if test i then { flags := f, best := some i, score := n }
        else
          match release f i with
          | (f, true) => first test is f (n + 1)
          | (f, false) => { flags := f, best := none, score := n, stuck := some i }

section Hold

variable {f : ι → Bool} {i j : ι}

@[simp] theorem hold_none (f : ι → Bool) : hold f none = f := rfl

@[simp] theorem hold_some (f : ι → Bool) (i : ι) : hold f (some i) = Function.update f i true := rfl

/-- A lock that has been taken is released again. -/
theorem release_taken (h : f i = false) : release (Function.update f i true) i = (f, true) := by
  simp only [release, Function.update_idem, Function.update_self, ← h, Function.update_eq_self]

/-- The old candidate is released while the new one is held. -/
theorem release_old (hij : i ≠ j) (h : f i = false) :
    release (Function.update (Function.update f i true) j true) i =
    (Function.update f j true, true) := by
  rw [release, Function.update_comm hij, Function.update_idem]
  refine Prod.ext ?_ ?_
  · funext k
    by_cases hk : k = i
    · subst hk
      simp [hij, h]
    · simp [Function.update_apply, hk]
  · simp

end Hold

/-! ## What the loops return -/

/-- A loop has ended with a lock that was free, and with that lock only. -/
structure Ends (P : ι → Prop) (f : ι → Bool) (r : Result ι σ) : Prop where
  stuck : r.stuck = none
  flags : r.flags = hold f r.best
  free : ∀ i, r.best = some i → f i = false
  good : ∀ i, r.best = some i → P i

section Scan

variable {tidy : Bool} {key : α → ι} {prefer : Option ι → σ → α → Option σ} {P : ι → Prop}
  {f : ι → Bool}

/-- The invariant of the loop: the flags are those of the beginning with the
candidate held. -/
theorem scan_ends {as : List α}
    (hprefer : ∀ a ∈ as, ∀ best score score', prefer best score a = some score' → P (key a))
    {best : Option ι} {score : σ} (hfree : ∀ i, best = some i → f i = false)
    (hgood : ∀ i, best = some i → P i) :
    Ends P f (scan tidy key prefer as (hold f best) best score) := by
  induction as generalizing best score with
  | nil => exact ⟨rfl, rfl, hfree, hgood⟩
  | cons a as ih =>
      replace ih := fun {best score} ↦
        @ih (fun b hb ↦ hprefer b (List.mem_cons_of_mem a hb)) best score
      rw [scan]
      split
      · exact ih hfree hgood
      rename_i hbusy
      rw [Bool.not_eq_true] at hbusy
      dsimp only
      cases hp : prefer best score a with
      | none =>
          dsimp only
          rw [release_taken hbusy]
          exact ih hfree hgood
      | some score' =>
          have hP := hprefer a List.mem_cons_self _ _ _ hp
          cases best with
          | none =>
              exact @ih (some (key a)) score' (by rintro i ⟨⟩; exact hbusy)
                (by rintro i ⟨⟩; exact hP)
          | some old =>
              -- the new lock is another one, since the old one is held
              have hne : old ≠ key a := by
                rintro rfl
                simp at hbusy
              have hnew : f (key a) = false := by simpa [hne.symm] using hbusy
              dsimp only [hold_some]
              rw [release_old hne (hfree old rfl)]
              exact @ih (some (key a)) score' (by rintro i ⟨⟩; exact hnew)
                (by rintro i ⟨⟩; exact hP)

theorem scan_none_ends {as : List α}
    (hprefer : ∀ a ∈ as, ∀ best score score', prefer best score a = some score' → P (key a))
    {score : σ} : Ends P f (scan tidy key prefer as f none score) := by
  show Ends P f (scan tidy key prefer as (hold f none) none score)
  exact scan_ends hprefer (fun _ h ↦ nomatch h) (fun _ h ↦ nomatch h)

/-- A candidate is not given up for nothing. -/
theorem scan_isSome_of_isSome (as : List α) {best : Option ι} {score : σ} (h : best.isSome) :
    (scan tidy key prefer as f best score).best.isSome := by
  induction as generalizing f best score with
  | nil => exact h
  | cons a as ih =>
      rw [scan]
      split
      · exact ih h
      dsimp only
      cases prefer best score a with
      | none =>
          dsimp only
          split
          · exact ih h
          · exact h
      | some score' =>
          cases best with
          | none => cases h
          | some old =>
              dsimp only
              split
              · exact ih rfl
              · split <;> rfl

/-- A free lock that is taken when there is no candidate makes the loop return one. -/
theorem scan_isSome {as : List α} {a : α} (ha : a ∈ as) (hfree : f (key a) = false) {score : σ}
    (hp : (prefer none score a).isSome) : (scan tidy key prefer as f none score).best.isSome := by
  induction as with
  | nil => cases ha
  | cons b as ih =>
      rw [scan]
      split
      · rename_i hbusy
        rcases List.mem_cons.mp ha with rfl | ha
        · rw [hfree] at hbusy
          cases hbusy
        · exact ih ha
      rename_i hb
      rw [Bool.not_eq_true] at hb
      dsimp only
      cases hpb : prefer none score b with
      | some score' => exact scan_isSome_of_isSome as rfl
      | none =>
          dsimp only
          rw [release_taken hb]
          rcases List.mem_cons.mp ha with rfl | ha
          · simp [hpb] at hp
          · exact ih ha

/-- A loop that has found nothing has not touched the score. -/
theorem scan_score {as : List α} {score : σ}
    (h : (scan tidy key prefer as f none score).best = none) :
    (scan tidy key prefer as f none score).score = score := by
  induction as with
  | nil => rfl
  | cons a as ih =>
      rw [scan] at h ⊢
      split at h
      · rename_i hbusy
        rw [if_pos hbusy]
        exact ih h
      rename_i hbusy
      rw [if_neg hbusy]
      rw [Bool.not_eq_true] at hbusy
      dsimp only at h ⊢
      cases hp : prefer none score a with
      | none =>
          simp only [hp, release_taken hbusy] at h ⊢
          exact ih h
      | some score' =>
          simp only [hp] at h
          have hsome : (scan tidy key prefer as (Function.update f (key a) true) (some (key a))
              score').best.isSome :=
            scan_isSome_of_isSome as rfl
          rw [h] at hsome
          cases hsome

/-- A loop that prefers strictly greater values ends with the greatest one among the free
locks that pass a test. -/
theorem scan_most {test : ι → Bool} {val : ι → Nat} (as : List α) {best : Option ι} {score : Nat}
    (hfree : ∀ i, best = some i → f i = false) (hscore : ∀ i, best = some i → val i = score)
    {r : Result ι Nat}
    (hr : r = scan tidy key (fun _ score a ↦
      if test (key a) then (if score < val (key a) then some (val (key a)) else none) else none)
      as (hold f best) best score) :
    score ≤ r.score ∧ (∀ i, r.best = some i → val i = r.score) ∧ (r.best = none → r.score = score) ∧
      ∀ a ∈ as, f (key a) = false → test (key a) = true → val (key a) ≤ r.score := by
  induction as generalizing best score with
  | nil =>
      subst hr
      exact ⟨Nat.le_refl _, hscore, fun _ ↦ rfl, nofun⟩
  | cons a as ih =>
      have hskip : (f (key a) = false → test (key a) = true → val (key a) ≤ score) →
          r = scan tidy key (fun _ score a ↦
            if test (key a) then (if score < val (key a) then some (val (key a)) else none)
              else none)
            as (hold f best) best score →
          score ≤ r.score ∧ (∀ i, r.best = some i → val i = r.score) ∧
            (r.best = none → r.score = score) ∧
            ∀ b ∈ a :: as, f (key b) = false → test (key b) = true → val (key b) ≤ r.score := by
        intro ha heq
        obtain ⟨hle, hbest, hnone, hall⟩ := ih hfree hscore heq
        exact ⟨hle, hbest, hnone,
          List.forall_mem_cons.mpr ⟨fun h h' ↦ Nat.le_trans (ha h h') hle, hall⟩⟩
      rw [scan] at hr
      split at hr
      · rename_i hbusy
        refine hskip (fun h _ ↦ ?_) hr
        -- a lock that was free in front of the loop is taken only as the candidate
        cases best with
        | none =>
            rw [hold_none, h] at hbusy
            cases hbusy
        | some i =>
            by_cases hi : key a = i
            · exact Nat.le_of_eq (hi ▸ hscore i rfl)
            · simp [hi, h] at hbusy
      rename_i hbusy
      rw [Bool.not_eq_true] at hbusy
      dsimp only at hr
      by_cases htest : test (key a) = true
      · by_cases hlt : score < val (key a)
        · have hnew : f (key a) = false := by
            cases best with
            | none => exact hbusy
            | some i =>
                by_cases hi : key a = i
                · simp [hi] at hbusy
                · simpa [hi] using hbusy
          have hscan : r = scan tidy key (fun _ score a ↦
              if test (key a) then (if score < val (key a) then some (val (key a)) else none)
                else none)
              as (hold f (some (key a))) (some (key a)) (val (key a)) := by
            simp only [htest, hlt, if_true] at hr
            cases best with
            | none => exact hr
            | some old =>
                have hne : old ≠ key a := by
                  rintro rfl
                  simp at hbusy
                dsimp only [hold_some] at hr
                rw [release_old hne (hfree old rfl)] at hr
                exact hr
          obtain ⟨hle, hbest, hnone, hall⟩ :=
            ih (by rintro i ⟨⟩; exact hnew) (by rintro i ⟨⟩; rfl) hscan
          have hsome : r.best.isSome := by
            rw [hscan]
            exact scan_isSome_of_isSome as rfl
          refine ⟨Nat.le_trans (Nat.le_of_lt hlt) hle, hbest, fun hn ↦ ?_,
            List.forall_mem_cons.mpr ⟨fun _ _ ↦ hle, hall⟩⟩
          rw [hn] at hsome
          cases hsome
        · refine hskip (fun _ _ ↦ Nat.le_of_not_lt hlt) ?_
          simpa only [htest, hlt, if_true, if_false, release_taken hbusy] using hr
      · refine hskip (fun _ h ↦ absurd h htest) ?_
        simpa only [htest, Bool.false_eq_true, if_false, release_taken hbusy] using hr

end Scan

section First

variable {test : ι → Bool} {f : ι → Bool}

theorem first_ends (is : List ι) (n : Nat) :
    Ends (fun i ↦ i ∈ is ∧ test i = true) f (first test is f n) := by
  induction is generalizing n with
  | nil => exact ⟨rfl, rfl, nofun, nofun⟩
  | cons i is ih =>
      have hrest : Ends (fun j ↦ j ∈ i :: is ∧ test j = true) f (first test is f (n + 1)) := by
        obtain ⟨hs, hf, hfree, hgood⟩ := ih (n + 1)
        exact ⟨hs, hf, hfree, fun j hj ↦ ⟨List.mem_cons_of_mem i (hgood j hj).1, (hgood j hj).2⟩⟩
      rw [first]
      split
      · exact hrest
      rename_i hbusy
      rw [Bool.not_eq_true] at hbusy
      dsimp only
      split
      · rename_i ht
        exact ⟨rfl, rfl, by rintro j ⟨⟩; exact hbusy, by rintro j ⟨⟩; exact ⟨List.mem_cons_self,
          ht⟩⟩
      · rw [release_taken hbusy]
        exact hrest

/-- If there is a free lock that passes the test, one is returned. -/
theorem first_isSome {is : List ι} {i : ι} (hi : i ∈ is) (hfree : f i = false) (ht : test i = true)
    (n : Nat) : (first test is f n).best.isSome := by
  induction is generalizing n with
  | nil => cases hi
  | cons j is ih =>
      rw [first]
      split
      · rename_i hbusy
        rcases List.mem_cons.mp hi with rfl | hi
        · rw [hfree] at hbusy
          cases hbusy
        · exact ih hi (n + 1)
      rename_i hb
      rw [Bool.not_eq_true] at hb
      dsimp only
      split
      · rfl
      · rename_i htj
        rw [release_taken hb]
        rcases List.mem_cons.mp hi with rfl | hi
        · exact absurd ht htj
        · exact ih hi (n + 1)

/-- The loop goes past the locks that are taken or fail the test, and counts them. -/
theorem first_spec (is : List ι) (n : Nat) :
    ((first test is f n).best = none ∧ ∀ i ∈ is, f i = false → test i = false) ∨
      ∃ k i, is[k]? = some i ∧ f i = false ∧ test i = true ∧ (first test is f n).best = some i ∧
        (first test is f n).score = n + k ∧ ∀ j i', j < k → is[j]? = some i' → f i' = false →
        test i' = false := by
  induction is generalizing n with
  | nil => exact .inl ⟨rfl, nofun⟩
  | cons i is ih =>
      have hrest : (f i = false → test i = false) →
        first test (i :: is) f n = first test is f (n + 1) →
          ((first test (i :: is) f n).best = none ∧ ∀ i' ∈ i :: is, f i' = false →
            test i' = false) ∨ ∃ k i', (i :: is)[k]? = some i' ∧ f i' = false ∧ test i' = true ∧
              (first test (i :: is) f n).best = some i' ∧ (first test (i :: is) f n).score = n + k ∧
              ∀ j i', j < k → (i :: is)[j]? = some i' → f i' = false → test i' = false := by
        intro hi heq
        rw [heq]
        obtain ⟨hnone, hall⟩ | ⟨k, i', hk, hfree, ht, hbest, hscore, hbefore⟩ := ih (n + 1)
        · exact .inl ⟨hnone, List.forall_mem_cons.mpr ⟨hi, hall⟩⟩
        · refine .inr ⟨k + 1, i', hk, hfree, ht, hbest, by omega, fun j i'' hj hget ↦ ?_⟩
          cases j with
          | zero =>
              obtain rfl := Option.some.inj hget
              exact hi
          | succ j => exact hbefore j i'' (by omega) hget
      cases hbusy : f i with
      | true =>
          refine hrest (fun h ↦ ?_) (by rw [first, if_pos hbusy])
          rw [hbusy] at h
          cases h
      | false =>
          cases ht : test i with
          | true =>
              refine .inr ⟨0, i, rfl, hbusy, ht, ?_, ?_, fun j _ hj ↦
                absurd hj (Nat.not_lt_zero j)⟩ <;> simp [first, hbusy, ht]
          | false => exact hrest (fun _ ↦ ht) (by simp [first, hbusy, ht, release_taken])

/-- What is found depends on the flags of the locks of the list only. -/
theorem first_congr {g : ι → Bool} {is : List ι} (h : ∀ i ∈ is, f i = g i) (n : Nat) :
    (first test is f n).best = (first test is g n).best ∧
    (first test is f n).score = (first test is g n).score := by
  induction is generalizing n with
  | nil => exact ⟨rfl, rfl⟩
  | cons i is ih =>
      obtain ⟨hi, his⟩ := List.forall_mem_cons.mp h
      cases hbusy : f i with
      | true =>
          rw [hbusy] at hi
          simpa [first, hbusy, ← hi] using ih his (n + 1)
      | false =>
          rw [hbusy] at hi
          cases ht : test i with
          | true => simp [first, hbusy, ← hi, ht]
          | false => simpa [first, hbusy, ← hi, ht, release_taken] using ih his (n + 1)

end First

end TryLock
