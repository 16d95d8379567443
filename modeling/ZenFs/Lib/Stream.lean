import Mathlib.Data.List.Basic
import Mathlib.Tactic.Common

/-!
# Streams of items

An input whose items tell where they end.  A reader takes an item off the front, does
what the item says, and goes on with the rest until it finds no further item.  Items
that were written one after the other are worked through in their order.
-/

namespace Stream

variable {α β σ ε : Type*} {next : List β → σ → Except ε (Option (σ × List β))}
  {act : α → σ → Except ε σ} {put : α → List β} {input rest : List β} {s s' : σ}

/-- The loop of a reader, with a bound on the number of items.  An item that fails leaves
what the items before it have done. -/
def drain (next : List β → σ → Except ε (Option (σ × List β))) :
    Nat → List β → σ → Except (ε × σ) σ
  | 0, _, s => .ok s
  | fuel + 1, input, s =>
      match next input s with
      | .error e => .error (e, s)
      | .ok none => .ok s
      | .ok (some (s', rest)) => drain next fuel rest s'

/-- The loop over the whole input. -/
def run (next : List β → σ → Except ε (Option (σ × List β))) (input : List β) (s : σ) :
    Except (ε × σ) σ := drain next (input.length + 1) input s

/-- An item takes something off the input. -/
def Shortens (next : List β → σ → Except ε (Option (σ × List β))) : Prop :=
  ∀ {input rest s s'}, next input s = .ok (some (s', rest)) → rest.length < input.length

/-- With a longer bound the loop does the same: the input is used up first. -/
theorem Shortens.drain_eq_run (h : Shortens next) {fuel : Nat} (hf : input.length < fuel) (s : σ) :
    drain next fuel input s = run next input s := by
  suffices hall : ∀ {fuel fuel' : Nat} {input s}, input.length < fuel → input.length < fuel' →
      drain next fuel input s = drain next fuel' input s from hall hf (Nat.lt_succ_self _)
  intro fuel
  induction fuel with
  | zero => intro _ _ _ hf; exact absurd hf (Nat.not_lt_zero _)
  | succ fuel ih =>
      intro fuel' input s hf hf'
      obtain ⟨fuel', rfl⟩ := Nat.exists_eq_succ_of_ne_zero (Nat.ne_zero_of_lt hf')
      rw [drain, drain]
      split
      · rfl
      · rfl
      · next s' rest hn =>
          have hlt := h hn
          exact ih (by omega) (by omega)

theorem Shortens.run_item (h : Shortens next) (hn : next input s = .ok (some (s', rest))) :
    run next input s = run next rest s' := by
  rw [run, drain, hn]
  exact h.drain_eq_run (h hn) s'

theorem run_stop (hn : next input s = .ok none) : run next input s = .ok s := by
  rw [run, drain, hn]

theorem run_error {e : ε} (hn : next input s = .error e) : run next input s = .error (e, s) := by
  rw [run, drain, hn]

/-- What a list of items does, in order. -/
def actAll (act : α → σ → Except ε σ) : List α → σ → Except (ε × σ) σ
  | [], s => .ok s
  | a :: as, s =>
      match act a s with
      | .error e => .error (e, s)
      | .ok s' => actAll act as s'

@[simp] theorem actAll_nil (s : σ) : actAll act [] s = .ok s := rfl

theorem actAll_cons_ok {a : α} {as : List α} (ha : act a s = .ok s') :
    actAll act (a :: as) s = actAll act as s' := by
  rw [actAll, ha]

theorem actAll_cons_error {a : α} {as : List α} {e : ε} (ha : act a s = .error e) :
    actAll act (a :: as) s = .error (e, s) := by
  rw [actAll, ha]

theorem actAll_cons_eq_ok {a : α} {as : List α} (h : actAll act (a :: as) s = .ok s') :
    ∃ t, act a s = .ok t ∧ actAll act as t = .ok s' := by
  cases ha : act a s with
  | error e =>
      rw [actAll_cons_error ha] at h
      cases h
  | ok t => exact ⟨t, rfl, actAll_cons_ok ha ▸ h⟩

theorem actAll_append {as as' : List α} (h : actAll act as s = .ok s') :
    actAll act (as ++ as') s = actAll act as' s' := by
  induction as generalizing s with
  | nil =>
      cases h
      rfl
  | cons a as ih =>
      obtain ⟨t, ha, h⟩ := actAll_cons_eq_ok h
      rw [List.cons_append, actAll_cons_ok ha]
      exact ih h

/-- Items that are read as they were written are worked through one by one. -/
theorem Shortens.run_flatMap (h : Shortens next) {as : List α}
    (hput : ∀ a ∈ as, ∀ rest s, next (put a ++ rest) s = (act a s).map fun s' ↦ some (s', rest))
    (hend : ∀ s, next [] s = .ok none) (s : σ) : run next (as.flatMap put) s = actAll act as s := by
  induction as generalizing s with
  | nil => exact run_stop (hend s)
  | cons a as ih =>
      have hn := hput a (List.mem_cons_self ..) (as.flatMap put) s
      rw [List.flatMap_cons]
      cases ha : act a s with
      | error e =>
          rw [ha] at hn
          rw [actAll_cons_error ha]
          exact run_error hn
      | ok s' =>
          rw [ha] at hn
          rw [actAll_cons_ok ha, h.run_item hn]
          exact ih (fun a' ha' ↦ hput a' (List.mem_cons_of_mem _ ha')) s'

/-- A list of items is worked through exactly if each of them is one that can be. -/
theorem actAll_ok_iff {P : α → Prop} (hact : ∀ a s, (∃ s', act a s = .ok s') ↔ P a) {as : List α} :
    (∃ s', actAll act as s = .ok s') ↔ ∀ a ∈ as, P a := by
  induction as generalizing s with
  | nil => simp
  | cons a as ih =>
      rw [List.forall_mem_cons, ← hact a s]
      cases ha : act a s with
      | error e => simp [actAll_cons_error ha]
      | ok t =>
          rw [actAll_cons_ok ha, ih]
          simp

theorem actAll_invariant {I : σ → Prop} (hI : ∀ {a s s'}, I s → act a s = .ok s' → I s')
    {as : List α} (hs : I s) (h : actAll act as s = .ok s') : I s' := by
  induction as generalizing s with
  | nil =>
      cases h
      exact hs
  | cons a as ih =>
      obtain ⟨t, ha, h⟩ := actAll_cons_eq_ok h
      exact ih (hI hs ha) h

/-- Where items replace what is there, the last one that does counts. -/
theorem actAll_last {γ : Type*} {f : σ → γ} {g : α → Option γ}
    (hg : ∀ {a s s'}, act a s = .ok s' → f s' = (g a).getD (f s)) {as : List α}
    (h : actAll act as s = .ok s') : f s' = (as.filterMap g).getLast?.getD (f s) := by
  induction as generalizing s with
  | nil =>
      cases h
      rfl
  | cons a as ih =>
      obtain ⟨t, ha, h⟩ := actAll_cons_eq_ok h
      rw [ih h, hg ha]
      cases hga : g a with
      | none => rw [List.filterMap_cons_none hga, Option.getD_none]
      | some x => rw [List.filterMap_cons_some hga, List.getLast?_cons, Option.getD_some,
          Option.getD_some]

/-- A reader that takes an item off and does what it says. -/
def readThen (read : List β → Option (α × List β)) (act : α → σ → Except ε σ)
    (input : List β) (s : σ) : Except ε (Option (σ × List β)) :=
  match read input with
  | none => .ok none
  | some (a, rest) => (act a s).map fun s' ↦ some (s', rest)

theorem shortens_readThen {read : List β → Option (α × List β)}
    (h : ∀ {input a rest}, read input = some (a, rest) → rest.length < input.length) :
    Shortens (readThen read act) := by
  intro input rest s s' hn
  unfold readThen at hn
  split at hn
  · cases hn
  · next a rest' hr =>
      cases ha : act a s with
      | error e =>
          rw [ha] at hn
          cases hn
      | ok t =>
          rw [ha] at hn
          cases hn
          exact h hr

/-- What a reader takes off one by one is worked through in this order. -/
theorem run_readThen {read : List β → Option (α × List β)} {items : List β → List α}
    (hshort : ∀ {input a rest}, read input = some (a, rest) → rest.length < input.length)
    (hnil : ∀ {input}, read input = none → items input = [])
    (hcons : ∀ {input a rest}, read input = some (a, rest) → items input = a :: items rest)
    (input : List β) (s : σ) : run (readThen read act) input s = actAll act (items input) s := by
  have hshortens : Shortens (readThen read act) := shortens_readThen hshort
  induction hn : input.length using Nat.strongRecOn generalizing input s with
  | ind n ih =>
      cases hr : read input with
      | none =>
          rw [hnil hr, actAll_nil]
          exact run_stop (by rw [readThen, hr])
      | some item =>
          obtain ⟨a, rest⟩ := item
          rw [hcons hr]
          cases ha : act a s with
          | error e =>
              rw [actAll_cons_error ha]
              exact run_error (by rw [readThen, hr]; simp only [ha]; rfl)
          | ok t =>
              have hturn : readThen read act input s = .ok (some (t, rest)) := by
                rw [readThen, hr]
                simp only [ha]
                rfl
              rw [actAll_cons_ok ha, hshortens.run_item hturn]
              exact ih _ (hn ▸ hshort hr) rest t rfl

/-- No item is longer than the stream it is written to. -/
theorem length_put_le (put : α → List β) {as : List α} {a : α} (ha : a ∈ as) :
    (put a).length ≤ (as.flatMap put).length := by
  rw [List.flatMap_def]
  exact (List.sublist_flatten_of_mem (List.mem_map_of_mem ha)).length_le

theorem length_flatMap_le {as : List α} {n : Nat} (h : ∀ a ∈ as, (put a).length ≤ n) :
    (as.flatMap put).length ≤ as.length * n := by
  induction as with
  | nil => exact Nat.zero_le _
  | cons a as ih =>
      have ha := h a (List.mem_cons_self ..)
      have has := ih fun a' ha' ↦ h a' (List.mem_cons_of_mem _ ha')
      rw [List.flatMap_cons, List.length_append, List.length_cons, Nat.succ_mul]
      omega

end Stream
