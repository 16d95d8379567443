import Mathlib.Data.List.Basic

/-!
# Properties that hold throughout a list of commands

A machine is driven by commands, and may be stopped after any number of them.
`Throughout f P s cs` says that `P` holds in every state the machine passes
through while it executes `cs` from `s`, the first and the last included: what
a crash between two commands can leave behind satisfies `P`.
-/

namespace ZenFs

universe u v

variable {σ : Type u} {κ : Type v} {f : σ → κ → σ} {P Q : σ → Prop} {s : σ} {c : κ}
  {cs cs' : List κ}

/-- `P` holds after every prefix of the commands. -/
def Throughout (f : σ → κ → σ) (P : σ → Prop) (s : σ) (cs : List κ) : Prop :=
  ∀ k, P ((cs.take k).foldl f s)

namespace Throughout

theorem nil_iff : Throughout f P s [] ↔ P s := by
  simp [Throughout]

theorem cons_iff : Throughout f P s (c :: cs) ↔ P s ∧ Throughout f P (f s c) cs := by
  refine ⟨fun h ↦ ⟨h 0, fun k ↦ h (k + 1)⟩, ?_⟩
  rintro ⟨h, ht⟩ (_ | k)
  · exact h
  · exact ht k

/-- The property holds at the end. -/
theorem last (h : Throughout f P s cs) : P (cs.foldl f s) := by
  simpa using h cs.length

theorem append_iff :
    Throughout f P s (cs ++ cs') ↔ Throughout f P s cs ∧ Throughout f P (cs.foldl f s) cs' := by
  induction cs generalizing s with
  | nil =>
      simp only [List.nil_append, nil_iff, List.foldl_nil]
      exact ⟨fun h ↦ ⟨h 0, h⟩, fun h ↦ h.2⟩
  | cons c cs ih => simp only [List.cons_append, cons_iff, ih, List.foldl_cons, and_assoc]

/-- One more command keeps the property if the state behind it has it. -/
theorem snoc (h : Throughout f P s cs) (hc : P (f (cs.foldl f s) c)) :
    Throughout f P s (cs ++ [c]) := by
  rw [append_iff, cons_iff, nil_iff]
  exact ⟨h, h.last, hc⟩

/-- The commands themselves as the state: a property of every prefix of a list. -/
theorem prefixes_iff {P : List κ → Prop} {pre : List κ} :
    Throughout (fun l c ↦ l ++ [c]) P pre cs ↔ ∀ k, P (pre ++ cs.take k) := by
  have h : ∀ l : List κ, l.foldl (fun l c ↦ l ++ [c]) pre = pre ++ l := by
    intro l
    induction l generalizing pre with
    | nil => simp
    | cons c l ih => simp [ih]
  simp only [Throughout, h]

end Throughout

end ZenFs
