import Mathlib.Order.Lattice
import Mathlib.Data.List.Basic

/-!
# Strict weak orders on part of a type

A sort needs a comparison that is a strict weak order on the elements of its list.
Comparing by a key that some elements lack is one unless an element without a key comes
together with two that differ.
-/

namespace WeakOrder

variable {α β : Type*}

/-- A strict weak order on the elements that satisfy `p`. -/
structure StrictWeakOn (lt : α → α → Prop) (p : α → Prop) : Prop where
  irrefl : ∀ a, p a → ¬ lt a a
  trans : ∀ a b c, p a → p b → p c → lt a b → lt b c → lt a c
  incomp : ∀ a b c, p a → p b → p c → ¬ lt a b → ¬ lt b a → ¬ lt b c → ¬ lt c b →
    ¬ lt a c ∧ ¬ lt c a

/-- A list in which nothing comes behind something greater. -/
def Ordered (lt : α → α → Prop) (as : List α) : Prop := as.Pairwise fun a b ↦ ¬ lt b a

section Key

variable [LinearOrder β] (key : α → Option β)

/-- Both elements have a key, and that of the first is less. -/
def keyLt (a b : α) : Prop := ∃ x ∈ key a, ∃ y ∈ key b, x < y

variable {key} {p : α → Prop} {a b c : α}

theorem keyLt_irrefl (a : α) : ¬ keyLt key a a := by
  rintro ⟨x, hx, y, hy, hlt⟩
  obtain rfl := Option.mem_unique hx hy
  exact lt_irrefl _ hlt

theorem keyLt_trans (hab : keyLt key a b) (hbc : keyLt key b c) : keyLt key a c := by
  obtain ⟨x, hx, y, hy, hxy⟩ := hab
  obtain ⟨y', hy', z, hz, hyz⟩ := hbc
  obtain rfl := Option.mem_unique hy hy'
  exact ⟨x, hx, z, hz, hxy.trans hyz⟩

theorem not_keyLt_of_none (h : key a = none) : ¬ keyLt key a b ∧ ¬ keyLt key b a := by
  constructor
  · rintro ⟨x, hx, -⟩
    rw [h] at hx
    cases hx
  · rintro ⟨-, -, y, hy, -⟩
    rw [h] at hy
    cases hy

/-- Elements with a key are comparable unless their keys are the same. -/
theorem key_eq {x y : β} (hx : x ∈ key a) (hy : y ∈ key b) (hab : ¬ keyLt key a b)
    (hba : ¬ keyLt key b a) : x = y := by
  refine le_antisymm (not_lt.mp fun h ↦ hba ⟨y, hy, x, hx, h⟩)
    (not_lt.mp fun h ↦ hab ⟨x, hx, y, hy, h⟩)

/-- Incomparable elements lie in between unless all keys are there or none differ. -/
theorem strictWeakOn_keyLt_iff :
    StrictWeakOn (keyLt key) p ↔
      (∀ a, p a → key a ≠ none) ∨ ∀ a b, p a → p b → ¬ keyLt key a b := by
  constructor
  · intro h
    by_contra hnot
    rw [not_or] at hnot
    obtain ⟨hkeys, hlt⟩ := hnot
    push Not at hkeys hlt
    obtain ⟨e, he, hnone⟩ := hkeys
    obtain ⟨a, b, ha, hb, hab⟩ := hlt
    obtain ⟨hea, hae⟩ := @not_keyLt_of_none _ _ _ key e a hnone
    obtain ⟨heb, hbe⟩ := @not_keyLt_of_none _ _ _ key e b hnone
    exact (h.incomp a e b ha he hb hae hea heb hbe).1 hab
  · rintro (hkeys | hnone)
    · refine ⟨fun a _ ↦ keyLt_irrefl a, fun _ _ _ _ _ _ ↦ keyLt_trans, ?_⟩
      intro a b c ha hb hc hab hba hbc hcb
      obtain ⟨x, hx⟩ := Option.ne_none_iff_exists'.mp (hkeys a ha)
      obtain ⟨y, hy⟩ := Option.ne_none_iff_exists'.mp (hkeys b hb)
      obtain ⟨z, hz⟩ := Option.ne_none_iff_exists'.mp (hkeys c hc)
      obtain rfl := key_eq hx hy hab hba
      obtain rfl := key_eq hy hz hbc hcb
      constructor
      · rintro ⟨x', hx', z', hz', hlt⟩
        obtain rfl := Option.mem_unique hx hx'
        obtain rfl := Option.mem_unique hz hz'
        exact lt_irrefl _ hlt
      · rintro ⟨z', hz', x', hx', hlt⟩
        obtain rfl := Option.mem_unique hx hx'
        obtain rfl := Option.mem_unique hz hz'
        exact lt_irrefl _ hlt
    · refine ⟨fun a _ ↦ keyLt_irrefl a, fun _ _ _ _ _ _ ↦ keyLt_trans, ?_⟩
      exact fun a b c ha _ hc _ _ _ _ ↦ ⟨hnone a c ha hc, hnone c a hc ha⟩

/-- In an ordered list the keys increase. -/
theorem Ordered.keys_le {as : List α} (h : Ordered (keyLt key) as) :
    as.Pairwise fun a b ↦ ∀ x ∈ key a, ∀ y ∈ key b, x ≤ y :=
  List.Pairwise.imp (fun hba x hx y hy ↦ not_lt.mp fun hlt ↦ hba ⟨y, hy, x, hx, hlt⟩) h

end Key

/-- Where the good elements come first, the first `n` elements are good if there are that
many good ones, or none that are not. -/
theorem take_forall_iff {good : α → Bool} {as : List α}
    (h : as.Pairwise fun a b ↦ good b = true → good a = true) (n : Nat) :
    (∀ a ∈ as.take n, good a = true) ↔ n ≤ as.countP good ∨ ∀ a ∈ as, good a = true := by
  induction as generalizing n with
  | nil => simp
  | cons a as ih =>
      obtain ⟨hfirst, hrest⟩ := List.pairwise_cons.mp h
      cases n with
      | zero => simp
      | succ n =>
          rw [List.take_succ_cons, List.forall_mem_cons, List.forall_mem_cons, ih hrest n]
          by_cases ha : good a = true
          · rw [List.countP_cons_of_pos ha, Nat.add_le_add_iff_right]
            simp [ha]
          · -- no good element is left
            have hnone : as.countP good = 0 := List.countP_eq_zero.mpr fun b hb hgood ↦
              ha (hfirst b hb hgood)
            rw [List.countP_cons_of_neg ha, hnone]
            simp [ha]

end WeakOrder
