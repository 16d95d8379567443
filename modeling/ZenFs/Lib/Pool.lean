import Mathlib.Algebra.BigOperators.Group.Finset.Basic

/-!
# Operations that share resources

Any number of operations run interleaved on one state.  Each is a program: it returns,
acts on the state, or iterates.  An operation has resources of its own while it runs,
and every action trades some of them in, whatever the others have.  When an action may
be taken only with what the operation has, and every program ends with nothing, then
the state is in order whenever no operation is under way.
-/

namespace Pool

open Finset

universe u

/-! ## Sums over a table -/

/-- The sum over a table one entry of which has changed. -/
theorem sum_of_eq_off {ι : Type u} {s : Finset ι} {f g : ι → Int} {k : ι} (hk : k ∈ s)
    (h : ∀ i ∈ s, i ≠ k → g i = f i) : ∑ i ∈ s, g i = ∑ i ∈ s, f i + (g k - f k) := by
  classical
  have hrest : ∑ i ∈ s.erase k, g i = ∑ i ∈ s.erase k, f i :=
    sum_congr rfl fun i hi ↦ h i (mem_of_mem_erase hi) (ne_of_mem_erase hi)
  rw [← add_sum_erase s g hk, ← add_sum_erase s f hk, hrest]
  omega

/-- The entries that satisfy a condition, one for each. -/
theorem sum_range_boole (n : Nat) (p : Nat → Bool) :
    ∑ i ∈ range n, (if p i then (1 : Int) else 0) = (List.range n).countP p := by
  induction n with
  | zero => rfl
  | succ n ih =>
      rw [sum_range_succ, ih, List.range_succ, List.countP_append]
      cases hp : p n <;> simp [hp]

/-! ## Programs -/

/-- A program over the actions `E`.  An iteration goes on with `Sum.inr` and ends with
`Sum.inl`. -/
inductive Prog (E : Type → Type 1) : Type → Type 1
  | ret {α : Type} (a : α) : Prog E α
  | act {α β : Type} (e : E β) (k : β → Prog E α) : Prog E α
  | iter {α β ρ : Type} (body : ρ → Prog E (β ⊕ ρ)) (r : ρ) (k : β → Prog E α) : Prog E α

namespace Prog

variable {E : Type → Type 1} {α β ρ : Type}

def bind {α β : Type} : Prog E α → (α → Prog E β) → Prog E β
  | .ret a, f => f a
  | .act e k, f => .act e fun b ↦ (k b).bind f
  | .iter body r k, f => .iter body r fun b ↦ (k b).bind f

instance : Monad (Prog E) where
  pure := ret
  bind := bind

/-- One action, with what it returns. -/
def perform (e : E α) : Prog E α := .act e .ret

/-- An iteration, with what it ends with. -/
def loop (body : ρ → Prog E (β ⊕ ρ)) (r : ρ) : Prog E β := .iter body r .ret

/-- The program has returned. -/
def isDone : Prog E α → Bool
  | .ret _ => true
  | _ => false

@[simp] theorem isDone_ret (a : α) : (ret a : Prog E α).isDone = true := rfl

theorem eq_ret_of_isDone : ∀ {p : Prog E Unit}, p.isDone = true → p = .ret ()
  | .ret (), _ => rfl

/-- A round of an iteration. -/
def unroll (body : ρ → Prog E (β ⊕ ρ)) (r : ρ) (k : β → Prog E α) : Prog E α :=
  (body r).bind (Sum.elim k fun r' ↦ .iter body r' k)

/-- The next state and the rest of the program, for actions that depend on a choice from
outside and may have to wait. -/
def next {ω : Type} {σ : Type u} (exec : {β : Type} → E β → ω → σ → Option (σ × β))
    (c : ω) (s : σ) : Prog E α → Option (σ × Prog E α)
  | .ret _ => none
  | .act e k => (exec e c s).map fun r ↦ (r.1, k r.2)
  | .iter body r k => some (s, unroll body r k)

/-- The same program over other actions. -/
def mapAct {E F : Type → Type 1} (f : {β : Type} → E β → F β) {α : Type} : Prog E α → Prog F α
  | .ret a => .ret a
  | .act e k => .act (f e) fun b ↦ (k b).mapAct f
  | .iter body r k => .iter (fun r ↦ (body r).mapAct f) r fun b ↦ (k b).mapAct f

/-- All actions of the program satisfy `ok`. -/
def Only (ok : {β : Type} → E β → Prop) {α : Type} : Prog E α → Prop
  | .ret _ => True
  | .act e k => ok e ∧ ∀ b, (k b).Only ok
  | .iter body _ k => (∀ r, (body r).Only ok) ∧ ∀ b, (k b).Only ok

namespace Only

variable {ok ok' : {β : Type} → E β → Prop} {p p' : Prog E α}

theorem mono (h : p.Only ok) (hok : ∀ {β : Type} (e : E β), ok e → ok' e) : p.Only ok' := by
  induction p with
  | ret a => trivial
  | act e k ih => exact ⟨hok e h.1, fun b ↦ ih b (h.2 b)⟩
  | iter body r k ihbody ihk => exact ⟨fun r ↦ ihbody r (h.1 r), fun b ↦ ihk b (h.2 b)⟩

theorem bind {f : α → Prog E β} (h : p.Only ok) (hf : ∀ a, (f a).Only ok) : (p.bind f).Only ok := by
  induction p with
  | ret a => exact hf a
  | act e k ih => exact ⟨h.1, fun b ↦ ih b (h.2 b) hf⟩
  | iter body r k _ ihk => exact ⟨h.1, fun b ↦ ihk b (h.2 b) hf⟩

theorem mapAct {F : Type → Type 1} {f : {β : Type} → F β → E β}
    (hf : ∀ {β : Type} (e : F β), ok (f e)) (q : Prog F α) : (q.mapAct f).Only ok := by
  induction q with
  | ret a => trivial
  | act e k ih => exact ⟨hf e, ih⟩
  | iter body r k ihbody ihk => exact ⟨ihbody, ihk⟩

/-- What is left of the program. -/
theorem next {ω : Type} {σ : Type u} {exec : {β : Type} → E β → ω → σ → Option (σ × β)}
    {c : ω} {s s' : σ} (h : p.Only ok) (hn : p.next exec c s = some (s', p')) : p'.Only ok := by
  cases p with
  | ret a => cases hn
  | act e k =>
      simp only [Prog.next, Option.map_eq_some_iff] at hn
      obtain ⟨⟨s₁, b⟩, -, heq⟩ := hn
      cases heq
      exact h.2 b
  | iter body r k =>
      cases hn
      refine (h.1 r).bind ?_
      rintro (b | r')
      · exact h.2 b
      · exact h

end Only

end Prog

open Prog

/-! ## Actions and resources -/

/-- What the actions do and which of them are allowed, and when the operations may have
the resources `m` between them. -/
structure Sharing (E : Type → Type 1) (ω : Type) (σ : Type u) (M : Type) [AddCommMonoid M] where
  exec : {β : Type} → E β → ω → σ → Option (σ × β)
  allowed : {β : Type} → E β → ω → σ → Prop
  valid : σ → M → Prop

namespace Sharing

variable {E : Type → Type 1} {ω : Type} {σ : Type u} {M : Type} [AddCommMonoid M]
  (L : Sharing E ω σ M) {α β ρ : Type}

/-- The next action is an allowed one. -/
def Allows (c : ω) (s : σ) : Prog E α → Prop
  | .act e _ => L.allowed e c s
  | _ => True

/-- With resources `m`, the program can take all of its actions, and ends with a result
and resources that satisfy `Q`.  What the others have stays in order meanwhile. -/
def wp {α : Type} : Prog E α → (α → M → Prop) → M → Prop
  | .ret a, Q, m => Q a m
  | .act e k, Q, m => ∀ s others c s' b, L.valid s (m + others) → L.allowed e c s →
      L.exec e c s = some (s', b) → ∃ m', L.valid s' (m' + others) ∧ wp (k b) Q m'
  | .iter body r k, Q, m => ∃ I : _ → M → Prop, I r m ∧
      ∀ r m, I r m → wp (body r) (Sum.elim (fun b ↦ wp (k b) Q) I) m

variable {L} {p : Prog E α} {Q Q' : α → M → Prop} {m : M}

theorem wp_mono (h : L.wp p Q m) (hQ : ∀ a m, Q a m → Q' a m) : L.wp p Q' m := by
  induction p generalizing m with
  | ret a => exact hQ a m h
  | act e k ih =>
      intro s others c s' b hv hok he
      obtain ⟨m', hv', h'⟩ := h s others c s' b hv hok he
      exact ⟨m', hv', ih b h' hQ⟩
  | iter body r k ihbody ihk =>
      obtain ⟨I, hI, hbody⟩ := h
      refine ⟨I, hI, fun r m hr ↦ ihbody r (hbody r m hr) ?_⟩
      rintro (b | r') m' h'
      · exact ihk b h' hQ
      · exact h'

/-- A program that is followed by another one. -/
theorem wp_bind {f : α → Prog E β} {Q : β → M → Prop} :
    L.wp (p.bind f) Q m ↔ L.wp p (fun a ↦ L.wp (f a) Q) m := by
  induction p generalizing m with
  | ret a => rfl
  | act e k ih =>
      constructor
      · intro h s others c s' b hv hok he
        obtain ⟨m', hv', h'⟩ := h s others c s' b hv hok he
        exact ⟨m', hv', (ih b).mp h'⟩
      · intro h s others c s' b hv hok he
        obtain ⟨m', hv', h'⟩ := h s others c s' b hv hok he
        exact ⟨m', hv', (ih b).mpr h'⟩
  | iter body r k _ ihk =>
      constructor
      · rintro ⟨I, hI, hbody⟩
        refine ⟨I, hI, fun r m hr ↦ wp_mono (hbody r m hr) ?_⟩
        rintro (b | r') m' h'
        · exact (ihk b).mp h'
        · exact h'
      · rintro ⟨I, hI, hbody⟩
        refine ⟨I, hI, fun r m hr ↦ wp_mono (hbody r m hr) ?_⟩
        rintro (b | r') m' h'
        · exact (ihk b).mpr h'
        · exact h'

theorem wp_seq {p : Prog E α} {f : α → Prog E β} {Q : β → M → Prop}
    (h : L.wp p (fun a ↦ L.wp (f a) Q) m) : L.wp (p >>= f) Q m :=
  wp_bind.mpr h

/-- The rule for an action. -/
theorem wp_perform {e : E α}
    (h : ∀ (s : σ) (others : M) (c : ω) (s' : σ) (a : α), L.valid s (m + others) →
      L.allowed e c s → L.exec e c s = some (s', a) → ∃ m', L.valid s' (m' + others) ∧ Q a m') :
    L.wp (perform e) Q m :=
  h

/-- The rule for an iteration: an invariant that its rounds keep. -/
theorem wp_loop {body : ρ → Prog E (β ⊕ ρ)} {r : ρ} {Q : β → M → Prop} (I : ρ → M → Prop)
    (hI : I r m) (hbody : ∀ r m, I r m → L.wp (body r) (Sum.elim Q I) m) : L.wp (loop body r) Q m :=
  ⟨I, hI, hbody⟩

theorem wp_unroll {body : ρ → Prog E (β ⊕ ρ)} {r : ρ} {k : β → Prog E α}
    (h : L.wp (.iter body r k) Q m) : L.wp (unroll body r k) Q m := by
  obtain ⟨I, hI, hbody⟩ := h
  rw [unroll, wp_bind]
  refine wp_mono (hbody r m hI) ?_
  rintro (b | r') m' h'
  · exact h'
  · exact ⟨I, h', hbody⟩

/-- A step of a program keeps what the others rely on. -/
theorem wp_next {c : ω} {s s' : σ} {p' : Prog E α} {others : M} (h : L.wp p Q m)
    (hv : L.valid s (m + others)) (hok : L.Allows c s p) (hn : p.next L.exec c s = some (s', p')) :
    ∃ m', L.valid s' (m' + others) ∧ L.wp p' Q m' := by
  cases p with
  | ret a => cases hn
  | act e k =>
      simp only [Prog.next, Option.map_eq_some_iff] at hn
      obtain ⟨⟨s₁, b⟩, he, heq⟩ := hn
      cases heq
      exact h s others c s₁ b hv hok he
  | iter body r k =>
      cases hn
      exact ⟨m, hv, wp_unroll h⟩

end Sharing

end Pool

/-! ## Pools -/

/-- A state, and the operations on it. -/
structure Pool (E : Type → Type 1) (σ : Type u) where
  shared : σ
  progs : Nat → Pool.Prog E Unit
  size : Nat

namespace Pool

open Prog Finset

universe u

variable {E : Type → Type 1} {ω : Type} {σ : Type u} {M : Type} [AddCommMonoid M]

/-- Nobody is on the state. -/
def still (s : σ) : Pool E σ where
  shared := s
  progs _ := .ret ()
  size := 0

/-- Operation `t` goes on. -/
def go (exec : {β : Type} → E β → ω → σ → Option (σ × β)) (P : Pool E σ) (t : Nat) (c : ω) :
    Option (Pool E σ) :=
  ((P.progs t).next exec c P.shared).map fun r ↦
    { P with shared := r.1, progs := Function.update P.progs t r.2 }

/-- An operation begins. -/
def spawn (P : Pool E σ) (s : σ) (p : Prog E Unit) : Pool E σ where
  shared := s
  progs := Function.update P.progs P.size p
  size := P.size + 1

/-- No operation is in progress. -/
def Quiet (P : Pool E σ) : Prop := ∀ t < P.size, (P.progs t).isDone = true

instance (P : Pool E σ) : Decidable P.Quiet :=
  inferInstanceAs (Decidable (∀ t < P.size, (P.progs t).isDone = true))

/-- Every operation has the resources that it needs to get to its end, where it has
none left. -/
structure Orderly (L : Sharing E ω σ M) (P : Pool E σ) (own : Nat → M) : Prop where
  wp : ∀ t, L.wp (P.progs t) (fun _ m ↦ m = 0) (own t)
  fresh : ∀ t, P.size ≤ t → P.progs t = .ret ()
  valid : L.valid P.shared (∑ t ∈ range P.size, own t)

namespace Orderly

variable {L : Sharing E ω σ M} {P P' : Pool E σ} {own : Nat → M} {t : Nat} {s : σ}

theorem still (h : L.valid s 0) : Orderly L (Pool.still s) fun _ ↦ 0 where
  wp _ := rfl
  fresh _ _ := rfl
  valid := by simpa [Pool.still] using h

/-- Who has returned has nothing. -/
theorem own_eq_zero (h : Orderly L P own) (ht : (P.progs t).isDone = true) : own t = 0 := by
  have hwp := h.wp t
  rwa [eq_ret_of_isDone ht] at hwp

theorem sum_update {m : M} (ht : t < P.size) :
    ∑ u ∈ range P.size, Function.update own t m u = m + ∑ u ∈ (range P.size).erase t, own u := by
  rw [← add_sum_erase _ _ (mem_range.mpr ht), Function.update_self]
  congr 1
  exact sum_congr rfl fun u hu ↦ Function.update_of_ne (ne_of_mem_erase hu) _ _

/-- A step of one operation. -/
theorem go {c : ω} (h : Orderly L P own) (hok : L.Allows c P.shared (P.progs t))
    (hg : P.go L.exec t c = some P') : ∃ own', Orderly L P' own' := by
  simp only [Pool.go, Option.map_eq_some_iff] at hg
  obtain ⟨⟨s', p'⟩, hn, rfl⟩ := hg
  have ht : t < P.size := by
    refine Nat.lt_of_not_le fun hle ↦ ?_
    rw [h.fresh t hle] at hn
    cases hn
  have hv := h.valid
  rw [← add_sum_erase _ _ (mem_range.mpr ht)] at hv
  obtain ⟨m', hv', hwp'⟩ := Sharing.wp_next (h.wp t) hv hok hn
  refine ⟨Function.update own t m', ?_, ?_, ?_⟩
  · intro u
    by_cases hu : u = t
    · subst hu
      simpa using hwp'
    · simpa [hu] using h.wp u
  · intro u hu
    have hne : u ≠ t := Nat.ne_of_gt (Nat.lt_of_lt_of_le ht hu)
    simpa [hne] using h.fresh u hu
  · rw [sum_update ht]
    exact hv'

/-- An operation begins with resources that its call is given. -/
theorem spawn {p : Prog E Unit} {m : M} (h : Orderly L P own) (hwp : L.wp p (fun _ m ↦ m = 0) m)
    (hv : ∀ others, L.valid P.shared others → L.valid s (m + others)) :
    ∃ own', Orderly L (P.spawn s p) own' := by
  refine ⟨Function.update own P.size m, ?_, ?_, ?_⟩
  · intro u
    by_cases hu : u = P.size
    · subst hu
      simpa [Pool.spawn] using hwp
    · simpa [Pool.spawn, hu] using h.wp u
  · intro u hu
    have hne : u ≠ P.size := Nat.ne_of_gt hu
    simpa [Pool.spawn, hne] using h.fresh u (Nat.le_of_succ_le hu)
  · show L.valid s (∑ u ∈ range (P.size + 1), Function.update own P.size m u)
    rw [sum_update (P := { P with size := P.size + 1 }) (Nat.lt_succ_self _), range_add_one,
      erase_insert notMem_range_self]
    exact hv _ h.valid

/-- A step that no operation takes. -/
theorem outside (h : Orderly L P own) (hv : ∀ others, L.valid P.shared others → L.valid s others) :
    Orderly L { P with shared := s } own :=
  ⟨h.wp, h.fresh, hv _ h.valid⟩

/-- When no operation is in progress, nobody has anything. -/
theorem valid_of_quiet (h : Orderly L P own) (hq : P.Quiet) : L.valid P.shared 0 := by
  have hzero : ∑ t ∈ range P.size, own t = 0 := by
    refine sum_eq_zero fun t ht ↦ ?_
    exact h.own_eq_zero (hq t (mem_range.mp ht))
  rw [← hzero]
  exact h.valid

end Orderly

end Pool
