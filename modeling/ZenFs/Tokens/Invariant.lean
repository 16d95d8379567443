import ZenFs.Lib.Pool
import ZenFs.Tokens.Basic

/-!
# The ledger of tokens

Every token that `active_io_zones_` counts belongs to a zone that is partly written
or held by a writer, or to an operation that has taken it for a zone it has not got
yet or has still to give it back.  This is an invariant of the runs in which no zone
is given up while it is empty.
-/

namespace ZenFs

namespace Tokens

open Finset

/-! ## What an operation has at a point -/

namespace Pc

def job : Pc → Option Job
  | idle | resetting _ | resetHeld _ | resetDone .. | resetPut _ => none
  | loop k | closing k | closed k | returning k | threshold k _ | thresholdHeld k _ |
      thresholdDone k _
  | thresholdPut k _ | matching k _ | matchHeld k .. | matchSwap k .. | token k .. | decide k .. |
      matchPut k _
  | matched k _ | opening k _ | cheapest k .. | cheapestHeld k .. | cheapestSwap k .. |
      cheapestDone k _
  | cheapestPut k | emptying k _ | emptyHeld k .. | emptySwap k .. | emptyPut k => some k

/-- The writer that the operation is on. -/
def writer (p : Pc) : Option Writer := p.job.map Job.writer

/-- The zones whose `busy_` the operation has set to look at them. -/
def held : Pc → List ZoneId
  | thresholdHeld _ i | thresholdDone _ i | matchPut _ i | matched _ i | cheapestDone _ i
  | resetHeld i | resetDone i _ => [i]
  | matching _ best | token _ best _ | decide _ best _ _ | cheapest _ _ best | emptying _ best =>
      best.toList
  | matchHeld _ best i | cheapestHeld _ i best | emptyHeld _ best i => i :: best.toList
  | matchSwap _ old i | cheapestSwap _ old i | emptySwap _ old i => [old, i]
  | _ => []

/-- The tokens that the operation has. -/
def debt : Pc → Int
  | closed _ | thresholdDone .. | thresholdPut .. | matchPut .. | cheapestDone .. | cheapestPut _
  | emptying .. | emptyHeld .. | emptySwap .. | emptyPut _ | resetPut _ => 1
  | decide _ _ _ got | opening _ got => if got then 1 else 0
  | resetDone _ full => if full then 0 else 1
  | _ => 0

/-- The writer for which a zone is allocated; it has none. -/
def allocating : Pc → Option Writer
  | closed k | threshold k _ | thresholdHeld k _ | thresholdDone k _ | thresholdPut k _ |
  matching k _
  | matchHeld k .. | matchSwap k .. | token k .. | decide k .. | matchPut k _ |
  matched k _ | opening k _
  | cheapest k .. | cheapestHeld k .. | cheapestSwap k .. | cheapestDone k _ | cheapestPut k
  | emptying k _ | emptyHeld k .. | emptySwap k .. | emptyPut k => some k.writer
  | returning (.migrate op ..) => some (.migration op)
  | returning (.close f) => some (.file f)
  | _ => none

/-- A zone that has been found to be partly written. -/
def partlyFound : Pc → Option ZoneId
  | matching _ best | matchHeld _ best _ | token _ best _ | decide _ best _ _ | cheapest _ _ best
  | cheapestHeld _ _ best => best
  | matchSwap _ _ i | matchPut _ i | matched _ i | cheapestSwap _ _ i => some i
  | _ => none

/-- A zone that has been found to be empty. -/
def emptyFound : Pc → Option ZoneId
  | emptying _ best | emptyHeld _ best _ => best
  | emptySwap _ _ i => some i
  | _ => none

/-- A file whose zone is not filled up. -/
def tidy : Pc → Option Nat
  | loop (.append f mode ..) => if mode = .direct then none else some f
  | returning (.append f ..) => some f
  | _ => none

variable {p : Pc} {i : ZoneId} {w : Writer} {f : Nat}

theorem mem_held_of_partlyFound (h : p.partlyFound = some i) : i ∈ p.held := by
  cases p <;> simp_all [partlyFound, held]

theorem mem_held_of_emptyFound (h : p.emptyFound = some i) : i ∈ p.held := by
  cases p <;> simp_all [emptyFound, held]

theorem writer_of_allocating (h : p.allocating = some w) : p.writer = some w := by
  cases p with
  | returning k => cases k <;> simp_all [allocating, writer, job, Job.writer]
  | _ => simp_all [allocating, writer, job]

theorem writer_of_tidy (h : p.tidy = some f) : p.writer = some (.file f) := by
  cases p with
  | loop k | returning k => cases k <;> simp_all [tidy, writer, job, Job.writer]
  | _ => simp_all [tidy]

end Pc

/-- The zone is full only if it is empty too, as one that went offline. -/
def Tidy (z : Zone) : Prop := z.isFull = true → z.isEmpty = true

/-- What an operation relies on at a point. -/
structure Good (zones : ZoneId → Zone) (activeZone : Writer → Option ZoneId) (p : Pc) : Prop where
  alloc : ∀ w, p.allocating = some w → activeZone w = none
  partly : ∀ i, p.partlyFound = some i → (zones i).isPartial = true
  empty : ∀ i, p.emptyFound = some i → (zones i).isEmpty = true
  tidy : ∀ f, p.tidy = some f → ∀ i, activeZone (.file f) = some i → Tidy (zones i)

/-- A point at which the operation relies on nothing. -/
theorem Good.of_none {zones : ZoneId → Zone} {activeZone : Writer → Option ZoneId} {p : Pc}
    (ha : p.allocating = none) (hp : p.partlyFound = none) (he : p.emptyFound = none)
    (ht : p.tidy = none) : Good zones activeZone p :=
  ⟨by simp [ha], by simp [hp], by simp [he], by simp [ht]⟩

/-- A point of an allocation that has not found a zone. -/
theorem Good.of_alloc {zones : ZoneId → Zone} {activeZone : Writer → Option ZoneId} {p : Pc}
    (ha : ∀ w, p.allocating = some w → activeZone w = none) (hp : p.partlyFound = none)
    (he : p.emptyFound = none) (ht : p.tidy = none) : Good zones activeZone p :=
  ⟨ha, by simp [hp], by simp [he], by simp [ht]⟩

/-- A point of an allocation that may have found a partly written zone. -/
theorem Good.of_partly {zones : ZoneId → Zone} {activeZone : Writer → Option ZoneId} {p : Pc}
    (ha : ∀ w, p.allocating = some w → activeZone w = none)
    (hp : ∀ i, p.partlyFound = some i → (zones i).isPartial = true) (he : p.emptyFound = none)
    (ht : p.tidy = none) : Good zones activeZone p :=
  ⟨ha, hp, by simp [he], by simp [ht]⟩

/-- A point of an allocation that may have found an empty zone. -/
theorem Good.of_empty {zones : ZoneId → Zone} {activeZone : Writer → Option ZoneId} {p : Pc}
    (ha : ∀ w, p.allocating = some w → activeZone w = none)
    (he : ∀ i, p.emptyFound = some i → (zones i).isEmpty = true) (hp : p.partlyFound = none)
    (ht : p.tidy = none) : Good zones activeZone p :=
  ⟨ha, by simp [hp], he, by simp [ht]⟩

/-- A point between two rounds of an append. -/
theorem Good.of_tidy {zones : ZoneId → Zone} {activeZone : Writer → Option ZoneId} {p : Pc}
    (ha : p.allocating = none) (hp : p.partlyFound = none) (he : p.emptyFound = none)
    (ht : ∀ f, p.tidy = some f → ∀ i, activeZone (.file f) = some i → Tidy (zones i)) :
    Good zones activeZone p :=
  ⟨by simp [ha], by simp [hp], by simp [he], ht⟩

/-- How full two zones are. -/
def SameFill (z z' : Zone) : Prop := z'.isEmpty = z.isEmpty ∧ z'.isFull = z.isFull

theorem SameFill.isPartial {z z' : Zone} (h : SameFill z z') : z'.isPartial = z.isPartial := by
  simp [Zone.isPartial, h.1, h.2]

theorem SameFill.tidy {z z' : Zone} (h : SameFill z z') (ht : Tidy z) : Tidy z' := by
  simpa [Tidy, h.1, h.2] using ht

/-- Only the zones and the writer that the operation has matter. -/
theorem Good.congr {zones zones' : ZoneId → Zone}
    {activeZone activeZone' : Writer → Option ZoneId} {p : Pc}
    (hg : Good zones activeZone p) (hheld : ∀ i ∈ p.held, SameFill (zones i) (zones' i))
    (hw : ∀ w, p.writer = some w → activeZone' w = activeZone w)
    (hactive : ∀ w i, p.writer = some w → activeZone w = some i → SameFill (zones i) (zones' i)) :
    Good zones' activeZone' p where
  alloc w h := by rw [hw w (Pc.writer_of_allocating h), hg.alloc w h]
  partly i h := by
    rw [(hheld i (Pc.mem_held_of_partlyFound h)).isPartial]
    exact hg.partly i h
  empty i h := by
    rw [(hheld i (Pc.mem_held_of_emptyFound h)).1]
    exact hg.empty i h
  tidy f h i hi := by
    have hf := Pc.writer_of_tidy h
    rw [hw _ hf] at hi
    exact (hactive _ i hf hi).tidy (hg.tidy f h i hi)

theorem SameFill.update {zones : ZoneId → Zone} {z : Zone} {i : ZoneId} (h : SameFill (zones i) z)
    (j : ZoneId) : SameFill (zones j) (Function.update zones i z j) := by
  by_cases hj : j = i
  · subst hj
    simpa using h
  · simp [hj, SameFill]

/-- What an operation relies on does not depend on who holds a zone. -/
theorem Good.update {zones : ZoneId → Zone} {activeZone : Writer → Option ZoneId} {z : Zone}
    {p : Pc} {i : ZoneId} (hg : Good zones activeZone p) (h : SameFill (zones i) z) :
    Good (Function.update zones i z) activeZone p :=
  hg.congr (fun j _ ↦ h.update j) (fun _ _ ↦ rfl) fun _ j _ _ ↦ h.update j

/-! ## The invariant -/

def isWriter : Option Holder → Bool
  | some (.writer _) => true
  | _ => false

/-- The tokens that belong to a zone. -/
def weight (z : Zone) (h : Option Holder) : Int := if z.isPartial || isWriter h then 1 else 0

/-- Who has what, and where the tokens are. -/
structure Inv (s : Tokens) : Prop where
  scan : ∀ t i, i ∈ (s.pc t).held → s.owner i = some (.scan t)
  nodup : ∀ t, (s.pc t).held.Nodup
  active : ∀ w i, s.activeZone w = some i ↔ s.owner i = some (.writer w)
  busy : ∀ i h, s.owner i = some h → (s.zones i).busy = true ∧ i < s.nrZones
  user : ∀ t w, (s.pc t).writer = some w ↔ s.user w = some t
  migration : ∀ op i, s.activeZone (.migration op) = some i → s.user (.migration op) ≠ none
  used : ∀ i, isWriter (s.owner i) = false → (s.zones i).isUsed = true →
    (s.zones i).isEmpty = false ∨ (s.zones i).isFull = true
  tidy : ∀ f i, s.activeZone (.file f) = some i → s.user (.file f) = none → Tidy (s.zones i)
  good : ∀ t, Good s.zones s.activeZone (s.pc t)
  fresh : ∀ t, s.nextOp ≤ t → s.pc t = .idle
  balance : s.active =
    ∑ i ∈ range s.nrZones, weight (s.zones i) (s.owner i) + ∑ t ∈ range s.nextOp, (s.pc t).debt

namespace Inv

variable {s : Tokens} {t : Nat} {p q : Pc} {i : ZoneId}

/-- The operation has the zone, or nobody has. -/
def Mine (s : Tokens) (t : Nat) (i : ZoneId) : Prop :=
  ∀ h, s.owner i = some h → h = .scan t ∨ ∃ w, (s.pc t).writer = some w ∧ h = .writer w

theorem ne_of_scan (hi : Inv s) {u : Nat} {j : ZoneId} (hm : Mine s t i) (hu : u ≠ t)
    (hj : j ∈ (s.pc u).held) : j ≠ i := by
  rintro rfl
  rcases hm _ (hi.scan u j hj) with h | ⟨w, -, h⟩
  · cases h
    exact hu rfl
  · cases h

theorem ne_of_writer (hi : Inv s) {w : Writer} {j : ZoneId} (hm : Mine s t i)
    (hw : (s.pc t).writer ≠ some w) (hj : s.activeZone w = some j) : j ≠ i := by
  rintro rfl
  rcases hm _ ((hi.active w j).mp hj) with h | ⟨w', hw', h⟩
  · cases h
  · cases h
    exact hw hw'

/-- Two operations are not on one writer. -/
theorem writer_ne (hi : Inv s) {u : Nat} {w : Writer} (hu : u ≠ t) (hw : (s.pc u).writer = some w) :
    (s.pc t).writer ≠ some w := fun ht ↦
  hu (Option.some.inj (((hi.user u w).mp hw).symm.trans ((hi.user t w).mp ht)))

theorem lt_nextOp (hi : Inv s) (hp : s.pc t ≠ .idle) : t < s.nextOp :=
  Nat.lt_of_not_le fun h ↦ hp (hi.fresh t h)

/-- The sum over the operations when one of them moves on. -/
theorem sum_debt (ht : t < s.nextOp) :
    ∑ u ∈ range s.nextOp, (Function.update s.pc t q u).debt =
      ∑ u ∈ range s.nextOp, (s.pc u).debt + (q.debt - (s.pc t).debt) := by
  have h := Pool.sum_of_eq_off (s := range s.nextOp) (f := fun u ↦ (s.pc u).debt)
    (g := fun u ↦ (Function.update s.pc t q u).debt) (mem_range.mpr ht) (fun u _ hu ↦ by simp [hu])
  simpa using h

/-- The sum over the zones when one of them changes. -/
theorem sum_weight {z : Zone} {o : Option Holder} (hi : i < s.nrZones) :
    ∑ j ∈ range s.nrZones, weight (Function.update s.zones i z j) (Function.update s.owner i o j) =
      ∑ j ∈ range s.nrZones, weight (s.zones j) (s.owner j) +
        (weight z o - weight (s.zones i) (s.owner i)) := by
  have h := Pool.sum_of_eq_off (s := range s.nrZones) (f := fun j ↦ weight (s.zones j) (s.owner j))
    (g := fun j ↦ weight (Function.update s.zones i z j) (Function.update s.owner i o j))
    (mem_range.mpr hi) (fun j _ hj ↦ by simp [hj])
  simpa using h

/-- An operation moves on and changes a zone that is its own. -/
theorem move (hi : Inv s) {z : Zone} {o : Option Holder} {a : Writer → Option ZoneId} {x : Int}
    (u : Writer → Nat) (hp : s.pc t = p) (hidle : p ≠ .idle) (hlt : i < s.nrZones) (hm : Mine s t i)
    (hw : q.writer = p.writer) (ha : ∀ w, p.writer ≠ some w → a w = s.activeZone w)
    (hactive : ∀ w j, a w = some j ↔ Function.update s.owner i o j = some (.writer w))
    (hheld : ∀ j ∈ q.held, (j = i ∧ o = some (.scan t)) ∨ (j ≠ i ∧ j ∈ p.held))
    (hnodup : q.held.Nodup) (hbusy : ∀ h, o = some h → z.busy = true)
    (hused : isWriter o = false → z.isUsed = true → z.isEmpty = false ∨ z.isFull = true)
    (hgood : Good (Function.update s.zones i z) a q)
    (hbal : x + weight (s.zones i) (s.owner i) + p.debt = s.active + weight z o + q.debt) :
    Inv { s with
      zones := Function.update s.zones i z
      owner := Function.update s.owner i o
      active := x
      activeZone := a
      unsynced := u
      pc := Function.update s.pc t q } := by
  subst hp
  have htn := hi.lt_nextOp hidle
  have hpc : ∀ u w, (Function.update s.pc t q u).writer = some w ↔ (s.pc u).writer = some w := by
    intro u w
    by_cases hu : u = t
    · subst hu
      simp [hw]
    · simp [hu]
  exact {
    scan := by
      intro u j hj
      dsimp only at hj ⊢
      by_cases hu : u = t
      · subst hu
        rw [Function.update_self] at hj
        rcases hheld j hj with ⟨rfl, ho⟩ | ⟨hne, hj⟩
        · simp [ho]
        · simp [hne, hi.scan u j hj]
      · rw [Function.update_of_ne hu] at hj
        simp [hi.ne_of_scan hm hu hj, hi.scan u j hj]
    nodup := by
      intro u
      by_cases hu : u = t
      · subst hu
        simpa using hnodup
      · simpa [hu] using hi.nodup u
    active := hactive
    busy := by
      intro j h hj
      dsimp only at hj ⊢
      by_cases hji : j = i
      · subst hji
        rw [Function.update_self] at hj
        exact ⟨by simpa using hbusy h hj, hlt⟩
      · rw [Function.update_of_ne hji] at hj
        simpa [hji] using hi.busy j h hj
    user := fun u w ↦ (hpc u w).trans (hi.user u w)
    migration := by
      intro op j hj
      by_cases hop : (s.pc t).writer = some (.migration op)
      · simp [(hi.user t _).mp hop]
      · exact hi.migration op j (ha _ hop ▸ hj)
    used := by
      intro j
      by_cases hji : j = i
      · subst hji
        simpa using hused
      · simpa [hji] using hi.used j
    tidy := by
      intro f j hj huser
      dsimp only at hj huser ⊢
      have hf : (s.pc t).writer ≠ some (.file f) := by
        intro hf
        simp [(hi.user t _).mp hf] at huser
      rw [ha _ hf] at hj
      simpa [hi.ne_of_writer hm hf hj] using hi.tidy f j hj huser
    good := by
      intro u
      dsimp only
      by_cases hu : u = t
      · subst hu
        simpa using hgood
      · rw [Function.update_of_ne hu]
        refine (hi.good u).congr (fun j hj ↦ ?_) (fun w hw' ↦ ha w (hi.writer_ne hu hw'))
          fun w j hw' hj ↦ ?_
        · simp [hi.ne_of_scan hm hu hj, SameFill]
        · simp [hi.ne_of_writer hm (hi.writer_ne hu hw') hj, SameFill]
    fresh := by
      intro u hu
      have hne : u ≠ t := Nat.ne_of_gt (Nat.lt_of_lt_of_le htn hu)
      simpa [hne] using hi.fresh u hu
    balance := by
      have hb := hi.balance
      dsimp only
      rw [sum_weight hlt, sum_debt htn]
      omega }

/-- An operation moves on and changes no zone. -/
theorem stay (hi : Inv s) {x : Int} (hp : s.pc t = p) (hidle : p ≠ .idle) (hw : q.writer = p.writer)
    (hheld : q.held.Perm p.held) (hgood : Good s.zones s.activeZone q)
    (hbal : x + p.debt = s.active + q.debt) : Inv ({ s with active := x }.setPc t q) := by
  subst hp
  have htn := hi.lt_nextOp hidle
  have hpc : ∀ u w, (Function.update s.pc t q u).writer = some w ↔ (s.pc u).writer = some w := by
    intro u w
    by_cases hu : u = t
    · subst hu
      simp [hw]
    · simp [hu]
  exact {
    scan := by
      intro u j (hj : j ∈ (Function.update s.pc t q u).held)
      by_cases hu : u = t
      · subst hu
        rw [Function.update_self] at hj
        exact hi.scan u j (hheld.mem_iff.mp hj)
      · rw [Function.update_of_ne hu] at hj
        exact hi.scan u j hj
    nodup := by
      intro u
      by_cases hu : u = t
      · subst hu
        simpa [setPc] using hheld.nodup_iff.mpr (hi.nodup u)
      · simpa [setPc, hu] using hi.nodup u
    active := hi.active
    busy := hi.busy
    user := fun u w ↦ (hpc u w).trans (hi.user u w)
    migration := hi.migration
    used := hi.used
    tidy := hi.tidy
    good := by
      intro u
      by_cases hu : u = t
      · subst hu
        simpa [setPc] using hgood
      · simpa [setPc, hu] using hi.good u
    fresh := by
      intro u hu
      have hne : u ≠ t := Nat.ne_of_gt (Nat.lt_of_lt_of_le htn hu)
      simpa [setPc, hne] using hi.fresh u hu
    balance := by
      have hb := hi.balance
      simp only [setPc]
      rw [sum_debt htn]
      omega }

/-! ## The moves -/

theorem mine_of_free (h : s.owner i = none) : Mine s t i := by
  intro h' h''
  simp [h] at h''

theorem mine_of_held (hi : Inv s) (hp : s.pc t = p) (h : i ∈ p.held) : Mine s t i := by
  intro h' h''
  rw [hi.scan t i (hp ▸ h)] at h''
  exact .inl (Option.some.inj h'').symm

theorem mine_of_writer (hi : Inv s) {w : Writer} (hp : s.pc t = p) (hw : p.writer = some w)
    (ha : s.activeZone w = some i) : Mine s t i := by
  intro h' h''
  rw [(hi.active w i).mp ha] at h''
  exact .inr ⟨w, hp ▸ hw, (Option.some.inj h'').symm⟩

/-- The writers keep their zones while a zone changes that none of them has. -/
theorem active_update (hi : Inv s) {o : Option Holder} (ho : isWriter o = false)
    (hown : isWriter (s.owner i) = false) (w : Writer) (j : ZoneId) :
    s.activeZone w = some j ↔ Function.update s.owner i o j = some (.writer w) := by
  rw [hi.active w j]
  by_cases hj : j = i
  · subst hj
    rw [Function.update_self]
    constructor
    · intro h
      simp [h, isWriter] at hown
    · rintro rfl
      simp [isWriter] at ho
  · rw [Function.update_of_ne hj]

/-- A writer gets a zone that it did not have, or gives up the one it had. -/
theorem active_change (hi : Inv s) {w : Writer} {v : Option ZoneId} {o : Option Holder}
    (hown : ∀ w', s.owner i = some (.writer w') → w' = w)
    (ho : ∀ w', o = some (.writer w') → w' = w)
    (hold : ∀ j, s.activeZone w = some j → j = i)
    (hv : ∀ j, v = some j ↔ j = i ∧ o = some (.writer w)) (w' : Writer) (j : ZoneId) :
    Function.update s.activeZone w v w' = some j ↔
    Function.update s.owner i o j = some (.writer w') := by
  by_cases hw : w' = w
  · subst hw
    rw [Function.update_self, hv]
    by_cases hj : j = i
    · simp [hj]
    · rw [Function.update_of_ne hj, ← hi.active]
      exact iff_of_false (fun h ↦ hj h.1) fun h ↦ hj (hold j h)
  · rw [Function.update_of_ne hw, hi.active]
    by_cases hj : j = i
    · subst hj
      rw [Function.update_self]
      exact iff_of_false (fun h ↦ hw (hown w' h)) fun h ↦ hw (ho w' h)
    · rw [Function.update_of_ne hj]

theorem acquire (hi : Inv s) (hp : s.pc t = p) (hidle : p ≠ .idle) (hlt : i < s.nrZones)
    (hfree : (s.zones i).busy = false) (hw : q.writer = p.writer) (hheld : q.held = i :: p.held)
    (hd : q.debt = p.debt) (hgood : Good s.zones s.activeZone q) :
    Inv ((s.acquire t i).setPc t q) := by
  have hnone : s.owner i = none := by
    by_contra h
    obtain ⟨h', hown⟩ := Option.ne_none_iff_exists'.mp h
    simp [(hi.busy i h' hown).1] at hfree
  have hnot : i ∉ p.held := by
    intro h
    simp [hi.scan t i (hp ▸ h)] at hnone
  refine hi.move s.unsynced hp hidle hlt (mine_of_free hnone) hw (fun _ _ ↦ rfl)
    (hi.active_update rfl (by rw [hnone]; rfl)) ?_ ?_ (fun _ _ ↦ rfl) ?_
    (hgood.update ⟨rfl, rfl⟩) ?_
  · intro j hj
    rw [hheld] at hj
    rcases List.mem_cons.mp hj with rfl | hj
    · exact .inl ⟨rfl, rfl⟩
    · exact .inr ⟨fun h ↦ hnot (h ▸ hj), hj⟩
  · rw [hheld]
    exact List.nodup_cons.mpr ⟨hnot, hp ▸ hi.nodup t⟩
  · exact fun _ ↦ hi.used i (by rw [hnone]; rfl)
  · rw [hd, hnone]
    rfl

theorem release (hi : Inv s) (hp : s.pc t = p) (hidle : p ≠ .idle) (hw : q.writer = p.writer)
    (hheld : p.held = i :: q.held) (hd : q.debt = p.debt) (hgood : Good s.zones s.activeZone q) :
    Inv ((s.release i).setPc t q) := by
  have hmem : i ∈ p.held := by simp [hheld]
  have hown : s.owner i = some (.scan t) := hi.scan t i (hp ▸ hmem)
  have hnodup : (i :: q.held).Nodup := hheld ▸ hp ▸ hi.nodup t
  refine hi.move s.unsynced hp hidle (hi.busy i _ hown).2 (hi.mine_of_held hp hmem) hw
    (fun _ _ ↦ rfl)
    (hi.active_update rfl (by rw [hown]; rfl)) ?_ (List.nodup_cons.mp hnodup).2 nofun ?_
    (hgood.update ⟨rfl, rfl⟩) ?_
  · intro j hj
    refine .inr ⟨?_, by simp [hheld, hj]⟩
    rintro rfl
    exact (List.nodup_cons.mp hnodup).1 hj
  · exact fun _ ↦ hi.used i (by rw [hown]; rfl)
  · rw [hd, hown]
    rfl

/-- An operation finishes or resets a zone that it has acquired. -/
theorem alter (hi : Inv s) {z : Zone} (hp : s.pc t = p) (hidle : p ≠ .idle) (hmem : i ∈ p.held)
    (hw : q.writer = p.writer) (hheld : q.held = p.held) (hbusy : z.busy = (s.zones i).busy)
    (hused : z.isUsed = true → z.isEmpty = false ∨ z.isFull = true)
    (hgood : Good (Function.update s.zones i z) s.activeZone q)
    (hbal : weight (s.zones i) none + p.debt = weight z none + q.debt) :
    Inv ((s.setZone i z).setPc t q) := by
  have hown : s.owner i = some (.scan t) := hi.scan t i (hp ▸ hmem)
  have hsame : Function.update s.owner i (some (.scan t)) = s.owner := by
    rw [← hown, Function.update_eq_self]
  have hmove := hi.move (o := some (.scan t)) (x := s.active) s.unsynced hp hidle
    (hi.busy i _ hown).2
    (hi.mine_of_held hp hmem) hw (fun _ _ ↦ rfl) (hi.active_update rfl (by rw [hown]; rfl)) ?_
    (hheld ▸ hp ▸ hi.nodup t) (fun _ _ ↦ hbusy.trans (hi.busy i _ hown).1) (fun _ ↦ hused) hgood ?_
  · rw [hsame] at hmove
    exact hmove
  · intro j hj
    by_cases hji : j = i
    · exact .inl ⟨hji, rfl⟩
    · exact .inr ⟨hji, hheld ▸ hj⟩
  · rw [hown]
    have hscan : ∀ z : Zone, weight z (some (.scan t)) = weight z none := fun _ ↦ rfl
    rw [hscan, hscan]
    omega

theorem weight_writer (z : Zone) (w : Writer) : weight z (some (.writer w)) = 1 := by
  simp [weight, isWriter]

/-- The writer of the operation gets the zone that was allocated for it. -/
theorem setActiveZone (hi : Inv s) {k : Job} (hp : s.pc t = p) (hidle : p ≠ .idle)
    (hjob : p.writer = some k.writer)
    (hnone : s.activeZone k.writer = none) (hheld : p.held = [i]) (htidy : Tidy (s.zones i))
    (hbal : weight (s.zones i) none + p.debt = 1) :
    Inv ((s.setActiveZone k.writer i).setPc t (.loop k)) := by
  have hmem : i ∈ p.held := by simp [hheld]
  have hown : s.owner i = some (.scan t) := hi.scan t i (hp ▸ hmem)
  have hsame : Function.update s.zones i (s.zones i) = s.zones := Function.update_eq_self i s.zones
  have hmove := hi.move (z := s.zones i) (o := some (.writer k.writer)) (x := s.active)
    (q := .loop k)
    (a := Function.update s.activeZone k.writer (some i))
    (Function.update s.unsynced k.writer 0) hp hidle
    (hi.busy i _ hown).2 (hi.mine_of_held hp hmem) hjob.symm ?_ ?_ nofun List.nodup_nil
    (fun _ _ ↦ (hi.busy i _ hown).1) nofun ?_ ?_
  · rw [hsame] at hmove
    exact hmove
  · intro w hw
    refine Function.update_of_ne ?_ _ _
    rintro rfl
    exact hw hjob
  · refine hi.active_change (by simp [hown]) (by simp) (by simp [hnone]) fun j ↦ ?_
    simp [eq_comm]
  · rw [hsame]
    refine .of_tidy rfl rfl rfl fun f hf j hj ↦ ?_
    have hk : k.writer = .file f := Option.some.inj (Pc.writer_of_tidy hf)
    rw [hk, Function.update_self] at hj
    exact Option.some.inj hj ▸ htidy
  · rw [weight_writer, hown]
    have hloop : (Pc.loop k).debt = 0 := rfl
    have hscan : weight (s.zones i) (some (.scan t)) = weight (s.zones i) none := rfl
    rw [hloop, hscan]
    omega

/-- The operation changes the zone of its writer. -/
theorem write (hi : Inv s) {w : Writer} {z : Zone} (u : Writer → Nat) (hp : s.pc t = p)
    (hidle : p ≠ .idle) (hpw : p.writer = some w) (ha : s.activeZone w = some i)
    (hw : q.writer = p.writer) (hheld : q.held = []) (hd : q.debt = p.debt)
    (hbusy : z.busy = (s.zones i).busy)
    (hgood : Good (Function.update s.zones i z) s.activeZone q) :
    Inv ({ s.setZone i z with unsynced := u }.setPc t q) := by
  have hown : s.owner i = some (.writer w) := (hi.active w i).mp ha
  have hsame : Function.update s.owner i (some (.writer w)) = s.owner := by
    rw [← hown, Function.update_eq_self]
  have hmove := hi.move (o := some (.writer w)) (x := s.active) u hp hidle (hi.busy i _ hown).2
    (hi.mine_of_writer hp hpw ha) hw (fun _ _ ↦ rfl) (fun w j ↦ by rw [hsame, hi.active])
    (fun j hj ↦ by simp [hheld] at hj) (by simp [hheld])
    (fun _ _ ↦ hbusy.trans (hi.busy i _ hown).1)
    nofun hgood (by rw [hown, weight_writer, weight_writer, hd])
  rw [hsame] at hmove
  exact hmove

/-- The writer of the operation gives its zone up. -/
theorem releaseActiveZone (hi : Inv s) {w : Writer} (hp : s.pc t = p) (hidle : p ≠ .idle)
    (hpw : p.writer = some w) (ha : s.activeZone w = some i) (hw : q.writer = p.writer)
    (hheld : q.held = []) (hkeep : (s.zones i).isEmpty = false ∨ (s.zones i).isFull = true)
    (hgood : Good s.zones (Function.update s.activeZone w none) q)
    (hbal : 1 + p.debt = weight (s.zones i) none + q.debt) :
    Inv ((s.releaseActiveZone w i).setPc t q) := by
  have hown : s.owner i = some (.writer w) := (hi.active w i).mp ha
  refine hi.move (a := Function.update s.activeZone w none) (x := s.active) s.unsynced hp hidle
    (hi.busy i _ hown).2 (hi.mine_of_writer hp hpw ha) hw ?_ ?_ (fun j hj ↦ by simp [hheld] at hj)
    (by simp [hheld]) nofun (fun _ _ ↦ hkeep) (hgood.update ⟨rfl, rfl⟩) ?_
  · intro w' hw'
    refine Function.update_of_ne ?_ _ _
    rintro rfl
    exact hw' hpw
  · refine hi.active_change ?_ nofun ?_ (by simp)
    · intro w' h
      exact Holder.writer.inj (Option.some.inj (hown.symm.trans h)).symm
    · intro j h
      exact Option.some.inj (h.symm.trans ha)
  · have hnone : weight { s.zones i with busy := false } none = weight (s.zones i) none := rfl
    rw [hown, weight_writer, hnone]
    omega

/-- The operation is over. -/
theorem ret (hi : Inv s) {k : Job} (hp : s.pc t = .returning k) :
    Inv ({ s with user := Function.update s.user k.writer none }.setPc t .idle) := by
  have htn := hi.lt_nextOp (t := t) (by simp [hp])
  have hw : (s.pc t).writer = some k.writer := by rw [hp]; rfl
  have hg : Good s.zones s.activeZone (.returning k) := hp ▸ hi.good t
  have huser : ∀ w, Function.update s.user k.writer none w = none → w ≠ k.writer →
      s.user w = none := by
    intro w h hne
    rwa [Function.update_of_ne hne] at h
  exact {
    scan := by
      intro u j (hj : j ∈ (Function.update s.pc t .idle u).held)
      by_cases hu : u = t
      · subst hu
        simp [Pc.held] at hj
      · rw [Function.update_of_ne hu] at hj
        exact hi.scan u j hj
    nodup := by
      intro u
      by_cases hu : u = t
      · subst hu
        simp [setPc, Pc.held]
      · simpa [setPc, hu] using hi.nodup u
    active := hi.active
    busy := hi.busy
    user := by
      intro u w
      simp only [setPc]
      by_cases hu : u = t
      · subst hu
        by_cases hwk : w = k.writer
        · simp [hwk, Pc.writer, Pc.job]
        · rw [Function.update_self, Function.update_of_ne hwk, ← hi.user, hw]
          simp [Pc.writer, Pc.job, Ne.symm hwk]
      · rw [Function.update_of_ne hu, hi.user]
        by_cases hwk : w = k.writer
        · have hne : s.user k.writer ≠ some u := by
            rw [(hi.user t _).mp hw]
            simpa using Ne.symm hu
          simp [hwk, hne]
        · rw [Function.update_of_ne hwk]
    migration := by
      intro op j (hj : s.activeZone (.migration op) = some j) huser'
      by_cases hk : Writer.migration op = k.writer
      · cases k with
        | migrate op' wal left length =>
            obtain rfl : op = op' := Writer.migration.inj hk
            rw [hg.alloc _ rfl] at hj
            cases hj
        | append | close => cases hk
      · exact hi.migration op j hj (huser _ huser' hk)
    used := hi.used
    tidy := by
      intro f j (hj : s.activeZone (.file f) = some j) huser'
      by_cases hk : Writer.file f = k.writer
      · cases k with
        | append f' mode wal left =>
            obtain rfl : f = f' := Writer.file.inj hk
            exact hg.tidy f rfl j hj
        | close f' =>
            obtain rfl : f = f' := Writer.file.inj hk
            rw [hg.alloc _ rfl] at hj
            cases hj
        | migrate => cases hk
      · exact hi.tidy f j hj (huser _ huser' hk)
    good := by
      intro u
      by_cases hu : u = t
      · subst hu
        simpa [setPc] using Good.of_none rfl rfl rfl rfl
      · simpa [setPc, hu] using hi.good u
    fresh := by
      intro u hu
      have hne : u ≠ t := Nat.ne_of_gt (Nat.lt_of_lt_of_le htn hu)
      simpa [setPc, hne] using hi.fresh u hu
    balance := by
      have hb := hi.balance
      simp only [setPc]
      rw [sum_debt htn, hp]
      simpa [Pc.debt] using hb }

/-- Extents of a zone begin or cease to count. -/
theorem setUsed (hi : Inv s) {n : Nat} (u : Writer → Nat)
    (hn : isWriter (s.owner i) = false → 0 < n → (s.zones i).isUsed = true) :
    Inv { s.setZone i { s.zones i with usedCapacity := n } with unsynced := u } := by
  have hfill : ∀ j,
      SameFill (s.zones j) (Function.update s.zones i { s.zones i with usedCapacity := n } j) :=
    SameFill.update ⟨rfl, rfl⟩
  exact {
    scan := hi.scan
    nodup := hi.nodup
    active := hi.active
    busy := by
      intro j h hj
      refine ⟨?_, (hi.busy j h hj).2⟩
      by_cases hji : j = i
      · subst hji
        simpa [setZone] using (hi.busy j h hj).1
      · simpa [setZone, hji] using (hi.busy j h hj).1
    user := hi.user
    migration := hi.migration
    used := by
      intro j hj
      by_cases hji : j = i
      · subst hji
        intro h
        have h' : 0 < n := by simpa [setZone, Zone.isUsed] using h
        simpa [setZone, Zone.isEmpty, Zone.isFull] using hi.used j hj (hn hj h')
      · simpa [setZone, hji] using hi.used j hj
    tidy := fun f j hj huser ↦ (hfill j).tidy (hi.tidy f j hj huser)
    good := fun t ↦ (hi.good t).update ⟨rfl, rfl⟩
    fresh := hi.fresh
    balance := by
      refine hi.balance.trans (congrArg₂ (· + ·) (sum_congr rfl fun j _ ↦ ?_) rfl)
      simp [weight, setZone, (hfill j).isPartial] }

/-- An operation begins. -/
theorem start (hi : Inv s) {u : Writer → Option Nat} (hheld : p.held = []) (hd : p.debt = 0)
    (hgood : Good s.zones s.activeZone p) (hnew : ∀ w, p.writer = some w ↔ u w = some s.nextOp)
    (hold : ∀ w t, t ≠ s.nextOp → (u w = some t ↔ s.user w = some t))
    (hnone : ∀ w, u w = none → s.user w = none) :
    Inv { s.setPc s.nextOp p with user := u, nextOp := s.nextOp + 1 } where
  scan := by
    intro t j (hj : j ∈ (Function.update s.pc s.nextOp p t).held)
    by_cases ht : t = s.nextOp
    · subst ht
      simp [hheld] at hj
    · rw [Function.update_of_ne ht] at hj
      exact hi.scan t j hj
  nodup := by
    intro t
    by_cases ht : t = s.nextOp
    · subst ht
      simp [setPc, hheld]
    · simpa [setPc, ht] using hi.nodup t
  active := hi.active
  busy := hi.busy
  user := by
    intro t w
    by_cases ht : t = s.nextOp
    · subst ht
      simpa [setPc] using hnew w
    · simpa [setPc, ht, hold w t ht] using hi.user t w
  migration := fun op j hj h ↦ hi.migration op j hj (hnone _ h)
  used := hi.used
  tidy := fun f j hj h ↦ hi.tidy f j hj (hnone _ h)
  good := by
    intro t
    by_cases ht : t = s.nextOp
    · subst ht
      simpa [setPc] using hgood
    · simpa [setPc, ht] using hi.good t
  fresh := by
    intro t ht
    have hne : t ≠ s.nextOp := Nat.ne_of_gt ht
    simpa [setPc, hne] using hi.fresh t (Nat.le_of_lt ht)
  balance := by
    have hrest : ∑ t ∈ range s.nextOp, (Function.update s.pc s.nextOp p t).debt =
        ∑ t ∈ range s.nextOp, (s.pc t).debt :=
      sum_congr rfl fun t ht ↦ by rw [Function.update_of_ne (Nat.ne_of_lt (mem_range.mp ht))]
    rw [sum_range_succ]
    simp only [setPc, hrest, Function.update_self, hd]
    simpa using hi.balance

end Inv

end Tokens

end ZenFs
