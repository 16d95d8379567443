import ZenFs.Tokens.Invariant

/-!
# Conservation of tokens

A zone that is given up takes its token along if it is partly written, and the token
is given back if it is full.  A zone that is still empty does neither: its token is
lost.  This happens to a file whose last flush fills a zone to the end, since it is
handed another zone at once, which it may be closed with.
-/

namespace ZenFs

namespace Tokens

open Finset

variable {cfg : Config} {s s' : Tokens} {t : Nat} {i : ZoneId}

/-- No zone is given up while it is empty and can be written, and no direct append
ends with its zone filled up. -/
def keeps (s : Tokens) : Label → Bool
  | .go t _ =>
      match s.pc t with
      | .closing k =>
          match s.activeZone k.writer with
          | none => true
          | some i => !(s.zones i).isEmpty || (s.zones i).isFull
      | .loop (.append f .direct _ 0) =>
          match s.activeZone (.file f) with
          | none => true
          | some i => !(s.zones i).isFull || (s.zones i).isEmpty
      | _ => true
  | _ => true

/-! ## A step -/

theorem tidy_of_isPartial {z : Zone} (h : z.isPartial = true) : Tidy z := by
  intro hf
  simp [Zone.isPartial, hf] at h

theorem tidy_of_isEmpty {z : Zone} (h : z.isEmpty = true) : Tidy z := fun _ ↦ h

theorem weight_of_isPartial {z : Zone} (h : z.isPartial = true) : weight z none = 1 := by
  simp [weight, h]

theorem weight_of_not_isPartial {z : Zone} (h : z.isPartial = false) : weight z none = 0 := by
  simp [weight, h, isWriter]

theorem finished_isPartial (z : Zone) (zoneSize : Nat) :
    (z.finished zoneSize).isPartial = false := by
  simp [Zone.isPartial, Zone.isFull, Zone.finished]

theorem erased_isPartial (z : Zone) (report : Option Nat) :
    (z.erased report).isPartial = false := by
  cases report <;> simp [Zone.isPartial, Zone.isEmpty, Zone.erased]

theorem addUsed_setZone (s : Tokens) (i : ZoneId) (z : Zone) (n : Nat) :
    (s.setZone i z).addUsed i n = s.setZone i { z with usedCapacity := z.usedCapacity + n } := by
  simp [addUsed, setZone]

namespace Inv

theorem good_of (hi : Inv s) {p : Pc} (hp : s.pc t = p) :
    Good s.zones s.activeZone p := hp ▸ hi.good t

/-- The first point of an allocation. -/
theorem good_allocate {k : Job} (h : s.activeZone k.writer = none) :
    Good s.zones s.activeZone (allocate k) := by
  unfold allocate
  split <;> exact .of_alloc (fun w hw ↦ Option.some.inj hw ▸ h) rfl rfl rfl

/-- A buffered or sparse append has changed its zone. -/
theorem wroteChunk (hi : Inv s) {f : Nat} {mode : Mode} {wal : Bool} {left left' : Nat} {z : Zone}
    (hp : s.pc t = .loop (.append f mode wal left)) (ha : s.activeZone (.file f) = some i)
    (hmode : mode ≠ .direct) (hz : z.busy = (s.zones i).busy) :
    Inv ((s.setZone i z).setPc t
      (if z.isFull then .closing (.append f mode wal left')
        else .loop (.append f mode wal left'))) := by
  split
  · exact hi.write s.unsynced hp (by simp) rfl ha rfl rfl rfl hz (.of_none rfl rfl rfl rfl)
  · rename_i hfull
    refine hi.write s.unsynced hp (by simp) rfl ha rfl rfl rfl hz
      (.of_tidy rfl rfl rfl fun f' hf j hj ↦ ?_)
    obtain rfl : f = f' := by simpa [Pc.tidy, hmode] using hf
    obtain rfl := Option.some.inj (ha.symm.trans hj)
    rw [Function.update_self]
    exact fun h ↦ absurd h hfull

theorem appendChunk (hi : Inv s) {f : Nat} {mode : Mode} {wal : Bool} {left : Nat} (header : Nat)
    (hp : s.pc t = .loop (.append f mode wal left)) (ha : s.activeZone (.file f) = some i)
    (hmode : mode ≠ .direct) : Inv (s.appendChunk cfg t i f mode wal left header) := by
  have hg := hi.good_of hp
  unfold Tokens.appendChunk
  dsimp only
  split
  · refine hi.stay (x := s.active) hp (by simp) rfl (.refl _)
      (.of_tidy rfl rfl rfl fun f' hf ↦ ?_) rfl
    exact hg.tidy f' (by simpa [Pc.tidy, hmode] using hf)
  · rw [addUsed_setZone]
    simp only [setZone, Function.update_self]
    exact hi.wroteChunk hp ha hmode rfl

theorem round (hi : Inv s) {k : Job} {c : Choice} (hp : s.pc t = .loop k)
    (ha : s.activeZone k.writer = some i) (hok : s.keeps (.go t c) = true) :
    Inv (s.round cfg t i c k) := by
  have hg := hi.good_of hp
  cases k with
  | close f =>
      exact hi.stay (x := s.active) hp (by simp) rfl (.refl _) (.of_none rfl rfl rfl rfl) rfl
  | append f mode wal left =>
      cases left with
      | zero =>
          refine hi.stay (x := s.active) hp (by simp) rfl (.refl _)
            (.of_tidy rfl rfl rfl fun f' hf j hj ↦ ?_) rfl
          obtain rfl : f = f' := by simpa [Pc.tidy] using hf
          obtain rfl := Option.some.inj (ha.symm.trans hj)
          cases mode with
          | buffered | sparse => exact hg.tidy f rfl i hj
          | direct =>
              have ha' : s.activeZone (.file f) = some i := ha
              intro hfull
              simpa [keeps, hp, ha', hfull] using hok
      | succ left =>
          cases mode with
          | buffered => exact hi.appendChunk _ hp ha (by simp)
          | sparse => exact hi.appendChunk _ hp ha (by simp)
          | direct =>
              simp only [Tokens.round]
              split
              · have ha' : s.activeZone (.file f) = some i := ha
                rw [pushExtent, ha']
                exact hi.write _ hp (by simp) rfl ha rfl rfl rfl rfl (.of_none rfl rfl rfl rfl)
              · exact hi.write _ hp (by simp) rfl ha rfl rfl rfl rfl (.of_none rfl rfl rfl rfl)
  | migrate op wal left length =>
      cases left with
      | zero =>
          simp only [Tokens.round]
          split
          · exact hi.write s.unsynced hp (by simp) rfl ha rfl rfl rfl rfl (.of_none rfl rfl rfl rfl)
          · exact hi.stay (x := s.active) hp (by simp) rfl (.refl _) (.of_none rfl rfl rfl rfl) rfl
      | succ left =>
          simp only [Tokens.round]
          split
          · exact hi.stay (x := s.active) hp (by simp) rfl (.refl _) (.of_none rfl rfl rfl rfl) rfl
          · exact hi.write s.unsynced hp (by simp) rfl ha rfl rfl rfl rfl (.of_none rfl rfl rfl rfl)

/-- An operation returns whose writer has no zone. -/
theorem good_returning {k : Job} {zones : ZoneId → Zone} {activeZone : Writer → Option ZoneId}
    (h : activeZone k.writer = none) : Good zones activeZone (.returning k) := by
  refine ⟨fun w hw ↦ ?_, nofun, nofun, fun f hf i hi ↦ ?_⟩
  · obtain rfl : k.writer = w := Option.some.inj (Pc.writer_of_allocating hw)
    exact h
  · have hk : k.writer = .file f := Option.some.inj (Pc.writer_of_tidy hf)
    rw [← hk, h] at hi
    cases hi

/-- The point behind a closed zone. -/
theorem good_afterClose {k : Job} {zones : ZoneId → Zone} {activeZone : Writer → Option ZoneId}
    (h : activeZone k.writer = none) : Good zones activeZone (afterClose k) := by
  cases k with
  | append f mode wal left =>
      cases wal <;> exact .of_alloc (fun w hw ↦ Option.some.inj hw ▸ h) rfl rfl rfl
  | migrate | close => exact good_returning h

theorem held_afterClose (k : Job) : (afterClose k).held = [] := by
  cases k with
  | append f mode wal left => cases wal <;> rfl
  | migrate | close => rfl

theorem debt_afterClose (k : Job) : (afterClose k).debt = 0 := by
  cases k with
  | append f mode wal left => cases wal <;> rfl
  | migrate | close => rfl

theorem writer_afterClose (k : Job) : (afterClose k).writer = some k.writer := by
  cases k with
  | append f mode wal left => cases wal <;> rfl
  | migrate | close => rfl

/-! ## The points of an operation -/

/-- The zone of a writer is closed. -/
theorem go_closing (hi : Inv s) {k : Job} {c : Choice} (hp : s.pc t = .closing k)
    (hok : s.keeps (.go t c) = true) (hs : s.go cfg t c = some s') : Inv s' := by
  simp only [Tokens.go, hp] at hs
  split at hs
  · rename_i ha
    obtain rfl := Option.some.inj hs
    exact hi.stay (x := s.active) hp (by simp) (writer_afterClose k) (by rw [held_afterClose]; rfl)
      (good_afterClose ha) (by rw [debt_afterClose]; rfl)
  · rename_i i ha
    obtain rfl := Option.some.inj hs
    have hkeep : (s.zones i).isEmpty = false ∨ (s.zones i).isFull = true := by
      simpa [keeps, hp, ha] using hok
    have hnone : Function.update s.activeZone k.writer none k.writer = none :=
      Function.update_self ..
    split
    · rename_i hfull
      refine hi.releaseActiveZone hp (by simp) rfl ha rfl rfl hkeep
        (.of_alloc (fun w hw ↦ Option.some.inj hw ▸ hnone) rfl rfl rfl) ?_
      simp [weight, Zone.isPartial, hfull, isWriter, Pc.debt]
    · rename_i hfull
      refine hi.releaseActiveZone hp (by simp) rfl ha (writer_afterClose k)
        (held_afterClose k) hkeep (good_afterClose hnone) ?_
      rw [debt_afterClose]
      simp [weight, Zone.isPartial, hfull, hkeep.resolve_right hfull, Pc.debt]

theorem go_loop (hi : Inv s) {k : Job} {c : Choice} (hp : s.pc t = .loop k)
    (hok : s.keeps (.go t c) = true) (hs : s.go cfg t c = some s') : Inv s' := by
  simp only [Tokens.go, hp] at hs
  split at hs
  · rename_i ha
    obtain rfl := Option.some.inj hs
    have hw : (allocate k).writer = some k.writer := by unfold allocate; split <;> rfl
    have hh : (allocate k).held = [] := by unfold allocate; split <;> rfl
    have hd : (allocate k).debt = 0 := by unfold allocate; split <;> rfl
    exact hi.stay (x := s.active) hp (by simp) hw (by rw [hh]; rfl) (good_allocate ha)
      (by rw [hd]; rfl)
  · rename_i i ha
    obtain rfl := Option.some.inj hs
    exact hi.round hp ha hok

theorem go_closed (hi : Inv s) {k : Job} {c : Choice} (hp : s.pc t = .closed k)
    (hs : s.go cfg t c = some s') : Inv s' := by
  simp only [Tokens.go, hp] at hs
  obtain rfl := Option.some.inj hs
  have hg := hi.good_of hp
  exact hi.stay hp (by simp) (writer_afterClose k) (by rw [held_afterClose]; rfl)
    (good_afterClose (hg.alloc _ rfl)) (by rw [debt_afterClose]; simp [Pc.debt])

theorem go_returning (hi : Inv s) {k : Job} {c : Choice} (hp : s.pc t = .returning k)
    (hs : s.go cfg t c = some s') : Inv s' := by
  simp only [Tokens.go, hp] at hs
  obtain rfl := Option.some.inj hs
  exact hi.ret hp

theorem go_threshold (hi : Inv s) {k : Job} {c : Choice} (hp : s.pc t = .threshold k i)
    (hs : s.go cfg t c = some s') : Inv s' := by
  simp only [Tokens.go, hp] at hs
  have hg := hi.good_of hp
  split at hs
  · obtain rfl := Option.some.inj hs
    exact hi.stay (x := s.active) hp (by simp) rfl (.refl _) (.of_alloc hg.alloc rfl rfl rfl) rfl
  · rename_i hlt
    split at hs
    · obtain rfl := Option.some.inj hs
      exact hi.stay (x := s.active) hp (by simp) rfl (.refl _) (.of_alloc hg.alloc rfl rfl rfl) rfl
    · rename_i hfree
      obtain rfl := Option.some.inj hs
      exact hi.acquire hp (by simp) (Nat.lt_of_not_le fun h ↦ hlt (.inr h)) (by simpa using hfree)
        rfl rfl rfl (.of_alloc hg.alloc rfl rfl rfl)

theorem go_thresholdHeld (hi : Inv s) {k : Job} {c : Choice} (hp : s.pc t = .thresholdHeld k i)
    (hs : s.go cfg t c = some s') : Inv s' := by
  simp only [Tokens.go, hp] at hs
  have hg := hi.good_of hp
  split at hs
  · rename_i hz
    obtain rfl := Option.some.inj hs
    refine hi.alter hp (by simp) (by simp [Pc.held]) rfl rfl rfl (fun _ ↦ .inr rfl)
      (.of_alloc hg.alloc rfl rfl rfl) ?_
    rw [weight_of_isPartial hz.1, weight_of_not_isPartial (finished_isPartial ..)]
    rfl
  · obtain rfl := Option.some.inj hs
    exact hi.release hp (by simp) rfl rfl rfl (.of_alloc hg.alloc rfl rfl rfl)

theorem go_thresholdDone (hi : Inv s) {k : Job} {c : Choice} (hp : s.pc t = .thresholdDone k i)
    (hs : s.go cfg t c = some s') : Inv s' := by
  simp only [Tokens.go, hp] at hs
  have hg := hi.good_of hp
  obtain rfl := Option.some.inj hs
  exact hi.release hp (by simp) rfl rfl rfl (.of_alloc hg.alloc rfl rfl rfl)

theorem go_thresholdPut (hi : Inv s) {k : Job} {c : Choice} (hp : s.pc t = .thresholdPut k i)
    (hs : s.go cfg t c = some s') : Inv s' := by
  simp only [Tokens.go, hp] at hs
  have hg := hi.good_of hp
  obtain rfl := Option.some.inj hs
  exact hi.stay hp (by simp) rfl (.refl _) (.of_alloc hg.alloc rfl rfl rfl) (by simp [Pc.debt])

theorem go_matching (hi : Inv s) {k : Job} {best : Option ZoneId} {c : Choice}
    (hp : s.pc t = .matching k best) (hs : s.go cfg t c = some s') : Inv s' := by
  simp only [Tokens.go, hp] at hs
  have hg := hi.good_of hp
  split at hs
  · obtain rfl := Option.some.inj hs
    exact hi.stay (x := s.active) hp (by simp) rfl (.refl _)
      (.of_partly hg.alloc hg.partly rfl rfl) rfl
  · split at hs
    · rename_i hz
      obtain rfl := Option.some.inj hs
      exact hi.acquire hp (by simp) hz.1 hz.2 rfl rfl rfl (.of_partly hg.alloc hg.partly rfl rfl)
    · obtain rfl := Option.some.inj hs
      exact hi.stay (x := s.active) hp (by simp) rfl (.refl _) hg rfl

theorem go_matchHeld (hi : Inv s) {k : Job} {best : Option ZoneId} {c : Choice}
    (hp : s.pc t = .matchHeld k best i) (hs : s.go cfg t c = some s') : Inv s' := by
  simp only [Tokens.go, hp] at hs
  have hg := hi.good_of hp
  split at hs
  · rename_i hz
    have hown : s.owner i = some (.scan t) := hi.scan t i (by simp [hp, Pc.held])
    have hempty := (hi.used i (by rw [hown]; rfl) hz.1).resolve_right (by simp [hz.2.1])
    have hpart : ∀ j, some i = some j → (s.zones j).isPartial = true := by
      rintro j ⟨⟩
      simp [Zone.isPartial, hempty, hz.2.1]
    split at hs <;> obtain rfl := Option.some.inj hs
    · exact hi.stay (x := s.active) hp (by simp) rfl (.refl _)
        (.of_partly hg.alloc hpart rfl rfl) rfl
    · exact hi.stay (x := s.active) hp (by simp) rfl (.swap ..)
        (.of_partly hg.alloc hpart rfl rfl) rfl
  · obtain rfl := Option.some.inj hs
    exact hi.release hp (by simp) rfl rfl rfl (.of_partly hg.alloc hg.partly rfl rfl)

theorem go_matchSwap (hi : Inv s) {k : Job} {old : ZoneId} {c : Choice}
    (hp : s.pc t = .matchSwap k old i) (hs : s.go cfg t c = some s') : Inv s' := by
  simp only [Tokens.go, hp] at hs
  have hg := hi.good_of hp
  obtain rfl := Option.some.inj hs
  exact hi.release hp (by simp) rfl rfl rfl (.of_partly hg.alloc hg.partly rfl rfl)

theorem go_token (hi : Inv s) {k : Job} {best : Option ZoneId} {diff : Nat} {c : Choice}
    (hp : s.pc t = .token k best diff) (hs : s.go cfg t c = some s') : Inv s' := by
  simp only [Tokens.go, hp] at hs
  have hg := hi.good_of hp
  split at hs
  · split at hs <;> obtain rfl := Option.some.inj hs
    · exact hi.stay (x := s.active) hp (by simp) rfl (.refl _) (good_returning (hg.alloc _ rfl)) rfl
    · exact hi.stay (x := s.active) hp (by simp) rfl (.refl _)
        (.of_partly hg.alloc hg.partly rfl rfl) rfl
  · split at hs <;> obtain rfl := Option.some.inj hs
    · exact hi.stay hp (by simp) rfl (.refl _) (.of_partly hg.alloc hg.partly rfl rfl)
        (by simp [Pc.debt])
    · exact hi.stay (x := s.active) hp (by simp) rfl (.refl _)
        (.of_partly hg.alloc hg.partly rfl rfl) rfl

theorem go_decide (hi : Inv s) {k : Job} {best : Option ZoneId} {diff : Nat} {got : Bool}
    {c : Choice} (hp : s.pc t = .decide k best diff got)
    (hs : s.go cfg t c = some s') : Inv s' := by
  simp only [Tokens.go, hp] at hs
  have hg := hi.good_of hp
  split at hs
  · obtain rfl := Option.some.inj hs
    exact hi.stay (x := s.active) hp (by simp) rfl (.refl _) (.of_alloc hg.alloc rfl rfl rfl) rfl
  · split at hs
    · rename_i hd
      obtain rfl := Option.some.inj hs
      exact hi.stay (x := s.active) hp (by simp) rfl (.refl _)
        (.of_partly hg.alloc hg.partly rfl rfl) (by simp [Pc.debt, hd.1])
    · split at hs <;> obtain rfl := Option.some.inj hs
      · exact hi.release hp (by simp) rfl rfl rfl (.of_alloc hg.alloc rfl rfl rfl)
      · cases got with
        | true =>
            exact hi.stay (x := s.active) hp (by simp) rfl (.refl _)
              (.of_partly hg.alloc hg.partly rfl rfl) rfl
        | false =>
            exact hi.stay (x := s.active) hp (by simp) rfl (.refl _)
              (.of_partly hg.alloc hg.partly rfl rfl) rfl

theorem go_matchPut (hi : Inv s) {k : Job} {c : Choice} (hp : s.pc t = .matchPut k i)
    (hs : s.go cfg t c = some s') : Inv s' := by
  simp only [Tokens.go, hp] at hs
  have hg := hi.good_of hp
  obtain rfl := Option.some.inj hs
  exact hi.stay hp (by simp) rfl (.refl _) (.of_partly hg.alloc hg.partly rfl rfl)
    (by simp [Pc.debt])

theorem go_matched (hi : Inv s) {k : Job} {c : Choice} (hp : s.pc t = .matched k i)
    (hs : s.go cfg t c = some s') : Inv s' := by
  simp only [Tokens.go, hp] at hs
  have hg := hi.good_of hp
  obtain rfl := Option.some.inj hs
  have hpart := hg.partly i rfl
  exact hi.setActiveZone hp (by simp) rfl (hg.alloc _ rfl) rfl (tidy_of_isPartial hpart)
    (by rw [weight_of_isPartial hpart]; rfl)

theorem go_opening (hi : Inv s) {k : Job} {got : Bool} {c : Choice} (hp : s.pc t = .opening k got)
    (hs : s.go cfg t c = some s') : Inv s' := by
  simp only [Tokens.go, hp] at hs
  have hg := hi.good_of hp
  split at hs
  · rename_i hgot
    obtain rfl := Option.some.inj hs
    exact hi.stay (x := s.active) hp (by simp) rfl (.refl _)
      (.of_alloc hg.alloc rfl rfl rfl) (by simp [Pc.debt, hgot])
  · rename_i hgot
    split at hs <;> obtain rfl := Option.some.inj hs
    · exact hi.stay hp (by simp) rfl (.refl _) (.of_alloc hg.alloc rfl rfl rfl)
        (by simp [Pc.debt, hgot])
    · exact hi.stay (x := s.active) hp (by simp) rfl (.refl _) (.of_alloc hg.alloc rfl rfl rfl)
        (by simp [Pc.debt, hgot])

theorem go_cheapest (hi : Inv s) {k : Job} {victim : Option ZoneId} {c : Choice}
    (hp : s.pc t = .cheapest k i victim) (hs : s.go cfg t c = some s') : Inv s' := by
  simp only [Tokens.go, hp] at hs
  have hg := hi.good_of hp
  split at hs
  · split at hs <;> obtain rfl := Option.some.inj hs
    · exact hi.stay (x := s.active) hp (by simp) rfl (.refl _) (.of_alloc hg.alloc rfl rfl rfl) rfl
    · rename_i v
      refine hi.alter hp (by simp) (by simp [Pc.held]) rfl rfl rfl (fun _ ↦ .inr rfl)
        (.of_alloc hg.alloc rfl rfl rfl) ?_
      rw [weight_of_isPartial (hg.partly v rfl), weight_of_not_isPartial (finished_isPartial ..)]
      rfl
  · rename_i hlt
    split at hs <;> obtain rfl := Option.some.inj hs
    · exact hi.stay (x := s.active) hp (by simp) rfl (.refl _)
        (.of_partly hg.alloc hg.partly rfl rfl) rfl
    · rename_i hfree
      exact hi.acquire hp (by simp) (Nat.lt_of_not_le hlt) (by simpa using hfree) rfl rfl rfl
        (.of_partly hg.alloc hg.partly rfl rfl)

theorem go_cheapestHeld (hi : Inv s) {k : Job} {victim : Option ZoneId} {c : Choice}
    (hp : s.pc t = .cheapestHeld k i victim) (hs : s.go cfg t c = some s') : Inv s' := by
  simp only [Tokens.go, hp] at hs
  have hg := hi.good_of hp
  split at hs
  · obtain rfl := Option.some.inj hs
    exact hi.release hp (by simp) rfl rfl rfl (.of_partly hg.alloc hg.partly rfl rfl)
  · rename_i hz
    have hpart : ∀ j, some i = some j → (s.zones j).isPartial = true := by
      rintro j ⟨⟩
      simpa using hz
    split at hs
    · obtain rfl := Option.some.inj hs
      exact hi.stay (x := s.active) hp (by simp) rfl (.refl _)
        (.of_partly hg.alloc hpart rfl rfl) rfl
    · split at hs <;> obtain rfl := Option.some.inj hs
      · exact hi.stay (x := s.active) hp (by simp) rfl (.swap ..)
          (.of_partly hg.alloc hpart rfl rfl) rfl
      · exact hi.release hp (by simp) rfl rfl rfl (.of_partly hg.alloc hg.partly rfl rfl)

theorem go_cheapestSwap (hi : Inv s) {k : Job} {old : ZoneId} {c : Choice}
    (hp : s.pc t = .cheapestSwap k old i) (hs : s.go cfg t c = some s') : Inv s' := by
  simp only [Tokens.go, hp] at hs
  have hg := hi.good_of hp
  obtain rfl := Option.some.inj hs
  exact hi.release hp (by simp) rfl rfl rfl (.of_partly hg.alloc hg.partly rfl rfl)

theorem go_cheapestDone (hi : Inv s) {k : Job} {v : ZoneId} {c : Choice}
    (hp : s.pc t = .cheapestDone k v) (hs : s.go cfg t c = some s') : Inv s' := by
  simp only [Tokens.go, hp] at hs
  have hg := hi.good_of hp
  obtain rfl := Option.some.inj hs
  exact hi.release hp (by simp) rfl rfl rfl (.of_alloc hg.alloc rfl rfl rfl)

theorem go_cheapestPut (hi : Inv s) {k : Job} {c : Choice} (hp : s.pc t = .cheapestPut k)
    (hs : s.go cfg t c = some s') : Inv s' := by
  simp only [Tokens.go, hp] at hs
  have hg := hi.good_of hp
  obtain rfl := Option.some.inj hs
  exact hi.stay hp (by simp) rfl (.refl _) (.of_alloc hg.alloc rfl rfl rfl) (by simp [Pc.debt])

theorem go_emptying (hi : Inv s) {k : Job} {best : Option ZoneId} {c : Choice}
    (hp : s.pc t = .emptying k best) (hs : s.go cfg t c = some s') : Inv s' := by
  simp only [Tokens.go, hp] at hs
  have hg := hi.good_of hp
  split at hs
  · split at hs <;> obtain rfl := Option.some.inj hs
    · exact hi.stay (x := s.active) hp (by simp) rfl (.refl _) (.of_alloc hg.alloc rfl rfl rfl) rfl
    · rename_i i
      have hempty := hg.empty i rfl
      have hpart : (s.zones i).isPartial = false := by simp [Zone.isPartial, hempty]
      exact hi.setActiveZone hp (by simp) rfl (hg.alloc _ rfl) rfl (tidy_of_isEmpty hempty)
        (by rw [weight_of_not_isPartial hpart]; rfl)
  · split at hs
    · rename_i hz
      obtain rfl := Option.some.inj hs
      exact hi.acquire hp (by simp) hz.1 hz.2 rfl rfl rfl (.of_empty hg.alloc hg.empty rfl rfl)
    · obtain rfl := Option.some.inj hs
      exact hi.stay (x := s.active) hp (by simp) rfl (.refl _) hg rfl

theorem go_emptyHeld (hi : Inv s) {k : Job} {best : Option ZoneId} {c : Choice}
    (hp : s.pc t = .emptyHeld k best i) (hs : s.go cfg t c = some s') : Inv s' := by
  simp only [Tokens.go, hp] at hs
  have hg := hi.good_of hp
  split at hs
  · rename_i hz
    have hempty : ∀ j, some i = some j → (s.zones j).isEmpty = true := by
      rintro j ⟨⟩
      exact hz.1
    split at hs <;> obtain rfl := Option.some.inj hs
    · exact hi.stay (x := s.active) hp (by simp) rfl (.refl _)
        (.of_empty hg.alloc hempty rfl rfl) rfl
    · exact hi.stay (x := s.active) hp (by simp) rfl (.swap ..)
        (.of_empty hg.alloc hempty rfl rfl) rfl
  · obtain rfl := Option.some.inj hs
    exact hi.release hp (by simp) rfl rfl rfl (.of_empty hg.alloc hg.empty rfl rfl)

theorem go_emptySwap (hi : Inv s) {k : Job} {old : ZoneId} {c : Choice}
    (hp : s.pc t = .emptySwap k old i) (hs : s.go cfg t c = some s') : Inv s' := by
  simp only [Tokens.go, hp] at hs
  have hg := hi.good_of hp
  obtain rfl := Option.some.inj hs
  exact hi.release hp (by simp) rfl rfl rfl (.of_empty hg.alloc hg.empty rfl rfl)

theorem go_emptyPut (hi : Inv s) {k : Job} {c : Choice} (hp : s.pc t = .emptyPut k)
    (hs : s.go cfg t c = some s') : Inv s' := by
  simp only [Tokens.go, hp] at hs
  have hg := hi.good_of hp
  obtain rfl := Option.some.inj hs
  exact hi.stay hp (by simp) rfl (.refl _) (good_returning (hg.alloc _ rfl)) (by simp [Pc.debt])

theorem go_resetting (hi : Inv s) {c : Choice} (hp : s.pc t = .resetting i)
    (hs : s.go cfg t c = some s') : Inv s' := by
  simp only [Tokens.go, hp] at hs
  split at hs
  · obtain rfl := Option.some.inj hs
    exact hi.stay (x := s.active) hp (by simp) rfl (.refl _) (.of_none rfl rfl rfl rfl) rfl
  · rename_i hlt
    split at hs <;> obtain rfl := Option.some.inj hs
    · exact hi.stay (x := s.active) hp (by simp) rfl (.refl _) (.of_none rfl rfl rfl rfl) rfl
    · rename_i hfree
      exact hi.acquire hp (by simp) (Nat.lt_of_not_le hlt) (by simpa using hfree) rfl rfl rfl
        (.of_none rfl rfl rfl rfl)

theorem go_resetHeld (hi : Inv s) {c : Choice} (hp : s.pc t = .resetHeld i)
    (hs : s.go cfg t c = some s') : Inv s' := by
  simp only [Tokens.go, hp] at hs
  split at hs <;> obtain rfl := Option.some.inj hs
  · rename_i hz
    refine hi.alter hp (by simp) (by simp [Pc.held]) rfl rfl ?_ ?_ (.of_none rfl rfl rfl rfl) ?_
    · cases c.report <;> rfl
    · intro h
      have : (s.zones i).isUsed = true := by
        cases hc : c.report <;> simpa [Zone.erased, Zone.isUsed, hc] using h
      simp [hz.2] at this
    · rw [weight_of_not_isPartial (erased_isPartial ..)]
      cases hf : (s.zones i).isFull <;> simp [weight, Zone.isPartial, hz.1, hf, isWriter, Pc.debt]
  · exact hi.release hp (by simp) rfl rfl rfl (.of_none rfl rfl rfl rfl)

theorem go_resetDone (hi : Inv s) {full : Bool} {c : Choice} (hp : s.pc t = .resetDone i full)
    (hs : s.go cfg t c = some s') : Inv s' := by
  simp only [Tokens.go, hp] at hs
  obtain rfl := Option.some.inj hs
  cases full with
  | true => exact hi.release hp (by simp) rfl rfl rfl (.of_none rfl rfl rfl rfl)
  | false => exact hi.release hp (by simp) rfl rfl rfl (.of_none rfl rfl rfl rfl)

theorem go_resetPut (hi : Inv s) {c : Choice} (hp : s.pc t = .resetPut i)
    (hs : s.go cfg t c = some s') : Inv s' := by
  simp only [Tokens.go, hp] at hs
  obtain rfl := Option.some.inj hs
  exact hi.stay hp (by simp) rfl (.refl _) (.of_none rfl rfl rfl rfl) (by simp [Pc.debt])

/-- An operation gets to its next point. -/
theorem go (hi : Inv s) {c : Choice} (hok : s.keeps (.go t c) = true)
    (hs : s.go cfg t c = some s') : Inv s' := by
  cases hp : s.pc t with
  | idle => simp [Tokens.go, hp] at hs
  | closing k => exact hi.go_closing hp hok hs
  | loop k => exact hi.go_loop hp hok hs
  | closed k => exact hi.go_closed hp hs
  | returning k => exact hi.go_returning hp hs
  | threshold k i => exact hi.go_threshold hp hs
  | thresholdHeld k i => exact hi.go_thresholdHeld hp hs
  | thresholdDone k i => exact hi.go_thresholdDone hp hs
  | thresholdPut k i => exact hi.go_thresholdPut hp hs
  | matching k best => exact hi.go_matching hp hs
  | matchHeld k best i => exact hi.go_matchHeld hp hs
  | matchSwap k old i => exact hi.go_matchSwap hp hs
  | token k best diff => exact hi.go_token hp hs
  | decide k best diff got => exact hi.go_decide hp hs
  | matchPut k i => exact hi.go_matchPut hp hs
  | matched k i => exact hi.go_matched hp hs
  | opening k got => exact hi.go_opening hp hs
  | cheapest k i victim => exact hi.go_cheapest hp hs
  | cheapestHeld k i victim => exact hi.go_cheapestHeld hp hs
  | cheapestSwap k old i => exact hi.go_cheapestSwap hp hs
  | cheapestDone k v => exact hi.go_cheapestDone hp hs
  | cheapestPut k => exact hi.go_cheapestPut hp hs
  | emptying k best => exact hi.go_emptying hp hs
  | emptyHeld k best i => exact hi.go_emptyHeld hp hs
  | emptySwap k old i => exact hi.go_emptySwap hp hs
  | emptyPut k => exact hi.go_emptyPut hp hs
  | resetting i => exact hi.go_resetting hp hs
  | resetHeld i => exact hi.go_resetHeld hp hs
  | resetDone i full => exact hi.go_resetDone hp hs
  | resetPut i => exact hi.go_resetPut hp hs

theorem step (hi : Inv s) {l : Label} (hok : s.keeps l = true) (hs : s.step cfg l = some s') :
    Inv s' := by
  cases l with
  | go t c => exact hi.go hok hs
  | start call =>
      simp only [Tokens.step, Tokens.start] at hs
      have hidle : ∀ w, s.user w ≠ some s.nextOp := by
        intro w hw
        have := (hi.user s.nextOp w).mpr hw
        rw [hi.fresh _ (Nat.le_refl _)] at this
        cases this
      split at hs
      · obtain rfl := Option.some.inj hs
        exact hi.start rfl rfl (.of_none rfl rfl rfl rfl) (fun w ↦ iff_of_false nofun (hidle w))
          (fun _ _ _ ↦ Iff.rfl) fun _ h ↦ h
      · rename_i k hk
        split at hs
        · rename_i hfree
          obtain rfl := Option.some.inj hs
          have hentry : k.entry.held = [] ∧ k.entry.debt = 0 ∧ k.entry.writer = some k.writer := by
            cases k <;> exact ⟨rfl, rfl, rfl⟩
          refine hi.start hentry.1 hentry.2.1 ?_ (fun w ↦ ?_) (fun w u hu ↦ ?_) fun w h ↦ ?_
          · cases k with
            | append f mode wal left =>
                refine (.of_tidy rfl rfl rfl fun f' hf j hj ↦ ?_)
                obtain rfl : f = f' := Writer.file.inj (Option.some.inj (Pc.writer_of_tidy hf))
                exact hi.tidy f j hj hfree
            | migrate | close => exact .of_none rfl rfl rfl rfl
          · rw [hentry.2.2]
            by_cases hw : w = k.writer
            · simp [hw]
            · simp [hw, Ne.symm hw, hidle w]
          · by_cases hw : w = k.writer
            · simp [hw, hfree, Ne.symm hu]
            · simp [hw]
          · by_cases hw : w = k.writer
            · simp [hw] at h
            · rwa [Function.update_of_ne hw] at h
        · cases hs
  | sync f =>
      simp only [Tokens.step, pushExtent] at hs
      split at hs
      · split at hs <;> obtain rfl := Option.some.inj hs
        · exact hi
        · rename_i i ha
          refine hi.setUsed _ fun hw ↦ ?_
          simp [(hi.active _ i).mp ha, isWriter] at hw
      · cases hs
  | clear i n =>
      simp only [Tokens.step] at hs
      split at hs
      · obtain rfl := Option.some.inj hs
        refine hi.setUsed s.unsynced fun _ hpos ↦ ?_
        simp only [Zone.isUsed, decide_eq_true_eq]
        omega
      · cases hs

end Inv

/-! ## Runs -/

/-- A zone as it is reported counts if the device says that it is active. -/
theorem ZoneReport.isPartial_zone (r : ZoneReport) : r.zone.isPartial = r.cond.isActive := by
  have ha := r.wp_of_isActive
  have he := r.wp_of_empty
  cases hc : r.cond <;> simp [hc, ZoneReport.zone, Zone.isPartial, Zone.isEmpty, Zone.isFull,
    ZoneCond.isWritable, ZoneCond.isActive] at ha he ⊢ <;> omega

theorem zones_opened (reports : List ZoneReport) :
    (List.range reports.length).map (opened reports).zones = reports.map ZoneReport.zone := by
  refine List.ext_getElem (by simp) fun i hi hi' ↦ ?_
  have hlt : i < reports.length := by simpa using hi'
  simp [opened, hlt]

/-- The counter that `Open` starts with. -/
theorem active_opened (reports : List ZoneReport) :
    (opened reports).active = ∑ i ∈ range reports.length,
    weight ((opened reports).zones i) none := by
  have hpart : ∀ i, weight ((opened reports).zones i) none =
      if ((opened reports).zones i).isPartial then 1 else 0 := fun i ↦ by simp [weight, isWriter]
  have hcount : (List.range reports.length).countP (Zone.isPartial ∘ (opened reports).zones) =
      reports.countP fun r ↦ r.cond.isActive := by
    rw [← List.countP_map, zones_opened, List.countP_map]
    congr 1
    funext r
    exact r.isPartial_zone
  rw [sum_congr rfl fun i _ ↦ hpart i, Pool.sum_range_boole]
  exact congrArg Nat.cast hcount.symm

theorem inv_opened (reports : List ZoneReport) : Inv (opened reports) where
  scan := nofun
  nodup _ := List.nodup_nil
  active := by simp [opened]
  busy := nofun
  user := by simp [opened, Pc.writer, Pc.job]
  migration := nofun
  used := by
    intro i _ hused
    cases hr : reports[i]? with
    | none =>
        have hz : (opened reports).zones i = default := by simp [opened, hr]
        rw [hz] at hused
        cases hused
    | some r =>
        have ha := r.wp_of_isActive
        have he := r.used_of_empty
        have hz : (opened reports).zones i = r.zone := by simp [opened, hr]
        rw [hz] at hused ⊢
        cases hc : r.cond <;> simp [hc, ZoneReport.zone, Zone.isUsed, Zone.isEmpty, Zone.isFull,
          ZoneCond.isWritable, ZoneCond.isActive] at ha he hused ⊢ <;> omega
  tidy := nofun
  good _ := .of_none rfl rfl rfl rfl
  fresh _ _ := rfl
  balance := by
    rw [active_opened]
    simp [opened]

namespace Inv

/-- What belongs to a zone while no operation is in progress. -/
theorem weight_eq (hi : Inv s) (hq : ∀ t, s.pc t = .idle) (i : ZoneId) :
    weight (s.zones i) (s.owner i) =
      (if (s.zones i).isPartial then 1 else 0) + if (s.zones i).isEmpty && s.heldByFile i then
      1 else 0 := by
  have hfree : ∀ w, s.user w = none := by
    intro w
    by_contra h
    obtain ⟨t, ht⟩ := Option.ne_none_iff_exists'.mp h
    have := (hi.user t w).mpr ht
    rw [hq t] at this
    cases this
  cases hpart : (s.zones i).isPartial with
  | true =>
      have hempty : (s.zones i).isEmpty = false := by
        simp only [Zone.isPartial, Bool.and_eq_true, Bool.not_eq_true'] at hpart
        exact hpart.1
      simp [weight, hpart, hempty]
  | false =>
      cases ho : s.owner i with
      | none => simp [weight, hpart, ho, isWriter, heldByFile]
      | some h =>
          cases h with
          | scan t => simp [weight, hpart, ho, isWriter, heldByFile]
          | writer w =>
              have ha := (hi.active w i).mpr ho
              cases w with
              | migration op => exact absurd (hfree _) (hi.migration op i ha)
              | file f =>
                  have htidy := hi.tidy f i ha (hfree _)
                  have hempty : (s.zones i).isEmpty = true := by
                    rw [Zone.isPartial, Bool.and_eq_false_iff, Bool.not_eq_false',
                      Bool.not_eq_false'] at hpart
                    exact hpart.elim id htidy
                  simp [weight, hpart, ho, isWriter, heldByFile, hempty]

/-- While no operation is in progress, every token belongs to a zone. -/
theorem active_eq (hi : Inv s) (hq : s.Quiet) : s.active = s.partlyWritten + s.emptyHeld := by
  have hidle : ∀ t, s.pc t = .idle := fun t ↦ (Nat.lt_or_ge t s.nextOp).elim (hq t) (hi.fresh t)
  have hdebt : ∑ t ∈ range s.nextOp, (s.pc t).debt = 0 :=
    sum_eq_zero fun t _ ↦ by rw [hidle t]; rfl
  rw [hi.balance, hdebt, sum_congr rfl fun i _ ↦ hi.weight_eq hidle i, sum_add_distrib,
    Pool.sum_range_boole, Pool.sum_range_boole, Int.add_zero]
  rfl

end Inv

/-- In every run of allocations, appends, closes, finishes, resets and migrations in
which no zone is given up while it is empty and no direct append fills its zone to the
end, `active_io_zones_` counts the zones that are partly written and the empty zones
that are held by a file whenever no operation is in progress. -/
theorem tokens_conserved (reports : List ZoneReport)
    (hr : Reach (step cfg) (fun s l ↦ s.keeps l = true) (opened reports) s) (hq : s.Quiet) :
    s.active = s.partlyWritten + s.emptyHeld := by
  have hi : Inv s := hr.invariant (inv_opened reports) fun hi hok hs ↦ hi.step hok hs
  exact hi.active_eq hq

/-- A device that may have four active zones. -/
def smallConfig : Config :=
  { zoneSize := 16384, blockSize := 4096, maxActive := 4, finishThreshold := 0 }

/-- The steps of an operation that opens the empty zone `i`. -/
def opens (t : Nat) (i : ZoneId) : List Label :=
  [.go t { diff := 100 }, .go t {}, .go t {}, .go t {}, .go t { scan := some i },
    .go t { take := true }, .go t {}]

/-- A flush that fills a zone to the end, and the close of the file. -/
def exactFlush : List Label :=
  [.start (.append 0 .buffered true 16384), .go 0 {}] ++ opens 0 0 ++
    [.go 0 {}, .go 0 {}, .go 0 {}] ++ opens 0 1 ++
    [.go 0 {}, .go 0 {}, .start (.close 0), .go 1 {}, .go 1 {}]

/-- A flush that leaves a block of the zone free, and the close of the file. -/
def shortFlush : List Label :=
  [.start (.append 0 .buffered true 12288), .go 0 {}] ++ opens 0 0 ++
    [.go 0 {}, .go 0 {}, .go 0 {}, .start (.close 0), .go 1 {}, .go 1 {}]

/-- Behind the exact flush a token is counted, though no zone is partly written or held. -/
theorem token_lost :
    ∃ s, Reach (step smallConfig) (fun _ _ ↦ True) (opened [emptyZone 0, emptyZone 16384]) s ∧
    s.Quiet ∧
      s.active = 1 ∧ s.partlyWritten = 0 ∧ s.emptyHeld = 0 := by
  have hrun : ∃ s ∈ runAll (step smallConfig) (opened [emptyZone 0, emptyZone 16384]) exactFlush,
      s.Quiet ∧ s.active = 1 ∧ s.partlyWritten = 0 ∧ s.emptyHeld = 0 := by
    decide +kernel
  obtain ⟨s, hs, h⟩ := hrun
  exact ⟨s, Reach.of_any hs, h⟩

/-- Behind the short flush the token belongs to the zone. -/
theorem tokens_conserved_shortFlush :
    ∃ s, Reach (step smallConfig) (fun s l ↦ s.keeps l = true) (opened [emptyZone 0]) s ∧ s.Quiet ∧
      s.partlyWritten = 1 ∧ s.active = s.partlyWritten + s.emptyHeld := by
  have hrun : ∃ s ∈ runAll (fun s l ↦ if s.keeps l then step smallConfig s l else none)
      (opened [emptyZone 0]) shortFlush, s.Quiet ∧ s.partlyWritten = 1 := by
    decide +kernel
  obtain ⟨s, hs, hq, hone⟩ := hrun
  have hr := Reach.of_checked shortFlush hs
  exact ⟨s, hr, hq, hone, tokens_conserved [emptyZone 0] hr hq⟩

end Tokens

end ZenFs
