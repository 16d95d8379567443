import Mathlib.Algebra.BigOperators.Group.Finset.Piecewise
import Mathlib.Algebra.BigOperators.Group.Finset.Sigma
import Mathlib.Algebra.Order.Group.Multiset
import Mathlib.Tactic.Abel
import ZenFs.OpenZones.Basic

/-!
# Who has which token and which zone

A permit is a token, the `busy_` flag of a zone, or the use of a file.  Those that the
state has issued are with the operations, or with the files that have a zone.  An
action trades in some of the permits of its operation; the rules say which.
-/

namespace ZenFs

namespace OpenZones

open Pool Finset

inductive Permit where
  | openToken
  | activeToken
  | zone (i : ZoneId)
  | file (f : Nat) (z : Option ZoneId)
deriving DecidableEq, Repr

open Permit

/-- What a file with this `active_zone_` has. -/
def share : Option ZoneId → Multiset Permit
  | none => 0
  | some i => {openToken, zone i}

/-- What the files have between them. -/
def withFiles (s : OpenZones) : Multiset Permit := ∑ f ∈ range s.nrFiles, share (s.activeZone f)

/-- How many permits the state has issued. -/
def issued (s : OpenZones) : Permit → Int
  | openToken => s.openIoZones
  | activeToken => s.activeIoZones - s.activeOfZones
  | zone i => if (s.zones i).busy then 1 else 0
  | file f z => if s.inUse f = true ∧ s.activeZone f = z then 1 else 0

/-- The permits that the state has issued are with the operations, who have `m` between
them, and with the files. -/
structure Valid (s : OpenZones) (m : Multiset Permit) : Prop where
  count : ∀ p, ((m + s.withFiles).count p : Int) = s.issued p
  fresh : ∀ f, s.nrFiles ≤ f → s.activeZone f = none ∧ s.inUse f = false

/-- The machine, in which no `Close` of a partly written zone fails. -/
def sharing (cfg : Config) : Sharing Act Choice OpenZones (Multiset Permit) where
  exec := exec cfg
  allowed
    | .close i, c, s => (s.zones i).isPartial = true → c.status = .ok
    | _, _, _ => True
  valid := Valid

/-! ## Files -/

section Files

variable {s : OpenZones} {f : Nat} {i : ZoneId}

/-- One file has another zone. -/
theorem withFiles_setActive (hf : f < s.nrFiles) (z : Option ZoneId) :
    (s.setActive f z).withFiles + share (s.activeZone f) = s.withFiles + share z := by
  have hrest : ∑ g ∈ (range s.nrFiles).erase f, share (Function.update s.activeZone f z g) =
      ∑ g ∈ (range s.nrFiles).erase f, share (s.activeZone g) :=
    sum_congr rfl fun g hg ↦ by rw [Function.update_of_ne (ne_of_mem_erase hg)]
  simp only [withFiles, setActive]
  rw [← add_sum_erase _ _ (mem_range.mpr hf), ← add_sum_erase _ (fun g ↦ share (s.activeZone g))
    (mem_range.mpr hf), hrest, Function.update_self]
  abel

theorem count_zone_share (z : Option ZoneId) :
    (share z).count (zone i) = if z = some i then 1 else 0 := by
  cases z with
  | none => simp [share]
  | some j => simp [share, Multiset.count_singleton, eq_comm]

theorem count_openToken_share (z : Option ZoneId) :
    (share z).count openToken = if z = none then 0 else 1 := by
  cases z <;> simp [share]

theorem count_activeToken_withFiles (s : OpenZones) : s.withFiles.count activeToken = 0 := by
  rw [withFiles, Multiset.count_sum']
  refine sum_eq_zero fun f _ ↦ ?_
  cases s.activeZone f <;> simp [share]

theorem zone_mem_withFiles : zone i ∈ s.withFiles ↔ i ∈ s.heldZones := by
  simp only [withFiles, heldZones, Multiset.mem_sum, mem_biUnion, mem_range, Option.mem_toFinset,
    Option.mem_def]
  refine exists_congr fun f ↦ and_congr_right fun _ ↦ ?_
  cases s.activeZone f <;> simp [share, eq_comm]

/-- Every zone that a file has comes with one token. -/
theorem count_openToken_withFiles (h : ∀ i, s.withFiles.count (zone i) ≤ 1) :
    s.withFiles.count openToken = s.heldZones.card := by
  have hcard : s.heldZones.card = ∑ i ∈ s.heldZones, s.withFiles.count (zone i) := by
    rw [card_eq_sum_ones]
    refine sum_congr rfl fun i hi ↦ ?_
    have hpos := Multiset.count_pos.mpr (zone_mem_withFiles.mpr hi)
    have := h i
    omega
  rw [hcard]
  simp only [withFiles, Multiset.count_sum']
  rw [sum_comm]
  refine sum_congr rfl fun f hf ↦ ?_
  simp only [count_zone_share, count_openToken_share]
  cases hz : s.activeZone f with
  | none => simp
  | some i =>
      have hi : i ∈ s.heldZones := by
        refine mem_biUnion.mpr ⟨f, hf, ?_⟩
        simp [hz]
      simp [hi]

end Files

/-- The state changes, but nothing that is issued. -/
structure Same (s s' : OpenZones) : Prop where
  activeZone : s'.activeZone = s.activeZone
  nrFiles : s'.nrFiles = s.nrFiles
  inUse : s'.inUse = s.inUse
  openIoZones : s'.openIoZones = s.openIoZones
  active : s'.activeIoZones - s'.activeOfZones = s.activeIoZones - s.activeOfZones
  busy : ∀ i, (s'.zones i).busy = (s.zones i).busy

/-- The state changes, but the files have what they had. -/
structure SameFiles (s s' : OpenZones) : Prop where
  activeZone : s'.activeZone = s.activeZone
  nrFiles : s'.nrFiles = s.nrFiles
  inUse : ∀ f, s.nrFiles ≤ f → s'.inUse f = s.inUse f

theorem Same.sameFiles {s s' : OpenZones} (h : Same s s') : SameFiles s s' :=
  ⟨h.activeZone, h.nrFiles, fun f _ ↦ congrFun h.inUse f⟩

theorem Same.issued {s s' : OpenZones} (h : Same s s') (p : Permit) : s'.issued p = s.issued p := by
  cases p with
  | openToken => exact h.openIoZones
  | activeToken => exact h.active
  | zone i => rw [OpenZones.issued, OpenZones.issued, h.busy]
  | file f z => simp only [OpenZones.issued, h.inUse, h.activeZone]

theorem same_setZone {s : OpenZones} {i : ZoneId} {z : Zone} (h : z.busy = (s.zones i).busy) :
    Same s (s.setZone i z) := by
  refine ⟨rfl, rfl, rfl, rfl, rfl, fun j ↦ ?_⟩
  by_cases hj : j = i
  · subst hj
    simpa [setZone] using h
  · simp [setZone, hj]

namespace Valid

variable {s s' : OpenZones} {m m' others : Multiset Permit} {p : Permit} {i : ZoneId} {f : Nat}
  {z : Option ZoneId}

/-- What is issued changes by what is traded. -/
theorem trade (h : Valid s (m + others)) (hs : SameFiles s s')
    (hi : ∀ p, s'.issued p + m.count p = s.issued p + m'.count p) : Valid s' (m' + others) where
  count p := by
    have hfiles : s'.withFiles = s.withFiles := by
      rw [withFiles, withFiles, hs.activeZone, hs.nrFiles]
    have hc := h.count p
    have := hi p
    rw [Multiset.count_add, Multiset.count_add] at hc ⊢
    rw [hfiles]
    push_cast at hc ⊢
    omega
  fresh f hf := by
    rw [hs.nrFiles] at hf
    rw [hs.activeZone, hs.inUse f hf]
    exact h.fresh f hf

theorem same (h : Valid s (m + others)) (hs : Same s s') : Valid s' (m + others) :=
  h.trade hs.sameFiles fun p ↦ by rw [hs.issued p]

/-- A permit is issued. -/
theorem gain (h : Valid s (m + others)) (hs : SameFiles s s') (q : Permit)
    (hi : ∀ p, s'.issued p = s.issued p + if p = q then 1 else 0) :
    Valid s' (q ::ₘ m + others) := by
  refine h.trade hs fun p ↦ ?_
  rw [Multiset.count_cons, hi p]
  push_cast
  abel

/-- A permit is given back. -/
theorem spend {q : Permit} (h : Valid s (q ::ₘ m + others)) (hs : SameFiles s s')
    (hi : ∀ p, s.issued p = s'.issued p + if p = q then 1 else 0) : Valid s' (m + others) := by
  refine h.trade hs fun p ↦ ?_
  rw [Multiset.count_cons, hi p]
  push_cast
  abel

theorem issued_pos (h : Valid s (m + others)) (hp : p ∈ m) : 0 < s.issued p := by
  have hc := h.count p
  have := Multiset.count_pos.mpr hp
  rw [Multiset.count_add, Multiset.count_add] at hc
  push_cast at hc
  omega

theorem busy (h : Valid s (m + others)) (hp : zone i ∈ m) : (s.zones i).busy = true := by
  have hpos := h.issued_pos hp
  by_contra hb
  simp [OpenZones.issued, hb] at hpos

theorem use (h : Valid s (m + others)) (hp : file f z ∈ m) :
    s.inUse f = true ∧ s.activeZone f = z ∧ f < s.nrFiles := by
  have hpos := h.issued_pos hp
  by_cases hf : s.inUse f = true ∧ s.activeZone f = z
  · refine ⟨hf.1, hf.2, Nat.lt_of_not_le fun hle ↦ ?_⟩
    have := (h.fresh f hle).2
    rw [hf.1] at this
    cases this
  · simp [OpenZones.issued, hf] at hpos

end Valid

theorem issued_setBusy (s : OpenZones) (i : ZoneId) (b : Bool) (p : Permit) :
    (s.setBusy i b).issued p = if p = zone i then (if b then 1 else 0) else s.issued p := by
  cases p with
  | zone j =>
      by_cases hj : j = i
      · subst hj
        simp [issued, setBusy, setZone]
      · simp [issued, setBusy, setZone, hj]
  | openToken | activeToken | file => rfl

/-! ## What the actions trade in -/

section Rules

variable {cfg : Config} {m : Multiset Permit} {i : ZoneId} {f : Nat} {z : Option ZoneId}

theorem wp_look {α : Type} {g : OpenZones → Choice → α} {Q : α → Multiset Permit → Prop}
    (h : ∀ a, Q a m) : (sharing cfg).wp (look g) Q m := by
  refine Sharing.wp_perform ?_
  rintro s others c s' a hv - ⟨⟩
  exact ⟨m, hv, h _⟩

/-- Who uses a file knows its zone. -/
theorem wp_look_activeZone {Q : Option ZoneId → Multiset Permit → Prop} (h : Q z (file f z ::ₘ m)) :
    (sharing cfg).wp (look fun s _ ↦ s.activeZone f) Q (file f z ::ₘ m) := by
  refine Sharing.wp_perform ?_
  rintro s others c s' a hv - ⟨⟩
  obtain ⟨-, rfl, -⟩ := Valid.use hv (Multiset.mem_cons_self _ _)
  exact ⟨_, hv, h⟩

/-- An action that changes nothing that is issued. -/
theorem wp_same {α : Type} {e : Act α} {Q : α → Multiset Permit → Prop}
    (hs : ∀ s c s' a, exec cfg e c s = some (s', a) → Same s s') (h : ∀ a, Q a m) :
    (sharing cfg).wp (.perform e) Q m := by
  refine Sharing.wp_perform ?_
  intro s others c s' a hv _ he
  exact ⟨m, Valid.same hv (hs s c s' a he), h a⟩

theorem wp_acquire {Q : Bool → Multiset Permit → Prop} (hbusy : Q false m)
    (hfree : Q true (zone i ::ₘ m)) : (sharing cfg).wp (acquire i) Q m := by
  refine Sharing.wp_perform ?_
  rintro s others c s' a hv - he
  replace he := Option.some.inj he
  cases hb : (s.zones i).busy with
  | true =>
      rw [if_pos hb] at he
      cases he
      exact ⟨m, hv, hbusy⟩
  | false =>
      rw [if_neg (by simp [hb])] at he
      cases he
      refine ⟨zone i ::ₘ m, ?_, hfree⟩
      refine Valid.gain hv ?_ (zone i) fun p ↦ ?_
      · exact ⟨rfl, rfl, fun _ _ ↦ rfl⟩
      · rw [issued_setBusy]
        split
        · subst p
          simp [issued, hb]
        · simp

/-- The flag of a zone that the operation has is set. -/
theorem wp_release {Q : Status → Multiset Permit → Prop} (h : Q .ok m) :
    (sharing cfg).wp (release i) Q (zone i ::ₘ m) := by
  refine Sharing.wp_perform ?_
  rintro s others c s' a hv - he
  have hb := Valid.busy hv (Multiset.mem_cons_self _ _)
  replace he := Option.some.inj he
  rw [checkRelease, if_pos hb] at he
  cases he
  refine ⟨m, ?_, h⟩
  refine Valid.spend hv ⟨rfl, rfl, fun _ _ ↦ rfl⟩ fun p ↦ ?_
  rw [issued_setBusy]
  split
  · subst p
    simp [issued, hb]
  · simp

theorem wp_waitForOpenIOZoneToken {b : Bool} {Q : Unit → Multiset Permit → Prop}
    (h : Q () (openToken ::ₘ m)) : (sharing cfg).wp (.perform (.waitForOpenIOZoneToken b)) Q m := by
  refine Sharing.wp_perform ?_
  rintro s others c s' a hv - he
  simp only [sharing, exec] at he
  split at he
  · cases he
    refine ⟨openToken ::ₘ m, ?_, h⟩
    refine Valid.gain hv ?_ openToken fun p ↦ ?_
    · exact ⟨rfl, rfl, fun _ _ ↦ rfl⟩
    · cases p <;> simp [issued]
  · cases he

theorem wp_putOpenIOZoneToken {Q : Unit → Multiset Permit → Prop} (h : Q () m) :
    (sharing cfg).wp putOpenIOZoneToken Q (openToken ::ₘ m) := by
  refine Sharing.wp_perform ?_
  rintro s others c s' a hv - ⟨⟩
  refine ⟨m, ?_, h⟩
  refine Valid.spend hv ⟨rfl, rfl, fun _ _ ↦ rfl⟩ fun p ↦ ?_
  cases p <;> simp [issued]

theorem wp_getActiveIOZoneTokenIfAvailable {Q : Bool → Multiset Permit → Prop} (hnone : Q false m)
    (hgot : Q true (activeToken ::ₘ m)) : (sharing cfg).wp getActiveIOZoneTokenIfAvailable Q m := by
  refine Sharing.wp_perform ?_
  rintro s others c s' a hv - he
  replace he := Option.some.inj he
  split at he
  · cases he
    refine ⟨activeToken ::ₘ m, ?_, hgot⟩
    refine Valid.gain hv ?_ activeToken fun p ↦ ?_
    · exact ⟨rfl, rfl, fun _ _ ↦ rfl⟩
    · cases p <;> simp [issued, add_sub_right_comm]
  · cases he
    exact ⟨m, hv, hnone⟩

/-- The token of the operation itself. -/
theorem wp_putActiveIOZoneToken {Q : Unit → Multiset Permit → Prop} (h : Q () m) :
    (sharing cfg).wp (putActiveIOZoneToken false) Q (activeToken ::ₘ m) := by
  refine Sharing.wp_perform ?_
  rintro s others c s' a hv - ⟨⟩
  refine ⟨m, ?_, h⟩
  refine Valid.spend hv ⟨rfl, rfl, fun _ _ ↦ rfl⟩ fun p ↦ ?_
  cases p <;> simp [issued, sub_right_comm]

/-- The token of a zone. -/
theorem wp_putActiveIOZoneToken_ofZone {Q : Unit → Multiset Permit → Prop} (h : Q () m) :
    (sharing cfg).wp (putActiveIOZoneToken true) Q m := by
  refine wp_same ?_ fun _ ↦ h
  rintro s c s' a ⟨⟩
  exact ⟨rfl, rfl, rfl, rfl, sub_sub_sub_cancel_right _ _ _, fun _ ↦ rfl⟩

theorem wp_label {Q : Unit → Multiset Permit → Prop} (h : Q () m) :
    (sharing cfg).wp (.perform (.label i)) Q (activeToken ::ₘ m) := by
  refine Sharing.wp_perform ?_
  rintro s others c s' a hv - ⟨⟩
  refine ⟨m, ?_, h⟩
  refine Valid.spend hv ⟨rfl, rfl, fun _ _ ↦ rfl⟩ fun p ↦ ?_
  cases p <;> simp [issued, sub_add_eq_sub_sub]

theorem wp_whenever {b : Bool} {p : Op Unit} {Q : Unit → Multiset Permit → Prop}
    (hno : b = false → Q () m) (hyes : b = true → (sharing cfg).wp p Q m) :
    (sharing cfg).wp (whenever b p) Q m := by
  cases b with
  | false => exact hno rfl
  | true => exact hyes rfl

theorem wp_finish {Q : Status → Multiset Permit → Prop} (h : ∀ s, Q s m) :
    (sharing cfg).wp (.perform (.finish i)) Q m := by
  refine wp_same ?_ h
  intro s c s' a he
  replace he := Option.some.inj he
  split at he <;> cases he
  · exact same_setZone rfl
  · exact ⟨rfl, rfl, rfl, rfl, rfl, fun _ ↦ rfl⟩

/-- A zone that is closed is closed. -/
theorem wp_close {Q : Status → Multiset Permit → Prop} (h : Q .ok m) :
    (sharing cfg).wp (.perform (.close i)) Q m := by
  refine Sharing.wp_perform ?_
  rintro s others c s' a hv hok ⟨⟩
  refine ⟨m, hv, ?_⟩
  split
  · rename_i hp
    rw [show c.status = .ok from hok hp]
    exact h
  · exact h

theorem wp_reset {Q : Status → Multiset Permit → Prop} (h : ∀ s, Q s m) :
    (sharing cfg).wp (.perform (.reset i)) Q m := by
  refine wp_same ?_ h
  intro s c s' a he
  replace he := Option.some.inj he
  split at he <;> cases he
  · refine same_setZone ?_
    cases c.yes <;> rfl
  · exact ⟨rfl, rfl, rfl, rfl, rfl, fun _ ↦ rfl⟩

theorem wp_append {n : Nat} {Q : Status → Multiset Permit → Prop} (h : ∀ s, Q s m) :
    (sharing cfg).wp (.perform (.append i n)) Q m := by
  refine wp_same ?_ h
  intro s c s' a he
  replace he := Option.some.inj he
  rw [append] at he
  split at he
  · cases he
    exact ⟨rfl, rfl, rfl, rfl, rfl, fun _ ↦ rfl⟩
  · split at he <;> cases he <;> exact same_setZone rfl

theorem wp_addUsed {n : Nat} {Q : Unit → Multiset Permit → Prop} (h : Q () m) :
    (sharing cfg).wp (.perform (.addUsed i n)) Q m := by
  refine wp_same ?_ fun _ ↦ h
  rintro s c s' a ⟨⟩
  exact same_setZone rfl

theorem same_pushExtent (s : OpenZones) (f : Nat) : Same s (s.pushExtent f) := by
  rw [pushExtent]
  split
  · exact ⟨rfl, rfl, rfl, rfl, rfl, fun _ ↦ rfl⟩
  · rename_i i _
    have h : Same s (s.addUsed i (s.unsynced f)) := same_setZone rfl
    exact ⟨h.activeZone, h.nrFiles, h.inUse, h.openIoZones, h.active, h.busy⟩

theorem wp_pushExtent {Q : Unit → Multiset Permit → Prop} (h : Q () m) :
    (sharing cfg).wp (.perform (.pushExtent f)) Q m := by
  refine wp_same ?_ fun _ ↦ h
  rintro s c s' a ⟨⟩
  exact same_pushExtent s f

theorem wp_grow {n : Nat} {Q : Unit → Multiset Permit → Prop} (h : Q () m) :
    (sharing cfg).wp (.perform (.grow f n)) Q m := by
  refine wp_same ?_ fun _ ↦ h
  rintro s c s' a ⟨⟩
  exact ⟨rfl, rfl, rfl, rfl, rfl, fun _ ↦ rfl⟩

theorem wp_waitForMigration {Q : Unit → Multiset Permit → Prop} (h : Q () m) :
    (sharing cfg).wp (.perform .waitForMigration) Q m := by
  refine wp_same ?_ fun _ ↦ h
  intro s c s' a he
  simp only [exec] at he
  split at he <;> cases he
  exact ⟨rfl, rfl, rfl, rfl, rfl, fun _ ↦ rfl⟩

theorem wp_endMigration {Q : Unit → Multiset Permit → Prop} (h : Q () m) :
    (sharing cfg).wp (.perform .endMigration) Q m := by
  refine wp_same ?_ fun _ ↦ h
  rintro s c s' a ⟨⟩
  exact ⟨rfl, rfl, rfl, rfl, rfl, fun _ ↦ rfl⟩

/-! ### Files -/

theorem issued_setActive {s : OpenZones} (hf : s.inUse f = true) (z : Option ZoneId) (p : Permit) :
    (s.setActive f z).issued p + (if p = file f (s.activeZone f) then 1 else 0) =
      s.issued p + if p = file f z then 1 else 0 := by
  cases p with
  | file g y =>
      by_cases hg : g = f
      · subst hg
        simp [issued, setActive, hf, eq_comm, add_comm]
      · simp [issued, setActive, hg]
  | openToken | activeToken | zone => rfl

/-- What a file has is traded with its user. -/
theorem Valid.setActive {s : OpenZones} {m' others : Multiset Permit} {y : Option ZoneId}
    (h : Valid s (file f z ::ₘ m + others)) (hm : m' + share y = m + share z) :
    Valid (s.setActive f y) (file f y ::ₘ m' + others) := by
  obtain ⟨hu, rfl, hf⟩ := h.use (Multiset.mem_cons_self _ _)
  refine ⟨fun p ↦ ?_, fun g hg ↦ ?_⟩
  · have hfiles := congrArg (Multiset.count p) (withFiles_setActive hf y)
    replace hm := congrArg (Multiset.count p) hm
    have hi := issued_setActive hu y p
    have hc := h.count p
    simp only [Multiset.count_add, Multiset.count_cons] at hfiles hm hc ⊢
    push_cast at hc ⊢
    omega
  · have hne : g ≠ f := Nat.ne_of_gt (Nat.lt_of_lt_of_le hf hg)
    simpa [OpenZones.setActive, hne] using h.fresh g hg

theorem wp_setActiveZone {Q : Unit → Multiset Permit → Prop} (h : Q () (file f (some i) ::ₘ m)) :
    (sharing cfg).wp (.perform (.setActiveZone f i)) Q
      (zone i ::ₘ openToken ::ₘ file f none ::ₘ m) := by
  rw [Multiset.cons_swap openToken, Multiset.cons_swap (zone i)]
  refine Sharing.wp_perform ?_
  rintro s others c s' a hv - ⟨⟩
  refine ⟨_, ?_, h⟩
  have hset : Valid (s.setActive f (some i)) (file f (some i) ::ₘ m + others) := by
    refine Valid.setActive hv ?_
    simp only [share, Multiset.insert_eq_cons, add_zero]
    rw [Multiset.cons_swap, ← Multiset.singleton_add, ← Multiset.singleton_add,
      ← Multiset.singleton_add (zone i)]
    abel
  exact hset.same ⟨rfl, rfl, rfl, rfl, rfl, fun _ ↦ rfl⟩

/-- Whoever releases the zone of a file has its token to give back. -/
theorem wp_releaseActiveZone {Q : Unit → Multiset Permit → Prop}
    (h : Q () (openToken ::ₘ file f none ::ₘ m)) :
    (sharing cfg).wp (.perform (.releaseActiveZone f)) Q (file f (some i) ::ₘ m) := by
  refine Sharing.wp_perform ?_
  rintro s others c s' a hv - he
  obtain ⟨-, hz, -⟩ := Valid.use hv (Multiset.mem_cons_self _ _)
  simp only [sharing, exec, releaseActiveZone, hz] at he
  cases he
  refine ⟨_, ?_, h⟩
  have hset : Valid (s.setActive f none) (zone i ::ₘ openToken ::ₘ file f none ::ₘ m + others) := by
    have hset : Valid (s.setActive f none)
        (file f none ::ₘ zone i ::ₘ openToken ::ₘ m + others) := by
      refine Valid.setActive hv ?_
      simp only [share, Multiset.insert_eq_cons, add_zero]
      rw [← Multiset.singleton_add, ← Multiset.singleton_add openToken,
        ← Multiset.singleton_add openToken]
      abel
    rwa [Multiset.cons_swap, Multiset.cons_swap (file f none)] at hset
  have hb := hset.busy (Multiset.mem_cons_self _ _)
  refine hset.spend ⟨rfl, rfl, fun _ _ ↦ rfl⟩ fun p ↦ ?_
  show _ = ((s.setActive f none).setBusy i false).issued p + _
  rw [issued_setBusy]
  split
  · subst p
    simp [issued, hb]
  · simp

theorem issued_setInUse (s : OpenZones) (f : Nat) (b : Bool) (p : Permit) :
    (s.setInUse f b).issued p = if p = file f (s.activeZone f) then (if b then 1 else 0)
    else s.issued p := by
  cases p with
  | file g y =>
      by_cases hg : g = f
      · subst hg
        by_cases hy : y = s.activeZone g
        · subst hy
          simp [issued, setInUse]
        · simp [issued, setInUse, hy, Ne.symm hy]
      · simp [issued, setInUse, hg]
  | openToken | activeToken | zone => rfl

theorem wp_leave {Q : Unit → Multiset Permit → Prop} (h : Q () m) :
    (sharing cfg).wp (.perform (.leave f)) Q (file f z ::ₘ m) := by
  refine Sharing.wp_perform ?_
  rintro s others c s' a hv - ⟨⟩
  obtain ⟨hu, rfl, hf⟩ := Valid.use hv (Multiset.mem_cons_self _ _)
  refine ⟨m, ?_, h⟩
  refine Valid.spend hv ⟨rfl, rfl, fun g hg ↦ ?_⟩ fun p ↦ ?_
  · have hne : g ≠ f := Nat.ne_of_gt (Nat.lt_of_lt_of_le hf hg)
    simp [setInUse, hne]
  · rw [issued_setInUse]
    split
    · subst p
      simp [issued, hu]
    · simp

end Rules

end OpenZones

end ZenFs
