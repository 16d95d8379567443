import Mathlib.Data.Finset.Card
import Mathlib.Data.Finset.Image
import ZenFs.Basic
import ZenFs.Lib.Reach

/-!
# Limits on open and active zones

`ZonedBlockDevice::Open` derives the limits for IO zones from those that the backend
reports, by a subtraction of unsigned numbers, and the allocator takes off one more
for callers that are not prioritized.  A limit that is too small for this wraps around
and becomes a limit that no device reaches.
-/

namespace ZenFs

/-- `max_nr_active_io_zones_` and `max_nr_open_io_zones_`. -/
structure IoLimits where
  maxNrActiveIoZones : UInt32
  maxNrOpenIoZones : UInt32
deriving DecidableEq, Repr

namespace IoLimits

def ZENFS_MIN_ZONES : UInt32 := 32

/-- A zone for metadata and one for the migration of extents. -/
def reservedZones : UInt32 := 2

/-- What `Open` makes of a limit that is reported, where `0` stands for none. -/
def ioLimit (nrZones reported : UInt32) : UInt32 :=
  if reported = 0 then nrZones else reported - reservedZones

/-- The limits behind `ZonedBlockDevice::Open`, which does not take a device with too few zones. -/
def ofReported (nrZones maxNrActiveZones maxNrOpenZones : UInt32) : Option IoLimits :=
  if nrZones < ZENFS_MIN_ZONES then none
  else some
    { maxNrActiveIoZones := ioLimit nrZones maxNrActiveZones
      maxNrOpenIoZones := ioLimit nrZones maxNrOpenZones }

/-- `allocator_open_limit` of `WaitForOpenIOZoneToken`. -/
def allocatorOpenLimit (l : IoLimits) (prioritized : Bool) : UInt32 :=
  if prioritized then l.maxNrOpenIoZones else l.maxNrOpenIoZones - 1

end IoLimits

/-- Who has a token: an allocation that is under way, or an IO zone. -/
inductive TokenHolder where
  | allocation (a : Nat)
  | zone (i : ZoneId)
deriving DecidableEq, Repr

namespace TokenHolder

def isZone : TokenHolder → Bool
  | allocation _ => false
  | zone _ => true

end TokenHolder

/-- The two counters, who has the tokens, and the zones among them that were active
already when the device was opened. -/
structure IoTokens where
  openIoZones : Int
  activeIoZones : Int
  openHolders : Finset TokenHolder
  activeHolders : Finset TokenHolder
  activeAtOpen : Finset ZoneId
deriving DecidableEq

namespace IoTokens

/-- Allocations take tokens and hand them on to a zone; whoever has a token may give it
back. -/
inductive Label where
  | waitForOpenIOZoneToken (a : Nat) (prioritized : Bool)
  | getActiveIOZoneTokenIfAvailable (a : Nat)
  | handOpen (a : Nat) (i : ZoneId)
  | handActive (a : Nat) (i : ZoneId)
  | putOpenIOZoneToken (h : TokenHolder)
  | putActiveIOZoneToken (h : TokenHolder)
deriving DecidableEq, Repr

/-- A set of holders in which a zone takes the place of an allocation. -/
def hand (holders : Finset TokenHolder) (a : Nat) (i : ZoneId) : Finset TokenHolder :=
  insert (.zone i) (holders.erase (.allocation a))

/-- Whether the allocation can hand its token to the zone. -/
def canHand (holders : Finset TokenHolder) (a : Nat) (i : ZoneId) : Bool :=
  decide (.allocation a ∈ holders) && decide (.zone i ∉ holders)

/-- An allocation waits until there is an open token; it does not wait for an active one. -/
def step (l : IoLimits) (s : IoTokens) : Label → Option IoTokens
  | .waitForOpenIOZoneToken a prioritized =>
      if .allocation a ∉ s.openHolders ∧
        s.openIoZones < (l.allocatorOpenLimit prioritized).toNat then
        some { s with
          openIoZones := s.openIoZones + 1
          openHolders := insert (.allocation a) s.openHolders }
      else none
  | .getActiveIOZoneTokenIfAvailable a =>
      if .allocation a ∈ s.activeHolders then none
      else if s.activeIoZones < l.maxNrActiveIoZones.toNat then
        some { s with
          activeIoZones := s.activeIoZones + 1
          activeHolders := insert (.allocation a) s.activeHolders }
      else some s
  | .handOpen a i =>
      if canHand s.openHolders a i then some { s with openHolders := hand s.openHolders a i }
        else none
  | .handActive a i =>
      if canHand s.activeHolders a i then some { s with activeHolders := hand s.activeHolders a i }
        else none
  | .putOpenIOZoneToken h =>
      if h ∈ s.openHolders then
        some { s with openIoZones := s.openIoZones - 1, openHolders := s.openHolders.erase h }
      else none
  | .putActiveIOZoneToken h =>
      if h ∈ s.activeHolders then
        some { s with
          activeIoZones := s.activeIoZones - 1
          activeHolders := s.activeHolders.erase h
          activeAtOpen := s.activeAtOpen.filter fun i ↦ .zone i ≠ h }
      else none

/-- The state behind `Open` of a device with these active zones. -/
def opened (active : Finset ZoneId) : IoTokens where
  openIoZones := 0
  activeIoZones := active.card
  openHolders := ∅
  activeHolders := active.image .zone
  activeAtOpen := active

/-- The zones that hold an open token. -/
def openZones (s : IoTokens) : Finset TokenHolder := s.openHolders.filter fun h ↦ h.isZone

/-- The holders of active tokens that were taken since the device was opened. -/
def granted (s : IoTokens) : Finset TokenHolder := s.activeHolders \ s.activeAtOpen.image .zone

/-- The zones that hold an active token and were not active when the device was opened. -/
def activeZones (s : IoTokens) : Finset TokenHolder := s.granted.filter fun h ↦ h.isZone

/-! ## The limits that are kept -/

theorem card_hand {holders : Finset TokenHolder} {a : Nat} {i : ZoneId}
    (h : canHand holders a i = true) : (hand holders a i).card = holders.card := by
  simp only [canHand, Bool.and_eq_true, decide_eq_true_eq] at h
  have hzone : TokenHolder.zone i ∉ holders.erase (.allocation a) :=
    fun hz ↦ h.2 (Finset.mem_of_mem_erase hz)
  rw [hand, Finset.card_insert_of_notMem hzone, Finset.card_erase_add_one h.1]

/-- The counters tell how many tokens are held, and no more are held than the internal
limits allow. -/
structure Inv (l : IoLimits) (s : IoTokens) : Prop where
  openCount : s.openIoZones = s.openHolders.card
  activeCount : s.activeIoZones = s.activeHolders.card
  openLimit : s.openHolders.card ≤ l.maxNrOpenIoZones.toNat
  activeLimit : s.granted.card ≤ l.maxNrActiveIoZones.toNat
  atOpen : ∀ i ∈ s.activeAtOpen, .zone i ∈ s.activeHolders

namespace Inv

variable {l : IoLimits} {s s' : IoTokens}

theorem ofOpened (active : Finset ZoneId) : Inv l (opened active) where
  openCount := rfl
  activeCount := by
    rw [opened, Finset.card_image_of_injective _ fun _ _ h ↦ TokenHolder.zone.inj h]
  openLimit := Nat.zero_le _
  activeLimit := by simp [granted, opened]
  atOpen i hi := Finset.mem_image_of_mem _ hi

theorem granted_card_le (s : IoTokens) : s.granted.card ≤ s.activeHolders.card :=
  Finset.card_le_card Finset.sdiff_subset

theorem takeOpen (hi : Inv l s) {a : Nat} (ha : .allocation a ∉ s.openHolders)
    (hlt : s.openIoZones < l.maxNrOpenIoZones.toNat) :
    Inv l { s with
      openIoZones := s.openIoZones + 1, openHolders := insert (.allocation a) s.openHolders } := by
  have hcard : (insert (TokenHolder.allocation a) s.openHolders).card = s.openHolders.card + 1 :=
    Finset.card_insert_of_notMem ha
  have hcount := hi.openCount
  refine ⟨?_, hi.activeCount, ?_, hi.activeLimit, hi.atOpen⟩
  · simp only [hcard, hcount, Int.natCast_succ]
  · simp only [hcard]
    omega

theorem takeActive (hi : Inv l s) {a : Nat} (ha : .allocation a ∉ s.activeHolders)
    (hlt : s.activeIoZones < l.maxNrActiveIoZones.toNat) :
    Inv l { s with
      activeIoZones := s.activeIoZones + 1
      activeHolders := insert (.allocation a) s.activeHolders } := by
  have hcard : (insert (TokenHolder.allocation a) s.activeHolders).card =
      s.activeHolders.card + 1 :=
    Finset.card_insert_of_notMem ha
  have hcount := hi.activeCount
  refine ⟨hi.openCount, ?_, hi.openLimit, ?_, fun i hz ↦ Finset.mem_insert_of_mem (hi.atOpen i hz)⟩
  · simp only [hcard, hcount, Int.natCast_succ]
  · refine (granted_card_le _).trans ?_
    simp only [hcard]
    omega

theorem handActive (hi : Inv l s) {a : Nat} {i : ZoneId} (h : canHand s.activeHolders a i = true) :
    Inv l { s with activeHolders := hand s.activeHolders a i } := by
  have hcan := h
  simp only [canHand, Bool.and_eq_true, decide_eq_true_eq] at hcan
  have hold : ∀ j ∈ s.activeAtOpen, j ≠ i := by
    rintro j hj rfl
    exact hcan.2 (hi.atOpen j hj)
  refine ⟨hi.openCount, by rw [hi.activeCount, card_hand h], hi.openLimit, ?_, fun j hj ↦ ?_⟩
  · -- the zone takes the place of the allocation among those that were granted too
    have hgranted : granted { s with activeHolders := hand s.activeHolders a i } =
        hand s.granted a i := by
      ext x
      simp only [granted, hand, Finset.mem_sdiff, Finset.mem_insert, Finset.mem_erase,
        Finset.mem_image]
      constructor
      · rintro ⟨rfl | ⟨hx, hmem⟩, hnot⟩
        · exact .inl rfl
        · exact .inr ⟨hx, hmem, hnot⟩
      · rintro (rfl | ⟨hx, hmem, hnot⟩)
        · refine ⟨.inl rfl, ?_⟩
          rintro ⟨j, hj, hij⟩
          exact hold j hj (TokenHolder.zone.inj hij)
        · exact ⟨.inr ⟨hx, hmem⟩, hnot⟩
    rw [hgranted, card_hand]
    · exact hi.activeLimit
    · simp only [canHand, granted, Bool.and_eq_true, decide_eq_true_eq, Finset.mem_sdiff,
        Finset.mem_image]
      exact ⟨⟨hcan.1, by rintro ⟨_, _, ⟨⟩⟩⟩, fun hz ↦ hcan.2 hz.1⟩
  · exact Finset.mem_insert_of_mem (Finset.mem_erase.mpr ⟨nofun, hi.atOpen j hj⟩)

theorem putActive (hi : Inv l s) {h : TokenHolder} (hh : h ∈ s.activeHolders) :
    Inv l { s with
      activeIoZones := s.activeIoZones - 1
      activeHolders := s.activeHolders.erase h
      activeAtOpen := s.activeAtOpen.filter fun i ↦ .zone i ≠ h } := by
  have hcard := Finset.card_erase_add_one hh
  refine ⟨hi.openCount, ?_, hi.openLimit, ?_, fun i hz ↦ ?_⟩
  · have hcount := hi.activeCount
    simp only
    omega
  · refine (Finset.card_le_card ?_).trans hi.activeLimit
    intro x hx
    simp only [granted, Finset.mem_sdiff, Finset.mem_erase, Finset.mem_image,
      Finset.mem_filter] at hx ⊢
    refine ⟨hx.1.2, ?_⟩
    rintro ⟨i, hz, rfl⟩
    exact hx.2 ⟨i, ⟨hz, hx.1.1⟩, rfl⟩
  · rw [Finset.mem_filter] at hz
    exact Finset.mem_erase.mpr ⟨hz.2, hi.atOpen i hz.1⟩

theorem step (hi : Inv l s) (hlow : 1 ≤ l.maxNrOpenIoZones) {b : Label}
    (hs : s.step l b = some s') : Inv l s' := by
  have hlimit : ∀ p, (l.allocatorOpenLimit p).toNat ≤ l.maxNrOpenIoZones.toNat := by
    intro p
    cases p with
    | true => exact le_rfl
    | false =>
        rw [IoLimits.allocatorOpenLimit, if_neg nofun, UInt32.toNat_sub_of_le _ _ hlow]
        exact Nat.sub_le ..
  cases b with
  | waitForOpenIOZoneToken a p =>
      simp only [IoTokens.step] at hs
      split at hs
      · rename_i h
        obtain rfl := Option.some.inj hs
        exact hi.takeOpen h.1 (h.2.trans_le (Int.ofNat_le.mpr (hlimit p)))
      · cases hs
  | getActiveIOZoneTokenIfAvailable a =>
      simp only [IoTokens.step] at hs
      split at hs
      · cases hs
      · rename_i ha
        split at hs <;> obtain rfl := Option.some.inj hs
        · rename_i hlt
          exact hi.takeActive ha hlt
        · exact hi
  | handOpen a i =>
      simp only [IoTokens.step] at hs
      split at hs
      · rename_i h
        obtain rfl := Option.some.inj hs
        exact ⟨by rw [hi.openCount, card_hand h],
          hi.activeCount, by rw [card_hand h]; exact hi.openLimit, hi.activeLimit, hi.atOpen⟩
      · cases hs
  | handActive a i =>
      simp only [IoTokens.step] at hs
      split at hs
      · rename_i h
        obtain rfl := Option.some.inj hs
        exact hi.handActive h
      · cases hs
  | putOpenIOZoneToken h =>
      simp only [IoTokens.step] at hs
      split at hs
      · rename_i hh
        obtain rfl := Option.some.inj hs
        have hcard := Finset.card_erase_add_one hh
        have hcount := hi.openCount
        have hmax := hi.openLimit
        refine ⟨?_, hi.activeCount, ?_, hi.activeLimit, hi.atOpen⟩
        · simp only
          omega
        · simp only
          omega
      · cases hs
  | putActiveIOZoneToken h =>
      simp only [IoTokens.step] at hs
      split at hs
      · rename_i hh
        obtain rfl := Option.some.inj hs
        exact hi.putActive hh
      · cases hs

end Inv

/-! ## The reported limits -/

/-- Open respects the limits that the backend reports: the internal limits are what the
subtractions mean, and whatever tokens are taken, handed on and given back, no more
zones hold one than are reported. -/
structure Respects (maxNrActiveZones maxNrOpenZones : UInt32) (l : IoLimits) : Prop where
  activeLimit_eq : maxNrActiveZones ≠ 0 →
    (l.maxNrActiveIoZones.toNat : Int) = maxNrActiveZones.toNat - IoLimits.reservedZones.toNat
  openLimit_eq : maxNrOpenZones ≠ 0 →
    (l.maxNrOpenIoZones.toNat : Int) = maxNrOpenZones.toNat - IoLimits.reservedZones.toNat
  allocatorLimit_eq : ((l.allocatorOpenLimit false).toNat : Int) = l.maxNrOpenIoZones.toNat - 1
  open_le : maxNrOpenZones ≠ 0 → ∀ active s, Reach (step l) (fun _ _ ↦ True) (opened active) s →
    s.openZones.card ≤ maxNrOpenZones.toNat
  active_le : maxNrActiveZones ≠ 0 → ∀ active s, Reach (step l) (fun _ _ ↦ True) (opened active) s →
    s.activeZones.card ≤ maxNrActiveZones.toNat

variable {nrZones maxNrActiveZones maxNrOpenZones : UInt32} {l : IoLimits} {s : IoTokens}

/-- The subtraction is exact if it does not go below zero. -/
theorem toNat_sub_iff (a b : UInt32) : ((a - b).toNat : Int) = a.toNat - b.toNat ↔ b ≤ a := by
  constructor
  · intro h
    rw [UInt32.le_iff_toNat_le]
    omega
  · intro h
    rw [UInt32.toNat_sub_of_le _ _ h, Int.ofNat_sub (UInt32.le_iff_toNat_le.mp h)]

theorem reservedZones_le_iff {r : UInt32} (h : r ≠ 0) : IoLimits.reservedZones ≤ r ↔ r ≠ 1 := by
  rw [UInt32.le_iff_toNat_le, Ne, ← UInt32.toNat_inj]
  rw [Ne, ← UInt32.toNat_inj] at h
  simp only [IoLimits.reservedZones, UInt32.toNat_ofNat] at h ⊢
  omega

/-- What is left of a limit behind both subtractions. -/
theorem one_le_ioLimit_iff (hn : IoLimits.ZENFS_MIN_ZONES ≤ nrZones) {r : UInt32} (hone : r ≠ 1) :
    1 ≤ IoLimits.ioLimit nrZones r ↔ r ≠ 2 := by
  rw [IoLimits.ioLimit]
  split
  · rename_i h
    subst h
    refine iff_of_true (UInt32.le_trans (by decide) hn) (by decide)
  · rename_i h
    have hle := (reservedZones_le_iff h).mpr hone
    rw [UInt32.le_iff_toNat_le, UInt32.toNat_sub_of_le _ _ hle, Ne, ← UInt32.toNat_inj]
    rw [UInt32.le_iff_toNat_le] at hle
    simp only [IoLimits.reservedZones, UInt32.toNat_ofNat] at hle ⊢
    omega

theorem ofReported_eq_some
    (h : IoLimits.ofReported nrZones maxNrActiveZones maxNrOpenZones = some l) :
    IoLimits.ZENFS_MIN_ZONES ≤ nrZones ∧
    l.maxNrActiveIoZones = IoLimits.ioLimit nrZones maxNrActiveZones ∧
      l.maxNrOpenIoZones = IoLimits.ioLimit nrZones maxNrOpenZones := by
  unfold IoLimits.ofReported at h
  split at h
  · cases h
  · rename_i hn
    obtain rfl := Option.some.inj h
    exact ⟨UInt32.not_lt.mp hn, rfl, rfl⟩

theorem ioLimit_le {r : UInt32} (h : r ≠ 0) (hone : r ≠ 1) :
    (IoLimits.ioLimit nrZones r).toNat ≤ r.toNat := by
  rw [IoLimits.ioLimit, if_neg h, UInt32.toNat_sub_of_le _ _ ((reservedZones_le_iff h).mpr hone)]
  exact Nat.sub_le ..

/-- A device is opened with limits that are kept exactly if it reports no open limit of
one or two zones and no active limit of one zone. -/
theorem respects_iff (h : IoLimits.ofReported nrZones maxNrActiveZones maxNrOpenZones = some l) :
    Respects maxNrActiveZones maxNrOpenZones l ↔
      maxNrOpenZones ≠ 1 ∧ maxNrOpenZones ≠ 2 ∧ maxNrActiveZones ≠ 1 := by
  obtain ⟨hn, hact, hopen⟩ := ofReported_eq_some h
  constructor
  · intro hr
    have hone : maxNrOpenZones ≠ 1 := by
      rintro rfl
      have := hr.openLimit_eq (by decide)
      rw [hopen, IoLimits.ioLimit, if_neg (by decide), toNat_sub_iff] at this
      exact absurd this (by decide)
    refine ⟨hone, ?_, ?_⟩
    · have := hr.allocatorLimit_eq
      rw [IoLimits.allocatorOpenLimit, if_neg nofun] at this
      exact (one_le_ioLimit_iff hn hone).mp (hopen ▸ (toNat_sub_iff _ 1).mp this)
    · rintro rfl
      have := hr.activeLimit_eq (by decide)
      rw [hact, IoLimits.ioLimit, if_neg (by decide), toNat_sub_iff] at this
      exact absurd this (by decide)
  · rintro ⟨hone, htwo, hact1⟩
    have hlow : 1 ≤ l.maxNrOpenIoZones := hopen ▸ (one_le_ioLimit_iff hn hone).mpr htwo
    have hinv : ∀ {active s}, Reach (step l) (fun _ _ ↦ True) (opened active) s → Inv l s :=
      fun hr ↦ hr.invariant (Inv.ofOpened _) fun hi _ hs ↦ hi.step hlow hs
    refine ⟨fun h0 ↦ ?_, fun h0 ↦ ?_, ?_, fun h0 active s hr ↦ ?_, fun h0 active s hr ↦ ?_⟩
    · rw [hact, IoLimits.ioLimit, if_neg h0, toNat_sub_iff]
      exact (reservedZones_le_iff h0).mpr hact1
    · rw [hopen, IoLimits.ioLimit, if_neg h0, toNat_sub_iff]
      exact (reservedZones_le_iff h0).mpr hone
    · rw [IoLimits.allocatorOpenLimit, if_neg nofun]
      exact (toNat_sub_iff _ 1).mpr hlow
    · calc s.openZones.card
        _ ≤ s.openHolders.card := Finset.card_filter_le ..
        _ ≤ l.maxNrOpenIoZones.toNat := (hinv hr).openLimit
        _ ≤ maxNrOpenZones.toNat := hopen ▸ ioLimit_le h0 hone
    · calc s.activeZones.card
        _ ≤ s.granted.card := Finset.card_filter_le ..
        _ ≤ l.maxNrActiveIoZones.toNat := (hinv hr).activeLimit
        _ ≤ maxNrActiveZones.toNat := hact ▸ ioLimit_le h0 hact1

/-- A device with fourteen open and active zones. -/
theorem respects_fourteen :
    ∃ l, IoLimits.ofReported 1024 14 14 = some l ∧ Respects 14 14 l := by
  have h : IoLimits.ofReported 1024 14 14 = some ⟨12, 12⟩ := by decide
  exact ⟨_, h, (respects_iff h).mpr (by decide)⟩

/-- Three allocations that are not prioritized, each of a zone of its own. -/
def threeWriters : List Label :=
  [.waitForOpenIOZoneToken 0 false, .handOpen 0 0, .waitForOpenIOZoneToken 1 false, .handOpen 1 1,
    .waitForOpenIOZoneToken 2 false, .handOpen 2 2]

/-- A device that reports two open zones: the limit for callers that are not prioritized
wraps around, and three zones hold an open token. -/
theorem open_limit_exceeded :
    ∃ l, IoLimits.ofReported 1024 14 2 = some l ∧ l.maxNrOpenIoZones = 0 ∧
      l.allocatorOpenLimit false = 4294967295 ∧
      ∃ s, Reach (step l) (fun _ _ ↦ True) (opened ∅) s ∧ 2 < s.openZones.card := by
  have hrun : ∃ s ∈ runAll (step ⟨12, 0⟩) (opened ∅) threeWriters, 2 < s.openZones.card := by
    decide +kernel
  obtain ⟨s, hs, hlt⟩ := hrun
  exact ⟨⟨12, 0⟩, by decide, rfl, by decide, s, Reach.of_any hs, hlt⟩

end IoTokens

end ZenFs
