import ZenFs.Alloc.Capacity
import ZenFs.Lib.Reach

/-!
# The deferred status

A destructor cannot return an error, so `~ZonedWritableFile` reports it to the device,
where the next `AllocateIOZoneNoLock` is to find it.  The setter stores a status only if
there already is an error, and so never stores the first one.
-/

namespace ZenFs

namespace Alloc

namespace Allocator

/-- `SetZoneDeferredStatus`. -/
def setZoneDeferredStatus (a : Allocator) (status : Status) : Allocator :=
  if !a.deferredStatus.isOk then { a with deferredStatus := status } else a

/-- What `~ZonedWritableFile` does with the status of `CloseInternal`. -/
def destroyZonedWritableFile (a : Allocator) (s : Status) : Allocator :=
  if !s.isOk then a.setZoneDeferredStatus s else a

variable {a : Allocator} {finish : ZoneId → Status} {w : Placement} {fuel : Nat} {file : FileInfo}
  {level : Int} {min_capacity : Nat} {r : Allocation}

/-- There is no error to keep, so the status is not kept either. -/
theorem destroyZonedWritableFile_of_ok (h : a.deferredStatus = .ok) (s : Status) :
    a.destroyZonedWritableFile s = a := by
  unfold destroyZonedWritableFile setZoneDeferredStatus
  rw [h]
  split
  · rfl
  · rfl

/-! ## A call does not touch the status -/

theorem openEmptyZone_deferredStatus {got_token : Bool}
    (h : a.openEmptyZone finish w fuel file got_token level = some r) :
    r.state.deferredStatus = a.deferredStatus := by
  unfold openEmptyZone at h
  split at h
  · cases h
  · rename_i a₁ h₁
    have h₁ := (finishForToken_finishes h₁).deferredStatus
    split at h
    · cases h
    · dsimp only at h
      split at h
      · obtain rfl := Option.some.inj h
        exact h₁
      · obtain rfl := Option.some.inj h
        exact h₁
      · obtain rfl := Option.some.inj h
        exact h₁
  · rename_i a₁ s _ h₁
    have h₁ := (finishForToken_finishes h₁).deferredStatus
    obtain rfl := Option.some.inj h
    exact h₁

theorem fillOrOpen_deferredStatus {best_diff : Nat} {zone : Option ZoneId}
    (h : a.fillOrOpen finish w fuel file best_diff zone level = some r) :
    r.state.deferredStatus = a.deferredStatus := by
  unfold fillOrOpen at h
  split at h
  · split at h
    · obtain rfl := Option.some.inj h
      rfl
    · obtain rfl := Option.some.inj h
      rfl
  · split at h
    rename_i a₁ got_token h₁
    have ha₁ : a₁.deferredStatus = a.deferredStatus := by
      rw [← getActiveIOZoneTokenIfAvailable_deferredStatus a, h₁]
    split at h
    · exact (openEmptyZone_deferredStatus h).trans ha₁
    · split at h
      · obtain rfl := Option.some.inj h
        exact ha₁
      split at h
      · split at h
        · rename_i a₂ h₂
          obtain ⟨rfl, -⟩ := Prod.mk.inj h₂
          exact (openEmptyZone_deferredStatus h).trans ha₁
        · rename_i a₂ s _ h₂
          obtain ⟨rfl, -⟩ := Prod.mk.inj h₂
          obtain rfl := Option.some.inj h
          cases got_token <;> exact ha₁
      · obtain rfl := Option.some.inj h
        cases got_token <;> exact ha₁

theorem findZone_deferredStatus {io_type : IOType}
    (h : a.findZone finish w fuel file io_type level min_capacity = some r) :
    r.state.deferredStatus = a.deferredStatus := by
  unfold findZone at h
  split at h
  · cases h
  · rename_i a₁ h₁
    have ha₁ : a₁.deferredStatus = a.deferredStatus := by
      unfold waitForOpenIOZoneToken at h₁
      extract_lets limit at h₁
      split at h₁
      · obtain rfl := Option.some.inj h₁
        rfl
      · cases h₁
    split at h
    · cases h
    · dsimp only at h
      split at h
      · exact (fillOrOpen_deferredStatus h).trans ha₁
      · obtain rfl := Option.some.inj h
        exact ha₁

theorem allocateIOZoneNoLock_deferredStatus {io_type : IOType}
    (h : a.allocateIOZoneNoLock finish w fuel file io_type level min_capacity = some r) :
    r.state.deferredStatus = a.deferredStatus := by
  unfold allocateIOZoneNoLock at h
  dsimp only at h
  split at h
  · have hfinish := (@beforeSearch_finishes finish a io_type level).deferredStatus
    split at h
    · rename_i a₂ h₂
      rw [h₂] at hfinish
      exact (findZone_deferredStatus h).trans hfinish
    · rename_i a₂ s _ h₂
      rw [h₂] at hfinish
      obtain rfl := Option.some.inj h
      exact hfinish
  · obtain rfl := Option.some.inj h
    exact (raiseMaxLevel_finishes a level).deferredStatus

/-! ## What does not fail by itself -/

section Finish

variable (hfinish : ∀ i, finish i = .ok)

theorem checkRelease_ok {i : ZoneId} (h : a.table.busy i = true) : (a.checkRelease i).2 = .ok := by
  unfold checkRelease TryLock.release
  rw [h]
  rfl

include hfinish

theorem finishCheapestIOZone_ok : (a.finishCheapestIOZone finish).2 = .ok := by
  unfold finishCheapestIOZone
  have hr : TryLock.Ends (fun _ ↦ True) a.table.busy a.finishVictim :=
    TryLock.scan_none_ends fun _ _ _ _ _ _ ↦ trivial
  generalize a.finishVictim = r at hr
  dsimp only
  rw [hr.stuck]
  cases hv : r.best with
  | none => rfl
  | some v =>
      dsimp only
      unfold finishAndRelease
      rw [hfinish v]
      refine checkRelease_ok ?_
      show r.flags v = true
      rw [hr.flags, hv]
      simp

theorem finishUntilToken_ok {a' : Allocator} {s : Status}
    (h : finishUntilToken finish fuel a = some (a', s)) : s = .ok := by
  induction fuel generalizing a with
  | zero => cases h
  | succ fuel ih =>
      rw [finishUntilToken] at h
      split at h
      · exact (Prod.mk.inj (Option.some.inj h)).2.symm
      · split at h
        · exact ih h
        · rename_i a₁ _ _ a₂ s₂ hs₂ h₂
          have hok := finishCheapestIOZone_ok (a := a₁) hfinish
          rw [h₂] at hok
          exact absurd hok hs₂

theorem openEmptyZone_ok {got_token : Bool}
    (h : a.openEmptyZone finish w fuel file got_token level = some r) : r.status = .ok := by
  unfold openEmptyZone at h
  split at h
  · cases h
  · split at h
    · cases h
    · rename_i o ho
      have hok := (allocateEmptyZone_selects ho).1.status
      rw [hok] at h
      cases hz : o.zone with
      | none =>
          rw [hz] at h
          obtain rfl := Option.some.inj h
          rfl
      | some i =>
          rw [hz] at h
          obtain rfl := Option.some.inj h
          rfl
  · rename_i a₁ s hs h₁
    split at h₁
    · exact absurd (Prod.mk.inj (Option.some.inj h₁)).2.symm hs
    · exact absurd (finishUntilToken_ok hfinish h₁) hs

theorem fillOrOpen_ok {best_diff : Nat} {zone : Option ZoneId}
    (hbusy : ∀ i, zone = some i → a.table.busy i = true)
    (h : a.fillOrOpen finish w fuel file best_diff zone level = some r) : r.status = .ok := by
  unfold fillOrOpen at h
  split at h
  · split at h
    · obtain rfl := Option.some.inj h
      rfl
    · obtain rfl := Option.some.inj h
      rfl
  · split at h
    rename_i a₁ got_token h₁
    have htable : a₁.table = a.table := by
      rw [← getActiveIOZoneTokenIfAvailable_table a, h₁]
    split at h
    · exact openEmptyZone_ok hfinish h
    · rename_i i
      split at h
      · obtain rfl := Option.some.inj h
        rfl
      split at h
      · split at h
        · exact openEmptyZone_ok hfinish h
        · rename_i s hs hrel
          have hok : (a₁.checkRelease i).2 = .ok := checkRelease_ok (by rw [htable, hbusy i rfl])
          rw [hrel] at hok
          exact absurd hok hs
      · obtain rfl := Option.some.inj h
        rfl

/-- Without a deferred error a call for the write-ahead log fails only where the backend
fails to finish a zone. -/
theorem allocateIOZoneNoLock_ok (hdeferred : a.deferredStatus = .ok)
    (h : a.allocateIOZoneNoLock finish w fuel file .kWAL level min_capacity = some r) :
    r.status = .ok := by
  unfold allocateIOZoneNoLock at h
  have hraise : (a.raiseMaxLevel level).deferredStatus = .ok := by
    unfold raiseMaxLevel
    split
    · exact hdeferred
    · exact hdeferred
  generalize a.raiseMaxLevel level = a₁ at h hraise
  simp only [hraise, ne_eq, not_true_eq_false, if_false] at h
  unfold findZone at h
  split at h
  · cases h
  · rename_i a₂ h₂
    split at h
    · cases h
    · rename_i s hs
      have hfits := getBestOpenZoneMatch_fits (t := a₂.table) ⟨rfl, rfl, rfl, rfl, rfl⟩ hs
      have hstatus : s.status = .ok := hfits.status
      simp only [hstatus] at h
      refine fillOrOpen_ok hfinish (fun i hi ↦ ?_) h
      have hbusy : s.table.busy = TryLock.hold a₂.table.busy s.zoneOut := hfits.busy
      show s.table.busy i = true
      rw [hbusy, hi]
      simp

end Finish

/-! ## Runs -/

/-- The arguments of a call, and what the other files and the backend decide. -/
structure Request where
  finish : ZoneId → Status := fun _ ↦ .ok
  placement : Placement := {}
  file : FileInfo := {}
  io_type : IOType := .kWAL
  level : Int := 0
  min_capacity : Nat := 0

/-- The call. -/
def allocate (a : Allocator) (q : Request) (fuel : Nat) : Option Allocation :=
  a.allocateIOZoneNoLock q.finish q.placement fuel q.file q.io_type q.level q.min_capacity

/-- The device between two steps.  `reported` is not in the source: it holds the
errors that destructors have reported. -/
structure Session where
  allocator : Allocator
  reported : List Status := []

/-- What happens to the device.  The rest of the code changes zones and tokens, but
leaves the deferred status alone. -/
inductive Event where
  | destroyWritableFile (closeInternal : Status)
  | allocateIOZoneNoLock (q : Request) (fuel : Nat)
  | other (a : Allocator)

/-- One step of a run. -/
def Session.step (s : Session) : Event → Option Session
  | .destroyWritableFile status =>
      some
        { allocator := s.allocator.destroyZonedWritableFile status
          reported := if status.isOk then s.reported else s.reported ++ [status] }
  | .allocateIOZoneNoLock q fuel =>
      (s.allocator.allocate q fuel).map fun r ↦ { s with allocator := r.state }
  | .other a => if a.deferredStatus = s.allocator.deferredStatus then some { s with
      allocator := a } else none

/-- The states of the runs that start without an error. -/
def Session.Reached (s : Session) : Prop :=
  ∃ a : Allocator, a.deferredStatus = .ok ∧ Reach Session.step (fun _ _ ↦ True) { allocator := a } s

/-- A call returns the first reported error, and no zone. -/
def Session.ReportsError (s : Session) : Prop :=
  ∀ e, s.reported.head? = some e → ∀ q, ∃ fuel r, s.allocator.allocate q fuel = some r ∧
    r.status = e ∧ r.zone = none

namespace Session

variable {s s' : Session} {ev : Event}

/-- The invariant: the status is OK, whatever has been reported. -/
structure Unaware (s : Session) : Prop where
  deferredStatus : s.allocator.deferredStatus = .ok
  reported : ∀ e ∈ s.reported, e ≠ .ok

/-- No step brings an error into the status. -/
theorem Unaware.step (hs : s.Unaware) (h : s.step ev = some s') : s'.Unaware := by
  cases ev with
  | destroyWritableFile status =>
      obtain rfl := Option.some.inj h
      constructor
      · show (s.allocator.destroyZonedWritableFile status).deferredStatus = .ok
        rw [destroyZonedWritableFile_of_ok hs.deferredStatus]
        exact hs.deferredStatus
      · intro e he
        dsimp only at he
        split at he
        · exact hs.reported e he
        · rename_i hfailed
          rcases List.mem_append.mp he with he | he
          · exact hs.reported e he
          · obtain rfl := List.mem_singleton.mp he
            rintro rfl
            exact hfailed rfl
  | allocateIOZoneNoLock q fuel =>
      obtain ⟨r, hr, rfl⟩ := Option.map_eq_some_iff.mp h
      exact ⟨(allocateIOZoneNoLock_deferredStatus hr).trans hs.deferredStatus, hs.reported⟩
  | other a =>
      unfold Session.step at h
      dsimp only at h
      split at h
      · rename_i ha
        obtain rfl := Option.some.inj h
        exact ⟨ha.trans hs.deferredStatus, hs.reported⟩
      · cases h

/-- Nor does a run. -/
theorem Reached.unaware (h : s.Reached) : s.Unaware := by
  obtain ⟨a, ha, hr⟩ := h
  exact hr.invariant ⟨ha, nofun⟩ fun ht _ hstep ↦ ht.step hstep

/-- A call for the write-ahead log does not return a reported error. -/
theorem Unaware.not_reportsError (hs : s.Unaware) (hrep : s.reported ≠ []) : ¬ s.ReportsError := by
  intro hr
  obtain ⟨e, es, he⟩ := List.exists_cons_of_ne_nil hrep
  obtain ⟨fuel, r, halloc, hstatus, -⟩ := hr e (by rw [he]; rfl) {}
  have hok := allocateIOZoneNoLock_ok (fun _ ↦ rfl) hs.deferredStatus halloc
  rw [hok] at hstatus
  exact hs.reported e (by rw [he]; exact List.mem_cons_self) hstatus.symm

/-- In every state of every run the first reported error reaches the calls if and only
if none has been reported. -/
theorem reportsError_iff (h : s.Reached) : s.ReportsError ↔ s.reported = [] := by
  constructor
  · intro hr
    exact not_ne_iff.mp fun hne ↦ h.unaware.not_reportsError hne hr
  · intro hrep e he
    rw [hrep] at he
    cases he

/-- A device with one empty zone. -/
def fresh : Session where
  allocator := { table := halfWritten, maxNrOpenIoZones := 4, maxNrActiveIoZones := 4 }

/-- Behind a destructor whose `CloseInternal` has failed. -/
def afterFailure : Session := { fresh with reported := [.ioError "Failed"] }

theorem reached_afterFailure : afterFailure.Reached :=
  ⟨fresh.allocator, rfl, Reach.refl.tail (i := .destroyWritableFile (.ioError "Failed"))
    trivial rfl⟩

theorem reportsError_afterFailure : afterFailure.reported ≠ [] ∧ ¬ afterFailure.ReportsError := by
  have hne : afterFailure.reported ≠ [] := List.cons_ne_nil _ _
  exact ⟨hne, fun h ↦ hne ((reportsError_iff reached_afterFailure).mp h)⟩

/-- A destructor fails, and the next call gets a zone. -/
theorem error_not_reported : ¬ ∀ s : Session, s.Reached → s.ReportsError := by
  intro h
  exact reached_afterFailure.unaware.not_reportsError (List.cons_ne_nil _ _)
    (h _ reached_afterFailure)

end Session

end Allocator

end Alloc

end ZenFs
