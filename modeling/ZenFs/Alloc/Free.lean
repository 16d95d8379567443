import ZenFs.Alloc.Capacity

/-!
# The zone that is returned was free

`AllocateIOZoneNoLock` acquires and releases zones on its way.  It only releases what it
has acquired, so that it does not return a zone that somebody else holds.
-/

namespace ZenFs

namespace Alloc

namespace Allocator

variable {a : Allocator} {finish : ZoneId → Status} {w : Placement} {fuel : Nat} {file : FileInfo}
  {level : Int} {r : Allocation} {i : ZoneId}

theorem openEmptyZone_free {got_token : Bool}
    (h : a.openEmptyZone finish w fuel file got_token level = some r)
    (hi : r.zone = some i) : a.table.busy i = false := by
  unfold openEmptyZone at h
  split at h
  · cases h
  · rename_i a₁ h₁
    have hbusy := (finishForToken_finishes h₁).busy
    split at h
    · cases h
    · rename_i o ho
      obtain ⟨hsel, -⟩ := allocateEmptyZone_selects ho
      dsimp only at h
      split at h
      · rename_i j hj
        obtain rfl := Option.some.inj h
        obtain rfl := Option.some.inj hi
        exact hbusy ▸ hsel.free _ hj
      · obtain rfl := Option.some.inj h
        cases hi
      · obtain rfl := Option.some.inj h
        cases hi
  · obtain rfl := Option.some.inj h
    cases hi

/-- What is returned in the end is the match, or an empty zone that is free once the match
is released. -/
theorem fillOrOpen_free {t : Table} {best_diff : Nat} {zone : Option ZoneId}
    (hheld : a.table.busy = TryLock.hold t.busy zone)
    (hfree : ∀ j, zone = some j → t.busy j = false)
    (h : a.fillOrOpen finish w fuel file best_diff zone level = some r) (hi : r.zone = some i) :
    t.busy i = false := by
  unfold fillOrOpen at h
  split at h
  · cases zone with
    | none =>
        obtain rfl := Option.some.inj h
        cases hi
    | some j =>
        obtain rfl := Option.some.inj h
        exact hfree i hi
  · split at h
    rename_i a₁ got_token h₁
    have htable : a₁.table = a.table := by
      rw [← getActiveIOZoneTokenIfAvailable_table a, h₁]
    cases zone with
    | none =>
        have hopen := openEmptyZone_free h hi
        rwa [htable, hheld] at hopen
    | some j =>
        dsimp only at h
        split at h
        · obtain rfl := Option.some.inj h
          exact hfree i hi
        split at h
        · split at h
          · rename_i a₂ h₂
            rw [checkRelease_acquired (a := a₁) (hfree j rfl) (htable ▸ hheld)] at h₂
            obtain ⟨rfl, -⟩ := Prod.mk.inj h₂
            exact openEmptyZone_free h hi
          · obtain rfl := Option.some.inj h
            cases hi
        · obtain rfl := Option.some.inj h
          exact hfree i hi

/-- Nobody holds the zone that is returned. -/
theorem allocateIOZoneNoLock_free {io_type : IOType} {min_capacity : Nat}
    (h : a.allocateIOZoneNoLock finish w fuel file io_type level min_capacity = some r)
    (hi : r.zone = some i) : a.table.busy i = false := by
  unfold allocateIOZoneNoLock at h
  dsimp only at h
  split at h
  · have hbusy := (@beforeSearch_finishes finish a io_type level).busy
    split at h
    · rename_i a₂ h₂
      rw [h₂] at hbusy
      rw [← hbusy]
      unfold findZone at h
      split at h
      · cases h
      · rename_i a₃ h₃
        rw [waitForOpenIOZoneToken_table h₃] at h
        split at h
        · cases h
        · rename_i s hs
          have hfits := getBestOpenZoneMatch_fits (t := a₂.table) ⟨rfl, rfl, rfl, rfl, rfl⟩ hs
          dsimp only at h
          split at h
          · exact fillOrOpen_free hfits.busy hfits.free h hi
          · obtain rfl := Option.some.inj h
            cases hi
    · obtain rfl := Option.some.inj h
      cases hi
  · obtain rfl := Option.some.inj h
    cases hi

end Allocator

end Alloc

end ZenFs
