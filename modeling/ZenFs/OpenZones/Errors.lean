import ZenFs.OpenZones.Permits

/-!
# Open zone tokens survive errors

Each function leaves its caller with what it had when it returns an error, and with a
zone and its token when it returns one.  A `Close` that the backend does not carry out
is the exception: `CloseActiveZone` releases the zone but not the token, and
`ReleaseMigrateZone` neither.  In runs without it, the open tokens are those of the
zones that files have whenever no operation is in progress, and no other zone is busy.
-/

namespace ZenFs

namespace OpenZones

open Pool Permit

variable {cfg : Config} {m : Multiset Permit} {i : ZoneId} {f : Nat} {z : Option ZoneId}

/-! ## Branches -/

section Branches

variable {α : Type} {p q : Op α} {Q : α → Multiset Permit → Prop}

theorem wp_if_acquire (hbusy : (sharing cfg).wp q Q m)
    (hfree : (sharing cfg).wp p Q (zone i ::ₘ m)) :
    (sharing cfg).wp (do if ← acquire i then p else q) Q m :=
  Sharing.wp_seq (wp_acquire hbusy hfree)

theorem wp_if_look {g : OpenZones → Choice → Bool} (hno : (sharing cfg).wp q Q m)
    (hyes : (sharing cfg).wp p Q m) : (sharing cfg).wp (do if ← look g then p else q) Q m := by
  refine Sharing.wp_seq (wp_look ?_)
  rintro (_ | _)
  · exact hno
  · exact hyes

end Branches

/-! ## Finishing zones -/

section Finish

variable {Q : Status → Multiset Permit → Prop} {R : Status × Option ZoneId → Multiset Permit → Prop}

/-- With a zone, its `busy_` flag. -/
def withZone (m : Multiset Permit) : Option ZoneId → Multiset Permit
  | none => m
  | some i => zone i ::ₘ m

theorem wp_finishThresholdLoop (zs : List ZoneId) (h : ∀ s, Q s m) :
    (sharing cfg).wp (finishThresholdLoop cfg zs) Q m := by
  induction zs with
  | nil => exact h .ok
  | cons z zs ih =>
      rw [finishThresholdLoop]
      refine wp_if_acquire ih (wp_if_look (Sharing.wp_seq (wp_release ih)) ?_)
      refine Sharing.wp_seq (wp_finish fun s ↦ ?_)
      cases s with
      | ok => exact Sharing.wp_seq (wp_release (Sharing.wp_seq (wp_putActiveIOZoneToken_ofZone ih)))
      | _ => exact Sharing.wp_seq (wp_release (h _))

theorem wp_applyFinishThreshold (h : ∀ s, Q s m) :
    (sharing cfg).wp (applyFinishThreshold cfg) Q m := by
  rw [applyFinishThreshold]
  split
  · exact h .ok
  · exact wp_finishThresholdLoop cfg.ioZones h

theorem wp_finishVictim (h : ∀ v, R (.ok, v) (withZone m v)) (zs : List ZoneId)
    (v : Option ZoneId) : (sharing cfg).wp (finishVictim zs v) R (withZone m v) := by
  induction zs generalizing v with
  | nil => exact h v
  | cons z zs ih =>
      rw [finishVictim.eq_def]
      refine wp_if_acquire (ih v) (wp_if_look ?_ (Sharing.wp_seq (wp_release (ih v))))
      cases v with
      | none => exact ih (some z)
      | some old =>
          refine wp_if_look (Sharing.wp_seq (wp_release (ih (some old)))) (Sharing.wp_seq ?_)
          rw [withZone, Multiset.cons_swap]
          exact wp_release (ih (some z))

theorem wp_finishCheapestIOZone (h : ∀ s, Q s m) :
    (sharing cfg).wp (finishCheapestIOZone cfg) Q m := by
  rw [finishCheapestIOZone]
  refine Sharing.wp_seq (wp_finishVictim (m := m) (fun v ↦ ?_) cfg.ioZones none)
  cases v with
  | none => exact h .ok
  | some v =>
      refine Sharing.wp_seq (wp_finish fun s ↦ Sharing.wp_seq (wp_release (Sharing.wp_seq ?_)))
      exact wp_whenever (fun _ ↦ h _) fun _ ↦ wp_putActiveIOZoneToken_ofZone (h _)

/-- The loop ends with a token, or with an error and without one. -/
theorem wp_finishUntilToken (h : Q .ok (activeToken ::ₘ m)) (he : ∀ s, s ≠ .ok → Q s m) :
    (sharing cfg).wp (finishUntilToken cfg) Q m := by
  refine Sharing.wp_loop (fun _ m' ↦ m' = m) rfl ?_
  rintro r m' rfl
  refine Sharing.wp_seq (wp_getActiveIOZoneTokenIfAvailable ?_ h)
  refine Sharing.wp_seq (wp_finishCheapestIOZone fun s ↦ ?_)
  cases s with
  | ok => exact rfl
  | _ => exact he _ (by simp)

end Finish

/-! ## Finding a zone -/

/-- The search ends without an error, and with the zone that it returns. -/
def Finds (cfg : Config) (p : Op (Status × Option ZoneId)) : Prop :=
  ∀ (m : Multiset Permit) (R : Status × Option ZoneId → Multiset Permit → Prop),
    (∀ v, R (.ok, v) (withZone m v)) → (sharing cfg).wp p R m

namespace Finds

variable {p : Op (Status × Option ZoneId)}

theorem wp {R : Status × Option ZoneId → Multiset Permit → Prop} (hp : Finds cfg p)
    (h : ∀ v, R (.ok, v) (withZone m v)) : (sharing cfg).wp p R m :=
  hp m R h

/-- The invariant of the loops: the best zone so far is held. -/
theorem loop {round : Option ZoneId → Op ((Status × Option ZoneId) ⊕ Option ZoneId)}
    (hround : ∀ (m : Multiset Permit) (best : Option ZoneId)
      (R : (Status × Option ZoneId) ⊕ Option ZoneId → Multiset Permit → Prop),
      (∀ v, R (.inl (.ok, v)) (withZone m v)) → (∀ v, R (.inr v) (withZone m v)) →
        (sharing cfg).wp (round best) R (withZone m best)) : Finds cfg (.loop round none) := by
  intro m R h
  refine Sharing.wp_loop (fun best m' ↦ m' = withZone m best) rfl ?_
  rintro best m' rfl
  exact hround m best _ h fun _ ↦ rfl

theorem scanRound (test prefers : OpenZones → Choice → ZoneId → Bool) :
    Finds cfg (.loop (scanRound test prefers) none) := by
  refine loop fun m best R hend hgo ↦ Sharing.wp_seq (wp_look ?_)
  rintro (_ | z)
  · exact hend best
  refine wp_if_acquire (hgo best) (wp_if_look (Sharing.wp_seq (wp_release (hgo best))) ?_)
  cases best with
  | none => exact hgo (some z)
  | some old =>
      refine Sharing.wp_seq ?_
      rw [withZone, Multiset.cons_swap]
      exact wp_release (hgo (some z))

theorem matchPolicy : Finds cfg matchPolicy := scanRound _ _

theorem getBestOpenZoneMatch : Finds cfg getBestOpenZoneMatch := by
  intro m R h
  refine wp_if_look (Sharing.wp_seq (matchPolicy.wp ?_)) (matchPolicy.wp h)
  rintro (_ | i)
  · refine Sharing.wp_seq (matchPolicy.wp ?_)
    rintro (_ | i)
    · exact matchPolicy.wp h
    · exact h (some i)
  · exact h (some i)

theorem firstEmpty : Finds cfg firstEmpty := by
  intro m R h
  refine Sharing.wp_loop (fun _ m' ↦ m' = m) rfl ?_
  rintro r m' rfl
  refine Sharing.wp_seq (wp_look ?_)
  rintro (_ | z)
  · exact h none
  · exact wp_if_acquire rfl (wp_if_look (Sharing.wp_seq (wp_release rfl)) (h (some z)))

theorem allocateEmptyZoneLeastWear : Finds cfg allocateEmptyZoneLeastWear := by
  refine loop fun m best R hend hgo ↦ Sharing.wp_seq (wp_look ?_)
  rintro (_ | z)
  · exact hend best
  refine wp_if_acquire (hgo best) (wp_if_look (Sharing.wp_seq (wp_release (hgo best))) ?_)
  cases best with
  | none => exact hgo (some z)
  | some old =>
      refine wp_if_look (Sharing.wp_seq ?_) (Sharing.wp_seq (wp_release (hgo (some old))))
      rw [withZone, Multiset.cons_swap]
      exact wp_release (hgo (some z))

/-- Of the two zones the one that is not returned is released. -/
theorem wp_closerOf {R : Status × Option ZoneId → Multiset Permit → Prop}
    (h : ∀ v, R (.ok, v) (withZone m v)) (lower upper : Option ZoneId) :
    (sharing cfg).wp (closerOf lower upper) R (withZone (withZone m upper) lower) := by
  cases lower with
  | none =>
      cases upper with
      | none => exact firstEmpty.wp h
      | some u => exact h (some u)
  | some l =>
      cases upper with
      | none => exact h (some l)
      | some u =>
          refine wp_if_look (Sharing.wp_seq (wp_release (h (some u)))) (Sharing.wp_seq ?_)
          rw [withZone, withZone, Multiset.cons_swap]
          exact wp_release (h (some l))

theorem allocateEmptyZoneHotnessBased : Finds cfg allocateEmptyZoneHotnessBased := by
  intro m R h
  refine Sharing.wp_seq (firstEmpty.wp ?_)
  rintro (_ | i)
  · refine Sharing.wp_seq (firstEmpty.wp fun upper ↦ Sharing.wp_seq (firstEmpty.wp fun lower ↦ ?_))
    exact wp_closerOf h lower upper
  · exact h (some i)

theorem allocateEmptyZone : Finds cfg (allocateEmptyZone cfg) := by
  intro m R h
  rw [OpenZones.allocateEmptyZone]
  split
  · exact allocateEmptyZoneLeastWear.wp h
  · exact wp_if_look (allocateEmptyZoneLeastWear.wp h) (allocateEmptyZoneHotnessBased.wp h)
  · exact firstEmpty.wp h

end Finds

/-! ## Allocation -/

section Allocation

variable {R : Status × Option ZoneId → Multiset Permit → Prop}

/-- With an active token that was got. -/
def withToken (m : Multiset Permit) : Bool → Multiset Permit
  | true => activeToken ::ₘ m
  | false => m

/-- What an allocation may end with: no zone and nothing else, whatever the status, or a
zone and its open token. -/
structure Allots (R : Status × Option ZoneId → Multiset Permit → Prop) (m : Multiset Permit) :
    Prop where
  nothing : ∀ s, R (s, none) m
  found : ∀ i, R (.ok, some i) (zone i ::ₘ openToken ::ₘ m)

/-- A return without a zone gives back the open token. -/
theorem Allots.giveBack (h : Allots R m) (s : Status) :
    (sharing cfg).wp (do
      putOpenIOZoneToken
      pure (s, none)) R (openToken ::ₘ m) :=
  Sharing.wp_seq (wp_putOpenIOZoneToken (h.nothing s))

theorem wp_takeEmptyZone (h : Allots R m) :
    (sharing cfg).wp (takeEmptyZone cfg) R (activeToken ::ₘ openToken ::ₘ m) := by
  refine Sharing.wp_seq (Finds.allocateEmptyZone.wp ?_)
  rintro (_ | i)
  · exact Sharing.wp_seq (wp_putActiveIOZoneToken (h.giveBack .ok))
  · refine Sharing.wp_seq ?_
    rw [withZone, Multiset.cons_swap]
    exact wp_label (h.found i)

theorem wp_openEmptyZone (h : Allots R m) (got_token : Bool) :
    (sharing cfg).wp (openEmptyZone cfg got_token) R (withToken (openToken ::ₘ m) got_token) := by
  cases got_token with
  | true => exact wp_takeEmptyZone h
  | false =>
      refine Sharing.wp_seq (wp_finishUntilToken (wp_takeEmptyZone h) fun s hs ↦ ?_)
      cases s with
      | ok => exact absurd rfl hs
      | _ => exact h.giveBack _

theorem wp_keepOrReplace (h : Allots R m) (i : ZoneId) (best_diff : Nat) (got_token : Bool) :
    (sharing cfg).wp (keepOrReplace cfg i best_diff got_token) R
      (withToken (zone i ::ₘ openToken ::ₘ m) got_token) := by
  have hkeep : ∀ got_token, (sharing cfg).wp (do
      whenever got_token (putActiveIOZoneToken false)
      pure (.ok, some i)) R (withToken (zone i ::ₘ openToken ::ₘ m) got_token) := by
    rintro (_ | _)
    · exact h.found i
    · exact Sharing.wp_seq (wp_putActiveIOZoneToken (h.found i))
  cases got_token with
  | false =>
      rw [keepOrReplace.eq_def]
      split
      · exact h.found i
      · exact wp_if_look (hkeep false) (Sharing.wp_seq (wp_release (wp_openEmptyZone h false)))
  | true =>
      refine wp_if_look (hkeep true) (Sharing.wp_seq ?_)
      rw [withToken, Multiset.cons_swap]
      exact wp_release (wp_openEmptyZone h true)

theorem wp_fillOrOpen (h : Allots R m) (best_diff : Nat) (v : Option ZoneId) :
    (sharing cfg).wp (fillOrOpen cfg best_diff v) R (withZone (openToken ::ₘ m) v) := by
  rw [fillOrOpen.eq_def]
  split
  · cases v with
    | none => exact h.giveBack .ok
    | some i => exact h.found i
  · cases v with
    | none =>
        exact Sharing.wp_seq
          (wp_getActiveIOZoneTokenIfAvailable (wp_openEmptyZone h false) (wp_openEmptyZone h true))
    | some i =>
        exact Sharing.wp_seq
          (wp_getActiveIOZoneTokenIfAvailable (wp_keepOrReplace h i best_diff false)
          (wp_keepOrReplace h i best_diff true))

theorem wp_findZone (h : Allots R m) (wal : Bool) : (sharing cfg).wp (findZone cfg wal) R m := by
  refine Sharing.wp_seq (wp_waitForOpenIOZoneToken ?_)
  refine Sharing.wp_seq (Finds.getBestOpenZoneMatch.wp fun v ↦ ?_)
  exact Sharing.wp_seq (wp_look fun best_diff ↦ wp_fillOrOpen h best_diff v)

/-- Every error return of `AllocateIOZoneNoLock` leaves the caller with what it had. -/
theorem wp_allocateIOZoneNoLock (h : Allots R m) (wal : Bool) :
    (sharing cfg).wp (allocateIOZoneNoLock cfg wal) R m := by
  refine Sharing.wp_seq (wp_look fun s ↦ ?_)
  cases s with
  | ok =>
      cases wal with
      | true => exact wp_findZone h true
      | false =>
          refine Sharing.wp_seq (wp_applyFinishThreshold fun s ↦ ?_)
          cases s with
          | ok => exact wp_findZone h false
          | _ => exact h.nothing _
  | _ => exact h.nothing _

end Allocation

/-! ## Files -/

section Files

variable {Q : Status → Multiset Permit → Prop}

/-- Without a failing `Close`, `CloseActiveZone` gives back the zone and the token. -/
theorem wp_closeActiveZone (h : Q .ok (file f none ::ₘ m)) :
    (sharing cfg).wp (closeActiveZone f) Q (file f z ::ₘ m) := by
  refine Sharing.wp_seq (wp_look_activeZone ?_)
  cases z with
  | none => exact h
  | some i =>
      refine Sharing.wp_seq (wp_look fun full ↦ Sharing.wp_seq (wp_close (Sharing.wp_seq ?_)))
      refine wp_releaseActiveZone (Sharing.wp_seq (wp_putOpenIOZoneToken (Sharing.wp_seq ?_)))
      exact wp_whenever (fun _ ↦ h) fun _ ↦ wp_putActiveIOZoneToken_ofZone h

theorem wp_allocateNewZone (h : ∀ s z, Q s (file f z ::ₘ m)) (wal : Bool) :
    (sharing cfg).wp (allocateNewZone cfg f wal) Q (file f none ::ₘ m) := by
  refine Sharing.wp_seq (wp_allocateIOZoneNoLock ⟨fun s ↦ ?_, fun i ↦ Sharing.wp_seq ?_⟩ wal)
  · cases s <;> exact h _ none
  · exact wp_setActiveZone (wp_look fun s ↦ h s (some i))

theorem wp_ensureZone (h : ∀ s z, Q s (file f z ::ₘ m)) (wal : Bool) :
    (sharing cfg).wp (ensureZone cfg f wal) Q (file f z ::ₘ m) := by
  refine Sharing.wp_seq (wp_look_activeZone ?_)
  cases z with
  | none => exact wp_allocateNewZone h wal
  | some i => exact h .ok (some i)

theorem wp_nextZone (h : ∀ s z, Q s (file f z ::ₘ m)) (wal : Bool) :
    (sharing cfg).wp (nextZone cfg f wal) Q (file f z ::ₘ m) :=
  Sharing.wp_seq (wp_closeActiveZone (wp_allocateNewZone h wal))

/-- The rounds of a loop that writes: the operation keeps the file, with whatever zone. -/
def Keeps (cfg : Config) (f : Nat) (round : Nat → Op (Status ⊕ Nat)) : Prop :=
  ∀ (m : Multiset Permit) (z : Option ZoneId) (left : Nat)
    (R : Status ⊕ Nat → Multiset Permit → Prop),
    (∀ r z, R r (file f z ::ₘ m)) → (sharing cfg).wp (round left) R (file f z ::ₘ m)

theorem keeps_bufferRound (wal : Bool) (header : Nat) :
    Keeps cfg f (bufferRound cfg f wal header) := by
  intro m z left R h
  refine Sharing.wp_seq (wp_look_activeZone ?_)
  cases z with
  | none => exact h _ none
  | some i =>
      refine Sharing.wp_seq (wp_look fun wrSize ↦ Sharing.wp_seq (wp_append fun s ↦ ?_))
      cases s with
      | ok =>
          refine Sharing.wp_seq
            (wp_addUsed (wp_if_look (h _ _) (Sharing.wp_seq (wp_nextZone ?_ wal))))
          intro s z
          cases s <;> exact h _ z
      | _ => exact h _ _

theorem keeps_directChunk : Keeps cfg f (directChunk f) := by
  intro m z left R h
  refine Sharing.wp_seq (wp_look_activeZone ?_)
  cases z with
  | none => exact h _ none
  | some i =>
      refine Sharing.wp_seq (wp_look fun n ↦ Sharing.wp_seq (wp_append fun s ↦ ?_))
      cases s with
      | ok => exact Sharing.wp_seq (wp_grow (h _ _))
      | _ => exact h _ _

theorem keeps_directRound (wal : Bool) : Keeps cfg f (directRound cfg f wal) := by
  intro m z left R h
  refine wp_if_look (keeps_directChunk m z left R h) (Sharing.wp_seq (wp_pushExtent ?_))
  refine Sharing.wp_seq (wp_nextZone (fun s z ↦ ?_) wal)
  cases s with
  | ok => exact keeps_directChunk m z left R h
  | _ => exact h _ z

theorem Keeps.whileLeft {round : Nat → Op (Status ⊕ Nat)} (hround : Keeps cfg f round)
    (h : ∀ s z, Q s (file f z ::ₘ m)) (left : Nat) :
    (sharing cfg).wp (whileLeft round left) Q (file f z ::ₘ m) := by
  refine Sharing.wp_loop (fun _ m' ↦ ∃ z, m' = file f z ::ₘ m) ⟨z, rfl⟩ ?_
  rintro left _ ⟨z, rfl⟩
  split
  · exact h .ok z
  · refine hround m z left _ ?_
    rintro (s | left') z
    · exact h s z
    · exact ⟨z, rfl⟩

theorem wp_appendData (h : ∀ s z, Q s (file f z ::ₘ m)) (mode : Tokens.Mode) (wal : Bool)
    (size : Nat) : (sharing cfg).wp (appendData cfg f mode wal size) Q (file f z ::ₘ m) := by
  refine Sharing.wp_seq (wp_ensureZone (fun s z ↦ ?_) wal)
  cases s with
  | ok =>
      cases mode with
      | buffered => exact (keeps_bufferRound wal 0).whileLeft h _
      | sparse => exact (keeps_bufferRound wal SPARSE_HEADER_SIZE).whileLeft h _
      | direct => exact (keeps_directRound wal).whileLeft h _
  | _ => exact h _ z

theorem wp_closeWR (h : ∀ s z, Q s (file f z ::ₘ m)) :
    (sharing cfg).wp (closeWR f) Q (file f z ::ₘ m) := by
  refine Sharing.wp_seq (wp_look fun s ↦ ?_)
  cases s with
  | ok => exact wp_closeActiveZone (h .ok none)
  | _ => exact h _ z

end Files

/-! ## Migration and resets -/

section Migration

variable {Q : Status → Multiset Permit → Prop} {R : Status × Option ZoneId → Multiset Permit → Prop}

theorem wp_takeMigrateZone (h : Allots R m) (wal : Bool) :
    (sharing cfg).wp (takeMigrateZone cfg wal) R m := by
  refine Sharing.wp_seq (wp_waitForMigration (Sharing.wp_seq (wp_allocateIOZoneNoLock ?_ wal)))
  refine ⟨fun s ↦ ?_, h.found⟩
  cases s <;> exact Sharing.wp_seq (wp_endMigration (h.nothing _))

theorem wp_releaseMigrateZone_none (h : Q .ok m) : (sharing cfg).wp (releaseMigrateZone none) Q m :=
  Sharing.wp_seq (wp_endMigration h)

/-- Without a failing `Close`, `ReleaseMigrateZone` gives back the zone and the token. -/
theorem wp_releaseMigrateZone (h : Q .ok m) :
    (sharing cfg).wp (releaseMigrateZone (some i)) Q (zone i ::ₘ openToken ::ₘ m) := by
  refine Sharing.wp_seq
    (wp_endMigration (Sharing.wp_seq (wp_look fun full ↦ Sharing.wp_seq (wp_close ?_))))
  refine Sharing.wp_seq (wp_release (Sharing.wp_seq (wp_putOpenIOZoneToken (Sharing.wp_seq ?_))))
  exact wp_whenever (fun _ ↦ h) fun _ ↦ wp_putActiveIOZoneToken_ofZone h

theorem wp_migrateData (h : ∀ s, Q s m) (length : Nat) :
    (sharing cfg).wp (migrateData i length) Q m := by
  refine Sharing.wp_loop (fun _ m' ↦ m' = m) rfl ?_
  rintro left m' rfl
  split
  · exact h .ok
  · refine Sharing.wp_seq (wp_look fun s ↦ ?_)
    cases s with
    | ok => exact Sharing.wp_seq (wp_look fun r ↦ Sharing.wp_seq (wp_append fun _ ↦ rfl))
    | _ => exact h _

theorem wp_migrateExtent {Q : Bool → Multiset Permit → Prop} (h : ∀ b, Q b m) (wal : Bool)
    (header length : Nat) : (sharing cfg).wp (migrateExtent cfg wal header length) Q m := by
  refine Sharing.wp_seq (wp_takeMigrateZone ⟨fun s ↦ ?_, fun i ↦ ?_⟩ wal)
  · cases s with
    | ok => exact Sharing.wp_seq (wp_releaseMigrateZone_none (h true))
    | _ => exact h true
  · refine Sharing.wp_seq
      (wp_migrateData (fun _ ↦ wp_if_look ?_ (Sharing.wp_seq (wp_addUsed ?_))) _)
    · exact Sharing.wp_seq (wp_releaseMigrateZone (h false))
    · exact Sharing.wp_seq (wp_releaseMigrateZone (h true))

theorem wp_migrateFileExtents {Q : Unit → Multiset Permit → Prop} (h : Q () m) (wal : Bool)
    (header : Nat) (lengths : List Nat) :
    (sharing cfg).wp (migrateFileExtents cfg wal header lengths) Q m := by
  induction lengths with
  | nil => exact h
  | cons n ns ih =>
      refine Sharing.wp_seq (wp_migrateExtent ?_ wal header n)
      rintro (_ | _)
      · exact h
      · exact ih

theorem wp_resetUnusedIOZones (h : ∀ s, Q s m) (zs : List ZoneId) :
    (sharing cfg).wp (resetUnusedIOZones zs) Q m := by
  induction zs with
  | nil => exact h .ok
  | cons z zs ih =>
      rw [resetUnusedIOZones]
      refine wp_if_acquire ih (wp_if_look (Sharing.wp_seq (wp_release ih)) ?_)
      refine Sharing.wp_seq
        (wp_look fun full ↦ Sharing.wp_seq (wp_reset fun s ↦ Sharing.wp_seq (wp_release ?_)))
      cases s with
      | ok =>
          refine Sharing.wp_seq (wp_whenever (fun _ ↦ ih) fun _ ↦ ?_)
          exact wp_putActiveIOZoneToken_ofZone ih
      | _ => exact h _

end Migration

/-! ## Runs -/

/-- What a call begins with. -/
def Call.given (s : OpenZones) (call : Call) : Multiset Permit :=
  match call.file with
  | none => 0
  | some f => {Permit.file f (s.activeZone f)}

/-- Every call ends with nothing, whether it succeeds or not. -/
theorem wp_call (s : OpenZones) (call : Call) :
    (sharing cfg).wp (call.prog cfg) (fun _ m ↦ m = 0) (call.given s) := by
  cases call with
  | append f mode wal size =>
      refine Sharing.wp_seq ?_
      show Sharing.wp _ _ _ (file f (s.activeZone f) ::ₘ 0)
      exact wp_appendData (fun _ _ ↦ wp_leave rfl) mode wal size
  | closeWR f =>
      refine Sharing.wp_seq ?_
      show Sharing.wp _ _ _ (file f (s.activeZone f) ::ₘ 0)
      exact wp_closeWR fun _ _ ↦ wp_leave rfl
  | migrateFileExtents wal header lengths => exact wp_migrateFileExtents rfl wal header lengths
  | resetUnusedIOZones =>
      refine Sharing.wp_seq ?_
      show Sharing.wp _ _ _ 0
      refine wp_resetUnusedIOZones (fun _ ↦ ?_) cfg.ioZones
      exact rfl

theorem allows_of_failsClose {s : OpenZones} {c : Choice} {p : Op Unit}
    (h : s.failsClose c p = false) : (sharing cfg).Allows c s p := by
  cases p with
  | act e k =>
      cases e with
      | close i =>
          intro hp
          simpa [failsClose, hp, Status.isOk_iff] using h
      | _ => trivial
  | _ => trivial

namespace Valid

variable {s : OpenZones} {others : Multiset Permit}

theorem setInUse (h : Valid s others) (hf : f < s.nrFiles) (hu : s.inUse f = false) :
    Valid (s.setInUse f true) ({file f (s.activeZone f)} + others) := by
  rw [← zero_add others] at h
  refine h.gain ?_ (file f (s.activeZone f)) fun p ↦ ?_
  · refine ⟨rfl, rfl, fun g hg ↦ ?_⟩
    have hne : g ≠ f := Nat.ne_of_gt (Nat.lt_of_lt_of_le hf hg)
    simp [OpenZones.setInUse, hne]
  · rw [issued_setInUse]
    split
    · subst p
      simp [issued, hu]
    · simp

/-- A new file has no zone. -/
theorem create (h : Valid s others) : Valid { s with nrFiles := s.nrFiles + 1 } others := by
  have hnone := h.fresh s.nrFiles (Nat.le_refl _)
  refine ⟨fun p ↦ ?_, fun f hf ↦ h.fresh f (Nat.le_of_succ_le hf)⟩
  have hfiles : withFiles { s with nrFiles := s.nrFiles + 1 } = s.withFiles := by
    rw [withFiles, Finset.sum_range_succ, hnone.1]
    exact add_zero _
  rw [hfiles]
  exact h.count p

theorem ofSame {s' : OpenZones} (h : Valid s others) (hs : Same s s') : Valid s' others := by
  rw [← zero_add others] at h ⊢
  exact h.same hs

end Valid

theorem valid_opened (reports : List Tokens.ZoneReport) (nrFiles : Nat) :
    Valid (opened reports nrFiles).shared 0 := by
  refine ⟨fun p ↦ ?_, fun f _ ↦ ⟨rfl, rfl⟩⟩
  have hfiles : (opened reports nrFiles).shared.withFiles = 0 := Finset.sum_eq_zero fun f _ ↦ rfl
  rw [hfiles]
  cases p with
  | zone i =>
      have hbusy : ((opened reports nrFiles).shared.zones i).busy = false := by
        show ((reports[i]?.map Tokens.ZoneReport.zone).getD default).busy = false
        cases reports[i]? <;> rfl
      simp [issued, hbusy]
  | activeToken => simp [issued, opened, still]
  | openToken | file => rfl

/-- The operations have what they need, after every step. -/
theorem exists_orderly_step {P P' : Machine} {l : Label} {own : Nat → Multiset Permit}
    (h : Orderly (sharing cfg) P own) (hl : spares P l = true) (hstep : step cfg P l = some P') :
    ∃ own', Orderly (sharing cfg) P' own' := by
  cases l with
  | start call =>
      have hwp : Sharing.wp (sharing cfg) (call.prog cfg) _ _ := wp_call P.shared call
      simp only [step, OpenZones.start, Call.given] at hstep hwp
      cases hf : call.file with
      | none =>
          rw [hf] at hstep hwp
          cases hstep
          refine h.spawn hwp fun others hv ↦ ?_
          rwa [zero_add]
      | some f =>
          rw [hf] at hstep hwp
          simp only at hstep hwp
          split at hstep
          · rename_i hfree
            cases hstep
            exact h.spawn hwp fun others hv ↦ Valid.setInUse hv hfree.1 hfree.2
          · cases hstep
  | go t c =>
      refine h.go (allows_of_failsClose ?_) hstep
      simpa [spares] using hl
  | create =>
      cases hstep
      exact ⟨own, h.outside fun _ hv ↦ Valid.create hv⟩
  | sync f =>
      simp only [step] at hstep
      split at hstep <;> cases hstep
      exact ⟨own, h.outside fun _ hv ↦ Valid.ofSame hv (same_pushExtent _ f)⟩
  | clear i n =>
      simp only [step] at hstep
      split at hstep <;> cases hstep
      exact ⟨own, h.outside fun _ hv ↦ Valid.ofSame hv (same_setZone rfl)⟩
  | destroy f =>
      have hnone : P.shared.activeZone f = none := by simpa [spares] using hl
      have hsame : P.shared.setActive f none = P.shared := by
        rw [setActive, ← hnone, Function.update_eq_self]
      simp only [step] at hstep
      split at hstep <;> cases hstep
      refine ⟨own, h.outside fun _ hv ↦ ?_⟩
      rwa [hsame]

/-- Every token and every `busy_` flag is that of a zone that a file has. -/
structure Balanced (s : OpenZones) : Prop where
  openTokens : s.openIoZones = s.heldZones.card
  busy : ∀ i, (s.zones i).busy = true → i ∈ s.heldZones
  activeTokens : s.activeIoZones = s.activeOfZones

/-- When nobody has anything, the files have it all. -/
theorem Valid.balanced {s : OpenZones} (h : Valid s 0) : Balanced s := by
  have hcount : ∀ p, (s.withFiles.count p : Int) = s.issued p := fun p ↦ by simpa using h.count p
  refine ⟨?_, fun i hi ↦ ?_, ?_⟩
  · rw [← count_openToken_withFiles fun i ↦ ?_]
    · exact (hcount openToken).symm
    · have hle : s.issued (zone i) ≤ 1 := by
        simp only [issued]
        split <;> simp
      exact_mod_cast (hcount (zone i)).trans_le hle
  · rw [← zone_mem_withFiles, ← Multiset.count_pos]
    have hone := hcount (zone i)
    simp only [issued, if_pos hi] at hone
    omega
  · have hnone := hcount activeToken
    rw [count_activeToken_withFiles] at hnone
    exact (sub_eq_zero.mp hnone.symm)

/-- As long as no `Close` of a partly written zone fails and no file ends with a zone,
who has returned, with an error or not, has given back what it had; and whenever no
operation is in progress, the open tokens are those of the zones that files have, and
no other zone is busy. -/
theorem tokens_survive_errors {reports : List Tokens.ZoneReport} {nrFiles : Nat} {P : Machine}
    (h : Reach (step cfg) (fun P l ↦ spares P l = true) (opened reports nrFiles) P) :
    (∃ own : Nat → Multiset Permit, (∀ t, (P.progs t).isDone = true → own t = 0) ∧
      Valid P.shared (∑ t ∈ Finset.range P.size, own t)) ∧ (P.Quiet → Balanced P.shared) := by
  have horderly : ∃ own, Orderly (sharing cfg) P own := by
    refine Reach.invariant (I := fun P ↦ ∃ own, Orderly (sharing cfg) P own) h ?_ ?_
    · exact ⟨_, Orderly.still (valid_opened reports nrFiles)⟩
    rintro P P' l ⟨own, ho⟩ hl hstep
    exact exists_orderly_step ho hl hstep
  obtain ⟨own, ho⟩ := horderly
  exact ⟨⟨own, fun t ↦ ho.own_eq_zero, ho.valid⟩, fun hq ↦ Valid.balanced (ho.valid_of_quiet hq)⟩

/-- A device with one zone of four blocks. -/
def oneZone : Config where
  ioZones := [0]
  zoneSize := 16384
  blockSize := 4096
  maxNrOpenIoZones := 2
  maxNrActiveIoZones := 2
  finishThreshold := 0
  emptyZoneAllocator := .kDefault

/-- Operation `t` allocates: the deferred status, the open token, no match, the active
token, and the empty zone. -/
def allocateRun (t : Nat) : List Label :=
  [.go t {}, .go t {}, .go t { yes := true }, .go t {}, .go t {}, .go t { num := 100 },
    .go t {}, .go t {}, .go t { zone := some 0 }, .go t {}, .go t {}, .go t {}]

/-- A file gets the zone, and the persist behind it reports `s`. -/
def appendRun (s : Status) : List Label :=
  [.start (.append 0 .direct false 4096), .go 0 {}] ++ allocateRun 0 ++
    [.go 0 {}, .go 0 { status := s }]

/-- The persist behind an allocation fails: the file has the zone and its token. -/
theorem tokens_survive_failed_persist :
    ∃ P : Machine, P.Quiet ∧ P.shared.heldZones = {0} ∧ Balanced P.shared := by
  have hrun : (runAll (fun P l ↦ if spares P l then step oneZone P l else none)
    (opened [Tokens.emptyZone 0] 1)
      (appendRun (.ioError "") ++ [.go 0 {}])).map
        (fun P ↦ decide P.Quiet && decide (P.shared.heldZones = {0})) = some true := rfl
  obtain ⟨P, hP, hΦ⟩ := Option.map_eq_some_iff.mp hrun
  simp only [Bool.and_eq_true, decide_eq_true_eq] at hΦ
  exact ⟨P, hΦ.1, hΦ.2, (tokens_survive_errors (Reach.of_checked _ hP)).2 hΦ.1⟩

/-- A file is closed, and its partly written zone is not: no file has the zone, and the
token is lost. -/
def failedCloseRun : List Label :=
  appendRun .ok ++ List.replicate 8 (.go 0 {}) ++
    [.start (.closeWR 0), .go 1 {}, .go 1 {}, .go 1 {}, .go 1 { status := .ioError "" },
      .go 1 {}, .go 1 {}]

/-- An extent of one block is migrated, and the zone it is copied to is not closed. -/
def failedMigrationRun : List Label :=
  [.start (.migrateFileExtents false 0 [4096]), .go 0 {}] ++ allocateRun 0 ++
    [.go 0 {}, .go 0 {}, .go 0 { num := 4096 }, .go 0 {}, .go 0 {}, .go 0 { yes := true },
      .go 0 {}, .go 0 {}, .go 0 {}, .go 0 { status := .ioError "" }]

/-- `CloseActiveZone` loses the token of a zone that cannot be closed, and
`ReleaseMigrateZone` its `busy_` flag too. -/
theorem failed_close_keeps_token :
    (∃ P, Reach (step oneZone) (fun _ _ ↦ True) (opened [Tokens.emptyZone 0] 1) P ∧ P.Quiet ∧
      P.shared.openIoZones = 1 ∧ P.shared.heldZones = ∅) ∧
    ∃ P, Reach (step oneZone) (fun _ _ ↦ True) (opened [Tokens.emptyZone 0] 1) P ∧ P.Quiet ∧
      P.shared.openIoZones = 1 ∧ P.shared.heldZones = ∅ ∧ (P.shared.zones 0).busy = true := by
  constructor
  · have hrun : (runAll (step oneZone) (opened [Tokens.emptyZone 0] 1) failedCloseRun).map (fun P ↦
        decide P.Quiet && decide (P.shared.openIoZones = 1 ∧ P.shared.heldZones = ∅)) = some true :=
          rfl
    obtain ⟨P, hP, hΦ⟩ := Option.map_eq_some_iff.mp hrun
    simp only [Bool.and_eq_true, decide_eq_true_eq] at hΦ
    exact ⟨P, Reach.of_any hP, hΦ⟩
  · have hrun : (runAll (step oneZone) (opened [Tokens.emptyZone 0] 1) failedMigrationRun).map
      (fun P ↦
        decide P.Quiet && decide (P.shared.openIoZones = 1 ∧ P.shared.heldZones = ∅ ∧
          (P.shared.zones 0).busy = true)) = some true := rfl
    obtain ⟨P, hP, hΦ⟩ := Option.map_eq_some_iff.mp hrun
    simp only [Bool.and_eq_true, decide_eq_true_eq] at hΦ
    exact ⟨P, Reach.of_any hP, hΦ⟩

end OpenZones

end ZenFs
