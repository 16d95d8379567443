import ZenFs.Lib.Reach
import Mathlib.Logic.Function.Basic

/-!
# Locks and buffer slots

What threads hold and wait for while they open, write, close and migrate files:
`files_mtx_`, the lock `open_for_wr_mtx_` of each file, and the slots counted by
`curr_buffer_count`.  A thread moves from one of these points to the next; a
thread that has to wait has no step until it gets what it waits for.

The outcome of what happens between two points is part of the step: a metadata
persist or the closing of a zone may fail, and a flush may persist metadata of its
own.
-/

namespace ZenFs

universe u v

namespace Locks

/-- Where a thread is. -/
inductive Pc (F : Type v) where
  | idle
  /-- `OpenWritableFile` in front of its `lock_guard`. -/
  | openWant (f : F) (buffered reopen : Bool)
  /-- `OpenWritableFile` in front of `AcquireWRLock`; it holds `files_mtx_`. -/
  | openLocked (f : F) (buffered reopen : Bool)
  /-- Blocked in `AcquireWRLock`. -/
  | openWaitWr (f : F) (buffered : Bool)
  /-- The constructor of `ZonedWritableFile`. -/
  | construct (f : F) (h : Nat) (buffered : Bool)
  /-- Blocked in the constructor, in `buffer_count_condvar_.wait`. -/
  | waitSlot (f : F) (h : Nat)
  /-- `PersistMetadata` of a write, or of the `DataSync` of a close. -/
  | persistWant (h : Nat) (close : Option Bool)
  /-- `CloseInternal` in `DataSync`; `dtor` is a call from the destructor. -/
  | closing (h : Nat) (dtor : Bool)
  /-- `CloseWR` in `PersistMetadata`. -/
  | closeWant (h : Nat) (dtor : Bool)
  /-- `CloseWR` behind `PersistMetadata`. -/
  | closeRelease (h : Nat) (dtor : Bool)
  /-- The destructor behind `CloseInternal`. -/
  | destroy (h : Nat)
  /-- `MigrateFileExtents` in `GetFile`. -/
  | migrateFind (f : F)
  /-- `MigrateFileExtents` in front of `TryAcquireWRLock`. -/
  | migrateTry (f : F)
  /-- `MigrateFileExtents` up to the lock of `SyncFileMetadata`. -/
  | migrateWant (f : F)
  /-- `MigrateFileExtents` in front of `ReleaseWRLock`. -/
  | migrateRelease (f : F)
deriving DecidableEq, Repr

/-- Who has locked `open_for_wr_mtx_`: a `ZonedWritableFile`, or a thread that migrates. -/
inductive Owner (T : Type u) where
  | writer (h : Nat)
  | migrator (t : T)
deriving DecidableEq, Repr

/-- A `ZonedWritableFile`.  `user` is the thread that is in a call on it. -/
structure Writer (T : Type u) (F : Type v) where
  file : F
  buffered : Bool
  isOpen : Bool
  user : Option T
deriving DecidableEq, Repr

end Locks

/-- The locks, the writers and the points the threads are at. -/
structure Locks (T : Type u) (F : Type v) where
  filesMtx : Option T
  wr : F → Option (Locks.Owner T)
  writer : Nat → Option (Locks.Writer T F)
  nextWriter : Nat
  currBufferCount : Nat
  pc : T → Locks.Pc F

namespace Locks

/-- How what a thread does between two points ends: well, with an error, or with a
metadata persist on the way. -/
inductive Outcome where
  | ok
  | fail
  | sync
deriving DecidableEq, Repr

/-- The calls that a thread can make. -/
inductive Start (F : Type v) where
  | openWritableFile (f : F) (buffered reopen : Bool)
  | write (h : Nat)
  | close (h : Nat) (dtor : Bool)
  | migrateFileExtents (f : F)
deriving DecidableEq, Repr

/-- A thread makes a call, or gets to its next point. -/
inductive Label (T : Type u) (F : Type v) where
  | start (t : T) (call : Start F)
  | go (t : T) (c : Outcome)
deriving DecidableEq, Repr

section Machine

variable {T : Type u} {F : Type v} [DecidableEq T] [DecidableEq F]

/-- The thread is at another point. -/
def setPc (s : Locks T F) (t : T) (p : Pc F) : Locks T F :=
  { s with pc := Function.update s.pc t p }

/-- Replace a writer. -/
def setWriter (s : Locks T F) (h : Nat) (x : Option (Writer T F)) : Locks T F :=
  { s with writer := Function.update s.writer h x }

/-- The thread enters or leaves a call on the writer. -/
def setUser (s : Locks T F) (h : Nat) (user : Option T) : Locks T F :=
  s.setWriter h ((s.writer h).map fun x ↦ { x with user := user })

/-- `ZoneFile::AcquireWRLock`, for the writer that is about to be made. -/
def acquireWRLock (s : Locks T F) (t : T) (f : F) (buffered : Bool) : Locks T F :=
  { s with
    wr := Function.update s.wr f (some (.writer s.nextWriter))
    nextWriter := s.nextWriter + 1 }.setPc t (.construct f s.nextWriter buffered)

/-- `OpenWritableFile` returns with a new writer. -/
def openReturns (s : Locks T F) (t : T) (f : F) (h : Nat) (buffered : Bool) : Locks T F :=
  { s.setWriter h (some ⟨f, buffered, true, none⟩) with
    currBufferCount := if buffered then s.currBufferCount + 1 else s.currBufferCount
    filesMtx := none }.setPc t .idle

/-- `CloseInternal` returns, to its caller or to the destructor. -/
def closeReturns (s : Locks T F) (t : T) (h : Nat) (dtor : Bool) : Locks T F :=
  if dtor then s.setPc t (.destroy h) else (s.setUser h none).setPc t .idle

/-- A call begins. -/
def start (s : Locks T F) (t : T) (call : Start F) : Option (Locks T F) :=
  if s.pc t ≠ .idle then none
  else
    match call with
    | .openWritableFile f buffered reopen => some (s.setPc t (.openWant f buffered reopen))
    | .migrateFileExtents f => some (s.setPc t (.migrateFind f))
    | .write h =>
        match s.writer h with
        | none => none
        | some x =>
            if x.user.isNone && x.isOpen then
              some ((s.setUser h (some t)).setPc t (.persistWant h none))
            else none
    | .close h dtor =>
        match s.writer h with
        | none => none
        | some x =>
            if x.user.isNone then
              if x.isOpen then some ((s.setUser h (some t)).setPc t (.closing h dtor))
              else if dtor then some ((s.setUser h (some t)).setPc t (.destroy h))
              else some s
            else none

/-- A thread gets to its next point. -/
def go (maxBufferCount : Nat) (s : Locks T F) (t : T) (c : Outcome) : Option (Locks T F) :=
  match s.pc t with
  | .idle => none
  | .openWant f buffered reopen =>
      if s.filesMtx = none then
        some ({ s with filesMtx := some t }.setPc t (.openLocked f buffered reopen))
      else none
  | .openLocked f buffered reopen =>
      -- deleting an old file or persisting the new one may fail; a reopen does neither
      if c = .fail ∧ reopen = false then some ({ s with filesMtx := none }.setPc t .idle)
      else if s.wr f = none then some (s.acquireWRLock t f buffered)
      else if reopen then some (s.setPc t (.openWaitWr f buffered))
      else none
  | .openWaitWr f buffered => if s.wr f = none then some (s.acquireWRLock t f buffered) else none
  | .construct f h buffered =>
      if buffered = true ∧ maxBufferCount ≤ s.currBufferCount then some (s.setPc t (.waitSlot f h))
      else some (s.openReturns t f h buffered)
  | .waitSlot f h =>
      if s.currBufferCount < maxBufferCount then some (s.openReturns t f h true) else none
  | .persistWant h close =>
      if s.filesMtx = none then
        match close with
        | none => some ((s.setUser h none).setPc t .idle)
        | some dtor => some (s.setPc t (.closing h dtor))
      else none
  | .closing h dtor =>
      match c with
      | .ok => some (s.setPc t (.closeWant h dtor))
      | .sync => some (s.setPc t (.persistWant h (some dtor)))
      | .fail => some (s.closeReturns t h dtor)
  | .closeWant h dtor =>
      if s.filesMtx = none then
        if c = .fail then some (s.closeReturns t h dtor)
          else some (s.setPc t (.closeRelease h dtor))
      else none
  | .closeRelease h dtor =>
      match s.writer h with
      | none => none
      | some x =>
          -- `ReleaseWRLock`, and `open = false` if the zone can be closed
          some ({ s.setWriter h (some { x with
            isOpen := x.isOpen && decide (c = Outcome.fail) }) with
            wr := Function.update s.wr x.file none }.closeReturns t h dtor)
  | .destroy h =>
      match s.writer h with
      | none => none
      | some x =>
          some ({ s.setWriter h none with
            currBufferCount := if x.buffered then s.currBufferCount - 1
              else s.currBufferCount }.setPc t .idle)
  | .migrateFind f =>
      if s.filesMtx = none then some (s.setPc t (if c = Outcome.fail then .idle else .migrateTry f))
        else none
  | .migrateTry f =>
      if s.wr f = none then
        some ({ s with wr := Function.update s.wr f (some (.migrator t)) }.setPc t (.migrateWant f))
      else some (s.setPc t .idle)
  | .migrateWant f => if s.filesMtx = none then some (s.setPc t (.migrateRelease f)) else none
  | .migrateRelease f => some ({ s with wr := Function.update s.wr f none }.setPc t .idle)

/-- A step of the machine. -/
def step (maxBufferCount : Nat) (s : Locks T F) : Label T F → Option (Locks T F)
  | .start t call => s.start t call
  | .go t c => s.go maxBufferCount t c

/-- No thread is in a call, no file is open. -/
def init : Locks T F where
  filesMtx := none
  wr := fun _ ↦ none
  writer := fun _ ↦ none
  nextWriter := 0
  currBufferCount := 0
  pc := fun _ ↦ .idle

end Machine

/-! ## Who holds what -/

namespace Pc

variable {F : Type v}

/-- The thread is in the scope of a `lock_guard` on `files_mtx_`. -/
def holdsFilesMtx : Pc F → Bool
  | openLocked .. | openWaitWr .. | construct .. | waitSlot .. => true
  | _ => false

/-- The writer the thread is in a call on. -/
def onWriter : Pc F → Option Nat
  | persistWant h _ | closing h _ | closeWant h _ | closeRelease h _ | destroy h => some h
  | _ => none

/-- The writer the thread is about to make. -/
def making : Pc F → Option Nat
  | construct _ h _ | waitSlot _ h => some h
  | _ => none

theorem holdsFilesMtx_of_making {p : Pc F} {h : Nat} (hp : p.making = some h) :
    p.holdsFilesMtx = true := by
  cases p <;> first | rfl | cases hp

end Pc

variable {T : Type u} {F : Type v}

/-- What holds in every reachable state: `files_mtx_` has one holder, a writer is
used by the thread that is in a call on it, and the slots are not overdrawn. -/
structure Inv (maxBufferCount : Nat) (s : Locks T F) : Prop where
  mtx : ∀ t, s.filesMtx = some t ↔ (s.pc t).holdsFilesMtx = true
  user : ∀ t h, (s.pc t).onWriter = some h ↔ ∃ x, s.writer h = some x ∧ x.user = some t
  making : ∀ t h, (s.pc t).making = some h → s.writer h = none ∧ h < s.nextWriter
  fresh : ∀ h, s.nextWriter ≤ h → s.writer h = none
  count : s.currBufferCount ≤ maxBufferCount

namespace Inv

variable {maxBufferCount : Nat} {s s' : Locks T F} {t u : T} {p : Pc F} {h : Nat}

theorem init (maxBufferCount : Nat) : Inv maxBufferCount (Locks.init : Locks T F) where
  mtx := by simp [Locks.init, Pc.holdsFilesMtx]
  user := by simp [Locks.init, Pc.onWriter]
  making := by simp [Locks.init, Pc.making]
  fresh := by simp [Locks.init]
  count := Nat.zero_le _

/-- The holder of `files_mtx_` is the only thread at such a point. -/
theorem eq_of_holds (hi : Inv maxBufferCount s) (ht : (s.pc t).holdsFilesMtx = true)
    (hu : (s.pc u).holdsFilesMtx = true) : t = u :=
  Option.some.inj (((hi.mtx t).mpr ht).symm.trans ((hi.mtx u).mpr hu))

/-- A writer is used by one thread. -/
theorem eq_of_onWriter (hi : Inv maxBufferCount s) (ht : (s.pc t).onWriter = some h)
    (hu : (s.pc u).onWriter = some h) : t = u := by
  obtain ⟨x, hx, hxt⟩ := (hi.user t h).mp ht
  obtain ⟨y, hy, hyu⟩ := (hi.user u h).mp hu
  obtain rfl := Option.some.inj (hx.symm.trans hy)
  exact Option.some.inj (hxt.symm.trans hyu)

variable [DecidableEq T]

/-- The thread moves on with the writer it has, locks `files_mtx_` or unlocks it. -/
theorem setPc (hi : Inv maxBufferCount s) (wr : F → Option (Owner T)) (m : Option T)
    (hm : ∀ u, m = some u ↔ (Function.update s.pc t p u).holdsFilesMtx = true)
    (ho : p.onWriter = (s.pc t).onWriter) (hk : p.making = (s.pc t).making ∨ p.making = none) :
    Inv maxBufferCount ({ s with wr := wr, filesMtx := m }.setPc t p) where
  mtx := hm
  user := by
    intro u h
    by_cases hu : u = t
    · subst hu
      simpa [Locks.setPc, ho] using hi.user u h
    · simpa [Locks.setPc, hu] using hi.user u h
  making := by
    intro u h
    by_cases hu : u = t
    · subst hu
      rcases hk with hk | hk
      · simpa [Locks.setPc, hk] using hi.making u h
      · simp [Locks.setPc, hk]
    · simpa [Locks.setPc, hu] using hi.making u h
  fresh := hi.fresh
  count := hi.count

/-- The thread moves on and neither locks nor unlocks `files_mtx_`. -/
theorem holds_update (hi : Inv maxBufferCount s) (hp : p.holdsFilesMtx = (s.pc t).holdsFilesMtx)
    (u : T) : s.filesMtx = some u ↔ (Function.update s.pc t p u).holdsFilesMtx = true := by
  rw [hi.mtx u]
  by_cases hu : u = t
  · subst hu
    simp [hp]
  · simp [hu]

/-- The thread locks `files_mtx_`. -/
theorem holds_lock (hi : Inv maxBufferCount s) (hfree : s.filesMtx = none)
    (hp : p.holdsFilesMtx = true) (u : T) :
    some t = some u ↔ (Function.update s.pc t p u).holdsFilesMtx = true := by
  by_cases hu : u = t
  · subst hu
    simp [hp]
  · have hno := hi.mtx u
    simp only [hfree, reduceCtorEq, false_iff] at hno
    simp [hu, hno, Ne.symm hu]

/-- The thread unlocks `files_mtx_`. -/
theorem holds_unlock (hi : Inv maxBufferCount s) (ht : (s.pc t).holdsFilesMtx = true)
    (hp : p.holdsFilesMtx = false) (u : T) :
    none = some u ↔ (Function.update s.pc t p u).holdsFilesMtx = true := by
  by_cases hu : u = t
  · subst hu
    simp [hp]
  · have hno : (s.pc u).holdsFilesMtx ≠ true := fun h ↦ hu (hi.eq_of_holds h ht)
    simp [hu, hno]

/-- The thread goes on to a point where it has what it has here. -/
theorem move (hi : Inv maxBufferCount s) (wr : F → Option (Owner T))
    (hm : p.holdsFilesMtx = (s.pc t).holdsFilesMtx) (ho : p.onWriter = (s.pc t).onWriter)
    (hk : p.making = (s.pc t).making) : Inv maxBufferCount ({ s with wr := wr }.setPc t p) :=
  hi.setPc wr s.filesMtx (hi.holds_update hm) ho (.inl hk)

/-- The thread enters, leaves or goes on with a call on the writer `h`, which may
change or be destroyed. -/
theorem setWriter (hi : Inv maxBufferCount s) {y : Option (Writer T F)} {n : Nat}
    (wr : F → Option (Owner T)) (hh : s.writer h ≠ none) (hn : n ≤ maxBufferCount)
    (hself : (s.pc t).onWriter = some h ∨ (s.pc t).onWriter = none)
    (hother : ∀ u, u ≠ t → (s.pc u).onWriter ≠ some h)
    (hp : p.onWriter = some h ∨ p.onWriter = none)
    (hx : ∀ u, (∃ x, y = some x ∧ x.user = some u) ↔ u = t ∧ p.onWriter = some h)
    (hm : p.holdsFilesMtx = (s.pc t).holdsFilesMtx) (hk : p.making = none) :
    Inv maxBufferCount ({ s.setWriter h y with wr := wr, currBufferCount := n }.setPc t p) where
  mtx := hi.holds_update hm
  user := by
    intro u h'
    simp only [Locks.setPc, Locks.setWriter]
    by_cases hh' : h' = h
    · subst hh'
      simp only [Function.update_self, hx]
      by_cases hu : u = t
      · subst hu
        simp
      · simp [hu, hother u hu]
    · by_cases hu : u = t
      · subst hu
        have hnot : ∀ q : Option Nat, (q = some h ∨ q = none) → q ≠ some h' := by
          rintro q (rfl | rfl)
          · exact fun heq ↦ hh' (Option.some.inj heq).symm
          · exact nofun
        have hu := hi.user u h'
        simp only [hnot _ hself, false_iff] at hu
        simpa [hh', hnot _ hp] using hu
      · simpa [hh', hu] using hi.user u h'
  making := by
    intro u h' hu
    simp only [Locks.setPc, Locks.setWriter] at hu ⊢
    by_cases hut : u = t
    · subst hut
      simp [hk] at hu
    · rw [Function.update_of_ne hut] at hu
      obtain ⟨hnone, hlt⟩ := hi.making u h' hu
      have hne : h' ≠ h := by
        rintro rfl
        exact hh hnone
      exact ⟨by simpa [hne] using hnone, hlt⟩
  fresh := by
    intro h' hle
    have hnone := hi.fresh h' hle
    have hne : h' ≠ h := by
      rintro rfl
      exact hh hnone
    simpa [Locks.setPc, Locks.setWriter, hne] using hnone
  count := hn

/-- A call on a writer begins. -/
theorem enter (hi : Inv maxBufferCount s) {x : Writer T F} (hidle : s.pc t = .idle)
    (hx : s.writer h = some x) (hfree : x.user = none) (ho : p.onWriter = some h)
    (hm : p.holdsFilesMtx = false) (hk : p.making = none) :
    Inv maxBufferCount ((s.setUser h (some t)).setPc t p) := by
  refine hi.setWriter (n := s.currBufferCount) s.wr (by simp [hx]) hi.count
    (.inr (by rw [hidle]; rfl)) ?_ (.inl ho) ?_ (by rw [hidle, hm]; rfl) hk
  · intro u _ hu
    obtain ⟨y, hy, hyu⟩ := (hi.user u h).mp hu
    obtain rfl := Option.some.inj (hx.symm.trans hy)
    rw [hfree] at hyu
    cases hyu
  · intro u
    simp [hx, ho, eq_comm]

/-- `CloseInternal` returns. -/
theorem closeReturns (hi : Inv maxBufferCount s) (dtor : Bool) (ho : (s.pc t).onWriter = some h)
    (hm : (s.pc t).holdsFilesMtx = false) : Inv maxBufferCount (s.closeReturns t h dtor) := by
  obtain ⟨x, hx, hxt⟩ := (hi.user t h).mp ho
  rw [Locks.closeReturns]
  cases dtor with
  | true => exact hi.setPc s.wr s.filesMtx (hi.holds_update hm.symm) ho.symm (.inr rfl)
  | false =>
      refine hi.setWriter (n := s.currBufferCount) s.wr (by simp [hx]) hi.count (.inl ho) ?_
        (.inr rfl) ?_ hm.symm rfl
      · exact fun u hne hu ↦ hne (hi.eq_of_onWriter hu ho)
      · simp [hx, Pc.onWriter]

/-- A writer has been made, and has a slot if it needs one. -/
theorem openReturns (hi : Inv maxBufferCount s) {f : F} {b : Bool} (ht : (s.pc t).making = some h)
    (ho : (s.pc t).onWriter = none) (hb : b = true → s.currBufferCount < maxBufferCount) :
    Inv maxBufferCount (s.openReturns t f h b) where
  mtx := hi.holds_unlock (p := .idle) (Pc.holdsFilesMtx_of_making ht) rfl
  user := by
    intro u h'
    simp only [Locks.openReturns, Locks.setPc, Locks.setWriter]
    have hnone : ∀ u, (s.pc u).onWriter ≠ some h := by
      intro u hu
      obtain ⟨x, hx, -⟩ := (hi.user u h).mp hu
      rw [(hi.making t h ht).1] at hx
      cases hx
    by_cases hu : u = t
    · subst hu
      have hno := hi.user u h'
      rw [ho] at hno
      by_cases hh : h' = h
      · simp [hh, Pc.onWriter]
      · simpa [hh, Pc.onWriter] using hno
    · by_cases hh : h' = h
      · subst hh
        simp [hu, hnone u]
      · simpa [hu, hh] using hi.user u h'
  making := by
    intro u h' hu
    simp only [Locks.openReturns, Locks.setPc, Locks.setWriter] at hu ⊢
    by_cases hut : u = t
    · subst hut
      simp [Pc.making] at hu
    · rw [Function.update_of_ne hut] at hu
      have hholds := Pc.holdsFilesMtx_of_making hu
      exact absurd (hi.eq_of_holds hholds (Pc.holdsFilesMtx_of_making ht)) hut
  fresh := by
    intro h' hle
    have hlt := (hi.making t h ht).2
    have hle' : s.nextWriter ≤ h' := hle
    have hne : h' ≠ h := by omega
    simpa [Locks.openReturns, Locks.setPc, Locks.setWriter, hne] using hi.fresh h' hle
  count := by
    have hle := hi.count
    simp only [Locks.openReturns, Locks.setPc]
    split
    · rename_i hb'
      exact hb hb'
    · exact hle

variable [DecidableEq F]

/-- The write lock is taken for a writer that does not exist yet. -/
theorem acquireWRLock (hi : Inv maxBufferCount s) {f : F} {b : Bool}
    (ht : (s.pc t).holdsFilesMtx = true)
    (ho : (s.pc t).onWriter = none) : Inv maxBufferCount (s.acquireWRLock t f b) where
  mtx := hi.holds_update (p := .construct f s.nextWriter b) ht.symm
  user := by
    intro u h
    by_cases hu : u = t
    · subst hu
      have hno := hi.user u h
      rw [ho] at hno
      simpa [Locks.acquireWRLock, Locks.setPc, Pc.onWriter] using hno
    · simpa [Locks.acquireWRLock, Locks.setPc, hu] using hi.user u h
  making := by
    intro u h hu
    simp only [Locks.acquireWRLock, Locks.setPc] at hu ⊢
    by_cases hut : u = t
    · subst hut
      simp only [Function.update_self, Pc.making, Option.some.injEq] at hu
      subst hu
      exact ⟨hi.fresh _ (Nat.le_refl _), Nat.lt_succ_self _⟩
    · rw [Function.update_of_ne hut] at hu
      exact absurd (hi.eq_of_holds (Pc.holdsFilesMtx_of_making hu) ht) hut
  fresh := fun h hle ↦ hi.fresh h (Nat.le_of_succ_le hle)
  count := hi.count

theorem start (hi : Inv maxBufferCount s) {call : Start F} (hs : s.start t call = some s') :
    Inv maxBufferCount s' := by
  unfold Locks.start at hs
  split at hs
  · cases hs
  rename_i hidle
  rw [not_not] at hidle
  have hmove : ∀ {p : Pc F}, p.holdsFilesMtx = false → p.onWriter = none → p.making = none →
      Inv maxBufferCount (s.setPc t p) := by
    intro p hm ho hk
    exact hi.setPc s.wr s.filesMtx (hi.holds_update (by rw [hidle, hm]; rfl))
      (by rw [hidle, ho]; rfl) (.inr hk)
  cases call with
  | openWritableFile f buffered reopen =>
      cases hs
      exact hmove rfl rfl rfl
  | migrateFileExtents f =>
      cases hs
      exact hmove rfl rfl rfl
  | write h =>
      dsimp only at hs
      split at hs
      · cases hs
      rename_i x hx
      split at hs
      · rename_i hfree
        cases hs
        exact hi.enter hidle hx (by simpa using (Bool.and_eq_true_iff.mp hfree).1) rfl rfl rfl
      · cases hs
  | close h dtor =>
      dsimp only at hs
      split at hs
      · cases hs
      rename_i x hx
      split at hs
      · rename_i hfree
        have hfree' : x.user = none := by simpa using hfree
        split at hs
        · cases hs
          exact hi.enter hidle hx hfree' rfl rfl rfl
        · split at hs
          · cases hs
            exact hi.enter hidle hx hfree' rfl rfl rfl
          · cases hs
            exact hi
      · cases hs

/-- `CloseWR` gives the write lock back. -/
theorem closeRelease (hi : Inv maxBufferCount s) {dtor : Bool} {c : Outcome}
    (hp : s.pc t = .closeRelease h dtor) (hs : s.go maxBufferCount t c = some s') :
    Inv maxBufferCount s' := by
  have ho : (s.pc t).onWriter = some h := by rw [hp]; rfl
  obtain ⟨x, hx, hxt⟩ := (hi.user t h).mp ho
  have hother : ∀ u, u ≠ t → (s.pc u).onWriter ≠ some h := fun u hne hu ↦
    hne (hi.eq_of_onWriter hu ho)
  simp only [Locks.go, hp, hx] at hs
  cases hs
  have hm : (s.pc t).holdsFilesMtx = false := by rw [hp]; rfl
  refine closeReturns ?_ dtor ho hm
  -- the thread is where it was while the writer changes
  have hsame := hi.setWriter (p := s.pc t)
    (y := some { x with isOpen := x.isOpen && decide (c = Outcome.fail) })
    (n := s.currBufferCount)
    (Function.update s.wr x.file none) (by simp [hx]) hi.count (.inl ho) hother (.inl ho)
    (by simp [hxt, ho, eq_comm]) rfl (by rw [hp]; rfl)
  simpa [Locks.setPc, Locks.setWriter] using hsame

/-- The destructor gives the slot back, and the writer is gone. -/
theorem destroy (hi : Inv maxBufferCount s) {c : Outcome} (hp : s.pc t = .destroy h)
    (hs : s.go maxBufferCount t c = some s') : Inv maxBufferCount s' := by
  have ho : (s.pc t).onWriter = some h := by rw [hp]; rfl
  obtain ⟨x, hx, hxt⟩ := (hi.user t h).mp ho
  simp only [Locks.go, hp, hx] at hs
  cases hs
  refine hi.setWriter s.wr (by simp [hx]) ?_ (.inl ho) ?_ (.inr rfl) (by simp [Pc.onWriter])
    (by rw [hp]; rfl) rfl
  · have hle := hi.count
    split <;> omega
  · exact fun u hne hu ↦ hne (hi.eq_of_onWriter hu ho)

theorem go (hi : Inv maxBufferCount s) {c : Outcome} (hs : s.go maxBufferCount t c = some s') :
    Inv maxBufferCount s' := by
  unfold Locks.go at hs
  cases hp : s.pc t with
  | idle => simp [hp] at hs
  | openWant f b re =>
      simp only [hp] at hs
      split at hs
      · rename_i hfree
        cases hs
        exact hi.setPc s.wr (some t) (hi.holds_lock hfree rfl) (by rw [hp]; rfl) (.inr rfl)
      · cases hs
  | openLocked f b re =>
      simp only [hp] at hs
      split at hs
      · cases hs
        exact hi.setPc s.wr none (hi.holds_unlock (by rw [hp]; rfl) rfl)
          (by rw [hp]; rfl) (.inr rfl)
      · split at hs
        · cases hs
          exact hi.acquireWRLock (by rw [hp]; rfl) (by rw [hp]; rfl)
        · split at hs
          · cases hs
            exact hi.move s.wr (by rw [hp]; rfl) (by rw [hp]; rfl) (by rw [hp]; rfl)
          · cases hs
  | openWaitWr f b =>
      simp only [hp] at hs
      split at hs
      · cases hs
        exact hi.acquireWRLock (by rw [hp]; rfl) (by rw [hp]; rfl)
      · cases hs
  | construct f h b =>
      simp only [hp] at hs
      split at hs
      · cases hs
        exact hi.move s.wr (by rw [hp]; rfl) (by rw [hp]; rfl) (by rw [hp]; rfl)
      · rename_i hslot
        cases hs
        refine hi.openReturns (by rw [hp]; rfl) (by rw [hp]; rfl) fun hb ↦ ?_
        by_contra hle
        exact hslot ⟨hb, Nat.not_lt.mp hle⟩
  | waitSlot f h =>
      simp only [hp] at hs
      split at hs
      · rename_i hlt
        cases hs
        exact hi.openReturns (by rw [hp]; rfl) (by rw [hp]; rfl) fun _ ↦ hlt
      · cases hs
  | persistWant h close =>
      simp only [hp] at hs
      split at hs
      · cases close with
        | none =>
            cases hs
            exact hi.closeReturns false (by rw [hp]; rfl) (by rw [hp]; rfl)
        | some dtor =>
            cases hs
            exact hi.move s.wr (by rw [hp]; rfl) (by rw [hp]; rfl) (by rw [hp]; rfl)
      · cases hs
  | closing h dtor =>
      simp only [hp] at hs
      cases c with
      | ok =>
          cases hs
          exact hi.move s.wr (by rw [hp]; rfl) (by rw [hp]; rfl) (by rw [hp]; rfl)
      | sync =>
          cases hs
          exact hi.move s.wr (by rw [hp]; rfl) (by rw [hp]; rfl) (by rw [hp]; rfl)
      | fail =>
          cases hs
          exact hi.closeReturns dtor (by rw [hp]; rfl) (by rw [hp]; rfl)
  | closeWant h dtor =>
      simp only [hp] at hs
      split at hs
      · split at hs
        · cases hs
          exact hi.closeReturns dtor (by rw [hp]; rfl) (by rw [hp]; rfl)
        · cases hs
          exact hi.move s.wr (by rw [hp]; rfl) (by rw [hp]; rfl) (by rw [hp]; rfl)
      · cases hs
  | closeRelease h dtor => exact hi.closeRelease hp hs
  | destroy h => exact hi.destroy hp hs
  | migrateFind f =>
      simp only [hp] at hs
      split at hs
      · cases hs
        refine hi.move s.wr ?_ ?_ ?_ <;> rw [hp] <;> split <;> rfl
      · cases hs
  | migrateTry f =>
      simp only [hp] at hs
      split at hs
      · cases hs
        exact hi.move _ (by rw [hp]; rfl) (by rw [hp]; rfl) (by rw [hp]; rfl)
      · cases hs
        exact hi.move s.wr (by rw [hp]; rfl) (by rw [hp]; rfl) (by rw [hp]; rfl)
  | migrateWant f =>
      simp only [hp] at hs
      split at hs
      · cases hs
        exact hi.move s.wr (by rw [hp]; rfl) (by rw [hp]; rfl) (by rw [hp]; rfl)
      · cases hs
  | migrateRelease f =>
      simp only [hp] at hs
      cases hs
      exact hi.move _ (by rw [hp]; rfl) (by rw [hp]; rfl) (by rw [hp]; rfl)

theorem step (hi : Inv maxBufferCount s) {l : Label T F} (hs : s.step maxBufferCount l = some s') :
    Inv maxBufferCount s' := by
  cases l with
  | start t call => exact hi.start hs
  | go t c => exact hi.go hs

end Inv

end Locks

end ZenFs
