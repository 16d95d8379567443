import Mathlib.Data.Finset.Option
import Mathlib.Data.Finset.Union
import ZenFs.Alloc.Basic
import ZenFs.Lib.Pool
import ZenFs.Lib.Reach
import ZenFs.Tokens.Basic

/-!
# Open zone tokens when device operations fail

`open_io_zones_` counts the zones that may be written.  An allocation takes a token
before it looks for a zone; `CloseActiveZone` and `ReleaseMigrateZone` give it back
with the `busy_` flag of the zone.  Here every function is a program with all of its
error returns, and any number of calls is under way at a time.

A `Choice` decides what does not depend on the state: what the backend and the
persists report, in which order a policy looks at the zones and what it prefers, and
numbers that are read from zones of others.  The mutexes only make a call wait.
-/

namespace ZenFs

/-- The IO zones, the counters, and the files `f < nrFiles`.  `unsynced` is
`file_size_ - extent_filepos_`, and a file is `inUse` while a call on it is under way.
No function looks at `activeOfZones`, which counts the active tokens that were left
with zones. -/
structure OpenZones where
  zones : ZoneId → Zone
  openIoZones : Int
  activeIoZones : Int
  activeOfZones : Int
  migrating : Bool
  nrFiles : Nat
  activeZone : Nat → Option ZoneId
  unsynced : Nat → Nat
  inUse : Nat → Bool

namespace OpenZones

open Pool Tokens

/-- The parameters of the device and of the filesystem. -/
structure Config where
  ioZones : List ZoneId
  zoneSize : Nat
  blockSize : Nat
  maxNrOpenIoZones : Nat
  maxNrActiveIoZones : Nat
  finishThreshold : Nat
  emptyZoneAllocator : Alloc.EmptyZoneAllocType
deriving DecidableEq, Repr

/-- What an action depends on beyond the state. -/
structure Choice where
  status : Status := .ok
  zone : Option ZoneId := none
  yes : Bool := false
  num : Nat := 0
deriving DecidableEq, Repr

/-- What a call does in one go.  `label` is what the allocator notes about a zone that it
has opened, and `putActiveIOZoneToken` tells whether the token is that of a zone. -/
inductive Act : Type → Type 1
  | look {α : Type} (f : OpenZones → Choice → α) : Act α
  | acquire (i : ZoneId) : Act Bool
  | release (i : ZoneId) : Act Status
  | waitForOpenIOZoneToken (prioritized : Bool) : Act Unit
  | putOpenIOZoneToken : Act Unit
  | getActiveIOZoneTokenIfAvailable : Act Bool
  | putActiveIOZoneToken (ofZone : Bool) : Act Unit
  | label (i : ZoneId) : Act Unit
  | finish (i : ZoneId) : Act Status
  | close (i : ZoneId) : Act Status
  | reset (i : ZoneId) : Act Status
  | append (i : ZoneId) (size : Nat) : Act Status
  | addUsed (i : ZoneId) (n : Nat) : Act Unit
  | pushExtent (f : Nat) : Act Unit
  | grow (f : Nat) (n : Nat) : Act Unit
  | setActiveZone (f : Nat) (i : ZoneId) : Act Unit
  | releaseActiveZone (f : Nat) : Act Unit
  | waitForMigration : Act Unit
  | endMigration : Act Unit
  | leave (f : Nat) : Act Unit

variable (cfg : Config) (s : OpenZones) (i : ZoneId) (f : Nat)

/-! ## Actions -/

def setZone (z : Zone) : OpenZones := { s with zones := Function.update s.zones i z }

/-- The zone with its `busy_` flag set or cleared. -/
def setBusy (b : Bool) : OpenZones := s.setZone i { s.zones i with busy := b }

/-- `zone->used_capacity_ += n`. -/
def addUsed (n : Nat) : OpenZones :=
  s.setZone i { s.zones i with usedCapacity := (s.zones i).usedCapacity + n }

def setUnsynced (n : Nat) : OpenZones := { s with unsynced := Function.update s.unsynced f n }

def setInUse (b : Bool) : OpenZones := { s with inUse := Function.update s.inUse f b }

def setActive (z : Option ZoneId) : OpenZones :=
  { s with activeZone := Function.update s.activeZone f z }

/-- `Zone::CheckRelease`. -/
def checkRelease : OpenZones × Status :=
  if (s.zones i).busy then (s.setBusy i false, .ok)
  else (s, .corruption
    ("Failed to unset busy flag of zone " ++ toString ((s.zones i).start / cfg.zoneSize)))

/-- `PushExtent`, which does nothing without a zone. -/
def pushExtent : OpenZones :=
  match s.activeZone f with
  | none => s
  | some i => (s.addUsed i (s.unsynced f)).setUnsynced f 0

/-- `ReleaseActiveZone`, which faults without a zone. -/
def releaseActiveZone : Option OpenZones :=
  (s.activeZone f).map fun i ↦ (s.setBusy i false).setActive f none

/-- `allocator_open_limit`, a difference of unsigned numbers. -/
def Config.openLimit (prioritized : Bool) : Nat :=
  if prioritized then cfg.maxNrOpenIoZones else (cfg.maxNrOpenIoZones + 2 ^ 32 - 1) % 2 ^ 32

/-- `Zone::Append`.  A write that fails may have written some of the bytes. -/
def append (size : Nat) (c : Choice) : OpenZones × Status :=
  if (s.zones i).capacity < size then (s, .noSpace "Not enough capacity for append")
  else
    match c.status with
    | .ok => (s.setZone i ((s.zones i).wrote size), .ok)
    | e => (s.setZone i ((s.zones i).wrote (min c.num size)), e)

/-- What an action does, if it need not wait. -/
def exec : {α : Type} → Act α → Choice → OpenZones → Option (OpenZones × α)
  | _, .look f, c, s => some (s, f s c)
  | _, .acquire i, _, s => some (if (s.zones i).busy then (s, false) else (s.setBusy i true, true))
  | _, .release i, _, s => some (s.checkRelease cfg i)
  | _, .waitForOpenIOZoneToken prioritized, _, s =>
      if s.openIoZones < cfg.openLimit prioritized then
        some ({ s with openIoZones := s.openIoZones + 1 }, ())
      else none
  | _, .putOpenIOZoneToken, _, s => some ({ s with openIoZones := s.openIoZones - 1 }, ())
  | _, .getActiveIOZoneTokenIfAvailable, _, s =>
      some (if s.activeIoZones < cfg.maxNrActiveIoZones then
        ({ s with activeIoZones := s.activeIoZones + 1 }, true) else (s, false))
  | _, .putActiveIOZoneToken ofZone, _, s =>
      some ({ s with
        activeIoZones := s.activeIoZones - 1
        activeOfZones := if ofZone then s.activeOfZones - 1 else s.activeOfZones }, ())
  | _, .label _, _, s => some ({ s with activeOfZones := s.activeOfZones + 1 }, ())
  | _, .finish i, c, s =>
      some (match c.status with
        | .ok => (s.setZone i ((s.zones i).finished cfg.zoneSize), .ok)
        | e => (s, e))
  | _, .close i, c, s => some (s, if (s.zones i).isPartial then c.status else .ok)
  | _, .reset i, c, s =>
      some (match c.status with
        | .ok => (s.setZone i ((s.zones i).erased (if c.yes then none else some c.num)), .ok)
        | e => (s, e))
  | _, .append i size, c, s => some (s.append i size c)
  | _, .addUsed i n, _, s => some (s.addUsed i n, ())
  | _, .pushExtent f, _, s => some (s.pushExtent f, ())
  | _, .grow f n, _, s => some (s.setUnsynced f (s.unsynced f + n), ())
  | _, .setActiveZone f i, _, s => some ((s.setActive f (some i)).setUnsynced f 0, ())
  | _, .releaseActiveZone f, _, s => (s.releaseActiveZone f).map fun s' ↦ (s', ())
  | _, .waitForMigration, _, s =>
      if s.migrating then none else some ({ s with migrating := true }, ())
  | _, .endMigration, _, s => some ({ s with migrating := false }, ())
  | _, .leave f, _, s => some (s.setInUse f false, ())

/-! ## Programs -/

/-- A function of the source. -/
abbrev Op (α : Type) : Type 1 := Prog Act α

def look {α : Type} (f : OpenZones → Choice → α) : Op α := .perform (.look f)

/-- What the backend, or the writer of metadata, reports. -/
def report : Op Status := look fun _ c ↦ c.status

def whenever (b : Bool) (p : Op Unit) : Op Unit := if b then p else pure ()

def acquire : Op Bool := .perform (.acquire i)

def release : Op Status := .perform (.release i)

def putOpenIOZoneToken : Op Unit := .perform .putOpenIOZoneToken

def putActiveIOZoneToken (ofZone : Bool) : Op Unit := .perform (.putActiveIOZoneToken ofZone)

def getActiveIOZoneTokenIfAvailable : Op Bool := .perform .getActiveIOZoneTokenIfAvailable

/-- The zone is partly written and has less capacity left than `finish_threshold_` percent. -/
def withinFinishThreshold : Bool :=
  (s.zones i).isPartial &&
    decide ((s.zones i).capacity < (s.zones i).maxCapacity * cfg.finishThreshold % 2 ^ 64 / 100)

/-- The loop of `ApplyFinishThreshold`. -/
def finishThresholdLoop : List ZoneId → Op Status
  | [] => pure .ok
  | z :: zs => do
      if ← acquire z then
        if ← look fun s _ ↦ s.withinFinishThreshold cfg z then
          match ← .perform (.finish z) with
          | .ok =>
              match ← release z with
              | .ok =>
                  putActiveIOZoneToken true
                  finishThresholdLoop zs
              | e => pure e
          | e =>
              let _ ← release z
              pure e
        else
          match ← release z with
          | .ok => finishThresholdLoop zs
          | e => pure e
      else finishThresholdLoop zs

/-- `ApplyFinishThreshold`. -/
def applyFinishThreshold : Op Status :=
  if cfg.finishThreshold = 0 then pure .ok else finishThresholdLoop cfg cfg.ioZones

/-- The loop of `FinishCheapestIOZone` for the victim. -/
def finishVictim : List ZoneId → Option ZoneId → Op (Status × Option ZoneId)
  | [], victim => pure (.ok, victim)
  | z :: zs, victim => do
      if ← acquire z then
        if ← look fun s _ ↦ !(s.zones z).isPartial then
          match ← release z with
          | .ok => finishVictim zs victim
          | e => pure (e, victim)
        else
          match victim with
          | none => finishVictim zs (some z)
          | some old =>
              if ← look fun s _ ↦ decide ((s.zones z).capacity < (s.zones old).capacity) then
                match ← release old with
                | .ok => finishVictim zs (some z)
                | e => pure (e, some z)
              else
                match ← release z with
                | .ok => finishVictim zs (some old)
                | e => pure (e, some old)
      else finishVictim zs victim

/-- `FinishCheapestIOZone`, which succeeds without a victim. -/
def finishCheapestIOZone : Op Status := do
  match ← finishVictim cfg.ioZones none with
  | (.ok, none) => pure .ok
  | (.ok, some v) =>
      let s ← .perform (.finish v)
      let release_status ← release v
      whenever s.isOk (putActiveIOZoneToken true)
      pure (if release_status.isOk then s else release_status)
  | (e, _) => pure e

/-- `while (!got_token && !GetActiveIOZoneTokenIfAvailable())`. -/
def finishUntilToken : Op Status :=
  .loop (fun _ ↦ do
    if ← getActiveIOZoneTokenIfAvailable then pure (.inl .ok)
    else
      match ← finishCheapestIOZone cfg with
      | .ok => pure (.inr ())
      | e => pure (.inl e)) ()

/-- A round of a loop that looks at zones one after the other and keeps the best one that
passes `test`; `prefers` tells whether it replaces the one so far. -/
def scanRound (test prefers : OpenZones → Choice → ZoneId → Bool) (best : Option ZoneId) :
    Op ((Status × Option ZoneId) ⊕ Option ZoneId) := do
  match ← look fun _ c ↦ c.zone with
  | none => pure (.inl (.ok, best))
  | some z =>
      if ← acquire z then
        if ← look fun s c ↦ test s c z && (best.isNone || prefers s c z) then
          match best with
          | none => pure (.inr (some z))
          | some old =>
              match ← release old with
              | .ok => pure (.inr (some z))
              | e =>
                  match ← release z with
                  | .ok => pure (.inl (e, none))
                  | e' => pure (.inl (e', none))
        else
          match ← release z with
          | .ok => pure (.inr best)
          | e => pure (.inl (e, none))
      else pure (.inr best)

/-- A placement policy: a used zone that is not full, and whatever else it asks for. -/
def matchPolicy : Op (Status × Option ZoneId) :=
  .loop (scanRound (fun s c z ↦ (s.zones z).isUsed && !(s.zones z).isFull && c.yes) fun _ c _ ↦
    c.yes) none

/-- `GetBestOpenZoneMatch`: the policy for the level of the file, its fallback, and
`MatchLifetimeBased`.  The status of a policy that finds no zone is not looked at. -/
def getBestOpenZoneMatch : Op (Status × Option ZoneId) := do
  if ← look fun _ c ↦ c.yes then matchPolicy
  else
    match ← matchPolicy with
    | (s, some i) => pure (s, some i)
    | (_, none) =>
        match ← matchPolicy with
        | (s, some i) => pure (s, some i)
        | (_, none) => matchPolicy

/-- A loop that keeps the first empty zone. -/
def firstEmpty : Op (Status × Option ZoneId) :=
  .loop (fun _ ↦ do
    match ← look fun _ c ↦ c.zone with
    | none => pure (.inl (.ok, none))
    | some z =>
        if ← acquire z then
          if ← look fun s _ ↦ (s.zones z).isEmpty then pure (.inl (.ok, some z))
          else
            match ← release z with
            | .ok => pure (.inr ())
            | e => pure (.inl (e, none))
        else pure (.inr ())) ()

/-- `AllocateEmptyZoneLeastWear`. -/
def allocateEmptyZoneLeastWear : Op (Status × Option ZoneId) :=
  .loop (fun best ↦ do
    match ← look fun _ c ↦ c.zone with
    | none => pure (.inl (.ok, best))
    | some z =>
        if ← acquire z then
          if ← look fun s _ ↦ (s.zones z).isEmpty then
            match best with
            | none => pure (.inr (some z))
            | some old =>
                if ← look fun s _ ↦ decide ((s.zones old).resetCount < (s.zones z).resetCount) then
                  match ← release z with
                  | .ok => pure (.inr (some old))
                  | e => pure (.inl (e, none))
                else
                  match ← release old with
                  | .ok => pure (.inr (some z))
                  | e => pure (.inl (e, none))
          else
            match ← release z with
            | .ok => pure (.inr best)
            | e => pure (.inl (e, none))
        else pure (.inr best)) none

/-- The end of `AllocateEmptyZoneHotnessBased`: of two zones, the one that is further
away is released, whatever becomes of it. -/
def closerOf (lower upper : Option ZoneId) : Op (Status × Option ZoneId) := do
  match lower, upper with
  | none, none => firstEmpty
  | none, some u => pure (.ok, some u)
  | some l, none => pure (.ok, some l)
  | some l, some u =>
      if ← look fun _ c ↦ c.yes then
        let _ ← release u
        pure (.ok, some l)
      else
        let _ ← release l
        pure (.ok, some u)

/-- `AllocateEmptyZoneHotnessBased` for a level above 0: in the interval of the level,
above and below it, and anywhere. -/
def allocateEmptyZoneHotnessBased : Op (Status × Option ZoneId) := do
  match ← firstEmpty with
  | (.ok, some i) => pure (.ok, some i)
  | (.ok, none) =>
      match ← firstEmpty with
      | (.ok, upper) =>
          match ← firstEmpty with
          | (.ok, lower) => closerOf lower upper
          | (e, _) => pure (e, none)
      | (e, _) => pure (e, none)
  | (e, _) => pure (e, none)

/-- `AllocateEmptyZone`. -/
def allocateEmptyZone : Op (Status × Option ZoneId) := do
  match cfg.emptyZoneAllocator with
  | .kLeastWear => allocateEmptyZoneLeastWear
  | .kHotnessBased =>
      if ← look fun _ c ↦ c.yes then allocateEmptyZoneHotnessBased else allocateEmptyZoneLeastWear
  | _ => firstEmpty

/-- `AllocateEmptyZone` with the two tokens, and what becomes of them. -/
def takeEmptyZone : Op (Status × Option ZoneId) := do
  match ← allocateEmptyZone cfg with
  | (.ok, some i) =>
      .perform (.label i)
      pure (.ok, some i)
  | (.ok, none) =>
      putActiveIOZoneToken false
      putOpenIOZoneToken
      pure (.ok, none)
  | (e, _) =>
      putActiveIOZoneToken false
      putOpenIOZoneToken
      pure (e, none)

/-- No open zone is to be filled: a new zone is opened. -/
def openEmptyZone (got_token : Bool) : Op (Status × Option ZoneId) := do
  if got_token then takeEmptyZone cfg
  else
    match ← finishUntilToken cfg with
    | .ok => takeEmptyZone cfg
    | e =>
        putOpenIOZoneToken
        pure (e, none)

/-- There is a match, but not a good one: it is kept, or released for a new zone. -/
def keepOrReplace (best_diff : Nat) (got_token : Bool) : Op (Status × Option ZoneId) := do
  if !got_token && best_diff == Tokens.LIFETIME_DIFF_COULD_BE_WORSE then pure (.ok, some i)
  else if ← look fun _ c ↦ c.yes then
    match ← release i with
    | .ok => openEmptyZone cfg got_token
    | e =>
        putOpenIOZoneToken
        whenever got_token (putActiveIOZoneToken false)
        pure (e, none)
  else
    whenever got_token (putActiveIOZoneToken false)
    pure (.ok, some i)

/-- Behind `GetBestOpenZoneMatch`: a good match is filled. -/
def fillOrOpen (best_diff : Nat) (zone : Option ZoneId) : Op (Status × Option ZoneId) := do
  if best_diff < Tokens.LIFETIME_DIFF_COULD_BE_WORSE then
    match zone with
    | some i => pure (.ok, some i)
    | none =>
        putOpenIOZoneToken
        pure (.ok, none)
  else
    let got_token ← getActiveIOZoneTokenIfAvailable
    match zone with
    | none => openEmptyZone cfg got_token
    | some i => keepOrReplace cfg i best_diff got_token

/-- Behind the deferred status and the finish threshold: the open zone token, the match,
and the zone. -/
def findZone (wal : Bool) : Op (Status × Option ZoneId) := do
  .perform (.waitForOpenIOZoneToken wal)
  match ← getBestOpenZoneMatch with
  | (.ok, v) =>
      let best_diff ← look fun _ c ↦ c.num
      fillOrOpen cfg best_diff v
  | (e, _) =>
      putOpenIOZoneToken
      pure (e, none)

/-- `AllocateIOZoneNoLock`. -/
def allocateIOZoneNoLock (wal : Bool) : Op (Status × Option ZoneId) := do
  match ← report with
  | .ok =>
      if wal then findZone cfg wal
      else
        match ← applyFinishThreshold cfg with
        | .ok => findZone cfg wal
        | e => pure (e, none)
  | e => pure (e, none)

/-- `CloseActiveZone`. -/
def closeActiveZone : Op Status := do
  match ← look fun s _ ↦ s.activeZone f with
  | none => pure .ok
  | some i =>
      let full ← look fun s _ ↦ (s.zones i).isFull
      let s ← .perform (.close i)
      .perform (.releaseActiveZone f)
      match s with
      | .ok =>
          putOpenIOZoneToken
          whenever full (putActiveIOZoneToken true)
          pure .ok
      | e => pure e

/-- `AllocateNewZone`. -/
def allocateNewZone (wal : Bool) : Op Status := do
  match ← allocateIOZoneNoLock cfg wal with
  | (.ok, some i) =>
      .perform (.setActiveZone f i)
      report
  | (.ok, none) => pure (.noSpace "Zone allocation failure\n")
  | (e, _) => pure e

/-- The head of the three ways to append. -/
def ensureZone (wal : Bool) : Op Status := do
  match ← look fun s _ ↦ s.activeZone f with
  | none => allocateNewZone cfg f wal
  | some _ => pure .ok

/-- The zone is full: the next one. -/
def nextZone (wal : Bool) : Op Status := do
  match ← closeActiveZone f with
  | .ok => allocateNewZone cfg f wal
  | e => pure e

/-- A round of the loops of `BufferedAppend` and `SparseAppend`, with `header` bytes in
front of the data.  They have a zone. -/
def bufferRound (wal : Bool) (header left : Nat) : Op (Status ⊕ Nat) := do
  match ← look fun s _ ↦ s.activeZone f with
  | none => pure (.inl .ok)
  | some i =>
      let wrSize ← look fun s _ ↦ min ((left + header) % 2 ^ 32) (s.zones i).capacity
      match ← .perform (.append i (padded cfg.blockSize wrSize)) with
      | .ok =>
          let length := Tokens.sub32 wrSize header
          .perform (.addUsed i length)
          if ← look fun s _ ↦ (s.zones i).isFull then
            match ← nextZone cfg f wal with
            | .ok => pure (.inr (Tokens.sub32 left length))
            | e => pure (.inl e)
          else pure (.inr (Tokens.sub32 left length))
      | e => pure (.inl e)

/-- The bytes that a round of the loop of `Append` writes. -/
def directChunk (left : Nat) : Op (Status ⊕ Nat) := do
  match ← look fun s _ ↦ s.activeZone f with
  | none => pure (.inl .ok)
  | some i =>
      let n ← look fun s _ ↦ min left (s.zones i).capacity
      match ← .perform (.append i n) with
      | .ok =>
          .perform (.grow f n)
          pure (.inr (left - n))
      | e => pure (.inl e)

/-- A round of the loop of `Append`. -/
def directRound (wal : Bool) (left : Nat) : Op (Status ⊕ Nat) := do
  if ← look fun s _ ↦ ((s.activeZone f).map fun i ↦ (s.zones i).isFull).getD false then
    .perform (.pushExtent f)
    match ← nextZone cfg f wal with
    | .ok => directChunk f left
    | e => pure (.inl e)
  else directChunk f left

/-- A loop of `while (left)`. -/
def whileLeft (round : Nat → Op (Status ⊕ Nat)) (left : Nat) : Op Status :=
  .loop (fun left ↦ if left = 0 then pure (.inl .ok) else round left) left

/-- `BufferedAppend`, `SparseAppend` and `Append`. -/
def appendData (mode : Mode) (wal : Bool) (size : Nat) : Op Status := do
  match ← ensureZone cfg f wal with
  | .ok =>
      whileLeft (match mode with
        | .buffered => bufferRound cfg f wal 0
        | .sparse => bufferRound cfg f wal SPARSE_HEADER_SIZE
        | .direct => directRound cfg f wal) (size % 2 ^ 32)
  | e => pure e

/-- `CloseWR`. -/
def closeWR : Op Status := do
  match ← report with
  | .ok => closeActiveZone f
  | e => pure e

/-- `TakeMigrateZone`. -/
def takeMigrateZone (wal : Bool) : Op (Status × Option ZoneId) := do
  .perform .waitForMigration
  match ← allocateIOZoneNoLock cfg wal with
  | (.ok, some i) => pure (.ok, some i)
  | r =>
      .perform .endMigration
      pure r

/-- `ReleaseMigrateZone`. -/
def releaseMigrateZone (zone : Option ZoneId) : Op Status := do
  .perform .endMigration
  match zone with
  | none => pure .ok
  | some i =>
      let full ← look fun s _ ↦ (s.zones i).isFull
      match ← .perform (.close i) with
      | .ok =>
          match ← release i with
          | .ok =>
              putOpenIOZoneToken
              whenever full (putActiveIOZoneToken true)
              pure .ok
          | e => pure e
      | e => pure e

/-- `MigrateData`, which does not look at the result of `Append`. -/
def migrateData (length : Nat) : Op Status :=
  whileLeft (fun left ↦ do
    match ← report with
    | .ok =>
        let r ← look fun _ c ↦ c.num
        let _ ← .perform (.append i r)
        pure (.inr (left - MIGRATE_STEP))
    | e => pure (.inl e)) (length % 2 ^ 32)

/-- An extent of `MigrateFileExtents`, with the bytes in front of it that are copied too.
It tells whether to go on; no status is looked at but the one of `TakeMigrateZone`. -/
def migrateExtent (wal : Bool) (header length : Nat) : Op Bool := do
  match ← takeMigrateZone cfg wal with
  | (.ok, some i) =>
      let _ ← migrateData i (length + header)
      if ← look fun _ c ↦ c.yes then
        .perform (.addUsed i length)
        let _ ← releaseMigrateZone (some i)
        pure true
      else
        let _ ← releaseMigrateZone (some i)
        pure false
  | (.ok, none) =>
      let _ ← releaseMigrateZone none
      pure true
  | _ => pure true

/-- `MigrateFileExtents` for extents of these lengths. -/
def migrateFileExtents (wal : Bool) (header : Nat) : List Nat → Op Unit
  | [] => pure ()
  | n :: ns => do
      if ← migrateExtent cfg wal header n then migrateFileExtents wal header ns else pure ()

/-- `ResetUnusedIOZones`. -/
def resetUnusedIOZones : List ZoneId → Op Status
  | [] => pure .ok
  | z :: zs => do
      if ← acquire z then
        if ← look fun s _ ↦ !(s.zones z).isEmpty && !(s.zones z).isUsed then
          let full ← look fun s _ ↦ (s.zones z).isFull
          let reset_status ← .perform (.reset z)
          let release_status ← release z
          match reset_status with
          | .ok =>
              match release_status with
              | .ok =>
                  whenever (!full) (putActiveIOZoneToken true)
                  resetUnusedIOZones zs
              | e => pure e
          | e => pure e
        else
          match ← release z with
          | .ok => resetUnusedIOZones zs
          | e => pure e
      else resetUnusedIOZones zs

/-! ## The machine -/

/-- The operations that can be started. -/
inductive Call where
  | append (f : Nat) (mode : Mode) (wal : Bool) (size : Nat)
  | closeWR (f : Nat)
  | migrateFileExtents (wal : Bool) (header : Nat) (lengths : List Nat)
  | resetUnusedIOZones
deriving DecidableEq, Repr

/-- The file whose zone a call is about. -/
def Call.file : Call → Option Nat
  | append f .. | closeWR f => some f
  | migrateFileExtents .. | resetUnusedIOZones => none

/-- What a call does. -/
def Call.prog : Call → Op Unit
  | append f mode wal size => do
      let _ ← appendData cfg f mode wal size
      .perform (.leave f)
  | closeWR f => do
      let _ ← OpenZones.closeWR f
      .perform (.leave f)
  | migrateFileExtents wal header lengths => OpenZones.migrateFileExtents cfg wal header lengths
  | resetUnusedIOZones => do
      let _ ← OpenZones.resetUnusedIOZones cfg.ioZones
      pure ()

/-- The state with the operations on it. -/
abbrev Machine : Type 1 := Pool Act OpenZones

/-- A step of the machine: a call, a step of operation `t`, a new file, the `PushExtent`
of a sync, extents of a deleted or migrated file that no longer count, or the end of a
file, which does not look at `active_zone_`. -/
inductive Label where
  | start (call : Call)
  | go (t : Nat) (c : Choice)
  | create
  | sync (f : Nat)
  | clear (i : ZoneId) (n : Nat)
  | destroy (f : Nat)
deriving DecidableEq, Repr

/-- The calls on a file are made one after the other. -/
def start (P : Machine) (call : Call) : Option Machine :=
  match call.file with
  | none => some (P.spawn P.shared (call.prog cfg))
  | some f =>
      if f < P.shared.nrFiles ∧ P.shared.inUse f = false then
        some (P.spawn (P.shared.setInUse f true) (call.prog cfg))
      else none

def step (P : Machine) : Label → Option Machine
  | .start call => start cfg P call
  | .go t c => P.go (exec cfg) t c
  | .create => some { P with shared := { P.shared with nrFiles := P.shared.nrFiles + 1 } }
  | .sync f =>
      if P.shared.inUse f = false then some { P with shared := P.shared.pushExtent f } else none
  | .clear i n =>
      let z := P.shared.zones i
      if n ≤ z.usedCapacity then
        some { P with shared := P.shared.setZone i { z with usedCapacity := z.usedCapacity - n } }
      else none
  | .destroy f =>
      if P.shared.inUse f = false then some { P with shared := P.shared.setActive f none } else none

/-- The device behind `ZonedBlockDevice::Open`, with files that have no zone. -/
def opened (reports : List ZoneReport) (nrFiles : Nat) : Machine :=
  .still
    { zones := fun i ↦ (reports[i]?.map ZoneReport.zone).getD default
      openIoZones := 0
      activeIoZones := reports.countP fun r ↦ r.cond.isActive
      activeOfZones := reports.countP fun r ↦ r.cond.isActive
      migrating := false
      nrFiles := nrFiles
      activeZone := fun _ ↦ none
      unsynced := fun _ ↦ 0
      inUse := fun _ ↦ false }

/-- The zones that a file has as its `active_zone_`. -/
def heldZones : Finset ZoneId := (Finset.range s.nrFiles).biUnion fun f ↦ (s.activeZone f).toFinset

/-- The next action is a `Close` of a partly written zone that the backend does not
carry out. -/
def failsClose (c : Choice) : Op Unit → Bool
  | .act (.close i) _ => (s.zones i).isPartial && !c.status.isOk
  | _ => false

/-- No `Close` of a partly written zone fails, and no file ends that has a zone. -/
def spares (P : Machine) : Label → Bool
  | .go t c => !P.shared.failsClose c (P.progs t)
  | .destroy f => (P.shared.activeZone f).isNone
  | _ => true

end OpenZones

end ZenFs
