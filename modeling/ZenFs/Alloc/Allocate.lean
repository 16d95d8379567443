import ZenFs.Alloc.Select

/-!
# `AllocateIOZoneNoLock`

The allocator around zone selection: the deferred status, the tokens for open and
active zones, and the zones that are finished on the way.  One call is modelled, in
which no other thread interferes; `none` is a fault, or a wait that only another
thread can end.
-/

namespace ZenFs

namespace Alloc

/-- The part of a `ZonedBlockDevice` that `AllocateIOZoneNoLock` works on. -/
structure Allocator where
  table : Table
  deferredStatus : Status := .ok
  openIoZones : Int := 0
  activeIoZones : Int := 0
  maxNrOpenIoZones : Nat
  maxNrActiveIoZones : Nat
  finishThreshold : Nat := 0

/-- What a call leaves.  The zone is the one that `out_zone` is set to, and `level` the
level of the file. -/
structure Allocation where
  state : Allocator
  zone : Option ZoneId := none
  status : Status
  level : Int

/-- `Zone::Finish` on a backend that carries it out. -/
def IoZone.finish (z : IoZone) (zoneSize : Nat) : IoZone :=
  { z with capacity := 0, wp := z.start + zoneSize }

/-- `GetEmptyZoneCount`. -/
def Table.getEmptyZoneCount (t : Table) : Nat := t.ioZones.countP fun i ↦ (t.zone i).isEmpty

namespace Allocator

variable (a : Allocator) (i : ZoneId)

/-- The table with a field of zone `i` changed. -/
def setZone (z : IoZone) : Allocator :=
  { a with table := { a.table with zone := Function.update a.table.zone i z } }

/-- The table with other busy flags. -/
def withBusy (f : ZoneId → Bool) : Allocator := { a with table := { a.table with busy := f } }

/-- `Zone::Acquire` on a free zone. -/
def acquire : Allocator := a.withBusy (Function.update a.table.busy i true)

/-- `Zone::CheckRelease`. -/
def checkRelease : Allocator × Status :=
  (a.withBusy (TryLock.release a.table.busy i).1,
    if (TryLock.release a.table.busy i).2 then .ok else a.table.notReleased i)

/-- `PutOpenIOZoneToken`. -/
def putOpenIOZoneToken : Allocator := { a with openIoZones := a.openIoZones - 1 }

/-- `PutActiveIOZoneToken`. -/
def putActiveIOZoneToken : Allocator := { a with activeIoZones := a.activeIoZones - 1 }

/-- `GetActiveIOZoneTokenIfAvailable`. -/
def getActiveIOZoneTokenIfAvailable : Allocator × Bool :=
  if a.activeIoZones < a.maxNrActiveIoZones then
    ({ a with activeIoZones := a.activeIoZones + 1 }, true)
  else (a, false)

/-- `WaitForOpenIOZoneToken`.  The limit is a difference of unsigned numbers. -/
def waitForOpenIOZoneToken (prioritized : Bool) : Option Allocator :=
  let limit := if prioritized then a.maxNrOpenIoZones
    else (a.maxNrOpenIoZones + 2 ^ 32 - 1) % 2 ^ 32
  if a.openIoZones < limit then some { a with openIoZones := a.openIoZones + 1 } else none

/-- What the head of the function does to `max_level`, which has 8 bits. -/
def raiseMaxLevel (level : Int) : Allocator :=
  if (a.table.maxLevel : Int) < level then
    { a with table := { a.table with maxLevel := (level % 256).toNat } }
  else a

/-- The zone has less capacity left than `finish_threshold_` percent. -/
def withinFinishThreshold : Bool :=
  decide ((a.table.zone i).capacity < (a.table.zone i).maxCapacity * a.finishThreshold %
    2 ^ 64 / 100)

variable (finish : ZoneId → Status)

/-- The loop of `ApplyFinishThreshold`; `finish` tells what the backend does. -/
def finishThresholdLoop : List ZoneId → Allocator → Allocator × Status
  | [], a => (a, .ok)
  | z :: zs, a =>
      if a.table.busy z then finishThresholdLoop zs a
      else
        let a := a.acquire z
        if !((a.table.zone z).isEmpty || (a.table.zone z).isFull) && a.withinFinishThreshold z then
          match finish z with
          | .ok =>
              let a := a.setZone z ((a.table.zone z).finish a.table.zoneSize)
              match a.checkRelease z with
              | (a, .ok) => finishThresholdLoop zs a.putActiveIOZoneToken
              | (a, s) => (a, s)
          | s => ((a.checkRelease z).1, s)
        else
          match a.checkRelease z with
          | (a, .ok) => finishThresholdLoop zs a
          | (a, s) => (a, s)

/-- `ApplyFinishThreshold`. -/
def applyFinishThreshold : Allocator × Status :=
  if a.finishThreshold = 0 then (a, .ok) else finishThresholdLoop finish a.table.ioZones a

/-- The loop of `FinishCheapestIOZone` for the victim: the zone with the least capacity
left among those that are neither empty nor full. -/
def finishVictim : TryLock.Result ZoneId Nat :=
  TryLock.scan false id (fun finish_victim capacity z ↦
    let zone := a.table.zone z
    if zone.isEmpty || zone.isFull then none
    else if finish_victim = none ∨ zone.capacity < capacity then some zone.capacity
    else none) a.table.ioZones a.table.busy none 0

/-- The end of `FinishCheapestIOZone`. -/
def finishAndRelease (v : ZoneId) : Allocator × Status :=
  match finish v with
  | .ok =>
      let (a, release_status) :=
        (a.setZone v ((a.table.zone v).finish a.table.zoneSize)).checkRelease v
      (a.putActiveIOZoneToken, release_status)
  | s =>
      let (a, release_status) := a.checkRelease v
      (a, if release_status.isOk then s else release_status)

/-- `FinishCheapestIOZone`, which succeeds without a victim. -/
def finishCheapestIOZone : Allocator × Status :=
  let r := a.finishVictim
  let a := a.withBusy r.flags
  match r.stuck, r.best with
  | some i, _ => (a, a.table.notReleased i)
  | none, none => (a, .ok)
  | none, some v => a.finishAndRelease finish v

/-- The loop that finishes zones until there is a token. -/
def finishUntilToken : Nat → Allocator → Option (Allocator × Status)
  | 0, _ => none
  | fuel + 1, a =>
      match a.getActiveIOZoneTokenIfAvailable with
      | (a, true) => some (a, .ok)
      | (a, false) =>
          match a.finishCheapestIOZone finish with
          | (a, .ok) => finishUntilToken fuel a
          | (a, s) => some (a, s)

/-- What the allocator notes about a zone that it has opened. -/
def label (lifetime : WriteLifeTimeHint) (policy : PlacementPolicyType) (level : Int) : Allocator :=
  a.setZone i { a.table.zone i with lifetime := lifetime, policy := policy, level := level }

variable (w : Placement) (fuel : Nat) (file : FileInfo)

/-- No open zone is to be filled: a new zone is opened. -/
def openEmptyZone (got_token : Bool) (level : Int) : Option Allocation :=
  match if got_token then some (a, .ok) else finishUntilToken finish fuel a with
  | none => none
  | some (a, .ok) =>
      match a.table.allocateEmptyZone none w level with
      | none => none
      | some o =>
          let a := { a with table := o.table }
          match o.status, o.zone with
          | .ok, some i =>
              some { state := a.label i file.lifetime (getPolicy w level) level, zone := some i,
                     status := .ok, level := level }
          | .ok, none =>
              some { state := a.putActiveIOZoneToken.putOpenIOZoneToken, status := .ok,
                     level := level }
          | s, _ => some { state := a.putActiveIOZoneToken.putOpenIOZoneToken, status := s,
                           level := level }
  | some (a, s) => some { state := a.putOpenIOZoneToken, status := s, level := level }

/-- What is done with the match: it is kept, or released for a new zone. -/
def fillOrOpen (best_diff : Nat) (zone : Option ZoneId) (level : Int) : Option Allocation :=
  if best_diff < LIFETIME_DIFF_COULD_BE_WORSE then
    match zone with
    | some i => some { state := a, zone := some i, status := .ok, level := level }
    | none => some { state := a.putOpenIOZoneToken, status := .ok, level := level }
  else
    let (a, got_token) := a.getActiveIOZoneTokenIfAvailable
    match zone with
    | none => a.openEmptyZone finish w fuel file got_token level
    | some i =>
        if !got_token && best_diff == LIFETIME_DIFF_COULD_BE_WORSE then
          some { state := a, zone := some i, status := .ok, level := level }
        else if w.reserveZoneCount < a.table.getEmptyZoneCount then
          match a.checkRelease i with
          | (a, .ok) => a.openEmptyZone finish w fuel file got_token level
          | (a, s) =>
              let a := a.putOpenIOZoneToken
              some { state := if got_token then a.putActiveIOZoneToken else a, status := s,
                     level := level }
        else
          some { state := if got_token then a.putActiveIOZoneToken else a, zone := some i,
                 status := .ok, level := level }

/-- Behind the deferred status and the finish threshold: the open zone token, the match,
and the zone. -/
def findZone (io_type : IOType) (level : Int) (min_capacity : Nat) : Option Allocation :=
  match a.waitForOpenIOZoneToken (io_type == .kWAL) with
  | none => none
  | some a =>
      -- the parameter of the policies has 32 bits
      match getBestOpenZoneMatch w file (min_capacity % 2 ^ 32)
        { table := a.table, level := level } with
      | none => none
      | some s =>
          let a := { a with table := s.table }
          match s.status with
          | .ok => a.fillOrOpen finish w fuel file s.bestDiff s.zoneOut s.level
          | e => some { state := a.putOpenIOZoneToken, status := e, level := s.level }

/-- `AllocateIOZoneNoLock`. -/
def allocateIOZoneNoLock (io_type : IOType) (level : Int) (min_capacity : Nat) :
    Option Allocation :=
  let a := a.raiseMaxLevel level
  match a.deferredStatus with
  | .ok =>
      match if io_type ≠ .kWAL then a.applyFinishThreshold finish else (a, .ok) with
      | (a, .ok) => a.findZone finish w fuel file io_type level min_capacity
      | (a, s) => some { state := a, status := s, level := level }
  | s => some { state := a, status := s, level := level }

end Allocator

end Alloc

end ZenFs
