import ZenFs.Zbd.Zone
import ZenFs.Lib.Reach

/-!
# Active zone tokens

`active_io_zones_` counts the zones that the device has to keep active.  The
allocator takes a token before it opens an empty zone; whoever finds the zone full,
finishes it or resets it gives the token back.

Any number of operations is under way at a time.  An operation goes from one point
to the next: between two points it sets or clears the `busy_` flag of one zone,
changes one zone whose flag it has set, or changes the counter.  What the placement
policies and the empty zone allocators look at, in which order, and what they choose
is left open; so is how many empty zones `GetEmptyZoneCount` sees, which looks at the
zones of others.  The mutexes and the tokens for open zones only make an operation
wait.
-/

namespace ZenFs

namespace Zone

/-- Neither empty nor full. -/
def isPartial (z : Zone) : Bool := !z.isEmpty && !z.isFull

/-- The zone behind `n` more bytes. -/
def wrote (z : Zone) (n : Nat) : Zone := { z with wp := z.wp + n, capacity := z.capacity - n }

/-- The zone behind `Finish`. -/
def finished (z : Zone) (zoneSize : Nat) : Zone :=
  { z with capacity := 0, wp := z.start + zoneSize, finishCount := z.finishCount + 1 }

/-- The zone behind `Reset`: with the capacity that the backend reports, or offline. -/
def erased (z : Zone) : Option Nat → Zone
  | some c => { z with
    maxCapacity := c, capacity := c, wp := z.start, resetCount := z.resetCount + 1 }
  | none => { z with capacity := 0, wp := z.start, resetCount := z.resetCount + 1 }

end Zone

namespace Zbd

variable (d : Zbd) (i : ZoneId)

theorem appended_zones_self (data : List Byte) :
    (d.appended i data).zones i = (d.zones i).wrote data.length := by
  simp [appended_zones, Zone.wrote]

theorem finish_zones_self : (d.finish i).zones i = (d.zones i).finished d.zoneSize := by
  simp [finish, Zone.finished]

theorem reset_zones_self (c : Nat) :
    (d.reset i (.done c)).1.zones i = (d.zones i).erased (some c) := by
  simp [reset, Zone.erased]

theorem reset_offline_zones_self : (d.reset i .offline).1.zones i = (d.zones i).erased none := by
  simp [reset, Zone.erased]

end Zbd

namespace Tokens

/-- Who writes into a zone: a file through its `active_zone_`, or a migration
through its `target_zone`. -/
inductive Writer where
  | file (f : Nat)
  | migration (op : Nat)
deriving DecidableEq, Repr

/-- Who has set `busy_` of a zone: an operation that looks at it, or a writer. -/
inductive Holder where
  | scan (op : Nat)
  | writer (w : Writer)
deriving DecidableEq, Repr

/-- `BufferedAppend`, `SparseAppend` and `Append` of a `ZoneFile`. -/
inductive Mode where
  | buffered
  | sparse
  | direct
deriving DecidableEq, Repr

/-- What an operation is to do: append `left` bytes to a file, copy `left` bytes of
an extent of `length` bytes, or close the zone of a file.  `wal` tells the io type of
a write-ahead log. -/
inductive Job where
  | append (f : Nat) (mode : Mode) (wal : Bool) (left : Nat)
  | migrate (op : Nat) (wal : Bool) (left length : Nat)
  | close (f : Nat)
deriving DecidableEq, Repr

namespace Job

def writer : Job → Writer
  | append f .. | close f => .file f
  | migrate op .. => .migration op

def wal : Job → Bool
  | append _ _ wal _ | migrate _ wal .. => wal
  | close _ => false

end Job

/-- Where an operation is. -/
inductive Pc where
  | idle
  /-- In front of the next round of the loop that writes. -/
  | loop (k : Job)
  /-- In front of `CloseActiveZone` or `ReleaseMigrateZone`. -/
  | closing (k : Job)
  /-- The zone that was closed was full. -/
  | closed (k : Job)
  /-- About to return. -/
  | returning (k : Job)
  /-- `ApplyFinishThreshold` in front of zone `i`. -/
  | threshold (k : Job) (i : ZoneId)
  | thresholdHeld (k : Job) (i : ZoneId)
  /-- Zone `i` is finished. -/
  | thresholdDone (k : Job) (i : ZoneId)
  | thresholdPut (k : Job) (i : ZoneId)
  /-- `GetBestOpenZoneMatch` with the best zone so far. -/
  | matching (k : Job) (best : Option ZoneId)
  | matchHeld (k : Job) (best : Option ZoneId) (i : ZoneId)
  /-- Zone `i` is better than `old`. -/
  | matchSwap (k : Job) (old i : ZoneId)
  /-- `AllocateIOZoneNoLock` behind the match. -/
  | token (k : Job) (best : Option ZoneId) (diff : Nat)
  | decide (k : Job) (best : Option ZoneId) (diff : Nat) (got : Bool)
  /-- The match is kept, the token is not needed. -/
  | matchPut (k : Job) (i : ZoneId)
  | matched (k : Job) (i : ZoneId)
  /-- The loop around `FinishCheapestIOZone`. -/
  | opening (k : Job) (got : Bool)
  /-- `FinishCheapestIOZone` in front of zone `i`. -/
  | cheapest (k : Job) (i : ZoneId) (victim : Option ZoneId)
  | cheapestHeld (k : Job) (i : ZoneId) (victim : Option ZoneId)
  /-- Zone `i` is cheaper than `old`. -/
  | cheapestSwap (k : Job) (old i : ZoneId)
  /-- The victim is finished. -/
  | cheapestDone (k : Job) (v : ZoneId)
  | cheapestPut (k : Job)
  /-- `AllocateEmptyZone` with the best zone so far. -/
  | emptying (k : Job) (best : Option ZoneId)
  | emptyHeld (k : Job) (best : Option ZoneId) (i : ZoneId)
  | emptySwap (k : Job) (old i : ZoneId)
  /-- No empty zone was found. -/
  | emptyPut (k : Job)
  /-- `ResetUnusedIOZones` in front of zone `i`. -/
  | resetting (i : ZoneId)
  | resetHeld (i : ZoneId)
  /-- Zone `i` has been reset; `full` is what it was before. -/
  | resetDone (i : ZoneId) (full : Bool)
  | resetPut (i : ZoneId)
deriving DecidableEq, Repr

/-- What a step depends on beyond the state: the zone a policy looks at next, whether
it prefers that zone, the difference it reports, whether there are more empty zones
than are to be kept in reserve, the capacity a reset reports, and whether the file of
a migration is still there. -/
structure Choice where
  scan : Option ZoneId := none
  take : Bool := false
  diff : Nat := 0
  moreEmpty : Bool := false
  report : Option Nat := none
  fileThere : Bool := true
deriving DecidableEq, Repr

/-- The parameters of the device and of the filesystem. -/
structure Config where
  zoneSize : Nat
  blockSize : Nat
  maxActive : Nat
  finishThreshold : Nat
deriving DecidableEq, Repr

end Tokens

/-- The zones, the counter and the operations.  `owner` tells who has set `busy_`;
no step looks at it.  `unsynced` is `file_size_ - extent_filepos_`, and `user` is the
operation that is under way on a writer. -/
structure Tokens where
  nrZones : Nat
  zones : ZoneId → Zone
  owner : ZoneId → Option Tokens.Holder
  active : Int
  activeZone : Tokens.Writer → Option ZoneId
  unsynced : Tokens.Writer → Nat
  user : Tokens.Writer → Option Nat
  nextOp : Nat
  pc : Nat → Tokens.Pc

namespace Tokens

/-- `LIFETIME_DIFF_COULD_BE_WORSE`. -/
def LIFETIME_DIFF_COULD_BE_WORSE : Nat := 50

/-- `step` of `MigrateData`. -/
def MIGRATE_STEP : Nat := 131072

/-- A size with its padding to the next block boundary. -/
def padded (blockSize n : Nat) : Nat :=
  if n % blockSize = 0 then n else n + (blockSize - n % blockSize)

/-- The difference of two unsigned 32-bit numbers. -/
def sub32 (a b : Nat) : Nat := (a + 2 ^ 32 - b) % 2 ^ 32

def setPc (s : Tokens) (t : Nat) (p : Pc) : Tokens := { s with pc := Function.update s.pc t p }

def setZone (s : Tokens) (i : ZoneId) (z : Zone) : Tokens :=
  { s with zones := Function.update s.zones i z }

def setOwner (s : Tokens) (i : ZoneId) (h : Option Holder) : Tokens :=
  { s with owner := Function.update s.owner i h }

/-- `Zone::Acquire` by an operation. -/
def acquire (s : Tokens) (t : Nat) (i : ZoneId) : Tokens :=
  (s.setZone i { s.zones i with busy := true }).setOwner i (some (.scan t))

/-- `Zone::Release`. -/
def release (s : Tokens) (i : ZoneId) : Tokens :=
  (s.setZone i { s.zones i with busy := false }).setOwner i none

/-- `SetActiveZone` of the zone that was allocated, which is busy already. -/
def setActiveZone (s : Tokens) (w : Writer) (i : ZoneId) : Tokens :=
  { s.setOwner i (some (.writer w)) with
    activeZone := Function.update s.activeZone w (some i)
    unsynced := Function.update s.unsynced w 0 }

/-- `ReleaseActiveZone`. -/
def releaseActiveZone (s : Tokens) (w : Writer) (i : ZoneId) : Tokens :=
  { s.release i with activeZone := Function.update s.activeZone w none }

/-- `zone->used_capacity_ += n`. -/
def addUsed (s : Tokens) (i : ZoneId) (n : Nat) : Tokens :=
  s.setZone i { s.zones i with usedCapacity := (s.zones i).usedCapacity + n }

/-- `ZoneFile::PushExtent`. -/
def pushExtent (s : Tokens) (w : Writer) : Tokens :=
  match s.activeZone w with
  | none => s
  | some i => { s.addUsed i (s.unsynced w) with unsynced := Function.update s.unsynced w 0 }

/-- The first point of `AllocateIOZoneNoLock`. -/
def allocate (k : Job) : Pc := if k.wal then .matching k none else .threshold k 0

/-- Where an operation goes on behind a closed zone: an append goes on in another zone. -/
def afterClose : Job → Pc
  | k@(.append ..) => allocate k
  | k => .returning k

/-- A round of the loop of `BufferedAppend` and `SparseAppend`, with `header` bytes in
front of the data. -/
def appendChunk (cfg : Config) (s : Tokens) (t : Nat) (i : ZoneId) (f : Nat) (mode : Mode)
    (wal : Bool) (left header : Nat) : Tokens :=
  let wrSize := min ((left + header) % 2 ^ 32) (s.zones i).capacity
  let size := padded cfg.blockSize wrSize
  if (s.zones i).capacity < size then s.setPc t (.returning (.append f mode wal left))
  else
    let length := sub32 wrSize header
    let k := Job.append f mode wal (sub32 left length)
    let s' := (s.setZone i ((s.zones i).wrote size)).addUsed i length
    s'.setPc t (if (s'.zones i).isFull then .closing k else .loop k)

/-- A round of the loops that write. -/
def round (cfg : Config) (s : Tokens) (t : Nat) (i : ZoneId) (c : Choice) : Job → Tokens
  | .append f mode wal 0 => s.setPc t (.returning (.append f mode wal 0))
  | .append f .buffered wal left => s.appendChunk cfg t i f .buffered wal left 0
  | .append f .sparse wal left => s.appendChunk cfg t i f .sparse wal left SPARSE_HEADER_SIZE
  | .append f .direct wal left =>
      if (s.zones i).isFull then
        (s.pushExtent (.file f)).setPc t (.closing (.append f .direct wal left))
      else
        let n := min left (s.zones i).capacity
        { s.setZone i ((s.zones i).wrote n) with
          unsynced := Function.update s.unsynced (.file f) (s.unsynced (.file f) + n) }.setPc t
          (.loop (.append f .direct wal (left - n)))
  | .migrate op wal 0 length =>
      (if c.fileThere then s.addUsed i length else s).setPc t (.closing (.migrate op wal 0 length))
  | .migrate op wal left length =>
      -- the result of `Append` is not looked at
      let n := min left MIGRATE_STEP
      let size := padded cfg.blockSize n
      (if (s.zones i).capacity < size then s else s.setZone i ((s.zones i).wrote size)).setPc t
        (.loop (.migrate op wal (left - n) length))
  | .close f => s.setPc t (.closing (.close f))

/-- An operation gets to its next point. -/
def go (cfg : Config) (s : Tokens) (t : Nat) (c : Choice) : Option Tokens :=
  match s.pc t with
  | .idle => none
  | .loop k =>
      match s.activeZone k.writer with
      | none => some (s.setPc t (allocate k))
      | some i => some (s.round cfg t i c k)
  | .closing k =>
      match s.activeZone k.writer with
      | none => some (s.setPc t (afterClose k))
      | some i =>
          some ((s.releaseActiveZone k.writer i).setPc t
            (if (s.zones i).isFull then .closed k else afterClose k))
  | .closed k => some ({ s with active := s.active - 1 }.setPc t (afterClose k))
  | .returning k =>
      some ({ s with user := Function.update s.user k.writer none }.setPc t .idle)
  | .threshold k i =>
      if cfg.finishThreshold = 0 ∨ s.nrZones ≤ i then some (s.setPc t (.matching k none))
      else if (s.zones i).busy then some (s.setPc t (.threshold k (i + 1)))
      else some ((s.acquire t i).setPc t (.thresholdHeld k i))
  | .thresholdHeld k i =>
      if (s.zones i).isPartial = true ∧
          (s.zones i).capacity < (s.zones i).maxCapacity * cfg.finishThreshold / 100 then
        some ((s.setZone i ((s.zones i).finished cfg.zoneSize)).setPc t (.thresholdDone k i))
      else some ((s.release i).setPc t (.threshold k (i + 1)))
  | .thresholdDone k i => some ((s.release i).setPc t (.thresholdPut k i))
  | .thresholdPut k i => some ({ s with active := s.active - 1 }.setPc t (.threshold k (i + 1)))
  | .matching k best =>
      match c.scan with
      | none => some (s.setPc t (.token k best c.diff))
      | some i =>
          if i < s.nrZones ∧ (s.zones i).busy = false then
            some ((s.acquire t i).setPc t (.matchHeld k best i))
          else some (s.setPc t (.matching k best))
  | .matchHeld k best i =>
      if (s.zones i).isUsed = true ∧ (s.zones i).isFull = false ∧ c.take = true then
        match best with
        | none => some (s.setPc t (.matching k (some i)))
        | some old => some (s.setPc t (.matchSwap k old i))
      else some ((s.release i).setPc t (.matching k best))
  | .matchSwap k old i => some ((s.release old).setPc t (.matching k (some i)))
  | .token k best diff =>
      if diff < LIFETIME_DIFF_COULD_BE_WORSE then
        match best with
        | none => some (s.setPc t (.returning k))
        | some i => some (s.setPc t (.matched k i))
      else if s.active < cfg.maxActive then
        some ({ s with active := s.active + 1 }.setPc t (.decide k best diff true))
      else some (s.setPc t (.decide k best diff false))
  | .decide k best diff got =>
      match best with
      | none => some (s.setPc t (.opening k got))
      | some i =>
          if got = false ∧ diff = LIFETIME_DIFF_COULD_BE_WORSE then some (s.setPc t (.matched k i))
          else if c.moreEmpty then some ((s.release i).setPc t (.opening k got))
          else some (s.setPc t (if got then .matchPut k i else .matched k i))
  | .matchPut k i => some ({ s with active := s.active - 1 }.setPc t (.matched k i))
  | .matched k i => some ((s.setActiveZone k.writer i).setPc t (.loop k))
  | .opening k got =>
      if got then some (s.setPc t (.emptying k none))
      else if s.active < cfg.maxActive then
        some ({ s with active := s.active + 1 }.setPc t (.emptying k none))
      else some (s.setPc t (.cheapest k 0 none))
  | .cheapest k i victim =>
      if s.nrZones ≤ i then
        match victim with
        | none => some (s.setPc t (.opening k false))
        | some v =>
            some ((s.setZone v ((s.zones v).finished cfg.zoneSize)).setPc t (.cheapestDone k v))
      else if (s.zones i).busy then some (s.setPc t (.cheapest k (i + 1) victim))
      else some ((s.acquire t i).setPc t (.cheapestHeld k i victim))
  | .cheapestHeld k i victim =>
      if (s.zones i).isPartial = false then
        some ((s.release i).setPc t (.cheapest k (i + 1) victim))
      else
        match victim with
        | none => some (s.setPc t (.cheapest k (i + 1) (some i)))
        | some v =>
            if (s.zones i).capacity < (s.zones v).capacity then
              some (s.setPc t (.cheapestSwap k v i))
            else some ((s.release i).setPc t (.cheapest k (i + 1) victim))
  | .cheapestSwap k old i => some ((s.release old).setPc t (.cheapest k (i + 1) (some i)))
  | .cheapestDone k v => some ((s.release v).setPc t (.cheapestPut k))
  | .cheapestPut k => some ({ s with active := s.active - 1 }.setPc t (.opening k false))
  | .emptying k best =>
      match c.scan with
      | none =>
          match best with
          | none => some (s.setPc t (.emptyPut k))
          | some i => some ((s.setActiveZone k.writer i).setPc t (.loop k))
      | some i =>
          if i < s.nrZones ∧ (s.zones i).busy = false then
            some ((s.acquire t i).setPc t (.emptyHeld k best i))
          else some (s.setPc t (.emptying k best))
  | .emptyHeld k best i =>
      if (s.zones i).isEmpty = true ∧ c.take = true then
        match best with
        | none => some (s.setPc t (.emptying k (some i)))
        | some old => some (s.setPc t (.emptySwap k old i))
      else some ((s.release i).setPc t (.emptying k best))
  | .emptySwap k old i => some ((s.release old).setPc t (.emptying k (some i)))
  | .emptyPut k => some ({ s with active := s.active - 1 }.setPc t (.returning k))
  | .resetting i =>
      if s.nrZones ≤ i then some (s.setPc t .idle)
      else if (s.zones i).busy then some (s.setPc t (.resetting (i + 1)))
      else some ((s.acquire t i).setPc t (.resetHeld i))
  | .resetHeld i =>
      if (s.zones i).isEmpty = false ∧ (s.zones i).isUsed = false then
        some ((s.setZone i ((s.zones i).erased c.report)).setPc t (.resetDone i (s.zones i).isFull))
      else some ((s.release i).setPc t (.resetting (i + 1)))
  | .resetDone i full =>
      some ((s.release i).setPc t (if full then .resetting (i + 1) else .resetPut i))
  | .resetPut i => some ({ s with active := s.active - 1 }.setPc t (.resetting (i + 1)))

/-- The operations that can be started. -/
inductive Call where
  | append (f : Nat) (mode : Mode) (wal : Bool) (size : Nat)
  | close (f : Nat)
  | migrateExtent (wal : Bool) (size length : Nat)
  | resetUnusedIOZones
deriving DecidableEq, Repr

/-- What an operation has to do. -/
def Call.job (op : Nat) : Call → Option Job
  | append f mode wal size => some (.append f mode wal (size % 2 ^ 32))
  | close f => some (.close f)
  | migrateExtent wal size length => some (.migrate op wal (size % 2 ^ 32) length)
  | resetUnusedIOZones => none

/-- The first point of an operation. -/
def Job.entry : Job → Pc
  | k@(.close _) => .closing k
  | k => .loop k

/-- An operation begins.  The calls on a file are made one after the other. -/
def start (s : Tokens) (call : Call) : Option Tokens :=
  match call.job s.nextOp with
  | none => some { s.setPc s.nextOp (.resetting 0) with nextOp := s.nextOp + 1 }
  | some k =>
      if s.user k.writer = none then
        some { s.setPc s.nextOp k.entry with
          user := Function.update s.user k.writer (some s.nextOp)
          nextOp := s.nextOp + 1 }
      else none

/-- A step of the machine: a call, a move of an operation, the `PushExtent` of a sync,
or extents of a deleted or migrated file that no longer count. -/
inductive Label where
  | start (call : Call)
  | go (t : Nat) (c : Choice)
  | sync (f : Nat)
  | clear (i : ZoneId) (n : Nat)
deriving DecidableEq, Repr

def step (cfg : Config) (s : Tokens) : Label → Option Tokens
  | .start call => s.start call
  | .go t c => s.go cfg t c
  | .sync f => if s.user (.file f) = none then some (s.pushExtent (.file f)) else none
  | .clear i n =>
      if n ≤ (s.zones i).usedCapacity then
        some (s.setZone i { s.zones i with usedCapacity := (s.zones i).usedCapacity - n })
      else none

/-! ## Opening the device -/

/-- The condition of a zone in the report of the device; zones that are offline are
not used. -/
inductive ZoneCond where
  | empty
  | impOpen
  | expOpen
  | closed
  | full
  | readOnly
deriving DecidableEq, Repr

namespace ZoneCond

/-- `ZbdlibBackend::ZoneIsWritable`. -/
def isWritable : ZoneCond → Bool
  | full | readOnly => false
  | _ => true

/-- `ZbdlibBackend::ZoneIsActive`. -/
def isActive : ZoneCond → Bool
  | impOpen | expOpen | closed => true
  | _ => false

end ZoneCond

/-- A zone as the device reports it, with the bytes of the extents that are found in it
at mount.  The write pointer of an active zone is inside of the zone, that of an empty
zone is at its start. -/
structure ZoneReport where
  start : Nat
  maxCapacity : Nat
  wp : Nat
  cond : ZoneCond
  used : Nat
  wp_of_isActive : cond.isActive = true → start < wp ∧ wp < start + maxCapacity
  wp_of_empty : cond = .empty → wp = start
  used_of_empty : cond = .empty → used = 0

/-- An empty zone of four blocks. -/
def emptyZone (start : Nat) : ZoneReport where
  start := start
  maxCapacity := 16384
  wp := start
  cond := .empty
  used := 0
  wp_of_isActive := nofun
  wp_of_empty _ := rfl
  used_of_empty _ := rfl

/-- The constructor of `Zone`. -/
def ZoneReport.zone (r : ZoneReport) : Zone where
  start := r.start
  maxCapacity := r.maxCapacity
  capacity := if r.cond.isWritable then r.maxCapacity - (r.wp - r.start) else 0
  wp := r.wp
  usedCapacity := r.used
  busy := false
  resetCount := 0
  finishCount := 0

/-- The state behind `ZonedBlockDevice::Open` and the recovery of the extents. -/
def opened (reports : List ZoneReport) : Tokens where
  nrZones := reports.length
  zones i := (reports[i]?.map ZoneReport.zone).getD default
  owner _ := none
  active := reports.countP fun r ↦ r.cond.isActive
  activeZone _ := none
  unsynced _ := 0
  user _ := none
  nextOp := 0
  pc _ := .idle

/-! ## What is counted -/

/-- No operation that was started is in progress. -/
def Quiet (s : Tokens) : Prop := ∀ t < s.nextOp, s.pc t = .idle

instance (s : Tokens) : Decidable s.Quiet :=
  inferInstanceAs (Decidable (∀ t < s.nextOp, s.pc t = .idle))

/-- The zone is the `active_zone_` of a file. -/
def heldByFile (s : Tokens) (i : ZoneId) : Bool :=
  match s.owner i with
  | some (.writer (.file _)) => true
  | _ => false

/-- The number of zones that are partly written. -/
def partlyWritten (s : Tokens) : Nat := (List.range s.nrZones).countP fun i ↦ (s.zones i).isPartial

/-- The number of empty zones that are held for writing by a file. -/
def emptyHeld (s : Tokens) : Nat :=
  (List.range s.nrZones).countP fun i ↦ (s.zones i).isEmpty && s.heldByFile i

end Tokens

end ZenFs
