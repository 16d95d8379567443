import ZenFs.Meta.Roll
import ZenFs.File.Read

/-!
# The running filesystem

The state of a mounted `ZenFS`: the namespace and the device, the metadata log,
and the open writers.  What the code does not decide itself (the zone an
allocation returns, the outcome of a system call, the clock) is read from an
environment that each operation is given.

The state also keeps what no operation reads: a history of what has happened,
for each file the record it was last persisted with and the bytes that have
been appended to it, and whether a space counter has overflowed.
-/

namespace ZenFs

/-- A `ZonedWritableFile*`. -/
abbrev Handle := Nat

/-- `ZonedWritableFile`.  `buffer` is the memory behind `sparse_buffer` if the file
is sparse, and behind `buffer` otherwise. -/
structure Writer where
  file : Ref
  buffered : Bool
  buffer : Mem Byte
  bufferSz : Nat
  bufferPos : Nat
  wp : Nat
  isOpen : Bool

/-- One `zbd_->Read` inside `MigrateData`: an error, or a number of bytes. -/
inductive ReadCall where
  | failed
  | got (n : Nat)
deriving DecidableEq, Repr

/-- What an operation does not decide itself: the clock, the answer of the
auxiliary filesystem, the decisions of the allocator and the outcomes of the
backend calls in the order they are made, and what a new buffer contains.  A
backend call without an entry succeeds, an allocation without one does not. -/
structure Env where
  now : Nat := 0
  aux : Status := .notFound "auxiliary filesystem"
  picks : List Zbd.Pick := []
  writes : List (List WriteCall) := []
  reads : List ReadCall := []
  closes : List Bool := []
  metas : List PersistIo := []
  resets : ZoneId → ResetRes
  scratch : Mem Byte := fun _ ↦ 0

/-- What has happened.  An append to an IO zone notes the file, the bytes, and
which of them, from `header` on, are bytes of the file and at which position; a
reset notes whether a live file had bytes in the zone. -/
inductive Event where
  | cmd (c : Cmd)
  | append (zone : ZoneId) (file : Nat) (data : List Byte) (header pos length : Nat)
  | copy (zone : ZoneId) (file : Nat) (data : List Byte)
  | reset (zone : ZoneId) (live : Bool)
  | finish (zone : ZoneId)
  | synced (file length : Nat)
  | allocFailed
  | persistFailed
  | creationRolled
  | redirectedInPlace
deriving DecidableEq, Repr

/-- The bytes an event puts on the device for a file that is migrated. -/
def Event.copied : Event → List Byte
  | .copy _ _ data => data
  | _ => []

/-- What is left of an environment. -/
structure Env.Later (env env' : Env) : Prop where
  now : env'.now = env.now
  aux : env'.aux = env.aux
  resets : env'.resets = env.resets
  picks : env'.picks <:+ env.picks
  writes : env'.writes <:+ env.writes
  reads : env'.reads <:+ env.reads
  closes : env'.closes = env.closes
  metas : env'.metas <:+ env.metas

theorem Env.Later.refl (env : Env) : env.Later env :=
  ⟨rfl, rfl, rfl, List.suffix_rfl, List.suffix_rfl, List.suffix_rfl, rfl, List.suffix_rfl⟩

theorem Env.Later.trans {env env₁ env₂ : Env} (h₁ : env.Later env₁) (h₂ : env₁.Later env₂) :
    env.Later env₂ :=
  ⟨h₂.now.trans h₁.now, h₂.aux.trans h₁.aux, h₂.resets.trans h₁.resets, h₂.picks.trans h₁.picks,
    h₂.writes.trans h₁.writes, h₂.reads.trans h₁.reads, h₂.closes.trans h₁.closes,
    h₂.metas.trans h₁.metas⟩

/-- A mounted `ZenFS`. -/
structure Fs extends Store where
  log : MetaState
  writers : Handle → Option Writer
  readers : Nat → Option Ref
  bufferSize : Nat
  env : Env
  hist : List Event
  persisted : Ref → FileRecord
  appended : Ref → List Byte
  overflowed : Bool

namespace Fs

/-- Note an event. -/
def note (fs : Fs) (e : Event) : Fs := { fs with hist := fs.hist ++ [e] }

/-- Replace the object `r` points to. -/
def setFile (fs : Fs) (r : Ref) (f : ZoneFile) : Fs :=
  { fs with heap := Function.update fs.heap r f }

/-- `if (!s.ok()) return s;` -/
def andThen (x : Fs × Status) (k : Fs → Fs × Status) : Fs × Status :=
  match x with
  | (fs, .ok) => k fs
  | (fs, s) => (fs, s)

/-- Another `shared_ptr` to the object. -/
def hold (fs : Fs) (r : Ref) (t : Holder) : Fs :=
  { fs with handles := Function.update fs.handles r (t :: fs.handles r) }

/-- A `shared_ptr` goes away, and the object with the last one. -/
def drop (fs : Fs) (r : Ref) (t : Holder) : Fs :=
  { fs with toStore :=
      { fs.toStore with
        handles := Function.update fs.handles r ((fs.handles r).erase t) }.release r }

/-! ## Metadata -/

section Persist

variable (G : Geometry)

/-- `ZenFS::EncodeSnapshotTo`. -/
def encodeSnapshotTo (fs : Fs) : Record :=
  .completeFilesSnapshot (fs.files.entries.map fun e ↦ (fs.heap e.2).encodeSnapshotTo)

/-- `MetadataSynced` on one file. -/
def markSynced (fs : Fs) (r : Ref) : Fs :=
  { fs.setFile r (fs.heap r).metadataSynced with
    persisted := Function.update fs.persisted r (fs.heap r).encodeSnapshotTo }

/-- The loop behind the snapshot in `WriteSnapshotLocked`. -/
def markAllSynced (fs : Fs) : Fs :=
  { fs with
    heap := fun r ↦ if fs.files.refers r then (fs.heap r).metadataSynced else fs.heap r
    persisted := fun r ↦
      if fs.files.refers r then (fs.heap r).encodeSnapshotTo else fs.persisted r }

/-- `PersistRecord` is going to roll: the record is not appended, and the status of the
append compares equal to `NoSpace`. -/
def rolls (fs : Fs) (rec : Record) : Bool :=
  G.isNoSpace (fs.log.addRecord G fs.log.metaLog rec (fs.env.metas.headD {}).record).2

/-- The state with the log that a metadata call has left. -/
def withLog (fs : Fs) (log : MetaState) : Fs :=
  { fs with
    log := log
    hist := fs.hist ++ (log.cmds.drop fs.log.cmds.length).map Event.cmd
    env := { fs.env with metas := fs.env.metas.tail } }

/-- `ZenFS::PersistRecord`. -/
def persistRecord (fs : Fs) (rec : Record) : Fs × Status :=
  let io := fs.env.metas.headD {}
  let (log, s) := fs.log.persistRecord G rec fs.encodeSnapshotTo io.record io.roll
  let fs' := fs.withLog log
  if s.isOk then (if fs.rolls G rec then fs'.markAllSynced else fs', s)
  else (fs'.note .persistFailed, s)

variable {G} in
/-- The record is persisted on its own or with all files, or it is noted that it is not. -/
theorem persistRecord_cases (fs : Fs) (rec : Record) : ∃ log s,
    fs.log.persistRecord G rec fs.encodeSnapshotTo (fs.env.metas.headD {}).record
      (fs.env.metas.headD {}).roll = (log, s) ∧ (fs.persistRecord G rec).2 = s ∧
    (s = .ok ∧ ((fs.persistRecord G rec).1 = fs.withLog log ∨
        (fs.persistRecord G rec).1 = (fs.withLog log).markAllSynced) ∨
      s ≠ .ok ∧ (fs.persistRecord G rec).1 = (fs.withLog log).note .persistFailed) := by
  rcases hp : fs.log.persistRecord G rec fs.encodeSnapshotTo (fs.env.metas.headD {}).record
    (fs.env.metas.headD {}).roll with ⟨log, s⟩
  refine ⟨log, s, rfl, ?_⟩
  simp only [persistRecord, hp]
  cases s with
  | ok =>
      by_cases hr : fs.rolls G rec = true
      · simp [hr]
      · simp [hr]
  | _ => simp [Status.isOk]

/-- `ZenFS::SyncFileMetadataNoLock`. -/
def syncFileMetadataNoLock (fs : Fs) (r : Ref) (replace : Bool) : Fs × Status :=
  if (fs.heap r).isDeleted then (fs, .ok)
  else
    let fs := if replace then fs else fs.setFile r { fs.heap r with mTime := fs.env.now }
    let fileRecord := (fs.heap r).encodeUpdateTo
    andThen (fs.persistRecord G (if replace then .fileReplace fileRecord
      else .fileUpdate fileRecord)) fun fs ↦ (fs.markSynced r, .ok)

/-- `ZoneFile::PersistMetadata`. -/
def persistMetadata (fs : Fs) (r : Ref) : Fs × Status := fs.syncFileMetadataNoLock G r false

end Persist

/-! ## Zones -/

/-- `ApplyFinishThreshold` and `FinishCheapestIOZone` finish some zones. -/
def finishZones (fs : Fs) (is : List ZoneId) : Fs :=
  is.foldl (fun fs i ↦
    if fs.zbd.finishable i then { fs with zbd := fs.zbd.finish i }.note (.finish i) else fs) fs

/-- `ZonedBlockDevice::AllocateIOZoneNoLock`: any eligible zone is possible, and so
is none. -/
def allocateIOZoneNoLock (fs : Fs) : Fs × Option ZoneId :=
  match fs.env.picks with
  | [] => (fs, none)
  | p :: ps =>
      let fs := { fs with env := { fs.env with picks := ps } }.finishZones p.finished
      match p.zone with
      | some i =>
          if fs.zbd.stored.eligible i then ({ fs with zbd := fs.zbd.setBusy i true }, some i)
          else (fs, none)
      | none => (fs, none)

/-- `zone->used_capacity_ += n`. -/
def addUsed (fs : Fs) (i : ZoneId) (n : Nat) : Fs :=
  { fs with
    zbd := fs.zbd.addUsed i n
    overflowed := fs.overflowed || decide (2 ^ 64 ≤ (fs.zbd.zones i).usedCapacity + n) }

/-- `Zone::Release`. -/
def releaseZone (fs : Fs) (i : ZoneId) : Fs := { fs with zbd := fs.zbd.setBusy i false }

section Fields

variable (fs : Fs) (i : ZoneId) (n : Nat)

@[simp] theorem addUsed_zbd : (fs.addUsed i n).zbd = fs.zbd.addUsed i n := rfl
@[simp] theorem addUsed_heap : (fs.addUsed i n).heap = fs.heap := rfl
@[simp] theorem addUsed_writers : (fs.addUsed i n).writers = fs.writers := rfl
@[simp] theorem releaseZone_zbd : (fs.releaseZone i).zbd = fs.zbd.setBusy i false := rfl

end Fields

/-- `Zone::Append`, with the event for the bytes that reach the device. -/
def zoneAppend (fs : Fs) (i : ZoneId) (data : List Byte) (event : List Byte → Event) :
    Fs × Status :=
  let (zbd, s) := fs.zbd.append i data (fs.env.writes.headD [])
  let written := data.take ((zbd.zones i).wp - (fs.zbd.zones i).wp)
  ({ fs with zbd := zbd, env := { fs.env with writes := fs.env.writes.tail } }.note
    (event written), s)

/-- The state behind an append of which `data` has reached the device. -/
def wrote (fs : Fs) (i : ZoneId) (data : List Byte) (e : Event) : Fs :=
  { fs with
    zbd := fs.zbd.appended i data
    env := { fs.env with writes := fs.env.writes.tail } }.note e

/-- A live file has bytes in the zone. -/
def holdsLive (fs : Fs) (i : ZoneId) : Bool :=
  decide (∃ r ∈ fs.live, ∃ e ∈ (fs.heap r).extents, e.zone = i ∧ 0 < e.length)

/-- `Zone::Reset`. -/
def resetZone (fs : Fs) (i : ZoneId) : Fs × Status :=
  let (zbd, s) := fs.zbd.reset i (fs.env.resets i)
  let fs' := { fs with zbd := zbd }
  (if fs.env.resets i = .failed false then fs' else fs'.note (.reset i (fs.holdsLive i)), s)

/-- The loop of `ZonedBlockDevice::ResetUnusedIOZones` over the given zones: a zone
that is not busy, not empty and not used is reset. -/
def resetZones (fs : Fs) : List ZoneId → Fs × Status
  | [] => (fs, .ok)
  | i :: is =>
      let z := fs.zbd.stored.zones i
      if z.busy || z.isEmpty || z.isUsed then
        fs.resetZones is
      else andThen (fs.resetZone i) fun fs ↦ fs.resetZones is

/-- `ZonedBlockDevice::ResetUnusedIOZones`. -/
def resetUnusedIOZones (fs : Fs) : Fs × Status := fs.resetZones (List.range fs.zbd.nrZones)

/-! ## What the zone operations can do -/

section Outcomes

variable (fs : Fs)

theorem zoneAppend_cases (i : ZoneId) (data : List Byte) (event : List Byte → Event) :
    ∃ n ≤ data.length, n ≤ (fs.zbd.zones i).capacity ∧
      (fs.zoneAppend i data event).1 = fs.wrote i (data.take n) (event (data.take n)) ∧
      ((fs.zoneAppend i data event).2 = .ok → n = data.length) := by
  obtain ⟨n, hn, hz, hc, hok⟩ := fs.zbd.append_spec i data (fs.env.writes.headD [])
  refine ⟨n, hn, hc, ?_, fun h ↦ (hok h).1⟩
  have hw : data.take (((fs.zbd.append i data (fs.env.writes.headD [])).1.zones i).wp -
      (fs.zbd.zones i).wp) = data.take n := by
    rw [hz, Zbd.appended_zones, if_pos rfl]
    simp [Nat.min_eq_left hn]
  simp only [zoneAppend, wrote, hw]
  rw [hz]

/-- An allocation finishes some zones, and then takes an eligible one or none. -/
theorem allocateIOZoneNoLock_cases :
    ∃ ps is, (fs.allocateIOZoneNoLock =
        ({ fs with env := { fs.env with picks := ps } }.finishZones is, none)) ∨
      ∃ i fs₁, fs₁ = { fs with env := { fs.env with picks := ps } }.finishZones is ∧
        fs₁.zbd.eligible i = true ∧
        fs.allocateIOZoneNoLock = ({ fs₁ with zbd := fs₁.zbd.setBusy i true }, some i) := by
  unfold allocateIOZoneNoLock
  split
  · exact ⟨fs.env.picks, [], .inl rfl⟩
  · rename_i p ps _
    refine ⟨ps, p.finished, ?_⟩
    simp only
    split
    · split
      · rename_i i _ he
        exact .inr ⟨i, _, rfl, Zbd.eligible_of_stored he, rfl⟩
      · exact .inl rfl
    · exact .inl rfl

end Outcomes

end Fs

end ZenFs
