import ZenFs.Meta.Replay
import Mathlib.Data.List.Sort

/-!
# Rolling the metadata log, and mounting

`RollMetaZoneLocked` moves the log to a fresh metadata zone, and `Mount` finds
the zone to recover from among whatever earlier runs left behind.
-/

namespace ZenFs

/-- What the backend does with the three appends of a roll. -/
structure RollIo where
  endRecord : WriteRes := .written
  superblock : WriteRes := .written
  snapshot : WriteRes := .written
deriving DecidableEq, Repr, Inhabited

/-- What it does in one `PersistRecord`. -/
structure PersistIo where
  record : WriteRes := .written
  roll : RollIo := {}
deriving DecidableEq, Repr, Inhabited

namespace MetaState

/-- The first metadata zone that is not busy; `IsUsed` is false of all of them. -/
def freeMetaZone (m : MetaState) : Option Nat :=
  (List.range m.nr).find? fun i ↦ !(m.zones i).busy

/-- `ZonedBlockDevice::AllocateMetaZone` once it has found zone `i`: acquire it,
and reset it unless it is empty. -/
def allocateMetaZone (m : MetaState) (i : Nat) : MetaState :=
  if (m.zones i).wp = 0 then m.acquire i else (m.acquire i).reset i

/-- The end record and the finish of the old zone, if there is space left. -/
def closeOldZone (G : Geometry) (m : MetaState) (old : Nat) (res : WriteRes) : MetaState :=
  let m := if 0 < (m.zones old).capacity then (m.addRecord G old .endRecord res).1 else m
  if 0 < (m.zones old).capacity then m.finish G old else m

/-- `ZenFS::RollMetaZoneLocked` up to the encoding of the superblock.  `meta_log_`
points to the new zone before anything has been written to it. -/
def beginRoll (G : Geometry) (m : MetaState) (new : Nat) (res : WriteRes) : MetaState :=
  let m₁ := { m.allocateMetaZone new with metaLog := new }.closeOldZone G m.metaLog res
  { m₁ with superblock := m₁.superblock.encodeTo.1 }

/-- `ZenFS::RollMetaZoneLocked`, where `snapshot` is what `EncodeSnapshotTo`
makes of `files_`.  The old log is destroyed, and its zone released, on every
return. -/
def rollMetaZoneLocked (G : Geometry) (m : MetaState) (snapshot : Record) (io : RollIo) :
    MetaState × Status :=
  match m.freeMetaZone with
  | none => (m, .noSpace "Out of metadata zones")
  | some new =>
      match (m.beginRoll G new io.endRecord).addRecord G new m.superblock.encodeTo.2
          io.superblock with
      | (m₁, .ok) =>
          match m₁.addRecord G new snapshot io.snapshot with
          | (m₂, .ok) => ((m₂.reset m.metaLog).release m.metaLog, .ok)
          | (m₂, s) => (m₂.release m.metaLog, s)
      | (m₁, _) => (m₁.release m.metaLog, .ioError "Failed writing a new superblock")

/-- `ZenFS::PersistRecord`: append the record, or roll when it does not fit. -/
def persistRecord (G : Geometry) (m : MetaState) (r snapshot : Record) (res : WriteRes)
    (io : RollIo) : MetaState × Status :=
  let (m', s) := m.addRecord G m.metaLog r res
  if G.isNoSpace s then m'.rollMetaZoneLocked G snapshot io else (m', s)

end MetaState

/-! ## Mount -/

/-- A metadata zone with a valid superblock, and where its log continues. -/
structure ValidZone where
  zone : Nat
  sb : Superblock
  pos : Nat
deriving DecidableEq, Repr, Inhabited

/-- `Superblock::CompatibleWith`. -/
def Superblock.compatibleWith (sb : Superblock) (G : Geometry) : Status :=
  if sb.blockSize ≠ G.blockSize then .corruption "Error: block size missmatch"
  else if sb.zoneSize ≠ G.zoneBlocks then .corruption "Error: zone size missmatch"
  else if G.nrZones < sb.nrZones then .corruption "Error: nr of zones missmatch"
  else .ok

/-- The loop of `ZenFS::Mount` that collects valid superblocks.  A zone that
cannot be read or is empty is skipped; a first record that is not a compatible
superblock ends the mount. -/
def findSuperblocks (G : Geometry) (d : Media) : List Nat → Except Status (List ValidZone)
  | [] => .ok []
  | i :: is =>
      match readRecord G (d i) ((d i).reportedWp G) 0 with
      | .error _ => findSuperblocks G d is
      | .ok (none, _) => findSuperblocks G d is
      | .ok (some (.superblock sb), p) =>
          match sb.compatibleWith G, findSuperblocks G d is with
          | .ok, .ok vs => .ok (⟨i, sb, p⟩ :: vs)
          | .ok, .error e => .error e
          | e, _ => .error e
      | .ok (some _, _) => .error (.corruption "Error: Superblock size missmatch")

/-- The order of `seq_map`: descending sequence numbers, later zones first among
equals. -/
def ValidZone.before (a b : ValidZone) : Prop :=
  b.sb.sequence < a.sb.sequence ∨ b.sb.sequence = a.sb.sequence ∧ b.zone ≤ a.zone

instance : DecidableRel ValidZone.before := fun a b ↦ by
  unfold ValidZone.before; infer_instance

/-- The loop of `ZenFS::Mount` that tries the zones in turn: the next zone is
tried only when there was no snapshot. -/
def tryRecover (G : Geometry) (d : Media) :
    List ValidZone → Store → Except Status (ValidZone × Store)
  | [], _ => .error (.ioError "Failed to mount filesystem")
  | v :: vs, s =>
      match recoverFrom G (d v.zone) ((d v.zone).reportedWp G) v.pos s with
      | .ok s' => .ok (v, s')
      | .notFound s' => tryRecover G d vs s'
      | .failed e => .error e

/-- `ZenFS::Mount` up to the point where the namespace has been recovered: the
zone it was recovered from, and the namespace. -/
def mountRecover (G : Geometry) (d : Media) (nr : Nat) (s : Store) :
    Except Status (ValidZone × Store) :=
  if nr < 2 then .error .notSupported
  else match findSuperblocks G d (List.range nr) with
    | .error e => .error e
    | .ok [] => .error (.notFound "No valid superblock found")
    | .ok vs => tryRecover G d (vs.insertionSort ValidZone.before) s

/-- The metadata side after recovery: `meta_log_` keeps the recovered zone, all
other zones have been released. -/
def mountState (G : Geometry) (d : Media) (nr : Nat) (v : ValidZone) : MetaState where
  nr := nr
  media := d
  zones := fun i ↦ { MetaZone.open G (d i) with busy := decide (i = v.zone) }
  metaLog := v.zone
  superblock := v.sb
  cmds := []

end ZenFs
