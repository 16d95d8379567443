import ZenFs.Fs.Namespace
import ZenFs.Lib.Loop

/-!
# Recovery of active extents, and mounting

`Mount` rebuilds the namespace from the log, recovers for each file what was
written behind its last persisted extent, rolls the log and resets the zones
that nothing uses.

`RecoverSparseExtents` walks over the segments of a sparse file.  The length of a
segment is read from the device and nothing checks it, so that the loop is stated
in the 64 bit arithmetic of the source.  It need not come to an end: it is given
fuel, and `none` is a mount that has not returned within it.
-/

namespace ZenFs

/-- `next_extent_start`, the `extents_` of the file and the zone they are in. -/
structure SparseScan where
  next_extent_start : Nat
  extents : List ZoneExtent
  zone : Zone
deriving DecidableEq, Repr

namespace SparseScan

variable (dev : Nat → Option (List Byte)) (block_sz stop : Nat) (i : ZoneId)

/-- How far `next_extent_start` moves behind a segment with `extent_length` bytes. -/
def segmentStep (extent_length : Nat) : Nat :=
  let n := (extent_length + SPARSE_HEADER_SIZE) % 2 ^ 64
  let extent_blocks := n / block_sz + if n % block_sz = 0 then 0 else 1
  extent_blocks * block_sz

/-- The extent behind the header at `next_extent_start`. -/
def extent (s : SparseScan) (extent_length : Nat) : ZoneExtent where
  start := (s.next_extent_start + SPARSE_HEADER_SIZE) % 2 ^ 64
  length := extent_length
  zone := i

/-- What a turn does behind the checks. -/
def push (s : SparseScan) (extent_length : Nat) : SparseScan where
  next_extent_start := (s.next_extent_start + segmentStep block_sz extent_length) % 2 ^ 64
  extents := s.extents ++ [s.extent i extent_length]
  zone := { s.zone with usedCapacity := s.zone.usedCapacity + extent_length }

/-- One turn of the loop in `ZoneFile::RecoverSparseExtents`, where `dev` gives the block
that is read at an offset and nothing if the read fails or is short. -/
def turn (s : SparseScan) : (SparseScan × Status) ⊕ SparseScan :=
  if s.next_extent_start < stop then
    match dev s.next_extent_start with
    | none => .inl (s, .ioError "Unexpected read error while recovering")
    | some buffer =>
        let extent_length := decodeFixed64 buffer
        if extent_length = 0 then
          .inl (s, .ioError "Unexpected extent length while recovering")
        else .inr (s.push block_sz i extent_length)
  else .inl (s, .ok)

section Turn

variable {dev : Nat → Option (List Byte)} {block_sz stop : Nat} {i : ZoneId} {s s' : SparseScan}

theorem turn_eq_inr : turn dev block_sz stop i s = .inr s' ↔
    s.next_extent_start < stop ∧ ∃ buffer, dev s.next_extent_start = some buffer ∧
      decodeFixed64 buffer ≠ 0 ∧ s.push block_sz i (decodeFixed64 buffer) = s' := by
  rw [turn]
  split
  · rename_i hlt
    cases hdev : dev s.next_extent_start with
    | none => simp
    | some buffer =>
        by_cases h0 : decodeFixed64 buffer = 0
        · simp [h0]
        · simp [h0, hlt]
  · rename_i hlt
    simp [hlt]

theorem turn_eq_inl {r : SparseScan × Status} (h : turn dev block_sz stop i s = .inl r) :
    r.1 = s := by
  rw [turn] at h
  split at h
  · split at h
    · rw [← Sum.inl.inj h]
    · dsimp only at h
      split at h
      · rw [← Sum.inl.inj h]
      · cases h
  · rw [← Sum.inl.inj h]

end Turn

/-- `ZoneFile::RecoverSparseExtents`, called with `next_extent_start` as its `start`.
Whether there is memory for a block is not up to the code. -/
def recoverSparseExtents (memory : Bool) (fuel : Nat) (s : SparseScan) :
    Option (SparseScan × Status) :=
  if memory then Loop.run (turn dev block_sz stop i) fuel s
  else some (s, .ioError "Out of memory while recovering")

end SparseScan

namespace Zbd

/-- `ZoneFile::RecoverSparseExtents` on the zone table.  Without memory for a block
the mount fails. -/
def recoverSparseExtents (d : Zbd) (fuel : Nat) (i : ZoneId) (start stop : Nat)
    (extents : List ZoneExtent) : Option (Zbd × List ZoneExtent × Status) :=
  (SparseScan.recoverSparseExtents (fun offset ↦ d.read offset d.blockSize) d.blockSize stop i true
    fuel ⟨start, extents, d.zones i⟩).map fun (s, st) ↦ (d.setZone i s.zone, s.extents, st)

/-- `ZoneFile::Recover`. -/
def recover (d : Zbd) (fuel : Nat) (f : ZoneFile) : Option (Zbd × ZoneFile × Status) :=
  if !f.hasActiveExtent then some (d, f, .ok)
  else match d.getIOZone f.extentStart with
    | none => some (d, f, .ioError "Could not find zone for extent start while recovering")
    | some i =>
        let wp := (d.zones i).wp
        if wp < f.extentStart then
          some (d, f, .ioError "Zone wp is smaller than active extent start")
        else if wp - f.extentStart = 0 then some (d, { f with extentStart := NO_EXTENT }, .ok)
        else if f.isSparse then
          (d.recoverSparseExtents fuel i f.extentStart wp f.extents).map fun
            | (d, extents, .ok) =>
                (d, { f with
                      extents := extents
                      extentStart := NO_EXTENT
                      fileSize := totalLength extents % 2 ^ 64 }, .ok)
            | (d, extents, s) => (d, { f with extents := extents }, s)
        else
          let extents := f.extents ++ [⟨f.extentStart, wp - f.extentStart, i⟩]
          some (d.addUsed i (wp - f.extentStart),
            { f with
              extents := extents
              extentStart := NO_EXTENT
              fileSize := totalLength extents % 2 ^ 64 }, .ok)

end Zbd

namespace Store

/-- `ZoneFile::Recover` on the object `r`. -/
def recoverFile (s : Store) (fuel : Nat) (r : Ref) : Option (Store × Status) :=
  (s.zbd.recover fuel (s.heap r)).map fun (zbd, f, st) ↦ ({ s with zbd := zbd }.setFile r f, st)

/-- `ZenFS::Repair`, over the files of the given list. -/
def repair (s : Store) (fuel : Nat) : List Ref → Option (Store × Status)
  | [] => some (s, .ok)
  | r :: rs =>
      match s.recoverFile fuel r with
      | some (s, .ok) => s.repair fuel rs
      | x => x

end Store

namespace Fs

variable (G : Geometry)

/-- `ZenFS::RollMetaZoneLocked`. -/
def rollMetaZoneLocked (fs : Fs) : Fs × Status :=
  let (log, s) := fs.log.rollMetaZoneLocked G fs.encodeSnapshotTo (fs.env.metas.headD {}).roll
  let fs' := fs.withLog log
  if s.isOk then (fs'.markAllSynced, s) else (fs'.note .persistFailed, s)

/-- The state between recovery and the first roll. -/
def recovered (s : Store) (media : Media) (nr : Nat) (v : ValidZone) (bufferSize : Nat)
    (env : Env) : Fs where
  toStore := s
  log := mountState G media nr v
  writers := fun _ ↦ none
  readers := fun _ ↦ none
  bufferSize := bufferSize
  env := env
  hist := []
  persisted := fun r ↦ (s.heap r).encodeSnapshotTo
  appended := fun r ↦ s.zbd.contents (s.heap r).extents
  overflowed := (List.range s.zbd.nrZones).any fun i ↦
    decide (2 ^ 64 ≤ (s.zbd.zones i).usedCapacity)

/-- `ZenFS::Mount`, not read-only, on a device with the IO zones `zbd`. -/
def mount (fuel : Nat) (media : Media) (nr : Nat) (zbd : Zbd) (bufferSize : Nat) (env : Env) :
    Option (Except Status Fs) :=
  match mountRecover G media nr (Store.init zbd) with
  | .error e => some (.error e)
  | .ok (v, s) =>
      (s.repair fuel (s.files.entries.map (·.2))).map fun
        | (s, .ok) =>
            match andThen ((recovered G s media nr v bufferSize env).rollMetaZoneLocked G)
                resetUnusedIOZones with
            | (fs, .ok) => .ok fs
            | (_, e) => .error e
        | (_, e) => .error e

end Fs

end ZenFs
