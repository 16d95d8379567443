import ZenFs.Fs.Write
import ZenFs.Lib.Pool
import ZenFs.Names.Recorded

/-!
# Files that are unlinked while they are open

A file keeps its writer, and a migration keeps its file, when the last name of the
file is deleted.  `ZoneFile::GetFilename` is the first link of the file, which is not
there any more.  The functions of the writers and of the garbage collection are
programs here, and any number of them are under way beside the calls on names.

Of a writer the model has what decides which way its functions go; what they do to
the extents of the file, the contents of the buffer and the device is left out.  A
`Choice` decides what others do: the allocator, the backend, and the metadata log.
Sections under `files_mtx_` or `alloc_mutex_` are one step, and where a roll marks
other files as synced, that is left out.
-/

namespace ZenFs

open Names

/-- What of a `ZonedWritableFile` and of the active zone of its file decides which way
its functions go.  `capacity` is that of the active zone. -/
structure Writable where
  buffered : Bool := false
  bufferSz : Nat := 0
  bufferPos : Nat := 0
  wp : Nat := 0
  capacity : Option Nat := none
  isOpen : Bool := false
deriving DecidableEq, Repr, Inhabited

/-- The namespace, the writers, and the files whose WR lock is taken or on which a call
is under way.  No function looks at the last two fields: the files whose first link has
been read from an empty list, and the records that hold a file which was deleted before
they were written. -/
structure Usage where
  names : Recorded
  writer : Ref → Writable
  openForWr : Ref → Bool
  inUse : Ref → Bool
  emptyReads : List Ref
  late : List Record

namespace Usage

open Pool

/-- The parameters of the device and of the filesystem. -/
structure Config where
  blockSize : Nat := 4096
  bufferSize : Nat := 2 ^ 20
  logZonestatsPlacementDelete : Bool := true
deriving DecidableEq, Repr

/-- What a step depends on beyond the state: what the allocator, the backend or
`PersistRecord` report, the capacity of the zone that is allocated, how much of a failed
append is written, whether a persist rolls the metadata log, and the clock. -/
structure Choice where
  status : Status := .ok
  zone : Option Nat := none
  num : Nat := 0
  roll : Bool := false
  now : Nat := 0
deriving DecidableEq, Repr

/-- What a function of a `ZoneFile`, or of its writer, does in one go. -/
inductive Act : Type → Type 1
  | choose {α : Type} (f : Choice → α) : Act α
  | field {α : Type} (f : Writable → α) : Act α
  | update (f : Writable → Writable) : Act Unit
  | isSparse : Act Bool
  | persist : Act Unit
  | syncFileMetadata (replace : Bool) : Act Status
  | allocateIOZone : Act (Status × Option Nat)
  | isGone (fname : Name) : Act Bool
  | releaseWRLock : Act Unit
  | leave : Act Unit

/-- An action on the file that it is done to. -/
inductive OnFile : Type → Type 1
  | mk {α : Type} (r : Ref) (e : Act α) : OnFile α

def OnFile.file {α : Type} : OnFile α → Ref
  | .mk r _ => r

variable (cfg : Config) (s : Usage) (c : Choice) (r : Ref)

/-! ## Actions -/

/-- `ZoneFile::GetFilename`. -/
def getFilename : Usage :=
  if (s.names.heap r).linkfiles = [] then { s with emptyReads := s.emptyReads ++ [r] } else s

/-- `ZenFS::EncodeSnapshotTo`. -/
def encodeSnapshotTo (n : Recorded) : Record :=
  .completeFilesSnapshot (n.files.entries.map fun e ↦ (n.heap e.2).encodeSnapshotTo)

/-- `ZenFS::PersistRecord`: a roll writes a snapshot, and not the record. -/
def persistRecord (n : Recorded) (rec : Record) : Recorded × Status :=
  ({ n with world := n.world ++ [if c.roll then encodeSnapshotTo n else rec] }, c.status)

/-- `ZenFS::SyncFileMetadataNoLock` of a file that is not deleted. -/
def syncLinked (n : Recorded) (replace : Bool) : Recorded × Status :=
  let n := if replace then n else n.setFile r ((n.heap r).setFileModificationTime c.now)
  let fileRecord := (n.heap r).encodeUpdateTo
  match persistRecord c n (if replace then .fileReplace fileRecord else .fileUpdate fileRecord) with
  | (n, .ok) => (n.setFile r (n.heap r).metadataSynced, .ok)
  | (n, e) => (n, e)

/-- `ZenFS::SyncFileMetadata`.  The name of a deleted file goes into a log line. -/
def syncFileMetadata (replace : Bool) : Usage × Status :=
  if (s.names.heap r).isDeleted then (s.getFilename r, .ok)
  else
    let (n, st) := syncLinked c r s.names replace
    ({ s with names := n }, st)

/-- `ZonedBlockDevice::AllocateIOZoneNoLock`, which logs the placement of a file. -/
def allocateIOZone : Usage × Status × Option Nat :=
  (if cfg.logZonestatsPlacementDelete && c.status.isOk && c.zone.isSome then s.getFilename r else s,
    c.status, c.zone)

/-- What an action does. -/
def exec : {α : Type} → OnFile α → Choice → Usage → Option (Usage × α)
  | _, .mk _ (.choose f), c, s => some (s, f c)
  | _, .mk r (.field f), _, s => some (s, f (s.writer r))
  | _, .mk r (.update f), _, s =>
      some ({ s with writer := Function.update s.writer r (f (s.writer r)) }, ())
  | _, .mk r .isSparse, _, s => some (s, (s.names.heap r).isSparse)
  -- the log line of `ZenFSMetadataWriter::Persist`
  | _, .mk r .persist, _, s => some (s.getFilename r, ())
  | _, .mk r (.syncFileMetadata replace), c, s => some (s.syncFileMetadata c r replace)
  | _, .mk r .allocateIOZone, c, s => some (s.allocateIOZone cfg c r)
  | _, .mk _ (.isGone fname), _, s => some (s, (s.names.files.lookup fname).isNone)
  | _, .mk r .releaseWRLock, _, s =>
      some ({ s with openForWr := Function.update s.openForWr r false }, ())
  | _, .mk r .leave, _, s => some ({ s with inUse := Function.update s.inUse r false }, ())

/-! ## Programs -/

/-- A function of the source. -/
abbrev Op (α : Type) : Type 1 := Prog Act α

/-- A field of the writer. -/
def field {α : Type} (f : Writable → α) : Op α := .perform (.field f)

def isSparse : Op Bool := .perform .isSparse

/-- What the backend reports. -/
def report : Op Status := .perform (.choose Choice.status)

def setCapacity (z : Option Nat) : Op Unit := .perform (.update fun w ↦ { w with capacity := z })

/-- `ZoneFile::PersistMetadata`. -/
def persistMetadata : Op Status := do
  .perform .persist
  .perform (.syncFileMetadata false)

/-- `ZoneFile::AllocateNewZone`. -/
def allocateNewZone : Op Status := do
  match ← .perform .allocateIOZone with
  | (.ok, some capacity) =>
      setCapacity (some capacity)
      persistMetadata
  | (.ok, none) => pure (.noSpace "Zone allocation failure\n")
  | (e, _) => pure e

/-- `ZoneFile::CloseActiveZone`. -/
def closeActiveZone : Op Status := do
  match ← field (·.capacity) with
  | none => pure .ok
  | some _ =>
      let st ← report
      setCapacity none
      pure st

/-- `Zone::Append` on the active zone.  A write that fails may have written some of the
bytes. -/
def zoneAppend (size : Nat) : Op Status := do
  let capacity ← field fun w ↦ w.capacity.getD 0
  if capacity < size then pure (.noSpace "Not enough capacity for append")
  else
    match ← report with
    | .ok =>
        setCapacity (some (capacity - size))
        pure .ok
    | e =>
        let written ← .perform (.choose fun c ↦ min c.num size)
        setCapacity (some (capacity - written))
        pure e

/-- The head of the three ways to append. -/
def ensureZone : Op Status := do
  match ← field (·.capacity) with
  | none => allocateNewZone
  | some _ => pure .ok

/-- The active zone is full: the next one. -/
def nextZone : Op Status := do
  match ← closeActiveZone with
  | .ok => allocateNewZone
  | e => pure e

def isFull : Op Bool := field fun w ↦ w.capacity.getD 0 == 0

/-- A round of the loops of `ZoneFile::BufferedAppend` and `ZoneFile::SparseAppend`, with
`header` bytes in front of the data. -/
def bufferRound (header left : Nat) : Op (Status ⊕ Nat) := do
  let capacity ← field fun w ↦ w.capacity.getD 0
  let wr_size := min ((left + header) % 2 ^ 32) capacity
  match ← zoneAppend (wr_size + padSize cfg.blockSize wr_size) with
  | .ok =>
      let left := sub32 left (sub32 wr_size header)
      if ← isFull then
        match ← nextZone with
        | .ok => pure (.inr left)
        | e => pure (.inl e)
      else pure (.inr left)
  | e => pure (.inl e)

/-- What a round of the loop of `ZoneFile::Append` writes. -/
def directChunk (left : Nat) : Op (Status ⊕ Nat) := do
  let wr_size ← field fun w ↦ min left (w.capacity.getD 0)
  match ← zoneAppend wr_size with
  | .ok => pure (.inr (left - wr_size))
  | e => pure (.inl e)

/-- A round of the loop of `ZoneFile::Append`. -/
def directRound (left : Nat) : Op (Status ⊕ Nat) := do
  if ← isFull then
    match ← nextZone with
    | .ok => directChunk left
    | e => pure (.inl e)
  else directChunk left

/-- A loop of `while (left)`. -/
def whileLeft (round : Nat → Op (Status ⊕ Nat)) (left : Nat) : Op Status :=
  .loop (fun left ↦ if left = 0 then pure (.inl .ok) else round left) left

/-- `ZoneFile::BufferedAppend`, `ZoneFile::SparseAppend` and `ZoneFile::Append`, with
their loops. -/
def appendWith (round : Nat → Op (Status ⊕ Nat)) (data_size : Nat) : Op Status := do
  match ← ensureZone with
  | .ok => whileLeft round (data_size % 2 ^ 32)
  | e => pure e

/-- `ZoneFile::Append`. -/
def append (data_size : Nat) : Op Status := appendWith directRound data_size

/-- `ZonedWritableFile::FlushBuffer`. -/
def flushBuffer : Op Status := do
  let buffer_pos ← field (·.bufferPos)
  if buffer_pos = 0 then pure .ok
  else
    let header := if ← isSparse then SPARSE_HEADER_SIZE else 0
    match ← appendWith (bufferRound cfg header) buffer_pos with
    | .ok =>
        .perform (.update fun w ↦ { w with wp := w.wp + buffer_pos, bufferPos := 0 })
        pure .ok
    | e => pure e

/-- What a round of the loop of `ZonedWritableFile::BufferedWrite` copies. -/
def fillBuffer (data_left : Nat) : Op (Status ⊕ Nat) := do
  let to_buffer ← field fun w ↦ min data_left (w.bufferSz - w.bufferPos)
  .perform (.update fun w ↦ { w with bufferPos := w.bufferPos + to_buffer })
  pure (.inr (data_left - to_buffer))

/-- A round of that loop. -/
def writeRound (data_left : Nat) : Op (Status ⊕ Nat) := do
  if ← field fun w ↦ w.bufferSz - w.bufferPos == 0 then
    match ← flushBuffer cfg with
    | .ok => fillBuffer data_left
    | e => pure (.inl e)
  else fillBuffer data_left

/-- `ZonedWritableFile::BufferedWrite`. -/
def bufferedWrite (size : Nat) : Op Status := whileLeft (writeRound cfg) (size % 2 ^ 32)

/-- `ZonedWritableFile::Append`. -/
def writerAppend (size : Nat) : Op Status := do
  if ← field (·.buffered) then bufferedWrite cfg size
  else
    match ← append size with
    | .ok =>
        .perform (.update fun w ↦ { w with wp := w.wp + size })
        pure .ok
    | e => pure e

/-- `ZonedWritableFile::PositionedAppend`. -/
def positionedAppend (size offset : Nat) : Op Status := do
  if ← field fun w ↦ offset != w.wp then
    pure (.ioError "positioned append not at write pointer")
  else writerAppend cfg size

/-- `ZonedWritableFile::DataSync`, and `ZonedWritableFile::Sync`.  `PushExtent`, for direct
writes, is about extents. -/
def dataSync : Op Status := do
  if ← field (·.buffered) then
    match ← flushBuffer cfg with
    | .ok => if ← isSparse then pure .ok else persistMetadata
    | e => pure e
  else pure .ok

/-- `ZonedWritableFile::Fsync`. -/
def fsync : Op Status := do
  match ← dataSync cfg with
  | .ok =>
      if (← field (·.buffered)) && !(← isSparse) then pure .ok else persistMetadata
  | e => pure e

/-- `ZonedWritableFile::RangeSync`. -/
def rangeSync (offset nbytes : Nat) : Op Status := do
  if ← field fun w ↦ decide (w.wp < offset + nbytes) then dataSync cfg else pure .ok

/-- `ZoneFile::CloseWR`. -/
def closeWR : Op Status := do
  match ← persistMetadata with
  | .ok =>
      .perform .releaseWRLock
      closeActiveZone
  | e => pure e

/-- `ZonedWritableFile::CloseInternal`, which `Close` and the destructor call. -/
def closeInternal : Op Status := do
  if ← field (!·.isOpen) then pure .ok
  else
    match ← dataSync cfg with
    | .ok =>
        match ← closeWR with
        | .ok =>
            .perform (.update fun w ↦ { w with isOpen := false })
            pure .ok
        | e => pure e
    | e => pure e

/-- The loop of `ZenFS::MigrateFileExtents`, for `exts` extents that are to be migrated.
Where a zone is found the data is copied, and the loop ends if the file is gone. -/
def migrateExtents (fname : Name) : Nat → Op Unit
  | 0 => pure ()
  | exts + 1 => do
      match ← .perform .allocateIOZone with
      | (.ok, some _) =>
          if ← .perform (.isGone fname) then pure () else migrateExtents fname exts
      | _ => migrateExtents fname exts

/-- `ZenFS::MigrateFileExtents` behind `TryAcquireWRLock`.  The metadata is replaced in
`SyncFileExtents`, whose status is not looked at. -/
def migrateFileExtents (fname : Name) (exts : Nat) : Op Unit := do
  migrateExtents fname exts
  let _ ← .perform (.syncFileMetadata true)
  .perform .releaseWRLock

/-! ## The machine -/

/-- The calls on a writer. -/
inductive WriterCall where
  | append (size : Nat)
  | positionedAppend (size offset : Nat)
  | sync
  | fsync
  | rangeSync (offset nbytes : Nat)
  | close
deriving DecidableEq, Repr

/-- What a call on a writer does. -/
def WriterCall.prog : WriterCall → Op Status
  | append size => writerAppend cfg size
  | positionedAppend size offset => Usage.positionedAppend cfg size offset
  | sync => dataSync cfg
  | fsync => Usage.fsync cfg
  | rangeSync offset nbytes => Usage.rangeSync cfg offset nbytes
  | close => closeInternal cfg

/-- The state with the functions on it. -/
abbrev Machine : Type 1 := Pool OnFile Usage

/-- A function begins on the file `r`. -/
def begin (P : Machine) (s : Usage) (r : Ref) (p : Op Unit) : Machine :=
  P.spawn s (p.mapAct (.mk r))

/-- A step of the machine: a call on names other than `OpenWritableFile`, with fuel for its
recursion; `OpenWritableFile`; a call on the writer of a file; the beginning of a migration
of some extents of a file; a step of function `t`; `GetZenFSSnapshot`; and a roll of the
metadata log in a call on names. -/
inductive Label where
  | names (o : Outcomes) (fuel : Nat) (call : Names.Call)
  | openWritableFile (o : Outcomes) (fname : Name) (direct reopen : Bool)
  | call (r : Ref) (call : WriterCall)
  | migrateFileExtents (fname : Name) (exts : Nat)
  | go (t : Nat) (c : Choice)
  | getZenFSSnapshot
  | roll

/-- The names have changed. -/
def withNames (n : Recorded) : Usage := { s with names := n }

/-- The constructor of `ZonedWritableFile`, behind `AcquireWRLock`. -/
def openWriter (fname : Name) (direct : Bool) : Usage :=
  { s with
    openForWr := Function.update s.openForWr r true
    writer := Function.update s.writer r
      { buffered := endsWith fname ".sst" || !direct
        bufferSz :=
          if (s.names.heap r).isSparse then cfg.bufferSize - SPARSE_HEADER_SIZE else cfg.bufferSize
        wp := (s.names.heap r).fileSize
        isOpen := true } }

/-- `ZenFS::OpenWritableFile`.  A file that is reopened waits for its WR lock; a new one
gets a writer if its creation could be persisted. -/
def openWritableFile (o : Outcomes) (fname : Name) (direct reopen : Bool) : Option Usage :=
  let s' := s.withNames (s.names.openWritableFile (.recording o) fname direct reopen).1
  match s'.names.files.lookup fname with
  | none => some s'
  | some r =>
      if s.names.nextRef ≤ r then some (s'.openWriter cfg r fname direct)
      else if reopen then if s.openForWr r then none else some (s'.openWriter cfg r fname direct)
      else some s'

/-- `ZenFS::GetZenFSSnapshot` reads the name of every file whose WR lock is free. -/
def getZenFSSnapshot : Usage :=
  (s.names.files.entries.filter fun e ↦ !s.openForWr e.2).foldl (fun s e ↦ s.getFilename e.2) s

/-- A step, without the note on what has been written. -/
def next (P : Machine) : Label → Option Machine
  | .names _ _ (.openWritableFile ..) => none
  | .names o fuel call =>
      (Names.exec (.recording o) fuel P.shared.names call).map fun x ↦
        { P with shared := P.shared.withNames x.1 }
  | .openWritableFile o fname direct reopen =>
      (P.shared.openWritableFile cfg o fname direct reopen).map fun s ↦ { P with shared := s }
  | .call r call =>
      -- the calls on a writer are made one after the other, while it is open
      if (P.shared.writer r).isOpen && !P.shared.inUse r then
        some (begin P { P.shared with inUse := Function.update P.shared.inUse r true } r do
          let _ ← call.prog cfg
          .perform .leave)
      else none
  | .migrateFileExtents fname exts =>
      match P.shared.names.files.lookup fname with
      | none => some P
      | some r =>
          if P.shared.openForWr r then some P
          else
            some (begin P { P.shared with openForWr := Function.update P.shared.openForWr r true } r
              (Usage.migrateFileExtents fname exts))
  | .go t c => P.go (exec cfg) t c
  | .getZenFSSnapshot => some { P with shared := P.shared.getZenFSSnapshot }
  | .roll =>
      let n := P.shared.names
      some { P with
        shared := P.shared.withNames { n with world := n.world ++ [encodeSnapshotTo n] } }

/-- The record holds a file that is deleted. -/
def holdsDeleted (n : Recorded) (rec : Record) : Bool :=
  rec.files.any fun fr ↦ (List.range n.nextRef).any fun r ↦
    (n.heap r).isDeleted && (n.heap r).fileId == fr.fileId

/-- Note what has been written of files that were deleted before. -/
def noteLate (n : Recorded) : Usage :=
  { s with late := s.late ++ (s.names.world.drop n.world.length).filter (holdsDeleted n) }

/-- A step of the machine. -/
def step (P : Machine) (l : Label) : Option Machine :=
  (next cfg P l).map fun P' ↦ { P' with shared := P'.shared.noteLate P.shared.names }

/-- The filesystem without writers. -/
def mounted (n : Recorded) : Machine :=
  .still
    { names := n
      writer := fun _ ↦ {}
      openForWr := fun _ ↦ false
      inUse := fun _ ↦ false
      emptyReads := []
      late := [] }

/-- No first link has been read from an empty list, and no deleted file has been
persisted. -/
def Usable : Prop := s.emptyReads = [] ∧ s.late = []

/-- The file whose name the next action needs for a log line: `Persist`, the branch of
`SyncFileMetadata` for deleted files, and the placement that the allocator logs. -/
def logsNameOf : Prog OnFile Unit → Option Ref
  | .act (.mk r .persist) _ => some r
  | .act (.mk r (.syncFileMetadata _)) _ => if (s.names.heap r).isDeleted then some r else none
  | .act (.mk r .allocateIOZone) _ =>
      if cfg.logZonestatsPlacementDelete && c.status.isOk && c.zone.isSome then some r else none
  | _ => none

/-- The name that the step logs is there. -/
def FindsName (P : Machine) : Label → Prop
  | .go t c => ∀ r, P.shared.logsNameOf cfg c (P.progs t) = some r →
  (P.shared.names.heap r).linkfiles ≠ []
  | _ => True

/-- The file that the function goes on to persist, as `Close`, `Fsync`, the `Sync` of a
buffered file, the allocation of a zone and the end of a migration do, or to allocate a
zone for while placements are logged. -/
def persistsOrAllocates : Prog OnFile Unit → Option Ref
  | .act (.mk r .persist) _ => some r
  | .act (.mk r (.syncFileMetadata _)) _ => some r
  | .act (.mk r .allocateIOZone) _ => if cfg.logZonestatsPlacementDelete then some r else none
  | _ => none

/-- No function goes on to persist a file without links or to allocate a zone for it. -/
def Spares (P : Machine) : Label → Prop
  | .go t _ => ∀ r ∈ persistsOrAllocates cfg (P.progs t), (P.shared.names.heap r).linkfiles ≠ []
  | _ => True

/-- The function goes on to allocate a zone, and there is none. -/
def NoZone (P : Machine) : Label → Prop
  | .go t c =>
      match P.progs t with
      | .act (.mk _ .allocateIOZone) _ => (c.status.isOk && c.zone.isSome) = false
      | _ => False
  | _ => False

instance (P : Machine) (l : Label) : Decidable (Spares cfg P l) := by
  cases l <;> unfold Spares <;> infer_instance

/-! ## Names that are read -/

section Steps

variable {cfg : Config} {s s' : Usage} {c : Choice} {r : Ref} {P P' : Machine} {l : Label}

@[simp] theorem getFilename_names (s : Usage) (r : Ref) : (s.getFilename r).names = s.names := by
  unfold getFilename
  split <;> rfl

@[simp] theorem getFilename_late (s : Usage) (r : Ref) : (s.getFilename r).late = s.late := by
  unfold getFilename
  split <;> rfl

@[simp] theorem getFilename_writer (s : Usage) (r : Ref) : (s.getFilename r).writer = s.writer := by
  unfold getFilename
  split <;> rfl

theorem getFilename_emptyReads :
    (s.getFilename r).emptyReads = [] ↔ s.emptyReads = [] ∧ (s.names.heap r).linkfiles ≠ [] := by
  unfold getFilename
  split <;> simp_all

theorem getFilename_of_ne (h : (s.names.heap r).linkfiles ≠ []) : s.getFilename r = s := if_neg h

/-- The files in a snapshot are in `files_`. -/
theorem mem_encodeSnapshotTo {n : Recorded} {fr : FileRecord}
    (h : fr ∈ (encodeSnapshotTo n).files) :
    ∃ m r, n.files.lookup m = some r ∧ fr.fileId = (n.heap r).fileId := by
  obtain ⟨⟨m, r⟩, he, rfl⟩ := List.mem_map.mp h
  exact ⟨m, r, AList.mem_lookup_iff.mpr he, rfl⟩

/-- A file in `files_` is persisted, or all of them are. -/
theorem since_syncLinked {n : Recorded} {m : Name} (c : Choice) (h : n.Apart)
    (hm : n.files.lookup m = some r) (replace : Bool) : Since n (syncLinked c r n replace).1 := by
  set n₁ := if replace then n else n.setFile r ((n.heap r).setFileModificationTime c.now) with hn₁
  have hsame : SameNames n n₁ := by
    rw [hn₁]
    split
    · exact .refl n
    · exact (SameNames.refl n).setFile rfl
  have hworld : n₁.world = n.world := by
    rw [hn₁]
    split <;> rfl
  set rec : Record := if replace then .fileReplace (n₁.heap r).encodeUpdateTo
    else .fileUpdate (n₁.heap r).encodeUpdateTo with hrec
  have hfiles : rec.files = [(n₁.heap r).encodeUpdateTo] := by
    rw [hrec]
    split <;> rfl
  set n₂ := (persistRecord c n₁ rec).1 with hn₂
  have hsame₂ : SameNames n n₂ :=
    ⟨hsame.files_eq, hsame.key_eq, hsame.nextRef_eq, hsame.nextFileId_eq⟩
  have hwrote : ∃ recs, n₂.world = n.world ++ recs ∧ ∀ rec ∈ recs, ∀ fr ∈ rec.files,
      ∃ m r, n.files.lookup m = some r ∧ fr.fileId = (n.heap r).fileId := by
    refine ⟨[if c.roll then encodeSnapshotTo n₁ else rec], by rw [hn₂, persistRecord, hworld], ?_⟩
    intro rec' hrec' fr hfr
    obtain rfl := List.mem_singleton.mp hrec'
    split at hfr
    · obtain ⟨m', r', hm', hid⟩ := mem_encodeSnapshotTo hfr
      exact ⟨m', r', hsame.files_eq ▸ hm', hid.trans (hsame.fileId_eq r')⟩
    · rw [hfiles, List.mem_singleton] at hfr
      exact ⟨m, r, hm, hfr ▸ hsame.fileId_eq r⟩
  have heq : (syncLinked c r n replace).1 = n₂ ∨
      (syncLinked c r n replace).1 = n₂.setFile r (n₂.heap r).metadataSynced := by
    have hp : persistRecord c n₁ rec = (n₂, c.status) := rfl
    unfold syncLinked
    simp only [← hn₁, ← hrec, hp]
    cases c.status with
    | ok => exact .inr rfl
    | _ => exact .inl rfl
  rcases heq with heq | heq
  · rw [heq]
    exact h.since hsame₂ hwrote
  · rw [heq]
    exact h.since (hsame₂.setFile (hsame₂.key_eq r)) hwrote

/-- What an action on a file keeps, and when it reads a name that is not there. -/
theorem exec_spec {α : Type} {e : OnFile α} {a : α} (k : α → Prog OnFile Unit)
    (he : exec cfg e c s = some (s', a)) (h : s.names.Apart) (hr : s.names.Known e.file) :
    Since s.names s'.names ∧ s'.late = s.late ∧
      (∀ r, (s'.writer r).isOpen = true → (s.writer r).isOpen = true ∨ r = e.file) ∧
      (s'.emptyReads = [] ↔ s.emptyReads = [] ∧
        ∀ r, s.logsNameOf cfg c (.act e k) = some r → (s.names.heap r).linkfiles ≠ []) := by
  obtain ⟨r, e⟩ := e
  have hsame := Since.refl h
  cases e with
  | choose | field | isSparse | isGone | releaseWRLock | leave =>
      cases he
      exact ⟨hsame, rfl, fun _ ho ↦ .inl ho, by simp [logsNameOf]⟩
  | update f =>
      cases he
      refine ⟨hsame, rfl, fun r' ho ↦ ?_, by simp [logsNameOf]⟩
      by_cases hr' : r' = r
      · exact .inr hr'
      · exact .inl (by simpa [hr'] using ho)
  | persist =>
      cases he
      refine ⟨by simpa using hsame, by simp, fun _ ho ↦ .inl (by simpa using ho), ?_⟩
      simp [getFilename_emptyReads, logsNameOf]
  | syncFileMetadata replace =>
      obtain ⟨-, hd | ⟨m, hm⟩⟩ := hr
      · change (s.names.heap r).isDeleted = true at hd
        simp only [exec, syncFileMetadata, hd, if_true] at he
        cases he
        refine ⟨by simpa using hsame, by simp, fun _ ho ↦ .inl (by simpa using ho), ?_⟩
        simp [getFilename_emptyReads, logsNameOf, hd]
      · have hd := h.ok.not_deleted m r hm
        simp only [exec, syncFileMetadata, hd, Bool.false_eq_true, if_false] at he
        cases he
        refine ⟨since_syncLinked c h hm replace, rfl, fun _ ho ↦ .inl ho, ?_⟩
        simp [logsNameOf, hd]
  | allocateIOZone =>
      cases he
      by_cases hlog : (cfg.logZonestatsPlacementDelete && c.status.isOk && c.zone.isSome) = true
      · rw [if_pos hlog]
        refine ⟨by simpa using hsame, by simp, fun _ ho ↦ .inl (by simpa using ho), ?_⟩
        simp only [getFilename_emptyReads, logsNameOf, if_pos hlog, Option.some.injEq, forall_eq']
      · rw [if_neg hlog]
        refine ⟨hsame, rfl, fun _ ho ↦ .inl ho, ?_⟩
        simp only [logsNameOf, if_neg hlog, reduceCtorEq, false_implies, implies_true, and_true]

/-! ## The invariant -/

/-- Functions and writers are on files with names, or on deleted ones. -/
structure Sound (P : Machine) : Prop where
  apart : P.shared.names.Apart
  only : ∀ t, (P.progs t).Only fun e ↦ P.shared.names.Known e.file
  known : ∀ r, (P.shared.writer r).isOpen = true → P.shared.names.Known r

namespace Sound

/-- The state changes, and no function goes on. -/
theorem shared (h : Sound P) (hn : Since P.shared.names s.names)
    (hw : ∀ r, (s.writer r).isOpen = true → (P.shared.writer r).isOpen = true ∨ s.names.Known r) :
    Sound { P with shared := s } where
  apart := hn.apart
  only t := (h.only t).mono fun e ↦ hn.known e.file
  known r ho := by
    rcases hw r ho with ho | hk
    · exact hn.known r (h.known r ho)
    · exact hk

/-- A function begins on a file. -/
theorem begin (h : Sound P) (hr : P.shared.names.Known r) (p : Op Unit)
    (hn : s.names = P.shared.names) (hw : s.writer = P.shared.writer) : Sound (begin P s r p) where
  apart := hn ▸ h.apart
  only t := by
    have hnew : (p.mapAct (.mk r)).Only fun e : OnFile _ ↦ s.names.Known e.file :=
      .mapAct (fun _ ↦ hn ▸ hr) p
    by_cases ht : t = P.size
    · subst ht
      simpa [Usage.begin, Pool.spawn] using hnew
    · simpa [Usage.begin, Pool.spawn, ht, hn] using h.only t
  known r' ho := hn ▸ h.known r' (hw ▸ ho)

/-- A function goes on. -/
theorem go {t : Nat} (h : Sound P) (hg : P.go (exec cfg) t c = some P') :
    Sound P' ∧ Since P.shared.names P'.shared.names ∧ P'.shared.late = P.shared.late ∧
      (P'.shared.emptyReads = [] ↔ P.shared.emptyReads = [] ∧ FindsName cfg P (.go t c)) := by
  simp only [Pool.go, Option.map_eq_some_iff] at hg
  obtain ⟨⟨s, p⟩, hnext, rfl⟩ := hg
  have hp := (h.only t).next hnext
  have hrest : ∀ {s : Usage}, Since P.shared.names s.names →
      (∀ r, (s.writer r).isOpen = true → (P.shared.writer r).isOpen = true ∨ s.names.Known r) →
      Sound { P with shared := s, progs := Function.update P.progs t p } := by
    intro s hn hw
    have hs := h.shared hn hw
    refine ⟨hs.apart, fun u ↦ ?_, hs.known⟩
    by_cases hu : u = t
    · subst hu
      simpa using hp.mono fun e ↦ hn.known e.file
    · simpa [hu] using hs.only u
  have honly := h.only t
  simp only [FindsName]
  cases hprog : P.progs t with
  | ret a =>
      rw [hprog] at hnext
      cases hnext
  | act e k =>
      rw [hprog] at hnext honly
      simp only [Prog.next, Option.map_eq_some_iff] at hnext
      obtain ⟨⟨s₁, b⟩, he, heq⟩ := hnext
      cases heq
      obtain ⟨hn, hlate, hw, hreads⟩ := exec_spec k he h.apart honly.1
      refine ⟨hrest hn fun r ho ↦ ?_, hn, hlate, hreads⟩
      rcases hw r ho with ho | rfl
      · exact .inl ho
      · exact .inr (hn.known _ honly.1)
  | iter body r k =>
      rw [hprog] at hnext
      cases hnext
      have hn := Since.refl h.apart
      exact ⟨hrest hn fun _ ho ↦ .inl ho, hn, rfl, by simp [logsNameOf]⟩

end Sound

/-- Every file in `files_` has a name to be read. -/
theorem getZenFSSnapshot_eq (h : s.names.Ok) : s.getZenFSSnapshot = s := by
  have hfold : ∀ es : List (Sigma fun _ : Name ↦ Ref),
    (∀ e ∈ es, (s.names.heap e.2).linkfiles ≠ []) →
      es.foldl (fun s e ↦ s.getFilename e.2) s = s := by
    intro es
    induction es with
    | nil => exact fun _ ↦ rfl
    | cons e es ih =>
        intro hes
        rw [List.foldl_cons, getFilename_of_ne (hes e List.mem_cons_self)]
        exact ih fun e' he' ↦ hes e' (List.mem_cons_of_mem e he')
  refine hfold _ fun e he ↦ List.ne_nil_of_mem (a := e.1) ?_
  rw [← h.link_iff]
  exact AList.mem_lookup_iff.mpr (List.mem_filter.mp he).1

/-- What is written in a step is of files that are not deleted. -/
theorem filter_holdsDeleted {n n' : Recorded} (ha : n.Apart) (h : Since n n') :
    (n'.world.drop n.world.length).filter (holdsDeleted n) = [] := by
  obtain ⟨recs, hw, hrecs⟩ := h.wrote
  rw [hw, List.drop_left, List.filter_eq_nil_iff]
  intro rec hrec hd
  simp only [holdsDeleted, List.any_eq_true, Bool.and_eq_true, beq_iff_eq] at hd
  obtain ⟨fr, hfr, r, -, hdel, hid⟩ := hd
  exact hrecs rec hrec fr hfr (hid ▸ ha.unused r hdel)

/-- `OpenWritableFile` makes a writer for the file that has the name behind it, or none. -/
theorem openWritableFile_cases {o : Outcomes} {fname : Name} {direct reopen : Bool}
    (h : s.openWritableFile cfg o fname direct reopen = some s') :
    let n := (s.names.openWritableFile (.recording o) fname direct reopen).1
    s' = s.withNames n ∨
      ∃ r, n.files.lookup fname = some r ∧ s' = (s.withNames n).openWriter cfg r fname direct := by
  intro n
  have hn : (s.withNames n).names.files.lookup fname = n.files.lookup fname := rfl
  simp only [openWritableFile] at h
  rw [hn] at h
  cases hr : n.files.lookup fname with
  | none =>
      rw [hr] at h
      exact .inl (Option.some.inj h).symm
  | some r =>
      rw [hr] at h
      simp only at h
      split at h
      · exact .inr ⟨r, rfl, (Option.some.inj h).symm⟩
      · split at h
        · split at h
          · cases h
          · exact .inr ⟨r, rfl, (Option.some.inj h).symm⟩
        · exact .inl (Option.some.inj h).symm

/-- A step reads a name that is not there only where a function goes on. -/
theorem Sound.next (h : Sound P) (hn : next cfg P l = some P') :
    Sound P' ∧ Since P.shared.names P'.shared.names ∧ P'.shared.late = P.shared.late ∧
      (P'.shared.emptyReads = [] ↔ P.shared.emptyReads = [] ∧ FindsName cfg P l) := by
  have hrefl := Since.refl h.apart
  have hknown : ∀ {n : Recorded} {m : Name} {r : Ref}, n.Apart → n.files.lookup m = some r →
      n.Known r :=
    fun ha hm ↦ ⟨ha.ok.lt_nextRef _ _ hm, .inr ⟨_, hm⟩⟩
  cases l with
  | names o fuel call =>
      have hcall : ∃ x, Names.exec (.recording o) fuel P.shared.names call = some x ∧
          P' = { P with shared := P.shared.withNames x.1 } := by
        cases call with
        | openWritableFile => cases hn
        | deleteFile | linkFile | renameFile | deleteDirRecursive =>
            simp only [Usage.next, Option.map_eq_some_iff] at hn
            obtain ⟨x, hx, hP⟩ := hn
            exact ⟨x, hx, hP.symm⟩
      obtain ⟨⟨n, st⟩, hx, rfl⟩ := hcall
      have hsince := (Since.kept o P.shared.names).exec fuel hrefl call n st hx
      exact ⟨h.shared hsince fun _ ho ↦ .inl ho, hsince, rfl, by simp [FindsName, withNames]⟩
  | openWritableFile o fname direct reopen =>
      simp only [Usage.next, Option.map_eq_some_iff] at hn
      obtain ⟨s, hs, rfl⟩ := hn
      have hsince := (Since.kept o P.shared.names).openWritableFile hrefl fname direct reopen
      have hcases := openWritableFile_cases hs
      generalize (P.shared.names.openWritableFile (.recording o) fname direct reopen).1 =
        n at hsince hcases
      have hnames : s.names = n ∧ s.late = P.shared.late ∧ s.emptyReads = P.shared.emptyReads := by
        rcases hcases with rfl | ⟨r, -, rfl⟩ <;> exact ⟨rfl, rfl, rfl⟩
      obtain ⟨rfl, hlate, hreads⟩ := hnames
      refine ⟨h.shared hsince fun r ho ↦ ?_, hsince, hlate, by simp [FindsName, hreads]⟩
      rcases hcases with hs | ⟨r', hr', hs⟩
      · rw [hs] at ho
        exact .inl ho
      · by_cases hr : r = r'
        · subst hr
          exact .inr (hknown hsince.apart hr')
        · rw [hs] at ho
          exact .inl (by simpa [openWriter, withNames, hr] using ho)
  | call r call =>
      simp only [Usage.next] at hn
      split at hn
      · rename_i hopen
        cases hn
        rw [Bool.and_eq_true] at hopen
        exact ⟨h.begin (h.known r hopen.1) _ rfl rfl, hrefl,
          rfl, by simp [FindsName, Usage.begin, Pool.spawn]⟩
      · cases hn
  | migrateFileExtents fname exts =>
      simp only [Usage.next] at hn
      split at hn
      · cases hn
        exact ⟨h, hrefl, rfl, by simp [FindsName]⟩
      · rename_i r hr
        split at hn
        · cases hn
          exact ⟨h, hrefl, rfl, by simp [FindsName]⟩
        · cases hn
          exact ⟨h.begin (hknown h.apart hr) _ rfl rfl, hrefl,
            rfl, by simp [FindsName, Usage.begin, Pool.spawn]⟩
  | go t c => exact h.go hn
  | getZenFSSnapshot =>
      simp only [Usage.next, getZenFSSnapshot_eq h.apart.ok, Option.some.injEq] at hn
      subst hn
      exact ⟨h, hrefl, rfl, by simp [FindsName]⟩
  | roll =>
      cases hn
      have hsince : Since P.shared.names
          { P.shared.names with
            world := P.shared.names.world ++ [encodeSnapshotTo P.shared.names] } := by
        refine h.apart.since ⟨rfl, fun _ ↦ rfl, rfl, rfl⟩ ⟨_, rfl, fun rec hrec fr hfr ↦ ?_⟩
        obtain rfl := List.mem_singleton.mp hrec
        exact mem_encodeSnapshotTo hfr
      exact ⟨h.shared hsince fun _ ho ↦ .inl ho, hsince, rfl, by simp [FindsName, withNames]⟩

end Steps

/-! ## Whole runs -/

section Runs

variable {cfg : Config} {n : Recorded} {P P' : Machine} {l : Label}

theorem sound_mounted (hn : n.Mounted) : Sound (mounted n) where
  apart := hn.apart
  only _ := trivial
  known r ho := by simp [mounted, still] at ho

/-- What a step keeps, and when it reads a name that is not there. -/
theorem Sound.step (h : Sound P) (hs : step cfg P l = some P') :
    Sound P' ∧ P'.shared.late = P.shared.late ∧
      (P'.shared.emptyReads = [] ↔ P.shared.emptyReads = [] ∧ FindsName cfg P l) := by
  obtain ⟨P₁, hn, rfl⟩ := Option.map_eq_some_iff.mp hs
  obtain ⟨hsound, hsince, hlate, hreads⟩ := h.next hn
  have hnote : P₁.shared.noteLate P.shared.names = P₁.shared := by
    unfold noteLate
    rw [filter_holdsDeleted h.apart hsince, List.append_nil]
  rw [hnote]
  exact ⟨hsound, hlate, hreads⟩

/-- A deleted file is not persisted in any run. -/
theorem late_eq_nil (hn : n.Mounted) (hr : Reach (Usage.step cfg) (fun _ _ ↦ True) (mounted n) P) :
    P.shared.late = [] := by
  refine (hr.invariant (I := fun P ↦ Sound P ∧ P.shared.late = []) ⟨sound_mounted hn, rfl⟩ ?_).2
  rintro P P' l ⟨hP, hlate⟩ - hs
  obtain ⟨hP', hlate', -⟩ := hP.step hs
  exact ⟨hP', hlate'.trans hlate⟩

/-- The name is there where no function goes on to persist a file without links or to
allocate a zone for it, and otherwise only if the allocation finds no zone. -/
theorem Sound.findsName_iff (h : Sound P) (l : Label) :
    FindsName cfg P l ↔ Spares cfg P l ∨ NoZone P l := by
  cases l with
  | go t c =>
      have honly := h.only t
      simp only [FindsName, Spares, NoZone]
      cases hprog : P.progs t with
      | ret a => simp [logsNameOf, persistsOrAllocates]
      | iter body r k => simp [logsNameOf, persistsOrAllocates]
      | act e k =>
          rw [hprog] at honly
          obtain ⟨r, e⟩ := e
          cases e with
          | choose | field | update | isSparse | isGone | releaseWRLock | leave =>
              simp [logsNameOf, persistsOrAllocates]
          | persist => simp [logsNameOf, persistsOrAllocates]
          | syncFileMetadata replace =>
              rcases honly.1.2 with hd | ⟨m, hm⟩
              · have hd' : (P.shared.names.heap r).isDeleted = true := hd
                simp [logsNameOf, persistsOrAllocates, hd']
              · have hd := h.apart.ok.not_deleted m r hm
                have hmem : m ∈ (P.shared.names.heap r).linkfiles := (h.apart.ok.link_iff m r).mp hm
                simp [logsNameOf, persistsOrAllocates, hd, List.ne_nil_of_mem hmem]
          | allocateIOZone =>
              cases hlog : cfg.logZonestatsPlacementDelete
                <;> cases hz : c.status.isOk && c.zone.isSome <;>
                simp [logsNameOf, persistsOrAllocates, hlog, hz]
  | _ => simp [FindsName, Spares]

/-- A file for direct writes is deleted behind an `Append` that has got a zone; the next
`Append` finds room in it, and the `Sync` has nothing to persist. -/
def usableRun : List Label :=
  [.openWritableFile {} "/a" true false, .call 0 (.append 512)] ++
    List.replicate 15 (.go 0 { zone := some 4096 }) ++
    [.names {} 1 (.deleteFile "/a"), .call 0 (.append 512)] ++ List.replicate 11 (.go 1 {}) ++
    [.call 0 .sync, .go 2 {}, .go 2 {}]

end Runs

end Usage

end ZenFs
