import ZenFs.Fs.Write
import ZenFs.Names.Path

/-!
# Names, garbage collection and runs

The operations of `ZenFS` on names, the migration of extents, and the list of
all operations that a run of the filesystem consists of.
-/

namespace ZenFs

namespace Fs

variable (G : Geometry)

/-! ## Names -/

/-- `ZenFS::DeleteFileNoLock`. -/
def deleteFileNoLock (fs : Fs) (fname : Name) : Fs × Status :=
  match fs.files.lookup fname with
  | none => (fs, fs.env.aux)
  | some r =>
      let fs := { fs.hold r (.localVar 0) with files := fs.files.erase fname }
      match (fs.heap r).removeLinkName fname with
      | .error s => (fs.drop r (.localVar 0), s)
      | .ok f =>
          match (fs.setFile r f).persistRecord G (.fileDeletion f.fileId fname) with
          | (fs, .ok) =>
              if (fs.heap r).linkfiles ≠ [] then (fs.drop r (.localVar 0), .ok)
              else ((fs.setFile r { fs.heap r with isDeleted := true }).drop r (.localVar 0), .ok)
          | (fs, s) =>
              -- failed to persist the delete, return to a consistent state
              (({ fs with files := fs.files.insertNew fname r }.setFile r
                ((fs.heap r).addLinkName fname)).drop r (.localVar 0), s)

/-- `ZenFS::DeleteFile`. -/
def deleteFile (fs : Fs) (fname : Name) : Fs × Status :=
  andThen (fs.deleteFileNoLock G fname) resetUnusedIOZones

/-- The constructor of `ZonedWritableFile`. -/
def newWriter (fs : Fs) (r : Ref) (buffered : Bool) : Writer where
  file := r
  buffered := buffered
  buffer := fs.env.scratch
  bufferSz := if (fs.heap r).isSparse then fs.bufferSize - SPARSE_HEADER_SIZE else fs.bufferSize
  bufferPos := 0
  wp := (fs.heap r).fileSize
  isOpen := true

/-- A writer for the object, behind `AcquireWRLock`. -/
def openWriter (fs : Fs) (r : Ref) (fname : Name) (direct : Bool) (h : Handle) : Fs :=
  let fs := (fs.hold r (.writer h)).setFile r { fs.heap r with openForWr := true }
  fs.setWriter h (fs.newWriter r (endsWith fname ".sst" || !direct))

/-- A new `ZoneFile` object; the caller holds it. -/
def newFile (fs : Fs) (fname : Name) (direct : Bool) : Ref × Fs :=
  let f : ZoneFile :=
    { fileId := fs.nextFileId
      mTime := fs.env.now
      linkfiles := [fname]
      isSparse := endsWith fname ".log" && !direct }
  (fs.nextRef,
    { fs with
      heap := Function.update fs.heap fs.nextRef f
      live := insert fs.nextRef fs.live
      handles := Function.update fs.handles fs.nextRef [.localVar 0]
      nextRef := fs.nextRef + 1
      nextFileId := fs.nextFileId + 1
      persisted := Function.update fs.persisted fs.nextRef f.encodeSnapshotTo
      appended := Function.update fs.appended fs.nextRef [] })

/-- A creation that is going to roll the log is noted. -/
def noteRolled (fs : Fs) (rec : Record) : Fs :=
  if fs.rolls G rec then fs.note .creationRolled else fs

/-- `ZenFS::OpenWritableFile` for a name that is not there, or not to be reopened.
The creation is persisted before the name is in `files_`. -/
def createFile (fs : Fs) (fname : Name) (direct : Bool) (h : Handle) : Fs × Status :=
  let (r, fs) := fs.newFile fname direct
  let fs := fs.noteRolled G (.fileUpdate (fs.heap r).encodeUpdateTo)
  match fs.syncFileMetadataNoLock G r false with
  | (fs, .ok) =>
      (({ fs with files := fs.files.insertNew fname r }.openWriter r fname direct h).drop r
        (.localVar 0), .ok)
  | (fs, s) => (fs.drop r (.localVar 0), s)

/-- `ZenFS::OpenWritableFile`. -/
def openWritableFile (fs : Fs) (fname : Name) (direct reopen : Bool) (h : Handle) : Fs × Status :=
  match fs.files.lookup fname with
  | none => fs.createFile G fname direct h
  | some r =>
      if reopen then (fs.openWriter r fname direct h, .ok)
      else
        andThen (fs.deleteFileNoLock G fname) fun fs ↦
          andThen (fs.createFile G fname direct h) resetUnusedIOZones

/-- `ZenFS::RenameFileNoLock` on a file of its own.  A failed persist is rolled
back, and the status of the rollback is what the caller sees. -/
def renameLinked (fs : Fs) (r : Ref) (source_path dest_path : Name) : Fs × Status :=
  match (fs.heap r).renameLink source_path dest_path with
  | .error s => (fs, s)
  | .ok f =>
      let files := Files.insertNew (fs.files.erase source_path) dest_path r
      match ({ fs with files := files }.setFile r f).syncFileMetadataNoLock G r false with
      | (fs, .ok) => (fs, .ok)
      | (fs, _) =>
          let fs := { fs with files := fs.files.erase dest_path }
          match (fs.heap r).renameLink dest_path source_path with
          | .error s => (fs, s)
          | .ok f => ({ fs with files := fs.files.insertNew source_path r }.setFile r f, .ok)

/-- `ZenFS::RenameFileNoLock`. -/
def renameFileNoLock (fs : Fs) (source_path dest_path : Name) : Fs × Status :=
  match fs.files.lookup source_path with
  | none => (fs, fs.env.aux)
  | some r =>
      match fs.files.lookup dest_path with
      | none =>
          let (fs, s) := (fs.hold r (.localVar 1)).renameLinked G r source_path dest_path
          (fs.drop r (.localVar 1), s)
      | some r' =>
          let (fs, s) := andThen
            (((fs.hold r (.localVar 1)).hold r' (.localVar 2)).deleteFileNoLock G dest_path)
            fun fs ↦
              fs.renameLinked G r source_path dest_path
          ((fs.drop r' (.localVar 2)).drop r (.localVar 1), s)

/-- `ZenFS::RenameFile`. -/
def renameFile (fs : Fs) (source_path dest_path : Name) : Fs × Status :=
  andThen (fs.renameFileNoLock G source_path dest_path) resetUnusedIOZones

/-- `ZenFS::LinkFile`. -/
def linkFile (fs : Fs) (fname lname : Name) : Fs × Status :=
  match fs.files.lookup lname with
  | some _ => (fs, .invalidArgument "Failed to create link, target exists")
  | none =>
      match fs.files.lookup fname with
      | none => (fs, fs.env.aux)
      | some r =>
          match ({ fs with files := fs.files.insertNew lname r }.setFile r
              ((fs.heap r).addLinkName lname)).syncFileMetadataNoLock G r false with
          | (fs, .ok) => (fs, .ok)
          | (fs, _) =>
              match (fs.heap r).removeLinkName lname with
              | .error s => (fs, s)
              | .ok f => ({ fs with files := fs.files.erase lname }.setFile r f, .ok)

/-! ## Garbage collection -/

/-- `zbd_->Read` inside `MigrateData`. -/
def readDevice (fs : Fs) (offset n : Nat) : Fs × Option (List Byte) :=
  ({ fs with env := { fs.env with reads := fs.env.reads.tail } },
    match fs.env.reads.head? with
    | none => some (fs.zbd.mem.read offset n)
    | some .failed => none
    | some (.got k) => some (fs.zbd.mem.read offset (min k n)))

/-- The bytes that `MigrateData` copies in one step. -/
def MIGRATE_STEP : Nat := 128 * 1024

/-- The loop of `ZoneFile::MigrateData`.  The status of the append is not looked
at. -/
def migrateLoop (target : ZoneId) (fileId : Nat) : Nat → Fs → Nat → Nat → Fs × Status
  | 0, fs, _, _ => (fs, .ok)
  | fuel + 1, fs, offset, length =>
      if length = 0 then (fs, .ok)
      else
        let read_sz := min length MIGRATE_STEP
        match fs.readDevice offset (read_sz + padSize fs.zbd.blockSize read_sz) with
        | (fs, none) => (fs, .ioError "read failed")
        | (fs, some bytes) =>
            migrateLoop target fileId fuel (fs.zoneAppend target bytes (.copy target fileId)).1
              (offset + bytes.length) (length - read_sz)

/-- `ZoneFile::MigrateData`.  The length is an unsigned 32-bit argument. -/
def migrateData (fs : Fs) (fileId offset length : Nat) (target : ZoneId) : Fs × Status :=
  if offset % fs.zbd.blockSize ≠ 0 then (fs, .ioError "MigrateData offset is not aligned!\n")
  else migrateLoop target fileId (length % 2 ^ 32 + 1) fs offset (length % 2 ^ 32)

/-- Where the copy of an extent is going to start in the target zone. -/
def migrateStart (fs : Fs) (r : Ref) (target : ZoneId) : Nat :=
  (fs.zbd.zones target).wp + if (fs.heap r).isSparse then SPARSE_HEADER_SIZE else 0

/-- The call of `MigrateData` in `ZenFS::MigrateFileExtents`, which takes the header
of a sparse extent along.  Its status is not looked at. -/
def migrateCopy (fs : Fs) (r : Ref) (ext : ZoneExtent) (target : ZoneId) : Fs :=
  let f := fs.heap r
  if f.isSparse then
    (fs.migrateData f.fileId ((ext.start + 2 ^ 64 - SPARSE_HEADER_SIZE) % 2 ^ 64)
      (ext.length + SPARSE_HEADER_SIZE) target).1
  else (fs.migrateData f.fileId ext.start ext.length target).1

/-- The body of the loop in `ZenFS::MigrateFileExtents`: the extent is redirected
whatever `MigrateData` returns. -/
def migrateExtent (fs : Fs) (r : Ref) (migrate_exts : List (Nat × Nat)) (ext : ZoneExtent) :
    Fs × ZoneExtent :=
  if (ext.start, ext.length) ∈ migrate_exts then
    match fs.allocateIOZoneNoLock with
    | (fs, none) => (fs, ext)
    | (fs, some target) =>
        let start := fs.migrateStart r target
        let fs := fs.migrateCopy r ext target
        let fs := (fs.addUsed target ext.length).releaseZone target
        (if start = ext.start then fs.note .redirectedInPlace else fs, ⟨start, ext.length, target⟩)
  else (fs, ext)

/-- The loop of `ZenFS::MigrateFileExtents` over the copied extent list. -/
def migrateAll (r : Ref) (migrate_exts : List (Nat × Nat)) :
    List ZoneExtent → Fs → Fs × List ZoneExtent
  | [], fs => (fs, [])
  | ext :: exts, fs =>
      let (fs, ext') := fs.migrateExtent r migrate_exts ext
      let (fs, exts') := migrateAll r migrate_exts exts fs
      (fs, ext' :: exts')

/-- The end of `ZenFS::SyncFileExtents`: give back the space of the extents whose
start has changed. -/
def clearChanged (zbd : Zbd) (old_extents new_extents : List ZoneExtent) : Zbd :=
  (old_extents.zip new_extents).foldl (fun zbd p ↦
    if p.1.start ≠ p.2.start then zbd.subUsed p.1.zone p.1.length else zbd) zbd

/-- `ZenFS::SyncFileExtents`. -/
def syncFileExtents (fs : Fs) (r : Ref) (new_extents : List ZoneExtent) : Fs × Status :=
  let old_extents := (fs.heap r).extents
  let f := { fs.heap r with extents := new_extents }
  andThen ((fs.setFile r f.metadataUnsynced).syncFileMetadataNoLock G r true) fun fs ↦
    ({ fs with zbd := clearChanged fs.zbd old_extents new_extents }, .ok)

/-- `ZenFS::MigrateFileExtents`. -/
def migrateFileExtents (fs : Fs) (fname : Name) (migrate_exts : List (Nat × Nat)) : Fs × Status :=
  match fs.files.lookup fname with
  | none => (fs, .ok)
  | some r =>
      if (fs.heap r).openForWr then (fs, .ok)
      else
        let fs := (fs.hold r (.localVar 0)).setFile r { fs.heap r with openForWr := true }
        let (fs, new_extent_list) := migrateAll r migrate_exts (fs.heap r).extents fs
        let fs := (fs.syncFileExtents G r new_extent_list).1
        ((fs.setFile r { fs.heap r with openForWr := false }).drop r (.localVar 0), .ok)

/-- `ZenFS::MigrateExtents`, with the extents already grouped by file.  Only the
extents of `.sst` files are migrated. -/
def migrateExtents (fs : Fs) : List (Name × List (Nat × Nat)) → Fs × Status
  | [] => (fs, .ok)
  | (fname, exts) :: rest =>
      if endsWith fname ".sst" then
        andThen (fs.migrateFileExtents G fname exts) fun fs ↦
          andThen fs.resetUnusedIOZones fun fs ↦ fs.migrateExtents rest
      else fs.migrateExtents rest

/-! ### What migration can do -/

section Outcomes

/-- Some data has been copied to the zone `target`. -/
structure Copied (target : ZoneId) (fileId : Nat) (fs fs' : Fs) : Prop where
  eq : ∃ env evs, fs.env.Later env ∧ (∀ e ∈ evs, ∃ data, e = Event.copy target fileId data) ∧
    fs' = { fs with
      zbd := fs.zbd.appended target (evs.flatMap Event.copied)
      env := env
      hist := fs.hist ++ evs }

namespace Copied

variable {target : ZoneId} {fileId : Nat} {fs fs' fs₁ fs₂ : Fs}

theorem refl : Copied target fileId fs fs :=
  ⟨fs.env, [], .refl _, by simp, by simp [Zbd.appended_nil]⟩

theorem trans (h₁ : Copied target fileId fs fs₁) (h₂ : Copied target fileId fs₁ fs₂) :
    Copied target fileId fs fs₂ := by
  obtain ⟨env₁, evs₁, hl₁, he₁, rfl⟩ := h₁.eq
  obtain ⟨env₂, evs₂, hl₂, he₂, rfl⟩ := h₂.eq
  refine ⟨env₂, evs₁ ++ evs₂, hl₁.trans hl₂, ?_, ?_⟩
  · intro e he
    rcases List.mem_append.mp he with he | he
    · exact he₁ e he
    · exact he₂ e he
  · simp [Zbd.appended_appended]

theorem env {env : Env} (h : fs.env.Later env) : Copied target fileId fs { fs with env := env } :=
  ⟨env, [], h, by simp, by simp [Zbd.appended_nil]⟩

theorem zoneAppend (data : List Byte) :
    Copied target fileId fs (fs.zoneAppend target data (.copy target fileId)).1 := by
  obtain ⟨n, -, -, h, -⟩ := fs.zoneAppend_cases target data (.copy target fileId)
  rw [h]
  refine ⟨{ fs.env with writes := fs.env.writes.tail }, [.copy target fileId (data.take n)],
    ?_, ?_, ?_⟩
  · exact ⟨rfl, rfl, rfl, List.suffix_rfl, List.tail_suffix _, List.suffix_rfl, rfl,
      List.suffix_rfl⟩
  · simp
  · simp [wrote, note, Event.copied]

end Copied

variable (fs : Fs)

theorem migrateLoop_copied (target : ZoneId) (fileId fuel offset length : Nat) :
    Copied target fileId fs (fs.migrateLoop target fileId fuel offset length).1 := by
  have hr : ∀ fs : Fs, fs.env.Later { fs.env with reads := fs.env.reads.tail } := fun fs ↦
    ⟨rfl, rfl, rfl, List.suffix_rfl, List.suffix_rfl, List.tail_suffix _, rfl, List.suffix_rfl⟩
  induction fuel generalizing fs offset length with
  | zero => exact .refl
  | succ fuel ih =>
      unfold migrateLoop
      split
      · exact .refl
      · dsimp only
        split
        · rename_i fs₁ heq
          obtain rfl := congrArg Prod.fst heq
          exact .env (hr fs)
        · rename_i fs₁ bytes heq
          obtain rfl := congrArg Prod.fst heq
          exact ((Copied.env (hr fs)).trans (.zoneAppend bytes)).trans (ih _ _ _)

theorem migrateData_copied (fileId offset length : Nat) (target : ZoneId) :
    Copied target fileId fs (fs.migrateData fileId offset length target).1 := by
  unfold migrateData
  split
  · exact .refl
  · exact migrateLoop_copied ..

theorem migrateCopy_copied (r : Ref) (ext : ZoneExtent) (target : ZoneId) :
    Copied target (fs.heap r).fileId fs (fs.migrateCopy r ext target) := by
  unfold migrateCopy
  dsimp only
  split
  · exact migrateData_copied ..
  · exact migrateData_copied ..

/-- An extent stays where it is, or is copied and redirected. -/
theorem migrateExtent_cases (r : Ref) (migrate_exts : List (Nat × Nat)) (ext : ZoneExtent) :
    ∃ ps is fs₁, fs₁ = { fs with env := { fs.env with picks := ps } }.finishZones is ∧
      ((fs.migrateExtent r migrate_exts ext = (fs, ext)) ∨
        (fs.migrateExtent r migrate_exts ext = (fs₁, ext)) ∨
      ∃ target fs₂ fs₃, fs₁.zbd.eligible target = true ∧
        fs₂ = { fs₁ with zbd := fs₁.zbd.setBusy target true } ∧
        Copied target (fs₁.heap r).fileId fs₂ fs₃ ∧ fs₃ = fs₂.migrateCopy r ext target ∧
        (fs.migrateExtent r migrate_exts ext).2 =
          ⟨fs₁.migrateStart r target, ext.length, target⟩ ∧
        (fs.migrateExtent r migrate_exts ext).1 =
          if fs₁.migrateStart r target = ext.start then
            ((fs₃.addUsed target ext.length).releaseZone target).note .redirectedInPlace
          else (fs₃.addUsed target ext.length).releaseZone target) := by
  unfold migrateExtent
  split
  · obtain ⟨ps, is, h | ⟨i, fs₁, h₁, he, h⟩⟩ := fs.allocateIOZoneNoLock_cases
    · refine ⟨ps, is, _, rfl, .inr (.inl ?_)⟩
      rw [h]
    · have hc := migrateCopy_copied { fs₁ with zbd := fs₁.zbd.setBusy i true } r ext i
      refine ⟨ps, is, fs₁, h₁, .inr (.inr ⟨i, _, _, he, rfl, hc, rfl, ?_⟩)⟩
      have hst : migrateStart { fs₁ with zbd := fs₁.zbd.setBusy i true } r i =
          fs₁.migrateStart r i := by
        simp [migrateStart, Zbd.setBusy]
      rw [h]
      dsimp only
      rw [hst]
      exact ⟨rfl, rfl⟩
  · exact ⟨[], [], _, rfl, .inl rfl⟩

/-- `MigrateFileExtents` does nothing, or migrates the extents of a file that is not
open for writing. -/
theorem migrateFileExtents_cases (fname : Name) (exts : List (Nat × Nat)) :
    (fs.migrateFileExtents G fname exts = (fs, .ok)) ∨
      ∃ r fs₁ fs₂ es fs₃, fs.files.lookup fname = some r ∧ (fs.heap r).openForWr = false ∧
        fs₁ = (fs.hold r (.localVar 0)).setFile r { fs.heap r with openForWr := true } ∧
        migrateAll r exts (fs.heap r).extents fs₁ = (fs₂, es) ∧
        fs₃ = (fs₂.syncFileExtents G r es).1 ∧
        fs.migrateFileExtents G fname exts =
          ((fs₃.setFile r { fs₃.heap r with openForWr := false }).drop r (.localVar 0), .ok) := by
  unfold migrateFileExtents
  split
  · exact .inl rfl
  · rename_i r hn
    split
    · exact .inl rfl
    · rename_i ho
      refine .inr ⟨r, _, _, _, _, hn, by simpa using ho, rfl, rfl, rfl, ?_⟩
      have hes : (((fs.hold r (.localVar 0)).setFile r { fs.heap r with openForWr := true }).heap
          r).extents = (fs.heap r).extents := by
        simp [setFile]
      dsimp only
      rw [hes]

end Outcomes

/-! ## Runs -/

/-- The operations of a run. -/
inductive Op where
  | openWritable (fname : Name) (direct reopen : Bool) (h : Handle)
  | openReader (fname : Name) (k : Nat)
  | closeReader (k : Nat)
  | append (h : Handle) (data : List Byte)
  | positionedAppend (h : Handle) (data : List Byte) (offset : Nat)
  | sync (h : Handle)
  | fsync (h : Handle)
  | rangeSync (h : Handle) (offset nbytes : Nat)
  | close (h : Handle)
  | destroy (h : Handle)
  | setLifetime (h : Handle) (hint : Nat)
  | link (fname lname : Name)
  | rename (source_path dest_path : Name)
  | delete (fname : Name)
  | migrate (extents : List (Name × List (Nat × Nat)))
  | resetUnused
deriving DecidableEq, Repr

/-- `ZonedWritableFile::SetWriteLifeTimeHint`. -/
def setWriteLifeTimeHint (fs : Fs) (h : Handle) (hint : Nat) : Fs × Status :=
  fs.withWriter h fun w ↦ (fs.setFile w.file { fs.heap w.file with lifetime := hint }, .ok)

/-- `ZenFS::NewRandomAccessFile` and `ZenFS::NewSequentialFile`; the reader keeps
the file alive. -/
def openReader (fs : Fs) (fname : Name) (k : Nat) : Fs × Status :=
  match fs.files.lookup fname with
  | none => (fs, fs.env.aux)
  | some r =>
      ({ fs.hold r (.reader k) with readers := Function.update fs.readers k (some r) }, .ok)

/-- A reader goes away. -/
def closeReader (fs : Fs) (k : Nat) : Fs :=
  match fs.readers k with
  | none => fs
  | some r => { fs with readers := Function.update fs.readers k none }.drop r (.reader k)

/-- Note that a sync of the file has returned OK. -/
def noteSynced (h : Handle) (x : Fs × Status) : Fs × Status :=
  andThen x fun fs ↦ fs.withWriter h fun w ↦
    (fs.note (.synced (fs.heap w.file).fileId (fs.appended w.file).length), .ok)

/-- One operation. -/
def exec (fs : Fs) : Op → Fs × Status
  | .openWritable fname direct reopen h => fs.openWritableFile G fname direct reopen h
  | .openReader fname k => fs.openReader fname k
  | .closeReader k => (fs.closeReader k, .ok)
  | .append h data => fs.writerAppend G h data
  | .positionedAppend h data offset => fs.positionedAppend G h data offset
  | .sync h => noteSynced h (fs.dataSync G h)
  | .fsync h => noteSynced h (fs.fsync G h)
  | .rangeSync h offset nbytes => fs.rangeSync G h offset nbytes
  | .close h => noteSynced h (fs.closeInternal G h)
  | .destroy h => (fs.destroyWriter G h, .ok)
  | .setLifetime h hint => fs.setWriteLifeTimeHint h hint
  | .link fname lname => fs.linkFile G fname lname
  | .rename source_path dest_path => fs.renameFile G source_path dest_path
  | .delete fname => fs.deleteFile G fname
  | .migrate extents => fs.migrateExtents G extents
  | .resetUnused => fs.resetUnusedIOZones

/-- The writer is open. -/
def isOpen (fs : Fs) (h : Handle) : Bool := ((fs.writers h).map Writer.isOpen).getD false

/-- What callers respect: handles are used while they are open, and a file that
is open for writing is not reopened, which would wait for the other writer. -/
def enabled (fs : Fs) : Op → Bool
  | .openWritable fname _ reopen h =>
      (fs.writers h).isNone &&
        !(reopen && ((fs.files.lookup fname).map fun r ↦ (fs.heap r).openForWr).getD false)
  | .openReader _ k => (fs.readers k).isNone
  | .append h _ | .positionedAppend h _ _ | .sync h | .fsync h | .rangeSync h _ _ | .close h
  | .setLifetime h _ => fs.isOpen h
  | _ => true

/-- One operation with its environment. -/
def step (fs : Fs) (env : Env) (op : Op) : Fs := ({ fs with env := env }.exec G op).1

/-- A state is reached by operations that satisfy `P`. -/
inductive Reaches (P : Fs → Env → Op → Prop) (fs : Fs) : Fs → Prop
  | refl : Reaches P fs fs
  | step {fs' : Fs} (h : Reaches P fs fs') (env : Env) (op : Op) (hp : P fs' env op)
      (he : fs'.enabled op = true) : Reaches P fs (fs'.step G env op)

end Fs

end ZenFs
