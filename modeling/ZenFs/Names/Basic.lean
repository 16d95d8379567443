import ZenFs.Meta.Replay
import ZenFs.Names.Path
import Mathlib.Data.List.Sort

/-!
# The namespace

The operations of `ZenFS` on names: `files_`, the link names that each
`ZoneFile` carries, and the next file id.  Everything else they depend on is a
parameter, the `World`: whether a metadata record can be persisted, what the
auxiliary filesystem answers, and whether unused zones can be reset.  A world
has a state of its own and may answer each call differently.

Paths are in the normal form of `FormatPathLexically`, and contain no NUL, so
that `fname.c_str()` is the name itself.  When a roll makes `PersistRecord` mark
other files as synced, that is not part of the namespace and left out.
-/

namespace ZenFs

universe u

/-- `ZoneFile::SetFileModificationTime`. -/
def ZoneFile.setFileModificationTime (f : ZoneFile) (mt : Nat) : ZoneFile := { f with mTime := mt }

/-- `ZoneFile::SetDeleted`. -/
def ZoneFile.setDeleted (f : ZoneFile) : ZoneFile := { f with isDeleted := true }

/-- What the namespace functions call: `PersistRecord`, the clock, the auxiliary
filesystem `target()`, and `ResetUnusedIOZones`. -/
structure World (σ : Type u) where
  persistRecord : σ → Record → σ × Status
  now : σ → Nat
  auxDeleteFile : σ → Name → σ × Status
  auxRenameFile : σ → Name → Name → σ × Status
  auxLinkFile : σ → Name → Name → σ × Status
  auxGetChildren : σ → Name → σ × Except Status (List Name)
  auxIsDirectory : σ → Name → σ × Except Status Bool
  auxDeleteDir : σ → Name → σ × Status
  resetUnusedIOZones : σ → σ × Status

/-- One outcome for each call of the world.  The calls of the source that a single
operation on names makes differ in their arguments, so each may have any outcome. -/
structure Outcomes where
  deletion : Name → Status := fun _ ↦ .ok
  update : Name → Status := fun _ ↦ .ok
  now : Nat := 0
  auxDeleteFile : Name → Status := fun n ↦ .notFound n
  auxRenameFile : Name → Name → Status := fun n _ ↦ .notFound n
  auxLinkFile : Name → Name → Status := fun n _ ↦ .notFound n
  auxGetChildren : Name → Except Status (List Name) := fun n ↦ .error (.notFound n)
  auxIsDirectory : Name → Except Status Bool := fun n ↦ .error (.notFound n)
  auxDeleteDir : Name → Status := fun n ↦ .notFound n
  resetUnusedIOZones : Status := .ok

/-- The outcome of persisting a record: of the deletion of a name, or of the
update of a file, which is told by the link that was added last. -/
def Outcomes.persistRecord (o : Outcomes) : Record → Status
  | .fileDeletion _ linkf => o.deletion linkf
  | .fileUpdate fr => (fr.linkfiles.getLast?.map o.update).getD .ok
  | _ => .ok

/-- The world with these outcomes. -/
def World.ofOutcomes (o : Outcomes) : World Unit where
  persistRecord w rec := (w, o.persistRecord rec)
  now _ := o.now
  auxDeleteFile w fname := (w, o.auxDeleteFile fname)
  auxRenameFile w source_path dest_path := (w, o.auxRenameFile source_path dest_path)
  auxLinkFile w fname lname := (w, o.auxLinkFile fname lname)
  auxGetChildren w dir := (w, o.auxGetChildren dir)
  auxIsDirectory w path := (w, o.auxIsDirectory path)
  auxDeleteDir w dir := (w, o.auxDeleteDir dir)
  resetUnusedIOZones w := (w, o.resetUnusedIOZones)

/-- `files_` and the objects behind it, `next_file_id_`, and the state of the
world.  An object that has been destroyed has the default contents. -/
structure Names (σ : Type u) where
  files : Files
  heap : Ref → ZoneFile
  nextRef : Ref
  nextFileId : Nat
  world : σ

namespace Names

variable {σ : Type u} (W : World σ)

/-- Replace the object `r` points to. -/
def setFile (s : Names σ) (r : Ref) (f : ZoneFile) : Names σ :=
  { s with heap := Function.update s.heap r f }

/-- `if (!s.ok()) return s;` -/
def andThen (x : Names σ × Status) (k : Names σ → Names σ × Status) : Names σ × Status :=
  match x with
  | (s, .ok) => k s
  | (s, e) => (s, e)

/-- A call that the world answers with a status. -/
def call (s : Names σ) (f : σ → σ × Status) : Names σ × Status :=
  ({ s with world := (f s.world).1 }, (f s.world).2)

/-- `ZonedBlockDevice::ResetUnusedIOZones`. -/
def resetUnusedIOZones (s : Names σ) : Names σ × Status := s.call W.resetUnusedIOZones

/-- `ZenFS::PersistRecord`. -/
def persistRecord (s : Names σ) (rec : Record) : Names σ × Status := s.call (W.persistRecord · rec)

/-- `ZenFS::SyncFileMetadataNoLock`, not for a replacement. -/
def syncFileMetadataNoLock (s : Names σ) (r : Ref) : Names σ × Status :=
  if (s.heap r).isDeleted then (s, .ok)
  else
    let s := s.setFile r ((s.heap r).setFileModificationTime (W.now s.world))
    andThen (s.persistRecord W (.fileUpdate (s.heap r).encodeUpdateTo)) fun s ↦
      (s.setFile r (s.heap r).metadataSynced, .ok)

/-! ## Deleting and creating -/

/-- `ZenFS::DeleteFileNoLock`. -/
def deleteFileNoLock (s : Names σ) (fname : Name) : Names σ × Status :=
  match s.files.lookup fname with
  | none => s.call (W.auxDeleteFile · fname)
  | some r =>
      let s := { s with files := s.files.erase fname }
      match (s.heap r).removeLinkName fname with
      | .error e => (s, e)
      | .ok f =>
          match (s.setFile r f).persistRecord W (.fileDeletion f.fileId fname) with
          | (s, .ok) =>
              if (s.heap r).linkfiles ≠ [] then (s, .ok)
              else (s.setFile r (s.heap r).setDeleted, .ok)
          | (s, e) =>
              -- failed to persist the delete, return to a consistent state
              ({ s with files := s.files.insertNew fname r }.setFile r
                ((s.heap r).addLinkName fname), e)

/-- `ZenFS::DeleteFile`. -/
def deleteFile (s : Names σ) (fname : Name) : Names σ × Status :=
  andThen (s.deleteFileNoLock W fname) (resetUnusedIOZones W)

/-- The `ZoneFile` that `OpenWritableFile` makes. -/
def newZoneFile (s : Names σ) (fname : Name) (direct : Bool) : ZoneFile where
  fileId := s.nextFileId
  mTime := W.now s.world
  linkfiles := [fname]
  isSparse := endsWith fname ".log" && !direct

/-- `ZenFS::OpenWritableFile` behind the deletion of an existing file: the creation
is persisted before the name is in `files_`. -/
def createFile (s : Names σ) (fname : Name) (direct : Bool) : Names σ × Status :=
  let r := s.nextRef
  let s :=
    { s.setFile r (s.newZoneFile W fname direct) with
      nextRef := s.nextRef + 1
      nextFileId := s.nextFileId + 1 }
  match s.syncFileMetadataNoLock W r with
  | (s, .ok) => ({ s with files := s.files.insertNew fname r }, .ok)
  | (s, e) => (s.setFile r default, e)

/-- `ZenFS::OpenWritableFile`. -/
def openWritableFile (s : Names σ) (fname : Name) (direct reopen : Bool) : Names σ × Status :=
  match s.files.lookup fname with
  | none => s.createFile W fname direct
  | some _ =>
      if reopen then (s, .ok)
      else
        andThen (s.deleteFileNoLock W fname) fun s ↦
          andThen (s.createFile W fname direct) (resetUnusedIOZones W)

/-- `ZenFS::NewWritableFile`. -/
def newWritableFile (s : Names σ) (fname : Name) (direct : Bool) : Names σ × Status :=
  s.openWritableFile W fname direct false

/-! ## Linking and renaming -/

/-- `ZenFS::LinkFile`. -/
def linkFile (s : Names σ) (fname lname : Name) : Names σ × Status :=
  match s.files.lookup lname with
  | some _ => (s, .invalidArgument "Failed to create link, target exists")
  | none =>
      match s.files.lookup fname with
      | none => s.call (W.auxLinkFile · fname lname)
      | some r =>
          match ({ s with files := s.files.insertNew lname r }.setFile r
              ((s.heap r).addLinkName lname)).syncFileMetadataNoLock W r with
          | (s, .ok) => (s, .ok)
          | (s, _) =>
              match (s.heap r).removeLinkName lname with
              | .error e => (s, e)
              | .ok f => ({ s with files := s.files.erase lname }.setFile r f, .ok)

/-- `ZenFS::RenameFileNoLock` behind the deletion of an existing destination.  A
failed persist is rolled back, and the status of the rollback is returned. -/
def moveFile (s : Names σ) (r : Ref) (source_path dest_path : Name) : Names σ × Status :=
  match (s.heap r).renameLink source_path dest_path with
  | .error e => (s, e)
  | .ok f =>
      let files := Files.insertNew (s.files.erase source_path) dest_path r
      match ({ s with files := files }.setFile r f).syncFileMetadataNoLock W r with
      | (s, .ok) => (s, .ok)
      | (s, _) =>
          let s := { s with files := s.files.erase dest_path }
          match (s.heap r).renameLink dest_path source_path with
          | .error e => (s, e)
          | .ok f => ({ s with files := s.files.insertNew source_path r }.setFile r f, .ok)

/-- `ZenFS::RenameFileNoLock` on a file of its own. -/
def renameZoneFile (s : Names σ) (r : Ref) (source_path dest_path : Name) : Names σ × Status :=
  match s.files.lookup dest_path with
  | none => s.moveFile W r source_path dest_path
  | some _ =>
      andThen (s.deleteFileNoLock W dest_path) fun s ↦ s.moveFile W r source_path dest_path

/-! ## Directories

`RenameFileNoLock` and `RenameAuxPathNoLock` call each other, and so does
`DeleteDirRecursiveNoLock` itself.  Both are given fuel for the depth of the
recursion; `none` is a call that has not returned within it. -/

/-- `if (!s.ok()) return s;` behind a call that may not return. -/
def andThen? (x : Option (Names σ × Status)) (k : Names σ → Option (Names σ × Status)) :
    Option (Names σ × Status) :=
  match x with
  | some (s, .ok) => k s
  | x => x

/-- The names in `files_`, in the order of the map. -/
def names (s : Names σ) : List Name := s.files.keys.insertionSort (· ≤ ·)

/-- `ZenFS::GetZenFSChildrenNoLock`. -/
def getZenFSChildrenNoLock (s : Names σ) (dir : Name) (include_grandchildren : Bool) : List Name :=
  (s.names.filter fun path ↦
    startsWith (fileDir path) (withSep dir) &&
      (include_grandchildren || (fileDir path).length == (withSep dir).length)).map
    (relativeChildPath dir)

section Rename

variable (rename : Names σ → Name → Name → Option (Names σ × Status))

/-- `ZenFS::RenameChildNoLock`. -/
def renameChildNoLock (s : Names σ) (source_dir dest_dir child : Name) :
    Option (Names σ × Status) :=
  rename s (childPath source_dir child) (childPath dest_dir child)

/-- The loop of `ZenFS::RollbackAuxDirRenameNoLock`. -/
def rollbackChildren (source_path dest_path : Name) :
    List Name → Names σ → Option (Names σ × Status)
  | [], s => some (s, .ok)
  | child :: children, s =>
      match s.renameChildNoLock rename dest_path source_path child with
      | some (s, .ok) => rollbackChildren source_path dest_path children s
      | some (s, _) =>
          some (s, .corruption "RollbackAuxDirRenameNoLock: Failed to roll back directory rename")
      | none => none

/-- `ZenFS::RollbackAuxDirRenameNoLock`. -/
def rollbackAuxDirRenameNoLock (s : Names σ) (source_path dest_path : Name)
    (renamed_children : List Name) : Option (Names σ × Status) :=
  andThen? (rollbackChildren rename source_path dest_path renamed_children s) fun s ↦
    match s.call (W.auxRenameFile · dest_path source_path) with
    | (s, .ok) => some (s, .ok)
    | (s, _) =>
        some (s, .corruption
          "RollbackAuxDirRenameNoLock: Failed to roll back auxiliary path renaming")

/-- The loop of `ZenFS::RenameAuxPathNoLock`. -/
def renameChildren (source_path dest_path : Name) :
    List Name → List Name → Names σ → Option (Names σ × Status)
  | [], _, s => some (s, .ok)
  | child :: children, renamed_children, s =>
      match s.renameChildNoLock rename source_path dest_path child with
      | some (s, .ok) =>
          renameChildren source_path dest_path children (renamed_children ++ [child]) s
      | some (s, failed_rename) =>
          andThen? (s.rollbackAuxDirRenameNoLock W rename source_path dest_path renamed_children)
            fun s ↦ some (s, failed_rename)
      | none => none

/-- `ZenFS::RenameAuxPathNoLock`. -/
def renameAuxPathWith (s : Names σ) (source_path dest_path : Name) : Option (Names σ × Status) :=
  andThen? (some (s.call (W.auxRenameFile · source_path dest_path))) fun s ↦
    renameChildren W rename source_path dest_path (s.getZenFSChildrenNoLock source_path true) [] s

end Rename

/-- `ZenFS::RenameFileNoLock`. -/
def renameFileNoLock : Nat → Names σ → Name → Name → Option (Names σ × Status)
  | 0, _, _, _ => none
  | fuel + 1, s, source_path, dest_path =>
      match s.files.lookup source_path with
      | some r => some (s.renameZoneFile W r source_path dest_path)
      | none => s.renameAuxPathWith W (renameFileNoLock fuel) source_path dest_path

/-- `ZenFS::RenameAuxPathNoLock`. -/
def renameAuxPathNoLock (fuel : Nat) (s : Names σ) (source_path dest_path : Name) :
    Option (Names σ × Status) :=
  s.renameAuxPathWith W (renameFileNoLock W fuel) source_path dest_path

/-- `ZenFS::RenameFile`. -/
def renameFile (fuel : Nat) (s : Names σ) (source_path dest_path : Name) :
    Option (Names σ × Status) :=
  andThen? (renameFileNoLock W fuel s source_path dest_path) fun s ↦ some (s.resetUnusedIOZones W)

/-- `ZenFS::GetChildrenNoLock`.  A directory that the auxiliary filesystem does not
have is empty. -/
def getChildrenNoLock (s : Names σ) (dir : Name) : Names σ × Except Status (List Name) :=
  let s' := { s with world := (W.auxGetChildren s.world dir).1 }
  match (W.auxGetChildren s.world dir).2 with
  | .error e => (s', if e.isNotFound then .ok [] else .error e)
  | .ok auxfiles =>
      (s', .ok ((auxfiles.filter fun f ↦ f != "." && f != "..") ++
        s'.getZenFSChildrenNoLock dir false))

/-- `ZenFS::IsDirectoryNoLock`. -/
def isDirectoryNoLock (s : Names σ) (path : Name) : Names σ × Except Status Bool :=
  match s.files.lookup path with
  | some _ => (s, .ok false)
  | none =>
      ({ s with world := (W.auxIsDirectory s.world path).1 }, (W.auxIsDirectory s.world path).2)

/-- The loop of `ZenFS::DeleteDirRecursiveNoLock` over the children of `d`. -/
def deleteChildren (deleteDir : Names σ → Name → Option (Names σ × Status)) (d : Name) :
    List Name → Names σ → Option (Names σ × Status)
  | [], s => some (s, .ok)
  | child :: children, s =>
      match s.isDirectoryNoLock W (childPath d child) with
      | (s, .error e) => some (s, e)
      | (s, .ok is_dir) =>
          andThen? (if is_dir then deleteDir s (childPath d child)
            else some (s.deleteFileNoLock W (childPath d child))) fun s ↦
              deleteChildren deleteDir d children s

/-- `ZenFS::DeleteDirRecursiveNoLock`. -/
def deleteDirRecursiveNoLock : Nat → Names σ → Name → Option (Names σ × Status)
  | 0, _, _ => none
  | fuel + 1, s, d =>
      match s.getChildrenNoLock W d with
      | (s, .error e) => some (s, e)
      | (s, .ok children) =>
          andThen? (deleteChildren W (deleteDirRecursiveNoLock fuel) d children s) fun s ↦
            some (s.call (W.auxDeleteDir · d))

/-- `ZenFS::DeleteDirRecursive`. -/
def deleteDirRecursive (fuel : Nat) (s : Names σ) (d : Name) : Option (Names σ × Status) :=
  andThen? (deleteDirRecursiveNoLock W fuel s d) fun s ↦ some (s.resetUnusedIOZones W)

end Names

end ZenFs
