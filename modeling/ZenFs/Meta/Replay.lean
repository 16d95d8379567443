import ZenFs.File.Basic
import ZenFs.Meta.Log
import Mathlib.Data.List.AList
import Mathlib.Data.Finset.Basic

/-!
# Replaying the metadata log

The in-memory namespace (`files_` and the `ZoneFile` objects behind it) and the
functions that rebuild it from the records of a metadata zone.

Objects are shared: several names may map to one `ZoneFile`, and open handles
keep one alive that no name maps to any more.  The model keeps the objects in a
heap indexed by `Ref`, with the set of live references, and destroys an object
where the source drops the last `shared_ptr` to it.
-/

namespace ZenFs

/-- `ZenFS::files_`. -/
abbrev Files := AList (fun _ : Name ↦ Ref)

namespace Files

/-- `files_.insert`, which leaves an existing entry alone. -/
def insertNew (fs : Files) (n : Name) (r : Ref) : Files := if n ∈ fs then fs else fs.insert n r

/-- Insert all names of a list. -/
def insertLinks (fs : Files) (ns : List Name) (r : Ref) : Files :=
  ns.foldl (fun fs n ↦ fs.insertNew n r) fs

/-- Erase all names of a list, each of which must be present. -/
def eraseLinks : List Name → Files → Option Files
  | [], fs => some fs
  | n :: ns, fs => if n ∈ fs then eraseLinks ns (fs.erase n) else none

/-- Some name maps to the object. -/
def refers (fs : Files) (r : Ref) : Bool := fs.entries.any fun e ↦ e.2 == r

end Files

/-- The namespace in memory, with the device it lives on. -/
structure Store where
  zbd : Zbd
  files : Files
  heap : Ref → ZoneFile
  live : Finset Ref
  handles : Ref → List Holder
  nextRef : Ref
  nextFileId : Nat

namespace Store

/-- The constructor `ZenFS::ZenFS`. -/
def init (zbd : Zbd) : Store where
  zbd := zbd
  files := ∅
  heap := fun _ ↦ default
  live := ∅
  handles := fun _ ↦ []
  nextRef := 0
  nextFileId := 1

/-- Replace the object `r` points to. -/
def setFile (s : Store) (r : Ref) (f : ZoneFile) : Store :=
  { s with heap := Function.update s.heap r f }

/-- A new object; the caller holds the only reference. -/
def alloc (s : Store) (f : ZoneFile) : Ref × Store :=
  (s.nextRef,
    { s with
      heap := Function.update s.heap s.nextRef f
      live := insert s.nextRef s.live
      nextRef := s.nextRef + 1 })

/-- `ZoneFile::~ZoneFile`. -/
def destroy (s : Store) (r : Ref) : Store :=
  { s with zbd := s.zbd.clearExtents (s.heap r).extents, live := s.live.erase r }

/-- A local `shared_ptr` goes out of scope: the object goes if no name and no
handle keeps it. -/
def release (s : Store) (r : Ref) : Store :=
  if s.files.refers r || !(s.handles r).isEmpty then s else s.destroy r

/-- `ZenFS::ClearFiles`. -/
def clearFiles (s : Store) : Store :=
  (s.files.entries.map (·.2)).dedup.foldl release { s with files := ∅ }

/-- Raise `next_file_id_` above an id found in the log. -/
def raiseNextFileId (s : Store) (id : Nat) : Store :=
  { s with nextFileId := if s.nextFileId ≤ id then id + 1 else s.nextFileId }

/-- The first entry of `files_` whose file has the given id. -/
def findId (s : Store) (id : Nat) : Option Ref :=
  (s.files.entries.find? fun e ↦ (s.heap e.2).fileId == id).map (·.2)

/-- `ZenFS::DecodeFileUpdateFrom`. -/
def decodeFileUpdateFrom (s : Store) (fr : FileRecord) (replace : Bool) : Except Status Store :=
  match ZoneFile.decodeFrom fr s.zbd with
  | .error e => .error e
  | .ok (update, d) =>
      match s.findId fr.fileId with
      | some r =>
          match Files.eraseLinks (s.heap r).linkfiles s.files with
          | none => .error (.corruption "DecodeFileUpdateFrom: missing link file")
          | some files =>
              match (s.heap r).mergeUpdate update replace d with
              | .error e => .error e
              | .ok (f, d') =>
                  -- `update.reset()` gives back what decoding had counted
                  .ok ((({ s with
                      zbd := d'.clearExtents update.extents
                      files := files.insertLinks f.linkfiles r }.setFile r f).raiseNextFileId
                        fr.fileId).release r)
      | none =>
          match update.linkfiles with
          | [] => .error (.corruption "GetFilename on a file without links")
          | fname :: _ =>
              let (r, s') := { s with zbd := d }.alloc update
              .ok (({ s' with files := s'.files.insertNew fname r }.raiseNextFileId
                fr.fileId).release r)

/-- The body of the loop in `ZenFS::DecodeSnapshotFrom`. -/
def decodeSnapshotFile (s : Store) (fr : FileRecord) : Except Status Store :=
  match ZoneFile.decodeFrom fr s.zbd with
  | .error e => .error e
  | .ok (f, d) =>
      let (r, s') := { s with zbd := d }.alloc f
      -- the second copy of a file with several links finds all its names taken
      .ok (({ s' with files := s'.files.insertLinks f.linkfiles r }.raiseNextFileId
        fr.fileId).release r)

/-- `ZenFS::DecodeSnapshotFrom`. -/
def decodeSnapshotFrom (s : Store) : List FileRecord → Except Status Store
  | [] => .ok s
  | fr :: frs =>
      match s.decodeSnapshotFile fr with
      | .error e => .error e
      | .ok s' => s'.decodeSnapshotFrom frs

/-- `ZenFS::DecodeFileDeletionFrom`. -/
def decodeFileDeletionFrom (s : Store) (fileId : Nat) (fileName : Name) : Except Status Store :=
  match s.files.lookup fileName with
  | none => .error (.corruption "Zone file deletion: no such file")
  | some r =>
      if (s.heap r).fileId ≠ fileId then
        .error (.corruption "Zone file deletion: file ID missmatch")
      else match (s.heap r).removeLinkName fileName with
        | .error _ => .error (.corruption "Zone file deletion: file links missmatch")
        | .ok f => .ok (({ s with files := s.files.erase fileName }.setFile r f).release r)

/-- The `switch` in `ZenFS::RecoverFrom`. -/
def applyRecord (s : Store) : Record → Except Status Store
  | .completeFilesSnapshot frs => s.clearFiles.decodeSnapshotFrom frs
  | .fileUpdate fr => s.decodeFileUpdateFrom fr false
  | .fileReplace fr => s.decodeFileUpdateFrom fr true
  | .fileDeletion id n => s.decodeFileDeletionFrom id n
  | .superblock _ => .error (.corruption "Unexpected tag")
  | .endRecord => .ok s

/-- A property that the functions behind the records keep. -/
structure Kept (I : Store → Prop) : Prop where
  clearFiles : ∀ {s}, I s → I s.clearFiles
  snapshotFile : ∀ {s s' fr}, I s → s.decodeSnapshotFile fr = .ok s' → I s'
  fileUpdate : ∀ {s s' fr replace}, I s → s.decodeFileUpdateFrom fr replace = .ok s' → I s'
  fileDeletion : ∀ {s s' id n}, I s → s.decodeFileDeletionFrom id n = .ok s' → I s'

namespace Kept

variable {I : Store → Prop} {s s' : Store}

theorem decodeSnapshotFrom {frs : List FileRecord} (hI : Kept I) (h : I s)
    (hok : s.decodeSnapshotFrom frs = .ok s') : I s' := by
  induction frs generalizing s with
  | nil =>
      cases hok
      exact h
  | cons fr frs ih =>
      unfold Store.decodeSnapshotFrom at hok
      split at hok
      · cases hok
      · rename_i s₁ hs₁
        exact ih (hI.snapshotFile h hs₁) hok

/-- Every record keeps the property. -/
theorem applyRecord {rec : Record} (hI : Kept I) (h : I s) (hok : s.applyRecord rec = .ok s') :
    I s' := by
  cases rec with
  | completeFilesSnapshot frs => exact hI.decodeSnapshotFrom (hI.clearFiles h) hok
  | fileUpdate fr => exact hI.fileUpdate h hok
  | fileReplace fr => exact hI.fileUpdate h hok
  | fileDeletion id n => exact hI.fileDeletion h hok
  | superblock _ => cases hok
  | endRecord =>
      cases hok
      exact h

end Kept

end Store

/-- The tag `kCompleteFilesSnapshot`. -/
def Record.isSnapshot : Record → Bool
  | .completeFilesSnapshot _ => true
  | _ => false

/-- The tags of the records that `PersistRecord` is called with. -/
def Record.isUpdate : Record → Bool
  | .fileUpdate _ | .fileReplace _ | .fileDeletion _ _ => true
  | _ => false

theorem Record.ne_endRecord_of_isUpdate {r : Record} (h : r.isUpdate = true) : r ≠ .endRecord := by
  rintro rfl
  cases h

theorem Record.isSnapshot_of_isUpdate {r : Record} (h : r.isUpdate = true) :
    r.isSnapshot = false := by
  cases r <;> first | rfl | cases h

/-- The result of `ZenFS::RecoverFrom`.  Without a snapshot the next zone is
tried on the same object, so the namespace is kept. -/
inductive RecoverRes where
  | ok (s : Store)
  | notFound (s : Store)
  | failed (e : Status)

/-- The end of `ZenFS::RecoverFrom`. -/
def RecoverRes.finish (snap : Bool) (s : Store) : RecoverRes := if snap then .ok s else .notFound s

/-- The loop of `ZenFS::RecoverFrom`, reading from block `pos` on. -/
def recoverLoop (G : Geometry) (z : MediaZone) (wp : Nat) :
    Nat → Nat → Bool → Store → RecoverRes
  | 0, _, _, _ => .failed (.corruption "Metadata corruption")
  | fuel + 1, pos, snap, s =>
      match readRecord G z wp pos with
      | .error _ => .failed (.corruption "Metadata corruption")
      | .ok (none, _) => RecoverRes.finish snap s
      | .ok (some .endRecord, _) => RecoverRes.finish snap s
      | .ok (some r, p) =>
          match s.applyRecord r with
          | .error e => .failed e
          | .ok s' => recoverLoop G z wp fuel p (snap || r.isSnapshot) s'

/-- `ZenFS::RecoverFrom` on a log whose superblock has been read.  A zone of
capacity `n` holds at most `n` records. -/
def recoverFrom (G : Geometry) (z : MediaZone) (wp pos : Nat) (s : Store) : RecoverRes :=
  recoverLoop G z wp (z.maxCapacity + 1) pos false s

/-- What `RecoverFrom` does with the records it reads, whatever their layout. -/
def replay : List Record → Option Status → Bool → Store → RecoverRes
  | [], none, snap, s => RecoverRes.finish snap s
  | [], some _, _, _ => .failed (.corruption "Metadata corruption")
  | r :: rs, e, snap, s =>
      match s.applyRecord r with
      | .error e => .failed e
      | .ok s' => replay rs e (snap || r.isSnapshot) s'

/-- The loop replays exactly the records that repeated reading finds. -/
theorem recoverLoop_eq_replay {G : Geometry} {z : MediaZone} {wp pos : Nat} {rs : List Record}
    {e : Option Status} (h : Reads G z wp pos rs e) :
    ∀ {fuel : Nat}, rs.length < fuel → ∀ (snap : Bool) (s : Store),
      recoverLoop G z wp fuel pos snap s = replay rs e snap s := by
  induction h with
  | eof h =>
      rintro (_ | fuel) hf snap s
      · simp at hf
      · simp [recoverLoop, h, replay]
  | ended h =>
      rintro (_ | fuel) hf snap s
      · simp at hf
      · simp [recoverLoop, h, replay]
  | bad h =>
      rintro (_ | fuel) hf snap s
      · simp at hf
      · simp [recoverLoop, h, replay]
  | @cons pos p r rs e h hr _ ih =>
      rintro (_ | fuel) hf snap s
      · simp at hf
      · rw [replay, recoverLoop, h]
        simp only [List.length_cons, Nat.add_lt_add_iff_right] at hf
        cases hs : s.applyRecord r with
        | error e' => cases r <;> simp_all
        | ok s' =>
            have := ih hf (snap || r.isSnapshot) s'
            cases r <;> simp_all

/-- `RecoverFrom` replays the records of the zone. -/
theorem recoverFrom_eq_replay {G : Geometry} {z : MediaZone} {wp pos : Nat} {rs : List Record}
    {e : Option Status} (h : Reads G z wp pos rs e) (hpos : pos ≤ z.maxCapacity) (s : Store) :
    recoverFrom G z wp pos s = replay rs e false s :=
  recoverLoop_eq_replay h (by have := h.length_le hpos; omega) false s

end ZenFs
