import ZenFs.Meta.Record
import ZenFs.Zbd.Zone

/-!
# Files and their extents

`ZoneFile` with the part of its state that reaches the device or the metadata
log, the link names it carries, and the codec between a file and its record.
-/

namespace ZenFs

/-- A contiguous run of file bytes in one zone. -/
structure ZoneExtent where
  start : Nat
  length : Nat
  zone : ZoneId
deriving DecidableEq, Repr, Inhabited

/-- The state of a `ZoneFile`. -/
structure ZoneFile where
  fileId : Nat
  fileSize : Nat := 0
  lifetime : Nat := 0
  extents : List ZoneExtent := []
  linkfiles : List Name := []
  mTime : Nat := 0
  extentStart : Nat := NO_EXTENT
  extentFilepos : Nat := 0
  isSparse : Bool := false
  isDeleted : Bool := false
  nrSyncedExtents : Nat := 0
  activeZone : Option ZoneId := none
  openForWr : Bool := false
deriving DecidableEq, Repr, Inhabited

namespace ZoneFile

/-- `ZoneFile::HasActiveExtent`. -/
def hasActiveExtent (f : ZoneFile) : Bool := f.extentStart != NO_EXTENT

/-- `ZoneFile::MetadataSynced`. -/
def metadataSynced (f : ZoneFile) : ZoneFile := { f with nrSyncedExtents := f.extents.length }

/-- `ZoneFile::MetadataUnsynced`. -/
def metadataUnsynced (f : ZoneFile) : ZoneFile := { f with nrSyncedExtents := 0 }

/-! ## Link names -/

/-- `ZoneFile::AddLinkName`. -/
def addLinkName (f : ZoneFile) (linkf : Name) : ZoneFile :=
  { f with linkfiles := f.linkfiles ++ [linkf] }

/-- `ZoneFile::RemoveLinkName`. -/
def removeLinkName (f : ZoneFile) (linkf : Name) : Except Status ZoneFile :=
  if linkf ∈ f.linkfiles then .ok { f with linkfiles := f.linkfiles.erase linkf }
  else .error (.ioError "RemoveLinkInfo: Failed to find the link file")

/-- `ZoneFile::RenameLink`. -/
def renameLink (f : ZoneFile) (src dest : Name) : Except Status ZoneFile :=
  if src ∈ f.linkfiles then .ok { f with linkfiles := f.linkfiles.erase src ++ [dest] }
  else .error (.ioError "RenameLink: Failed to find the linked file")

/-! ## Codec -/

/-- `ZoneFile::EncodeTo`, with the extents from index `extent_start` on. -/
def encodeTo (f : ZoneFile) (extent_start : Nat) : FileRecord where
  fileId := f.fileId
  fileSize := f.fileSize
  lifetime := f.lifetime
  extents := (f.extents.drop extent_start).map fun e ↦ (e.start, e.length)
  mTime := f.mTime
  extentStart := f.extentStart
  isSparse := f.isSparse
  linkfiles := f.linkfiles

/-- `ZoneFile::EncodeUpdateTo`. -/
def encodeUpdateTo (f : ZoneFile) : FileRecord := f.encodeTo f.nrSyncedExtents

/-- `ZoneFile::EncodeSnapshotTo`. -/
def encodeSnapshotTo (f : ZoneFile) : FileRecord := f.encodeTo 0

end ZoneFile

namespace Zbd

/-- `ZoneFile::ClearExtents`: give back the space of a list of extents. -/
def clearExtents (d : Zbd) (es : List ZoneExtent) : Zbd :=
  es.foldl (fun d e ↦ d.subUsed e.zone e.length) d

/-- Count the extents of a list in their zones. -/
def countExtents (d : Zbd) (es : List ZoneExtent) : Zbd :=
  es.foldl (fun d e ↦ d.addUsed e.zone e.length) d

/-- The `kExtent` case of `ZoneFile::DecodeFrom`, over all extents of a record:
each is looked up in the zone table and counted in its zone. -/
def decodeExtents (d : Zbd) : List (Nat × Nat) → Except Status (List ZoneExtent)
  | [] => .ok []
  | (start, length) :: es =>
      match d.getIOZone start with
      | none => .error (.corruption "Invalid zone extent")
      | some z =>
          match d.decodeExtents es with
          | .error e => .error e
          | .ok es' => .ok (⟨start, length, z⟩ :: es')

end Zbd

namespace ZoneFile

/-- `ZoneFile::DecodeFrom` on a fresh object.  When decoding fails the object is
destroyed and the space it had counted is given back. -/
def decodeFrom (r : FileRecord) (d : Zbd) : Except Status (ZoneFile × Zbd) :=
  match d.decodeExtents r.extents with
  | .error e => .error e
  | .ok es =>
      if "" ∈ r.linkfiles then .error (.corruption "Zero length Linkfilename")
      else .ok
        ({ fileId := r.fileId
           fileSize := r.fileSize
           lifetime := r.lifetime
           extents := es
           linkfiles := r.linkfiles
           mTime := r.mTime
           extentStart := r.extentStart
           isSparse := r.isSparse
           nrSyncedExtents := es.length }, d.countExtents es)

/-- `ZoneFile::MergeUpdate`. -/
def mergeUpdate (f update : ZoneFile) (replace : Bool) (d : Zbd) : Except Status (ZoneFile × Zbd) :=
  if f.fileId ≠ update.fileId then .error (.corruption "ID missmatch")
  else
    let (old, d) := if replace then ([], d.clearExtents f.extents) else (f.extents, d)
    .ok
      ({ f with
          fileSize := update.fileSize
          lifetime := update.lifetime
          mTime := update.mTime
          extents := old ++ update.extents
          extentStart := update.extentStart
          isSparse := update.isSparse
          nrSyncedExtents := (old ++ update.extents).length
          linkfiles := update.linkfiles }, d.countExtents update.extents)

end ZoneFile

end ZenFs
