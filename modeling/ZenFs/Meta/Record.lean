import ZenFs.Basic

/-!
# Metadata records

The payloads of the metadata log.  A record is represented by the fields its
encoder writes, in the order of the encoder; the byte layout is the business of
the coding library and only the length of the encoding matters to the log.
-/

namespace ZenFs

/-- The fields of a superblock that mounting looks at: the sequence number and
the geometry compared by `Superblock::CompatibleWith`. -/
structure Superblock where
  sequence : Nat
  blockSize : Nat
  zoneSize : Nat
  nrZones : Nat
deriving DecidableEq, Repr, Inhabited

/-- What `ZoneFile::EncodeTo` writes for one file.  Extents are pairs of a
device offset and a length. -/
structure FileRecord where
  fileId : Nat
  fileSize : Nat
  lifetime : Nat
  extents : List (Nat × Nat)
  mTime : Nat
  extentStart : Nat
  isSparse : Bool
  linkfiles : List Name
deriving DecidableEq, Repr, Inhabited

/-- A record of the metadata log: the superblock that opens a metadata zone, or
one of the `ZenFSTag` records behind it. -/
inductive Record where
  | superblock (sb : Superblock)
  | completeFilesSnapshot (files : List FileRecord)
  | fileUpdate (file : FileRecord)
  | fileDeletion (fileId : Nat) (linkf : Name)
  | endRecord
  | fileReplace (file : FileRecord)
deriving DecidableEq, Repr, Inhabited

namespace Superblock

/-- `sequence_++` on an unsigned 32-bit counter. -/
def bump (sb : Superblock) : Superblock := { sb with sequence := (sb.sequence + 1) % 2 ^ 32 }

@[simp] theorem bump_blockSize (sb : Superblock) : sb.bump.blockSize = sb.blockSize := rfl
@[simp] theorem bump_zoneSize (sb : Superblock) : sb.bump.zoneSize = sb.zoneSize := rfl
@[simp] theorem bump_nrZones (sb : Superblock) : sb.bump.nrZones = sb.nrZones := rfl

/-- `Superblock::EncodeTo`: the sequence number is raised first, so that every
superblock written is unique, and the record holds the raised number. -/
def encodeTo (sb : Superblock) : Superblock × Record := (sb.bump, .superblock sb.bump)

end Superblock

end ZenFs
