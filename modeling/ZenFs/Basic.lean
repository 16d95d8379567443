import Mathlib.Algebra.GroupWithZero.Nat
import Mathlib.Algebra.Ring.Int.Defs
import Mathlib.Tactic.Common

/-!
# Statuses and identifiers

The return codes the filesystem passes around, with the texts it attaches to
them, and the identifiers the model uses in place of the pointers of the source.
-/

namespace ZenFs

/-- A byte of a device or of a buffer. -/
abbrev Byte := UInt8

/-- A path as it is stored in `files_`, already formatted lexically. -/
abbrev Name := String

/-- The position of a zone in `io_zones`; it stands for a `Zone*`. -/
abbrev ZoneId := Nat

/-- A reference to a `ZoneFile` object; it stands for a `shared_ptr<ZoneFile>`. -/
abbrev Ref := Nat

/-- Who owns a `shared_ptr` to an object, apart from `files_`: an open writer or
reader, or a local variable of a function that is running. -/
inductive Holder where
  | writer (h : Nat)
  | reader (k : Nat)
  | localVar (k : Nat)
deriving DecidableEq, Repr

/-- `ZoneFile::NO_EXTENT`, the value of `extent_start_` while no extent is active. -/
def NO_EXTENT : Nat := 0xffffffffffffffff

/-- `ZoneFile::SPARSE_HEADER_SIZE`. -/
def SPARSE_HEADER_SIZE : Nat := 8

/-- `Status` and `IOStatus`, with the message of an error. -/
inductive Status where
  | ok
  | notFound (msg : String)
  | corruption (msg : String)
  | notSupported
  | invalidArgument (msg : String)
  | ioError (msg : String)
  | noSpace (msg : String)
deriving DecidableEq, Repr, Inhabited

namespace Status

/-- `Status::ok`. -/
def isOk : Status → Bool
  | ok => true
  | _ => false

/-- `Status::IsNotFound`. -/
def isNotFound : Status → Bool
  | notFound _ => true
  | _ => false

@[simp] theorem isOk_ok : isOk ok = true := rfl

theorem isOk_iff {s : Status} : s.isOk = true ↔ s = ok := by
  cases s <;> simp [isOk]

end Status

end ZenFs
