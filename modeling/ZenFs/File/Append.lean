import ZenFs.Fs.Write
import ZenFs.Lib.Reach

/-!
# One open file and failing operations

A `ZonedWritableFile`, the `ZoneFile` behind it and the device, under every
combination of failing zone appends, zone closes, zone allocations and metadata
persists.  The outcomes of a call are part of the call.  Metadata is persisted or it
is not; what the log looks like does not matter here.

`appended` and `failed` are not in the source: all data that was passed to `Append`,
and whether an `Append` has returned an error.
-/

namespace ZenFs

/-- The outcomes of what a call asks for, in order: the zones the allocator returns,
the backend writes of the zone appends, and whether zone closes and metadata persists
succeed.  An allocation without an entry finds no zone; everything else succeeds. -/
structure Faults where
  zones : List (Option ZoneId) := []
  writes : List (List WriteCall) := []
  closes : List Bool := []
  persists : List Bool := []
deriving DecidableEq, Repr

/-- A `ZonedWritableFile` with its file and the device.  `buffer` is the memory behind
`sparse_buffer` if the file is sparse, and behind `buffer` otherwise. -/
structure OpenFile where
  zbd : Zbd
  file : ZoneFile
  buffered : Bool
  buffer : Mem Byte
  bufferSz : Nat
  bufferPos : Nat
  wp : Nat
  isOpen : Bool
  faults : Faults
  appended : List Byte
  failed : Bool

namespace OpenFile

/-- `if (!s.ok()) return s;` -/
def andThen (x : OpenFile × Status) (k : OpenFile → OpenFile × Status) : OpenFile × Status :=
  match x with
  | (s, .ok) => k s
  | (s, st) => (s, st)

/-! ## `ZoneFile` -/

/-- `ZoneFile::PersistMetadata`. -/
def persistMetadata (s : OpenFile) : OpenFile × Status :=
  ({ s with faults := { s.faults with persists := s.faults.persists.tail } },
    if s.faults.persists.headD true then .ok else .ioError "Zone append failed")

/-- `ZoneFile::CloseActiveZone`.  The backend is asked only if the zone is partly
written; the zone is released in any case. -/
def closeActiveZone (s : OpenFile) : OpenFile × Status :=
  match s.file.activeZone with
  | none => (s, .ok)
  | some i =>
      let s' := { s with zbd := s.zbd.setBusy i false, file := { s.file with activeZone := none } }
      if (s.zbd.zones i).isEmpty || (s.zbd.zones i).isFull then (s', .ok)
      else
        ({ s' with faults := { s.faults with closes := s.faults.closes.tail } },
          if s.faults.closes.headD true then .ok else .ioError "Zone close failed\n")

/-- `ZoneFile::PushExtent`. -/
def pushExtent (s : OpenFile) : OpenFile :=
  match s.file.activeZone with
  | none => s
  | some i =>
      let length := s.file.fileSize - s.file.extentFilepos
      if length = 0 then s
      else { s with
        zbd := s.zbd.addUsed i length
        file := { s.file with
          extents := s.file.extents ++ [ZoneExtent.mk s.file.extentStart length i]
          extentStart := (s.zbd.zones i).wp
          extentFilepos := s.file.fileSize } }

/-- The allocator has returned zone `i`. -/
def setActiveZone (s : OpenFile) (i : ZoneId) : OpenFile :=
  { s with
    zbd := s.zbd.setBusy i true
    file := { s.file with
      activeZone := some i
      extentStart := (s.zbd.zones i).wp
      extentFilepos := s.file.fileSize } }

/-- `ZoneFile::AllocateNewZone`. -/
def allocateNewZone (s : OpenFile) : OpenFile × Status :=
  let s' := { s with faults := { s.faults with zones := s.faults.zones.tail } }
  match s.faults.zones.headD none with
  | none => (s', .noSpace "Zone allocation failure\n")
  | some i =>
      if s.zbd.eligible i then (s'.setActiveZone i).persistMetadata
      else (s', .noSpace "Zone allocation failure\n")

/-- `Zone::Append`. -/
def zoneAppend (s : OpenFile) (i : ZoneId) (data : List Byte) : OpenFile × Status :=
  let (zbd, st) := s.zbd.append i data (s.faults.writes.headD [])
  ({ s with zbd := zbd, faults := { s.faults with writes := s.faults.writes.tail } }, st)

/-- `wr_size` in `BufferedAppend` and `SparseAppend`. -/
def wrSize (s : OpenFile) (i : ZoneId) (header left : Nat) : Nat :=
  min (left + header) (s.zbd.zones i).capacity

/-- The buffer as it is handed to `Zone::Append`: padded, and with the header of the
extent in front. -/
def padBuffer (s : OpenFile) (header wr_size : Nat) : OpenFile :=
  { s with
    buffer := (s.buffer.fill wr_size (padSize s.zbd.blockSize wr_size) 0).write 0
      ((encodeFixed64 (sub32 wr_size header)).take header) }

/-- What `BufferedAppend` and `SparseAppend` do behind `Zone::Append`. -/
def recordExtent (s : OpenFile) (i : ZoneId) (header length : Nat) : OpenFile :=
  { s with
    zbd := s.zbd.addUsed i length
    file := { s.file with
      extents := s.file.extents ++ [ZoneExtent.mk (s.file.extentStart + header) length i]
      extentStart := (s.zbd.zones i).wp
      fileSize := s.file.fileSize + length } }

/-- One turn of the loop in `BufferedAppend` and `SparseAppend`, up to the point where
the extent is recorded. -/
def appendChunk (s : OpenFile) (i : ZoneId) (header left : Nat) : OpenFile × Status :=
  let wr_size := s.wrSize i header left
  let s' := s.padBuffer header wr_size
  andThen (s'.zoneAppend i (s'.buffer.read 0 (wr_size + padSize s.zbd.blockSize wr_size))) fun s ↦
    (s.recordExtent i header (sub32 wr_size header), .ok)

/-- The `memmove` that brings what is left to the front of the buffer. -/
def shiftBuffer (s : OpenFile) (header wr_size left : Nat) : OpenFile :=
  if left = 0 then s else { s with buffer := s.buffer.write header (s.buffer.read wr_size left) }

/-- The loop that `BufferedAppend` and `SparseAppend` have in common, with the size of
the header in front of each extent.  Every turn that goes on takes another zone, so
the zones that the allocator returns bound their number. -/
def bufferLoop (header : Nat) : Nat → OpenFile → Nat → OpenFile × Status
  | 0, s, _ => (s, .noSpace "Zone allocation failure\n")
  | fuel + 1, s, left =>
      if left = 0 then (s, .ok)
      else match s.file.activeZone with
        | none => (s, .ok)
        | some i =>
            let wr_size := s.wrSize i header left
            let left' := sub32 left (sub32 wr_size header)
            andThen (s.appendChunk i header left) fun s ↦
              if (s.zbd.zones i).capacity = 0 then
                andThen s.closeActiveZone fun s ↦
                  andThen (s.shiftBuffer header wr_size left').allocateNewZone fun s ↦
                    bufferLoop header fuel s left'
              else bufferLoop header fuel s left'

/-- `ZoneFile::BufferedAppend` and `ZoneFile::SparseAppend`. -/
def bufferAppend (s : OpenFile) (header : Nat) : OpenFile × Status :=
  let loop := fun s : OpenFile ↦ bufferLoop header (s.faults.zones.length + 2) s s.bufferPos
  match s.file.activeZone with
  | none => andThen s.allocateNewZone loop
  | some _ => loop s

/-- The loop of `ZoneFile::Append`. -/
def appendLoop : Nat → OpenFile → List Byte → OpenFile × Status
  | 0, s, _ => (s, .noSpace "Zone allocation failure\n")
  | fuel + 1, s, data =>
      if data = [] then (s, .ok)
      else match s.file.activeZone with
        | none => (s, .ok)
        | some i =>
            andThen
              (if (s.zbd.zones i).capacity = 0 then
                andThen s.pushExtent.closeActiveZone allocateNewZone
              else (s, .ok)) fun s ↦
                match s.file.activeZone with
                | none => (s, .ok)
                | some i =>
                    let wr_size := min data.length (s.zbd.zones i).capacity
                    andThen (s.zoneAppend i (data.take wr_size)) fun s ↦
                      appendLoop fuel
                        { s with file := { s.file with fileSize := s.file.fileSize + wr_size } }
                        (data.drop wr_size)

/-- `ZoneFile::Append`.  The size is kept in 32 bits. -/
def appendDirect (s : OpenFile) (data : List Byte) : OpenFile × Status :=
  let loop := fun s : OpenFile ↦
    appendLoop (s.faults.zones.length + 2) s (data.take (data.length % 2 ^ 32))
  match s.file.activeZone with
  | none => andThen s.allocateNewZone loop
  | some _ => loop s

/-- `ZoneFile::CloseWR`. -/
def closeWR (s : OpenFile) : OpenFile × Status :=
  andThen { s with file := { s.file with extentStart := NO_EXTENT } }.persistMetadata fun s ↦
    { s with file := { s.file with openForWr := false } }.closeActiveZone

/-! ## `ZonedWritableFile` -/

/-- The bytes in front of the data of an extent. -/
def header (s : OpenFile) : Nat := if s.file.isSparse then SPARSE_HEADER_SIZE else 0

/-- `ZonedWritableFile::FlushBuffer`. -/
def flushBuffer (s : OpenFile) : OpenFile × Status :=
  if s.bufferPos = 0 then (s, .ok)
  else andThen (s.bufferAppend s.header) fun s ↦
    ({ s with wp := s.wp + s.bufferPos, bufferPos := 0 }, .ok)

/-- The loop of `ZonedWritableFile::BufferedWrite`. -/
def bufferedWriteLoop : Nat → OpenFile → List Byte → OpenFile × Status
  | 0, s, _ => (s, .ok)
  | fuel + 1, s, data =>
      if data = [] then (s, .ok)
      else
        andThen (if s.bufferSz - s.bufferPos = 0 then s.flushBuffer else (s, .ok)) fun s ↦
          let to_buffer := min data.length (s.bufferSz - s.bufferPos)
          bufferedWriteLoop fuel
            { s with
              buffer := s.buffer.write (s.header + s.bufferPos) (data.take to_buffer)
              bufferPos := s.bufferPos + to_buffer }
            (data.drop to_buffer)

/-- `ZonedWritableFile::BufferedWrite`.  The size is kept in 32 bits. -/
def bufferedWrite (s : OpenFile) (data : List Byte) : OpenFile × Status :=
  bufferedWriteLoop (data.length + 1) s (data.take (data.length % 2 ^ 32))

/-- `ZonedWritableFile::Append`. -/
def append (s : OpenFile) (data : List Byte) : OpenFile × Status :=
  if s.buffered then s.bufferedWrite data
  else andThen (s.appendDirect data) fun s ↦ ({ s with wp := s.wp + data.length }, .ok)

/-- `ZonedWritableFile::DataSync`. -/
def dataSync (s : OpenFile) : OpenFile × Status :=
  if s.buffered then
    andThen s.flushBuffer fun s ↦ if s.file.isSparse then (s, .ok) else s.persistMetadata
  else (s.pushExtent, .ok)

/-- `ZonedWritableFile::Fsync`. -/
def fsync (s : OpenFile) : OpenFile × Status :=
  andThen s.dataSync fun s ↦
    if s.buffered && !s.file.isSparse then (s, .ok) else s.persistMetadata

/-- `ZonedWritableFile::CloseInternal`, which the destructor calls as well. -/
def closeInternal (s : OpenFile) : OpenFile × Status :=
  if !s.isOpen then (s, .ok)
  else andThen s.dataSync fun s ↦
    andThen s.closeWR fun s ↦ ({ s with isOpen := false }, .ok)

/-! ## Runs -/

/-- The calls on the file. -/
inductive Call where
  | append (data : List Byte)
  | sync
  | fsync
  | close
  | destroy
deriving DecidableEq, Repr

/-- Carry out a call. -/
def exec (s : OpenFile) : Call → OpenFile × Status
  | .append data =>
      let (s', st) := { s with appended := s.appended ++ data }.append data
      ({ s' with failed := s'.failed || !st.isOk }, st)
  | .sync => s.dataSync
  | .fsync => s.fsync
  | .close | .destroy => s.closeInternal

/-- A call and its outcomes. -/
def step (s : OpenFile) (x : Call × Faults) : Option OpenFile :=
  some ({ s with faults := x.2 }.exec x.1).1

/-- Every read returns bytes that were appended, at the place they were appended. -/
def ReadsPrefix (s : OpenFile) : Prop :=
  ∀ offset n, n < 2 ^ 31 → (positionedRead s.zbd s.file offset n false).1 <+: s.appended.drop offset

end OpenFile

end ZenFs
