import ZenFs.Fs.Basic

/-!
# The write paths

`ZonedWritableFile` and the three append paths of `ZoneFile`: direct appends,
buffered appends, which pad the last block, and sparse appends, which put the
length of each extent in front of it.
-/

namespace ZenFs

/-- The padding up to the next block boundary. -/
def padSize (blockSize n : Nat) : Nat := if n % blockSize = 0 then 0 else blockSize - n % blockSize

/-- Subtraction on an unsigned 32-bit variable. -/
def sub32 (a b : Nat) : Nat := if b ≤ a then a - b else a + 2 ^ 32 - b

/-- `EncodeFixed64`: the eight bytes of a number, the lowest first. -/
def encodeFixed64 (n : Nat) : List Byte := (List.range 8).map fun i ↦ UInt8.ofNat (n / 256 ^ i)

/-- `DecodeFixed64`. -/
def decodeFixed64 (bytes : List Byte) : Nat :=
  (bytes.take 8).foldr (fun b n ↦ b.toNat + 256 * n) 0

namespace Fs

variable (G : Geometry)

/-- `ZoneFile::PushExtent`. -/
def pushExtent (fs : Fs) (r : Ref) : Fs :=
  let f := fs.heap r
  match f.activeZone with
  | none => fs
  | some i =>
      let length := f.fileSize - f.extentFilepos
      if length = 0 then fs
      else (fs.addUsed i length).setFile r
        { f with
          extents := f.extents ++ [ZoneExtent.mk f.extentStart length i]
          extentStart := (fs.zbd.zones i).wp
          extentFilepos := f.fileSize }

/-- `ZoneFile::CloseActiveZone` on a zone that is full, which the backend need not close. -/
def closeActiveZone (fs : Fs) (r : Ref) : Fs :=
  match (fs.heap r).activeZone with
  | none => fs
  | some i =>
      { fs with zbd := fs.zbd.setBusy i false }.setFile r { fs.heap r with activeZone := none }

/-- `ZoneFile::CloseActiveZone`.  The backend is asked only if the zone is partly
written; the zone is released in any case. -/
def closePartialZone (fs : Fs) (r : Ref) : Fs × Status :=
  match (fs.heap r).activeZone with
  | none => (fs, .ok)
  | some i =>
      if (fs.zbd.zones i).isEmpty || (fs.zbd.zones i).isFull then (fs.closeActiveZone r, .ok)
      else
        ({ fs with env := { fs.env with closes := fs.env.closes.tail } }.closeActiveZone r,
          if fs.env.closes.headD true then .ok else .ioError "Zone close failed\n")

/-- The new active zone of a file, and where its extent starts. -/
def setActiveZone (fs : Fs) (r : Ref) (i : ZoneId) : Fs :=
  let f := fs.heap r
  fs.setFile r
    { f with
      activeZone := some i
      extentStart := (fs.zbd.zones i).wp
      extentFilepos := f.fileSize }

/-- `ZoneFile::AllocateNewZone`.  The metadata is persisted so that the active
extent can be recovered. -/
def allocateNewZone (fs : Fs) (r : Ref) : Fs × Status :=
  match fs.allocateIOZoneNoLock with
  | (fs, none) => (fs.note .allocFailed, .noSpace "Zone allocation failure\n")
  | (fs, some i) =>
      match (fs.setActiveZone r i).persistMetadata G r with
      | (fs, .ok) => (fs, .ok)
      | (fs, s) => (fs.note .allocFailed, s)

/-- What `BufferedAppend` and `SparseAppend` do behind `Zone::Append`. -/
def recordExtent (fs : Fs) (r : Ref) (i : ZoneId) (header length : Nat) : Fs :=
  let f := fs.heap r
  (fs.addUsed i length).setFile r
    { f with
      extents := f.extents ++ [ZoneExtent.mk (f.extentStart + header) length i]
      extentStart := (fs.zbd.zones i).wp
      fileSize := f.fileSize + length }

/-- Replace a writer. -/
def setWriter (fs : Fs) (h : Handle) (w : Writer) : Fs :=
  { fs with writers := Function.update fs.writers h (some w) }

/-- Run an operation on a writer. -/
def withWriter (fs : Fs) (h : Handle) (k : Writer → Fs × Status) : Fs × Status :=
  match fs.writers h with
  | none => (fs, .invalidArgument "no such handle")
  | some w => k w

/-- `wr_size` in `BufferedAppend` and `SparseAppend`. -/
def wrSize (fs : Fs) (i : ZoneId) (header left : Nat) : Nat :=
  min (left + header) (fs.zbd.zones i).capacity

/-- The buffer as it is handed to `Zone::Append`: padded, and with the header of
the extent in front. -/
def paddedBuffer (fs : Fs) (w : Writer) (header wr_size : Nat) : Mem Byte :=
  (w.buffer.fill wr_size (padSize fs.zbd.blockSize wr_size) 0).write 0
    ((encodeFixed64 (sub32 wr_size header)).take header)

/-- One turn of the loop in `BufferedAppend` and `SparseAppend`, up to the point
where the extent is recorded. -/
def appendChunk (fs : Fs) (h : Handle) (w : Writer) (i : ZoneId) (header left : Nat) :
    Fs × Status :=
  let wr_size := fs.wrSize i header left
  let buffer := fs.paddedBuffer w header wr_size
  let f := fs.heap w.file
  andThen ((fs.setWriter h { w with buffer := buffer }).zoneAppend i
      (buffer.read 0 (wr_size + padSize fs.zbd.blockSize wr_size)) fun data ↦
        .append i f.fileId data header f.fileSize (sub32 wr_size header)) fun fs ↦
    (fs.recordExtent w.file i header (sub32 wr_size header), .ok)

/-- The `memmove` that brings what is left to the front of the buffer. -/
def shiftBuffer (fs : Fs) (h : Handle) (header wr_size left : Nat) : Fs :=
  match fs.writers h with
  | none => fs
  | some w =>
      if left = 0 then fs
      else fs.setWriter h { w with buffer := w.buffer.write header (w.buffer.read wr_size left) }

/-- The loop that `BufferedAppend` and `SparseAppend` have in common, with the
size of the header in front of each extent.  Every turn that goes on takes
another zone, so the decisions of the allocator bound their number. -/
def bufferLoop (header : Nat) : Nat → Fs → Handle → Nat → Fs × Status
  | 0, fs, _, _ => (fs.note .allocFailed, .noSpace "Zone allocation failure\n")
  | fuel + 1, fs, h, left =>
      if left = 0 then (fs, .ok)
      else fs.withWriter h fun w ↦
        match (fs.heap w.file).activeZone with
        | none => (fs, .ok)
        | some i =>
            let wr_size := fs.wrSize i header left
            let left' := sub32 left (sub32 wr_size header)
            andThen (fs.appendChunk h w i header left) fun fs ↦
              if (fs.zbd.zones i).capacity = 0 then
                andThen (((fs.closeActiveZone w.file).shiftBuffer h header wr_size
                  left').allocateNewZone
                    G w.file) fun fs ↦
                  bufferLoop header fuel fs h left'
              else bufferLoop header fuel fs h left'

/-- `ZoneFile::BufferedAppend` and `ZoneFile::SparseAppend`, on the buffer of a
writer. -/
def bufferAppend (fs : Fs) (h : Handle) (w : Writer) (header : Nat) : Fs × Status :=
  let loop := fun fs : Fs ↦ bufferLoop G header (fs.env.picks.length + 2) fs h w.bufferPos
  match (fs.heap w.file).activeZone with
  | none => andThen (fs.allocateNewZone G w.file) loop
  | some _ => loop fs

/-- `ZoneFile::BufferedAppend`: byte-aligned writes without a header. -/
def bufferedAppend (fs : Fs) (h : Handle) (w : Writer) : Fs × Status := fs.bufferAppend G h w 0

/-- `ZoneFile::SparseAppend`: byte-aligned writes with inline metadata. -/
def sparseAppend (fs : Fs) (h : Handle) (w : Writer) : Fs × Status :=
  fs.bufferAppend G h w SPARSE_HEADER_SIZE

/-- The append in the loop of `ZoneFile::Append`. -/
def appendDirect (fs : Fs) (r : Ref) (i : ZoneId) (data : List Byte) : Fs × Status :=
  let f := fs.heap r
  andThen (fs.zoneAppend i data fun data ↦ .append i f.fileId data 0 f.fileSize data.length)
    fun fs ↦ (fs.setFile r { fs.heap r with fileSize := (fs.heap r).fileSize + data.length }, .ok)

/-- The loop of `ZoneFile::Append`. -/
def appendLoop : Nat → Fs → Ref → List Byte → Fs × Status
  | 0, fs, _, _ => (fs.note .allocFailed, .noSpace "Zone allocation failure\n")
  | fuel + 1, fs, r, data =>
      if data = [] then (fs, .ok)
      else match (fs.heap r).activeZone with
        | none => (fs, .ok)
        | some i =>
            andThen
              (if (fs.zbd.zones i).capacity = 0 then
                ((fs.pushExtent r).closeActiveZone r).allocateNewZone G r
              else (fs, .ok)) fun fs ↦
                match (fs.heap r).activeZone with
                | none => (fs, .ok)
                | some i =>
                    let wr_size := min data.length (fs.zbd.zones i).capacity
                    andThen (fs.appendDirect r i (data.take wr_size)) fun fs ↦
                      appendLoop fuel fs r (data.drop wr_size)

/-- `ZoneFile::Append`.  The size is passed as an `int` and kept in 32 bits. -/
def append (fs : Fs) (r : Ref) (data : List Byte) : Fs × Status :=
  let data := data.take (data.length % 2 ^ 32)
  let loop := fun fs : Fs ↦ appendLoop G (fs.env.picks.length + 2) fs r data
  match (fs.heap r).activeZone with
  | none => andThen (fs.allocateNewZone G r) loop
  | some _ => loop fs

/-! ## `ZonedWritableFile` -/

/-- `ZonedWritableFile::FlushBuffer`. -/
def flushBuffer (fs : Fs) (h : Handle) : Fs × Status :=
  fs.withWriter h fun w ↦
    if w.bufferPos = 0 then (fs, .ok)
    else
      andThen (if (fs.heap w.file).isSparse then fs.sparseAppend G h w else fs.bufferedAppend G h w)
        fun fs ↦ fs.withWriter h fun w ↦
          (fs.setWriter h { w with wp := w.wp + w.bufferPos, bufferPos := 0 }, .ok)

/-- Where the data starts in the buffer: behind the header of a sparse file. -/
def bufferBase (fs : Fs) (w : Writer) : Nat :=
  if (fs.heap w.file).isSparse then SPARSE_HEADER_SIZE else 0

/-- The loop of `ZonedWritableFile::BufferedWrite`. -/
def bufferedWriteLoop : Nat → Fs → Handle → List Byte → Fs × Status
  | 0, fs, _, _ => (fs, .ok)
  | fuel + 1, fs, h, data =>
      if data = [] then (fs, .ok)
      else fs.withWriter h fun w ↦
        andThen (if w.bufferSz - w.bufferPos = 0 then fs.flushBuffer G h else (fs, .ok)) fun fs ↦
          fs.withWriter h fun w ↦
            let to_buffer := min data.length (w.bufferSz - w.bufferPos)
            let buffer := w.buffer.write (fs.bufferBase w + w.bufferPos) (data.take to_buffer)
            bufferedWriteLoop fuel
              (fs.setWriter h { w with buffer := buffer, bufferPos := w.bufferPos + to_buffer }) h
              (data.drop to_buffer)

/-- `ZonedWritableFile::BufferedWrite`.  The size is kept in 32 bits. -/
def bufferedWrite (fs : Fs) (h : Handle) (data : List Byte) : Fs × Status :=
  bufferedWriteLoop G (data.length + 1) fs h (data.take (data.length % 2 ^ 32))

/-- `ZonedWritableFile::Append`. -/
def writerAppend (fs : Fs) (h : Handle) (data : List Byte) : Fs × Status :=
  fs.withWriter h fun w ↦
    let fs := { fs with
      appended := Function.update fs.appended w.file (fs.appended w.file ++ data) }
    if w.buffered then fs.bufferedWrite G h data
    else andThen (fs.append G w.file data) fun fs ↦
      fs.withWriter h fun w ↦ (fs.setWriter h { w with wp := w.wp + data.length }, .ok)

/-- `ZonedWritableFile::PositionedAppend`. -/
def positionedAppend (fs : Fs) (h : Handle) (data : List Byte) (offset : Nat) : Fs × Status :=
  fs.withWriter h fun w ↦
    if offset ≠ w.wp then (fs, .ioError "positioned append not at write pointer")
    else fs.writerAppend G h data

/-- `ZonedWritableFile::DataSync`. -/
def dataSync (fs : Fs) (h : Handle) : Fs × Status :=
  fs.withWriter h fun w ↦
    if w.buffered then
      andThen (fs.flushBuffer G h) fun fs ↦
        if (fs.heap w.file).isSparse then (fs, .ok) else fs.persistMetadata G w.file
    else (fs.pushExtent w.file, .ok)

/-- `ZonedWritableFile::Fsync`. -/
def fsync (fs : Fs) (h : Handle) : Fs × Status :=
  andThen (fs.dataSync G h) fun fs ↦
    fs.withWriter h fun w ↦
      if w.buffered && !(fs.heap w.file).isSparse then (fs, .ok) else fs.persistMetadata G w.file

/-- `ZonedWritableFile::RangeSync`. -/
def rangeSync (fs : Fs) (h : Handle) (offset nbytes : Nat) : Fs × Status :=
  fs.withWriter h fun w ↦ if w.wp < offset + nbytes then fs.dataSync G h else (fs, .ok)

/-- `ZoneFile::CloseWR`. -/
def closeWR (fs : Fs) (r : Ref) : Fs × Status :=
  andThen ((fs.setFile r { fs.heap r with extentStart := NO_EXTENT }).persistMetadata G r) fun fs ↦
    (fs.setFile r { fs.heap r with openForWr := false }).closePartialZone r

/-- `ZonedWritableFile::CloseInternal`. -/
def closeInternal (fs : Fs) (h : Handle) : Fs × Status :=
  fs.withWriter h fun w ↦
    if !w.isOpen then (fs, .ok)
    else andThen (fs.dataSync G h) fun fs ↦
      andThen (fs.closeWR G w.file) fun fs ↦
        fs.withWriter h fun w ↦ (fs.setWriter h { w with isOpen := false }, .ok)

/-- `ZonedWritableFile::~ZonedWritableFile`. -/
def destroyWriter (fs : Fs) (h : Handle) : Fs :=
  match fs.writers h with
  | none => fs
  | some w =>
      let fs := (fs.closeInternal G h).1
      { fs with writers := Function.update fs.writers h none }.drop w.file (.writer h)

/-! ## What the write paths can do -/

section Outcomes

variable (fs : Fs)

/-- `AllocateNewZone` fails, or persists the file with its new active zone. -/
theorem allocateNewZone_cases (r : Ref) :
    ∃ ps is fs₁, fs₁ = { fs with env := { fs.env with picks := ps } }.finishZones is ∧
      (((fs.allocateNewZone G r).1 = fs₁.note .allocFailed ∧ (fs.allocateNewZone G r).2 ≠ .ok) ∨
      ∃ i fs₂, fs₁.zbd.eligible i = true ∧
        fs₂ = ({ fs₁ with zbd := fs₁.zbd.setBusy i true }.setActiveZone r i).persistMetadata G r ∧
        (((fs.allocateNewZone G r).1 = fs₂.1 ∧ fs₂.2 = .ok) ∨
          ((fs.allocateNewZone G r).1 = fs₂.1.note .allocFailed ∧ fs₂.2 ≠ .ok ∧
            (fs.allocateNewZone G r).2 ≠ .ok))) := by
  obtain ⟨ps, is, h | ⟨i, fs₁, h₁, he, h⟩⟩ := fs.allocateIOZoneNoLock_cases
  · refine ⟨ps, is, _, rfl, .inl ?_⟩
    simp [allocateNewZone, h]
  · refine ⟨ps, is, fs₁, h₁, .inr ⟨i, _, he, rfl, ?_⟩⟩
    unfold allocateNewZone
    rw [h]
    dsimp only
    split
    · rename_i fs₂ heq
      exact .inl (by rw [heq]; exact ⟨rfl, rfl⟩)
    · rename_i fs₂ s hs heq
      refine .inr ?_
      rw [heq]
      exact ⟨rfl, hs, hs⟩

/-- A close releases the active zone. -/
theorem closePartialZone_cases (r : Ref) :
    ∃ env, (fs.closePartialZone r).1 = { fs with env := env }.closeActiveZone r := by
  unfold closePartialZone
  split
  · rename_i hz
    exact ⟨fs.env, by simp [closeActiveZone, hz]⟩
  · split
    · exact ⟨fs.env, rfl⟩
    · exact ⟨_, rfl⟩

/-- One turn of the buffered loop: some of the data reaches the device, and if all
of it does the extent is recorded. -/
theorem appendChunk_cases (h : Handle) (w : Writer) (i : ZoneId) (header left : Nat) :
    ∃ fs₁ data len, fs₁ = fs.setWriter h
        { w with buffer := fs.paddedBuffer w header (fs.wrSize i header left) } ∧
      len = sub32 (fs.wrSize i header left) header ∧
      data = (fs.paddedBuffer w header (fs.wrSize i header left)).read 0
        (fs.wrSize i header left + padSize fs.zbd.blockSize (fs.wrSize i header left)) ∧
      ((∃ n ≤ data.length, n ≤ (fs.zbd.zones i).capacity ∧
        (fs.appendChunk h w i header left).1 = fs₁.wrote i (data.take n)
          (.append i (fs.heap w.file).fileId (data.take n) header (fs.heap w.file).fileSize len) ∧
        (fs.appendChunk h w i header left).2 ≠ .ok) ∨
      (data.length ≤ (fs.zbd.zones i).capacity ∧
        (fs.appendChunk h w i header left).1 = (fs₁.wrote i data
          (.append i (fs.heap w.file).fileId data header (fs.heap w.file).fileSize
            len)).recordExtent w.file i header len ∧
        (fs.appendChunk h w i header left).2 = .ok)) := by
  refine ⟨_, _, _, rfl, rfl, rfl, ?_⟩
  unfold appendChunk
  dsimp only
  generalize sub32 (fs.wrSize i header left) header = len
  generalize hdata : (fs.paddedBuffer w header (fs.wrSize i header left)).read 0
    (fs.wrSize i header left + padSize fs.zbd.blockSize (fs.wrSize i header left)) = data
  obtain ⟨n, hn, hc, hz, hok⟩ := zoneAppend_cases (fs.setWriter h
    { w with buffer := fs.paddedBuffer w header (fs.wrSize i header left) }) i data
      fun data ↦ .append i (fs.heap w.file).fileId data header (fs.heap w.file).fileSize len
  rcases hx : zoneAppend _ i data _ with ⟨fs₂, s⟩
  rw [hx] at hz hok
  subst hz
  cases s with
  | ok =>
      obtain rfl := hok rfl
      rw [List.take_length]
      exact .inr ⟨hc, rfl, rfl⟩
  | _ => exact .inl ⟨n, hn, hc, rfl, by simp [andThen]⟩

/-- One direct append. -/
theorem appendDirect_cases (r : Ref) (i : ZoneId) (data : List Byte) :
    (∃ n ≤ data.length, n ≤ (fs.zbd.zones i).capacity ∧
      (fs.appendDirect r i data).1 = fs.wrote i (data.take n)
        (.append i (fs.heap r).fileId (data.take n) 0 (fs.heap r).fileSize (data.take n).length) ∧
      (fs.appendDirect r i data).2 ≠ .ok) ∨
    (data.length ≤ (fs.zbd.zones i).capacity ∧
      (fs.appendDirect r i data).1 = (fs.wrote i data
        (.append i (fs.heap r).fileId data 0 (fs.heap r).fileSize data.length)).setFile r
          { fs.heap r with fileSize := (fs.heap r).fileSize + data.length } ∧
      (fs.appendDirect r i data).2 = .ok) := by
  unfold appendDirect
  dsimp only
  obtain ⟨n, hn, hc, hz, hok⟩ := fs.zoneAppend_cases i data
    fun data ↦ .append i (fs.heap r).fileId data 0 (fs.heap r).fileSize data.length
  rcases hx : fs.zoneAppend i data _ with ⟨fs₂, s⟩
  rw [hx] at hz hok
  subst hz
  cases s with
  | ok =>
      obtain rfl := hok rfl
      rw [List.take_length]
      exact .inr ⟨hc, rfl, rfl⟩
  | _ => exact .inl ⟨n, hn, hc, rfl, by simp [andThen]⟩

end Outcomes

end Fs

end ZenFs
