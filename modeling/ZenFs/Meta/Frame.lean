import ZenFs.File.Read
import ZenFs.Zbd.Backend

/-!
# The frames of the metadata log

`ZenMetaLog::AddRecord` puts a checksum and a length in front of a record and fills the
last block up with zeros; `ZenMetaLog::ReadRecord` reads header and record and goes on
at the next block boundary.  Here both are followed byte by byte: a list of records
that is appended to an empty zone is read back as it is, as long as no record is so
long that its length is not an `int`.
-/

namespace ZenFs

/-- `crc32c`, with the only property of it that the log depends on. -/
structure Crc32c where
  extend : UInt32 → List Byte → UInt32
  mask : UInt32 → UInt32
  unmask : UInt32 → UInt32
  unmask_mask : ∀ crc, unmask (mask crc) = crc

/-- `EncodeFixed32`; a number in memory has the same bytes. -/
def encodeFixed32 (n : UInt32) : List Byte :=
  (List.range 4).map fun i ↦ UInt8.ofNat (n.toNat / 256 ^ i)

/-- `DecodeFixed32`. -/
def decodeFixed32 (bytes : List Byte) : UInt32 :=
  UInt32.ofNat ((bytes.take 4).foldr (fun b n ↦ b.toNat + 256 * n) 0)

namespace ZenMetaLog

/-- `zMetaHeaderSize`. -/
def zMetaHeaderSize : Nat := 8

/-- The next block boundary. -/
def toBoundary (bs pos : Nat) : Nat := if pos % bs = 0 then pos else pos + (bs - pos % bs)

/-- `phys_sz`. -/
def physSz (bs : Nat) (recordSz : UInt32) : Nat := toBoundary bs (recordSz.toNat + zMetaHeaderSize)

/-- The checksum of a record and its length. -/
def checksum (c : Crc32c) (recordSz : UInt32) (data : List Byte) : UInt32 :=
  c.extend (c.extend 0 (encodeFixed32 recordSz)) data

/-- The buffer that `AddRecord` fills. -/
def frame (c : Crc32c) (bs : Nat) (recordSz : UInt32) (data : List Byte) : List Byte :=
  encodeFixed32 (c.mask (checksum c recordSz data)) ++ (encodeFixed32 recordSz ++
    (data ++ List.replicate (physSz bs recordSz - zMetaHeaderSize - recordSz.toNat) 0))

/-- The results of the backend writes in an append of `size` bytes.  The `zonefs` backend
fails if the size is not an `int` (`Pointers.write_large`). -/
def writeCalls (b : ZbdBackendType) (size : Nat) (calls : List WriteCall) : List WriteCall :=
  if b = .zoneFS ∧ 2 ^ 31 ≤ size then [.failed] else calls

/-- `ZenMetaLog::AddRecord` on the log in zone `i`. -/
def addRecord (c : Crc32c) (b : ZbdBackendType) (i : ZoneId) (d : Zbd) (slice : List Byte)
    (calls : List WriteCall) : Zbd × Status :=
  let recordSz := UInt32.ofNat slice.length
  let size := physSz d.blockSize recordSz % 2 ^ 32
  d.append i ((frame c d.blockSize recordSz (slice.take recordSz.toNat)).take size)
    (writeCalls b size calls)

/-- `ZenMetaLog::Read` of `n` bytes: what is read, the position behind it and the status.
The backend delivers what it is asked for. -/
def read (d : Zbd) (i : ZoneId) (readPos n : Nat) : List Byte × Nat × Status :=
  if (d.zones i).wp ≤ readPos then ([], readPos, .ok)
  else if (d.zones i).start + (d.zones i).maxCapacity < readPos + n then
    ([], readPos, .ioError "Read across zone")
  else if n = 0 then ([], readPos, .ok)
  else
    match d.read readPos n with
    | none => ([], readPos, .ioError "Read failed")
    | some bytes => (bytes, readPos + bytes.length, .ok)

/-- `ZenMetaLog::ReadRecord`. -/
def readRecord (c : Crc32c) (d : Zbd) (i : ZoneId) (readPos : Nat) : List Byte × Nat × Status :=
  match read d i readPos zMetaHeaderSize with
  | (header, readPos, s) =>
      if s.isOk = false then ([], readPos, s)
      else if header = [] then ([], readPos, .ok)
      else
        let recordCrc := decodeFixed32 header
        let recordSz := decodeFixed32 (header.drop 4)
        match read d i readPos recordSz.toNat with
        | (record, readPos, s) =>
            if s.isOk = false then (record, readPos, s)
            else if checksum c recordSz record ≠ c.unmask recordCrc then
              (record, readPos, .ioError "Not a valid record")
            else (record, toBoundary d.blockSize readPos, .ok)

/-- Records are added one after the other. -/
def addRecords (c : Crc32c) (b : ZbdBackendType) (i : ZoneId) :
    Zbd → List (List Byte × List WriteCall) → Zbd × List Status
  | d, [] => (d, [])
  | d, (slice, calls) :: rs =>
      let (d', s) := addRecord c b i d slice calls
      let (d'', ss) := addRecords c b i d' rs
      (d'', s :: ss)

/-- `n` calls of `ReadRecord`. -/
def readRecords (c : Crc32c) (d : Zbd) (i : ZoneId) : Nat → Nat → List (List Byte × Status)
  | 0, _ => []
  | n + 1, readPos =>
      let (record, readPos', s) := readRecord c d i readPos
      (record, s) :: readRecords c d i n readPos'

/-- Every record is added, and reading from the start of the zone gives all of them in
order and then an empty one. -/
def RoundTrip (c : Crc32c) (b : ZbdBackendType) (i : ZoneId) (d : Zbd)
    (records : List (List Byte × List WriteCall)) : Prop :=
  (addRecords c b i d records).2 = records.map (fun _ ↦ .ok) ∧
    readRecords c (addRecords c b i d records).1 i (records.length + 1) (d.zones i).start =
      records.map (fun r ↦ (r.1, .ok)) ++ [([], .ok)]

instance (c : Crc32c) (b : ZbdBackendType) (i : ZoneId) (d : Zbd)
    (records : List (List Byte × List WriteCall)) : Decidable (RoundTrip c b i d records) :=
  inferInstanceAs (Decidable (_ ∧ _))

end ZenMetaLog

/-! ## Frames -/

theorem length_encodeFixed32 (n : UInt32) : (encodeFixed32 n).length = 4 := rfl

theorem decodeFixed32_encodeFixed32 (n : UInt32) (rest : List Byte) :
    decodeFixed32 (encodeFixed32 n ++ rest) = n := by
  have h := n.toNat_lt
  apply UInt32.toNat_inj.mp
  simp only [decodeFixed32,
    List.take_append_of_le_length (Nat.le_of_eq (length_encodeFixed32 n).symm)]
  simp [encodeFixed32, List.range_succ]
  omega

namespace ZenMetaLog

variable {c : Crc32c} {b : ZbdBackendType} {i : ZoneId} {d : Zbd} {bs pos n : Nat}

theorem le_toBoundary (bs pos : Nat) : pos ≤ toBoundary bs pos := by
  unfold toBoundary
  split <;> omega

theorem dvd_toBoundary (hbs : 0 < bs) (pos : Nat) : bs ∣ toBoundary bs pos := by
  unfold toBoundary
  split
  · rename_i h
    exact Nat.dvd_of_mod_eq_zero h
  · have hlt := Nat.mod_lt pos hbs
    have heq : pos + (bs - pos % bs) = bs * (pos / bs + 1) := by
      have := Nat.div_add_mod pos bs
      rw [Nat.mul_add, Nat.mul_one]
      omega
    exact ⟨_, heq⟩

/-- Boundaries are the same behind a whole number of blocks. -/
theorem toBoundary_add (h : bs ∣ pos) : toBoundary bs (pos + n) = pos + toBoundary bs n := by
  have hmod : (pos + n) % bs = n % bs := by
    rw [Nat.add_mod, Nat.mod_eq_zero_of_dvd h, Nat.zero_add, Nat.mod_mod]
  unfold toBoundary
  rw [hmod]
  split
  · rfl
  · rw [Nat.add_assoc]

theorem length_frame (recordSz : UInt32) {data : List Byte} (h : data.length = recordSz.toNat) :
    (frame c bs recordSz data).length = physSz bs recordSz := by
  have hle := le_toBoundary bs (recordSz.toNat + zMetaHeaderSize)
  simp only [frame, List.length_append, length_encodeFixed32, List.length_replicate, h, physSz,
    zMetaHeaderSize] at hle ⊢
  omega

/-- The size of a record with its header, in whole blocks. -/
def paddedSz (bs : Nat) (record : List Byte) : Nat :=
  toBoundary bs (record.length + zMetaHeaderSize)

/-- The frame of a record. -/
def frameOf (c : Crc32c) (bs : Nat) (record : List Byte) : List Byte :=
  frame c bs (UInt32.ofNat record.length) record

theorem length_lt_of_paddedSz {k : Nat} {record : List Byte} (h : paddedSz bs record < k) :
    record.length < k := by
  have hle := le_toBoundary bs (record.length + zMetaHeaderSize)
  simp only [paddedSz, zMetaHeaderSize] at h hle
  omega

section Sizes

variable {record : List Byte} (h32 : paddedSz bs record < 2 ^ 32)

include h32

theorem toNat_length : (UInt32.ofNat record.length).toNat = record.length := by
  rw [UInt32.toNat_ofNat', Nat.mod_eq_of_lt (length_lt_of_paddedSz h32)]

theorem physSz_eq : physSz bs (UInt32.ofNat record.length) = paddedSz bs record := by
  rw [physSz, toNat_length h32, paddedSz]

theorem length_frameOf : (frameOf c bs record).length = paddedSz bs record := by
  rw [frameOf, length_frame _ (toNat_length h32).symm, physSz_eq h32]

end Sizes

/-! ## Adding records -/

/-- A record whose frame fits is appended as a whole, unless it is too long for the backend. -/
theorem addRecord_eq {record : List Byte} {calls : List WriteCall} (hcalls : .failed ∉ calls)
    (h32 : paddedSz d.blockSize record < 2 ^ 32)
    (hcap : paddedSz d.blockSize record ≤ (d.zones i).capacity)
    (hint : b = .zoneFS → paddedSz d.blockSize record < 2 ^ 31) :
    addRecord c b i d record calls = (d.appended i (frameOf c d.blockSize record), .ok) := by
  have hlen : (frameOf c d.blockSize record).length = paddedSz d.blockSize record :=
    length_frameOf h32
  have hwrites : writeCalls b (paddedSz d.blockSize record) calls = calls := by
    refine if_neg ?_
    rintro ⟨hb, hge⟩
    exact absurd (hint hb) (Nat.not_lt.mpr hge)
  simp only [addRecord, toNat_length h32, physSz_eq h32, Nat.mod_eq_of_lt h32,
    List.take_length, hwrites]
  rw [← frameOf, ← hlen, List.take_length]
  exact d.append_of_notMem i hcalls (hlen ▸ hcap)

/-- The `zonefs` backend does not take a frame whose length is not an `int`. -/
theorem addRecord_large {record : List Byte} {calls : List WriteCall}
    (h32 : paddedSz d.blockSize record < 2 ^ 32) (hge : 2 ^ 31 ≤ paddedSz d.blockSize record) :
    (addRecord c .zoneFS i d record calls).2 ≠ .ok := by
  have hlen : (frameOf c d.blockSize record).length = paddedSz d.blockSize record :=
    length_frameOf h32
  have hwrites : writeCalls .zoneFS (paddedSz d.blockSize record) calls = [.failed] :=
    if_pos ⟨rfl, hge⟩
  simp only [addRecord, toNat_length h32, physSz_eq h32, Nat.mod_eq_of_lt h32,
    List.take_length, hwrites]
  rw [← frameOf, ← hlen, List.take_length, Zbd.append]
  split
  · simp
  · cases hf : frameOf c d.blockSize record with
    | nil =>
        rw [hf] at hlen
        simp only [List.length_nil] at hlen
        omega
    | cons x xs => simp [Zbd.appendLoop]

/-- The records of a log that fit an empty zone, written without a failing backend write. -/
structure Fits (d : Zbd) (i : ZoneId) (records : List (List Byte × List WriteCall)) : Prop where
  nonempty : ∀ r ∈ records, r.1 ≠ []
  size : ∀ r ∈ records, paddedSz d.blockSize r.1 < 2 ^ 32
  total : (records.map fun r ↦ paddedSz d.blockSize r.1).sum ≤ (d.zones i).capacity
  calls : ∀ r ∈ records, .failed ∉ r.2

/-- An empty zone at a block boundary. -/
structure EmptyZone (d : Zbd) (i : ZoneId) : Prop where
  block : 16 ≤ d.blockSize
  start : d.blockSize ∣ (d.zones i).start
  wp : (d.zones i).wp = (d.zones i).start
  capacity : (d.zones i).capacity = (d.zones i).maxCapacity

/-- The frames of a list of records. -/
def frames (c : Crc32c) (bs : Nat) (records : List (List Byte × List WriteCall)) : List Byte :=
  records.flatMap fun r ↦ frameOf c bs r.1

theorem length_frames {records : List (List Byte × List WriteCall)}
    (h : ∀ r ∈ records, paddedSz bs r.1 < 2 ^ 32) :
    (frames c bs records).length = (records.map fun r ↦ paddedSz bs r.1).sum := by
  induction records with
  | nil => rfl
  | cons r rs ih =>
      rw [frames, List.flatMap_cons, List.length_append,
        length_frameOf (h r (List.mem_cons_self ..)),
        List.map_cons, List.sum_cons, ← ih fun r' hr ↦ h r' (List.mem_cons_of_mem _ hr), frames]

theorem Fits.cons {r : List Byte × List WriteCall} {rs : List (List Byte × List WriteCall)}
    (h : Fits d i (r :: rs)) :
    paddedSz d.blockSize r.1 ≤ (d.zones i).capacity ∧
    Fits (d.appended i (frameOf c d.blockSize r.1)) i rs := by
  have htotal := h.total
  rw [List.map_cons, List.sum_cons] at htotal
  refine ⟨by omega, ⟨fun r' hr ↦ h.nonempty r' (List.mem_cons_of_mem _ hr),
    fun r' hr ↦ h.size r' (List.mem_cons_of_mem _ hr), ?_, fun r' hr ↦
    h.calls r' (List.mem_cons_of_mem _ hr)⟩⟩
  rw [Zbd.appended_zones, if_pos rfl, Zbd.appended_blockSize,
    length_frameOf (h.size r (List.mem_cons_self ..))]
  simp only
  omega

/-- The frames of the records lie one behind the other. -/
theorem addRecords_eq {records : List (List Byte × List WriteCall)} (h : Fits d i records)
    (hint : ∀ r ∈ records, b = .zoneFS → paddedSz d.blockSize r.1 < 2 ^ 31) :
    addRecords c b i d records =
      (d.appended i (frames c d.blockSize records), records.map fun _ ↦ .ok) := by
  induction records generalizing d with
  | nil => simp [addRecords, frames, Zbd.appended_nil]
  | cons r rs ih =>
      have hmem : r ∈ r :: rs := List.mem_cons_self ..
      obtain ⟨hcap, hrest⟩ := h.cons (c := c)
      have hr := addRecord_eq (c := c) (h.calls r hmem) (h.size r hmem) hcap (hint r hmem)
      have hrs := ih hrest fun r' hr' ↦ hint r' (List.mem_cons_of_mem _ hr')
      simp only [addRecords, hr, hrs, Zbd.appended_blockSize, Zbd.appended_appended,
        List.map_cons, frames, List.flatMap_cons]

/-- Every record is added in some state on the way. -/
theorem addRecord_of_addRecords {records : List (List Byte × List WriteCall)}
    (h : (addRecords c b i d records).2 = records.map fun _ ↦ .ok) {r : List Byte × List WriteCall}
    (hr : r ∈ records) :
    ∃ d' : Zbd, d'.blockSize = d.blockSize ∧ (addRecord c b i d' r.1 r.2).2 = .ok := by
  induction records generalizing d with
  | nil => cases hr
  | cons r' rs ih =>
      simp only [addRecords, List.map_cons, List.cons.injEq] at h
      rcases List.mem_cons.mp hr with rfl | hr
      · exact ⟨d, rfl, h.1⟩
      · obtain ⟨d', hbs, hok⟩ := ih h.2 hr
        refine ⟨d', hbs.trans ?_, hok⟩
        obtain ⟨n, -, heq, -⟩ := d.append_spec i _ _
        rw [addRecord, heq]
        rfl

/-! ## Reading records -/

/-- The bytes of a record with its frame lie at `pos`, inside of what is written. -/
structure At (d : Zbd) (i : ZoneId) (pos : Nat) (data : List Byte) : Prop where
  bytes : d.mem.read pos data.length = data
  wp : pos + data.length ≤ (d.zones i).wp
  room : (d.zones i).wp ≤ (d.zones i).start + (d.zones i).maxCapacity

theorem At.append {xs ys : List Byte} (h : At d i pos (xs ++ ys)) :
    At d i pos xs ∧ At d i (pos + xs.length) ys := by
  obtain ⟨hxs, hys⟩ := (Mem.read_eq_append_iff ..).mp h.bytes
  have hwp := h.wp
  rw [List.length_append] at hwp
  exact ⟨⟨hxs, by omega, h.room⟩, hys, by omega, h.room⟩

/-- What lies there is read, if its length is an `int`. -/
theorem At.read {data : List Byte} (h : At d i pos data) (hne : data ≠ [])
    (hint : data.length < 2 ^ 31) :
    ZenMetaLog.read d i pos data.length = (data, pos + data.length, .ok) := by
  have hpos := List.length_pos_of_ne_nil hne
  have hwp := h.wp
  have hroom := h.room
  have hmod : data.length % 2 ^ 32 = data.length := Nat.mod_eq_of_lt (by omega)
  rw [ZenMetaLog.read, if_neg (by omega), if_neg (by omega), if_neg (by omega), Zbd.read, hmod,
    if_pos ⟨hpos, hint⟩, h.bytes]

/-- Otherwise the read fails. -/
theorem At.read_large {data : List Byte} (h : At d i pos data) (hint : 2 ^ 31 ≤ data.length)
    (h32 : data.length < 2 ^ 32) :
    ZenMetaLog.read d i pos data.length = ([], pos, .ioError "Read failed") := by
  have hwp := h.wp
  have hroom := h.room
  have hmod : data.length % 2 ^ 32 = data.length := Nat.mod_eq_of_lt h32
  rw [ZenMetaLog.read, if_neg (by omega), if_neg (by omega), if_neg (by omega), Zbd.read, hmod,
    if_neg (by omega)]

/-- The header and the contents of a record. -/
theorem At.frameOf {record : List Byte} (h : At d i pos (frameOf c d.blockSize record)) :
    At d i pos (encodeFixed32 (c.mask (checksum c (UInt32.ofNat record.length) record)) ++
        encodeFixed32 (UInt32.ofNat record.length)) ∧
      At d i (pos + zMetaHeaderSize) record := by
  rw [ZenMetaLog.frameOf, frame, ← List.append_assoc] at h
  obtain ⟨hheader, hrest⟩ := h.append
  exact ⟨hheader, hrest.append.1⟩

/-- What `ReadRecord` gets from the header of a record. -/
theorem readRecord_header {record : List Byte} (h : At d i pos (frameOf c d.blockSize record))
    (h32 : paddedSz d.blockSize record < 2 ^ 32) :
    readRecord c d i pos =
      match read d i (pos + zMetaHeaderSize) record.length with
      | (record', readPos, s) =>
          if s.isOk = false then (record', readPos, s)
          else if checksum c (UInt32.ofNat record.length) record' ≠
              checksum c (UInt32.ofNat record.length) record then
            (record', readPos, .ioError "Not a valid record")
          else (record', toBoundary d.blockSize readPos, .ok) := by
  have hne (crc : UInt32) : encodeFixed32 crc ++ encodeFixed32 (UInt32.ofNat record.length) ≠ [] :=
    nofun
  have hsize (crc : UInt32) : decodeFixed32 ((encodeFixed32 crc ++
      encodeFixed32 (UInt32.ofNat record.length)).drop 4) = UInt32.ofNat record.length := by
    rw [List.drop_left' (length_encodeFixed32 _)]
    simpa using decodeFixed32_encodeFixed32 (UInt32.ofNat record.length) []
  have hread : read d i pos zMetaHeaderSize = _ :=
    h.frameOf.1.read (hne _) (by show 8 < 2 ^ 31; decide)
  simp only [readRecord, hread, Status.isOk_ok, Bool.true_eq_false, if_false, hne,
    decodeFixed32_encodeFixed32, hsize, toNat_length h32, c.unmask_mask]
  rfl

theorem readRecord_of_at {record : List Byte} (h : At d i pos (frameOf c d.blockSize record))
    (h32 : paddedSz d.blockSize record < 2 ^ 32) (hne : record ≠ []) (hint : record.length < 2 ^ 31)
    (hpos : d.blockSize ∣ pos) :
    readRecord c d i pos = (record, pos + (frameOf c d.blockSize record).length, .ok) := by
  have hnext : toBoundary d.blockSize (pos + zMetaHeaderSize + record.length) =
      pos + (frameOf c d.blockSize record).length := by
    rw [length_frameOf h32, paddedSz, Nat.add_assoc, toBoundary_add hpos,
      Nat.add_comm zMetaHeaderSize]
  rw [readRecord_header h h32, h.frameOf.2.read hne hint]
  simp [hnext]

/-- The length of a record that is not an `int` is taken for a negative one. -/
theorem readRecord_large {record : List Byte} (h : At d i pos (frameOf c d.blockSize record))
    (h32 : paddedSz d.blockSize record < 2 ^ 32) (hint : 2 ^ 31 ≤ record.length) :
    (readRecord c d i pos).2.2 = .ioError "Read failed" := by
  rw [readRecord_header h h32, h.frameOf.2.read_large hint (length_lt_of_paddedSz h32)]
  rfl

theorem readRecord_eof (h : (d.zones i).wp ≤ pos) : readRecord c d i pos = ([], pos, .ok) := by
  simp [readRecord, read, h]

/-- The records of a zone are read up to its write pointer exactly if the length of each
of them is an `int`. -/
theorem readRecords_iff {records : List (List Byte × List WriteCall)}
    (h : At d i pos (frames c d.blockSize records)) (hne : ∀ r ∈ records, r.1 ≠ [])
    (h32 : ∀ r ∈ records, paddedSz d.blockSize r.1 < 2 ^ 32) (hbs : 0 < d.blockSize)
    (hpos : d.blockSize ∣ pos)
    (hend : (d.zones i).wp = pos + (frames c d.blockSize records).length) :
    readRecords c d i (records.length + 1) pos = records.map (fun r ↦ (r.1, .ok)) ++ [([], .ok)] ↔
      ∀ r ∈ records, r.1.length < 2 ^ 31 := by
  induction records generalizing pos with
  | nil =>
      refine iff_of_true ?_ nofun
      have heof : (d.zones i).wp ≤ pos := Nat.le_of_eq hend
      rw [readRecords, readRecord_eof heof]
      rfl
  | cons r rs ih =>
      have hmem : r ∈ r :: rs := List.mem_cons_self ..
      rw [frames, List.flatMap_cons] at h hend
      obtain ⟨hr, hrs⟩ := h.append
      rw [List.forall_mem_cons, List.length_cons, readRecords, List.map_cons, List.cons_append,
        List.cons.injEq]
      rcases Nat.lt_or_ge r.1.length (2 ^ 31) with hint | hlarge
      · have hnext : d.blockSize ∣ pos + (frameOf c d.blockSize r.1).length := by
          rw [length_frameOf (h32 r hmem)]
          exact Nat.dvd_add hpos (dvd_toBoundary hbs _)
        rw [List.length_append, ← Nat.add_assoc] at hend
        have hiff := ih hrs (fun r' hr' ↦ hne r' (List.mem_cons_of_mem _ hr'))
          (fun r' hr' ↦ h32 r' (List.mem_cons_of_mem _ hr')) hnext hend
        rw [readRecord_of_at hr (h32 r hmem) (hne r hmem) hint hpos]
        simp only [hiff, hint, true_and]
      · refine iff_of_false ?_ fun hall ↦ absurd hall.1 (Nat.not_lt.mpr hlarge)
        rintro ⟨hhead, -⟩
        have hfail := readRecord_large hr (h32 r hmem) hlarge
        rw [(Prod.mk.inj hhead).2] at hfail
        cases hfail

/-- Once all frames are taken by the backend, the length of the records decides. -/
theorem roundTrip_iff_of_int {records : List (List Byte × List WriteCall)} (hz : EmptyZone d i)
    (h : Fits d i records) (hint : ∀ r ∈ records, b = .zoneFS → paddedSz d.blockSize r.1 < 2 ^ 31) :
    RoundTrip c b i d records ↔ ∀ r ∈ records, r.1.length < 2 ^ 31 := by
  have hadd := addRecords_eq (c := c) h hint
  have hwp : ((d.appended i (frames c d.blockSize records)).zones i).wp =
      (d.zones i).start + (frames c d.blockSize records).length := by
    rw [Zbd.appended_zones, if_pos rfl, hz.wp]
  have hat : At (d.appended i (frames c d.blockSize records)) i (d.zones i).start
      (frames c d.blockSize records) := by
    refine ⟨?_, Nat.le_of_eq hwp.symm, ?_⟩
    · rw [Zbd.appended_mem, hz.wp, Mem.read_write]
    · rw [hwp, Zbd.appended_zones, if_pos rfl]
      have hle : (frames c d.blockSize records).length ≤ (d.zones i).maxCapacity := by
        rw [length_frames h.size, ← hz.capacity]
        exact h.total
      exact Nat.add_le_add_left hle _
  have hbs : 0 < d.blockSize := Nat.lt_of_lt_of_le (by decide) hz.block
  rw [RoundTrip, hadd, eq_self_iff_true, true_and]
  exact readRecords_iff (c := c) hat h.nonempty h.size hbs hz.start hwp

/-- On the `zonefs` backend the frames of records that have been added are no longer than
an `int`. -/
theorem lt_of_addRecords {records : List (List Byte × List WriteCall)} (h : Fits d i records)
    (hadd : (addRecords c b i d records).2 = records.map fun _ ↦ .ok) :
    ∀ r ∈ records, b = .zoneFS → paddedSz d.blockSize r.1 < 2 ^ 31 := by
  rintro r hr rfl
  by_contra hlarge
  obtain ⟨d', hbs, hok⟩ := addRecord_of_addRecords hadd hr
  refine addRecord_large (d := d') ?_ ?_ hok
  · rw [hbs]
    exact h.size r hr
  · rw [hbs]
    exact Nat.le_of_not_lt hlarge

/-- A list of records that fits an empty zone is read back as it was added exactly if the
length of each record is an `int`, and on the `zonefs` backend that of each frame too. -/
theorem roundTrip_iff {records : List (List Byte × List WriteCall)} (hz : EmptyZone d i)
    (h : Fits d i records) : RoundTrip c b i d records ↔
      ∀ r ∈ records, r.1.length < 2 ^ 31 ∧ (b = .zoneFS → paddedSz d.blockSize r.1 < 2 ^ 31) := by
  constructor
  · intro hrt
    have hint := lt_of_addRecords h hrt.1
    exact fun r hr ↦ ⟨(roundTrip_iff_of_int hz h hint).mp hrt r hr, hint r hr⟩
  · intro hint
    exact (roundTrip_iff_of_int hz h fun r hr ↦ (hint r hr).2).mpr fun r hr ↦ (hint r hr).1

end ZenMetaLog

/-! ## The checksum of the source -/

namespace Crc32c

/-- A byte of a `crc32c` that is computed bit by bit. -/
def update (crc : UInt32) (byte : Byte) : UInt32 :=
  (List.range 8).foldl (fun x _ ↦ if x % 2 = 1 then x >>> 1 ^^^ 0x82f63b78 else x >>> 1)
    (crc ^^^ byte.toUInt32)

def kMaskDelta : UInt32 := 0xa282ead8

/-- `crc32c::Mask` turns the checksum by 15 bits and adds a constant. -/
def maskRotated (crc : UInt32) : UInt32 := (crc >>> 15 ||| crc <<< 17) + kMaskDelta

/-- `crc32c::Unmask`. -/
def unmaskRotated (masked : UInt32) : UInt32 :=
  let rot := masked - kMaskDelta
  rot >>> 17 ||| rot <<< 15

theorem unmaskRotated_maskRotated (crc : UInt32) : unmaskRotated (maskRotated crc) = crc := by
  have hrot : (crc >>> 15 ||| crc <<< 17) + kMaskDelta - kMaskDelta = crc >>> 15 ||| crc <<< 17 :=
    UInt32.add_sub_cancel ..
  simp only [unmaskRotated, maskRotated, hrot]
  rw [← UInt32.toBitVec_inj]
  ext i hi
  have hge : crc.toBitVec.getLsbD (15 + (17 + i)) = false := BitVec.getLsbD_of_ge _ _ (by omega)
  have hget : crc.toBitVec.getLsbD i = crc.toBitVec[i] := BitVec.getLsbD_eq_getElem hi
  rcases Nat.lt_or_ge i 15 with h | h
  · have hlt : 17 + i < 32 := by omega
    simp [h, hge, hlt]
  · have hlt : ¬17 + i < 32 := by omega
    have hlt' : i - 15 < 17 := by omega
    have hadd : 15 + (i - 15) = i := by omega
    simp [Nat.not_lt.mpr h, hge, hget, hlt, hlt', hadd]

/-- `crc32c` as it is linked with the source. -/
def castagnoli : Crc32c where
  extend crc data := ~~~(data.foldl update (~~~crc))
  mask := maskRotated
  unmask := unmaskRotated
  unmask_mask := unmaskRotated_maskRotated

end Crc32c

namespace ZenMetaLog

/-- A device with an empty zone at block 4 that has room for `capacity` bytes. -/
def emptyLog (blockSize capacity : Nat) : Zbd where
  blockSize := blockSize
  zoneSize := capacity
  nrZones := 1
  zones _ :=
    { start := 4 * blockSize
      maxCapacity := capacity
      capacity := capacity
      wp := 4 * blockSize
      usedCapacity := 0
      busy := true
      resetCount := 0
      finishCount := 0 }
  mem _ := 0

/-- A record that ends on a block boundary and one that is written in two steps. -/
def twoRecords : List (List Byte × List WriteCall) :=
  [([1, 2, 3, 4, 5, 6, 7, 8], []), ([9], [.wrote 5, .wrote 0])]

theorem roundTrip_twoRecords : RoundTrip .castagnoli .zoneFS 0 (emptyLog 16 32) twoRecords := by
  have hz : EmptyZone (emptyLog 16 32) 0 := ⟨by decide, by decide, rfl, rfl⟩
  have h : Fits (emptyLog 16 32) 0 twoRecords := ⟨by decide, by decide, by decide, by decide⟩
  exact (roundTrip_iff hz h).mpr (by decide)

/-- A record of zeros. -/
def zeros (n : Nat) : List Byte := List.replicate n 0

/-- A record of two gibibytes is added to a zone of four, and not read back. -/
theorem long_record_lost :
    ¬RoundTrip .castagnoli .blockDev 0 (emptyLog 4096 (2 ^ 32)) [(zeros (2 ^ 31), [])] := by
  have hlen : ∀ n, (zeros n).length = n := fun n ↦ List.length_replicate
  have hz : EmptyZone (emptyLog 4096 (2 ^ 32)) 0 := ⟨by decide, by decide, rfl, rfl⟩
  have hpad : paddedSz (emptyLog 4096 (2 ^ 32)).blockSize (zeros (2 ^ 31)) = 2 ^ 31 + 4096 := by
    rw [paddedSz, hlen]
    decide
  have h : Fits (emptyLog 4096 (2 ^ 32)) 0 [(zeros (2 ^ 31), [])] := by
    constructor
    · rintro r hr
      obtain rfl := List.mem_singleton.mp hr
      exact List.ne_nil_of_length_pos (by rw [hlen]; decide)
    · rintro r hr
      obtain rfl := List.mem_singleton.mp hr
      rw [hpad]
      decide
    · rw [List.map_singleton, List.sum_singleton, hpad]
      decide
    · rintro r hr
      obtain rfl := List.mem_singleton.mp hr
      exact List.not_mem_nil
  rw [roundTrip_iff_of_int (b := .blockDev) hz h (fun _ _ ↦ nofun)]
  intro hall
  have hlt := hall _ (List.mem_singleton_self _)
  rw [hlen] at hlt
  exact absurd hlt (Nat.lt_irrefl _)

end ZenMetaLog

end ZenFs
