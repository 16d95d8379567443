import ZenFs.Lib.Loop
import ZenFs.Meta.Frame

/-!
# Reading the metadata log through a backend

Three loops are nested in a read of the log: that of `ZenMetaLog::Read`, that of
`ZonedBlockDevice::Read`, and that of `ZoneFsBackend::Read`.  The last two stop at a read
that returns nothing, and the first one does not: where the log claims more than has been
written, it asks for the rest again and again.
-/

namespace ZenFs

/-- A number as an `uint64_t`. -/
def toUInt64 (n : Int) : Nat := (n % 2 ^ 64).toNat

namespace Reading

variable (b : ZbdBackendType) (d : Zbd) (i : ZoneId)

/-! ## The loops -/

/-- The `int` that `ZoneFsBackend::Read` makes of the smaller of `size` and the rest of the
zone. -/
def readFromZone (size : Int) (pos : Nat) : Int :=
  toInt32 (min (toUInt64 size) (d.zoneSize - pos % d.zoneSize) % 2 ^ 32)

/-- `ZoneFsBackend::Read` on the file of zone `i`, which ends at the write pointer.  What is
negative is no size for a `pread`. -/
def zoneFsRead (size : Int) (pos : Nat) : Int :=
  if readFromZone d size pos < 0 then -1
  else min (readFromZone d size pos) ((d.zones i).wp - pos : Nat)

/-- `ZbdlibBackend::Read`. -/
def zbdlibRead (size : Int) : Int := if size < 0 then -1 else size

/-- `zbd_be_->Read`. -/
def beRead (size : Int) (pos : Nat) : Int :=
  match b with
  | .blockDev => zbdlibRead size
  | .zoneFS => zoneFsRead d i size pos

/-- The variables of `ZonedBlockDevice::Read`. -/
structure Vars where
  ret : Int := 0
  left : Int
  r : Int := -1
  offset : Nat
deriving DecidableEq, Repr

/-- What `ZonedBlockDevice::Read` returns behind its loop. -/
def Vars.result (v : Vars) : Int := if v.r < 0 then v.r else v.ret

/-- One turn of the loop in `ZonedBlockDevice::Read`. -/
def zbdTurn (v : Vars) : Int ⊕ Vars :=
  if v.left = 0 then .inl v.result
  else
    let r := beRead b d i v.left v.offset
    if r ≤ 0 then .inl { v with r := r }.result
    else .inr { ret := v.ret + r, left := v.left - r, r := r, offset := v.offset + r.toNat }

/-- `ZonedBlockDevice::Read`. -/
def zbdRead (fuel offset : Nat) (n : Int) : Option Int :=
  Loop.run (zbdTurn b d i) fuel { left := n, offset := offset }

/-- The loop of `ZenMetaLog::Read`: the position behind it and the status. -/
def readLoop (to_read : Nat) : Nat → Nat → Nat → Option (Nat × Status)
  | 0, _, _ => none
  | fuel + 1, read, readPos =>
      if to_read ≤ read then some (readPos, .ok)
      else
        match zbdRead b d i fuel readPos (toInt32 ((to_read - read) % 2 ^ 32)) with
        | none => none
        | some ret =>
            if ret < 0 then some (readPos, .ioError "Read failed")
            else readLoop to_read fuel (read + ret.toNat) (readPos + ret.toNat)

/-- The end of the zone. -/
def zoneEnd : Nat := (d.zones i).start + (d.zones i).maxCapacity

/-- `ZenMetaLog::Read` of `n` bytes. -/
def read (fuel readPos n : Nat) : Option (List Byte × Nat × Status) :=
  if (d.zones i).wp ≤ readPos then some ([], readPos, .ok)
  else if zoneEnd d i < readPos + n then some ([], readPos, .ioError "Read across zone")
  else
    match readLoop b d i n fuel 0 readPos with
    | none => none
    | some (readPos', .ok) => some (d.mem.read readPos n, readPos', .ok)
    | some (readPos', s) => some ([], readPos', s)

/-- `ZenMetaLog::ReadRecord`. -/
def readRecord (c : Crc32c) (fuel readPos : Nat) : Option (List Byte × Nat × Status) :=
  match read b d i fuel readPos ZenMetaLog.zMetaHeaderSize with
  | none => none
  | some (header, readPos, s) =>
      if s.isOk = false then some ([], readPos, s)
      else if header = [] then some ([], readPos, .ok)
      else
        let recordCrc := decodeFixed32 header
        let recordSz := decodeFixed32 (header.drop 4)
        match read b d i fuel readPos recordSz.toNat with
        | none => none
        | some (record, readPos, s) =>
            if s.isOk = false then some (record, readPos, s)
            else if ZenMetaLog.checksum c recordSz record ≠ c.unmask recordCrc then
              some (record, readPos, .ioError "Not a valid record")
            else some (record, ZenMetaLog.toBoundary d.blockSize readPos, .ok)

/-! ## Recovery -/

def kCompleteFilesSnapshot : UInt32 := 1
def kFileUpdate : UInt32 := 2
def kFileDeletion : UInt32 := 3
def kEndRecord : UInt32 := 4
def kFileReplace : UInt32 := 5

/-- What `RecoverFrom` does with the contents of a record: `GetLengthPrefixedSlice`, and
the decoders of the four kinds of records, on a filesystem in `σ`. -/
structure Decoders (σ : Type) where
  getLengthPrefixedSlice : List Byte → Option (List Byte)
  clearFiles : σ → σ
  decodeSnapshotFrom : List Byte → σ → σ × Status
  decodeFileUpdateFrom : Bool → List Byte → σ → σ × Status
  decodeFileDeletionFrom : List Byte → σ → σ × Status

variable {σ : Type}

/-- The `switch` in `RecoverFrom`. -/
def Decoders.apply (k : Decoders σ) (tag : UInt32) (data : List Byte) (s : σ) : σ × Status :=
  if tag = kCompleteFilesSnapshot then k.decodeSnapshotFrom data (k.clearFiles s)
  else if tag = kFileUpdate then k.decodeFileUpdateFrom false data s
  else if tag = kFileReplace then k.decodeFileUpdateFrom true data s
  else if tag = kFileDeletion then k.decodeFileDeletionFrom data s
  else (s, .corruption "Unexpected tag")

/-- What `RecoverFrom` returns behind its loop. -/
def recovered (at_least_one_snapshot : Bool) : Status :=
  if at_least_one_snapshot then .ok else .notFound "No snapshot found"

/-- The loop of `ZenFS::RecoverFrom`. -/
def recoverFrom (c : Crc32c) (k : Decoders σ) : Nat → Nat → Bool → σ → Option (σ × Status)
  | 0, _, _, _ => none
  | fuel + 1, readPos, at_least_one_snapshot, s =>
      match readRecord b d i c fuel readPos with
      | none => none
      | some (record, readPos, st) =>
          if st.isOk = false then some (s, .corruption "Metadata corruption")
          else if record.length < 4 ∨ decodeFixed32 record = kEndRecord then
            some (s, recovered at_least_one_snapshot)
          else
            match k.getLengthPrefixedSlice (record.drop 4) with
            | none => some (s, .corruption "No recovery record data")
            | some data =>
                match k.apply (decodeFixed32 record) data s with
                | (s, .ok) =>
                    recoverFrom c k fuel readPos
                      (at_least_one_snapshot || decodeFixed32 record == kCompleteFilesSnapshot) s
                | (s, st) => some (s, st)

/-! ## Fuel -/

variable {b d i} {fuel fuel' to_read got pos n : Nat}

theorem zbdRead_mono {size : Int} {r : Int} (h : zbdRead b d i fuel pos size = some r)
    (hle : fuel ≤ fuel') : zbdRead b d i fuel' pos size = some r := Loop.run_mono h hle

theorem readLoop_mono {r : Nat × Status} (h : readLoop b d i to_read fuel got pos = some r)
    (hle : fuel ≤ fuel') : readLoop b d i to_read fuel' got pos = some r := by
  induction fuel generalizing fuel' got pos with
  | zero => cases h
  | succ fuel ih =>
      obtain ⟨k, rfl⟩ : ∃ k, fuel' = k + 1 := ⟨fuel' - 1, by omega⟩
      rw [readLoop] at h ⊢
      split
      · rename_i hread
        rwa [if_pos hread] at h
      · rename_i hread
        rw [if_neg hread] at h
        cases hz : zbdRead b d i fuel pos (toInt32 ((to_read - got) % 2 ^ 32)) with
        | none =>
            rw [hz] at h
            cases h
        | some ret =>
            rw [zbdRead_mono hz (by omega)]
            rw [hz] at h
            dsimp only at h ⊢
            split
            · rename_i hret
              rwa [if_pos hret] at h
            · rename_i hret
              rw [if_neg hret] at h
              exact ih h (by omega)

/-! ## Where a read ends -/

/-- A call of `ZonedBlockDevice::Read` returns `r`. -/
def ZbdReads (b : ZbdBackendType) (d : Zbd) (i : ZoneId) (pos : Nat) (size r : Int) : Prop :=
  ∃ fuel, zbdRead b d i fuel pos size = some r

/-- The loop of `ZenMetaLog::Read` is left. -/
def LoopEnds (b : ZbdBackendType) (d : Zbd) (i : ZoneId) (to_read got pos : Nat) : Prop :=
  ∃ fuel r, readLoop b d i to_read fuel got pos = some r

theorem loopEnds_of_le (h : to_read ≤ got) : LoopEnds b d i to_read got pos :=
  ⟨1, (pos, .ok), by rw [readLoop, if_pos h]⟩

theorem ZbdReads.loopEnds_iff {r : Int}
    (hr : ZbdReads b d i pos (toInt32 ((to_read - got) % 2 ^ 32)) r) (h : got < to_read) :
    LoopEnds b d i to_read got pos ↔
      r < 0 ∨ LoopEnds b d i to_read (got + r.toNat) (pos + r.toNat) := by
  obtain ⟨k, hk⟩ := hr
  constructor
  · rintro ⟨fuel, x, hx⟩
    cases fuel with
    | zero => cases hx
    | succ fuel =>
        rw [readLoop, if_neg (Nat.not_le.mpr h)] at hx
        cases hz : zbdRead b d i fuel pos (toInt32 ((to_read - got) % 2 ^ 32)) with
        | none =>
            rw [hz] at hx
            cases hx
        | some ret =>
            obtain rfl : ret = r := Loop.run_unique hz hk
            rw [hz] at hx
            dsimp only at hx
            by_cases hneg : ret < 0
            · exact .inl hneg
            · rw [if_neg hneg] at hx
              exact .inr ⟨fuel, x, hx⟩
  · rintro (hneg | ⟨fuel, x, hx⟩)
    · refine ⟨k + 1, (pos, .ioError "Read failed"), ?_⟩
      rw [readLoop, if_neg (Nat.not_le.mpr h), hk]
      exact if_pos hneg
    · by_cases hneg : r < 0
      · refine ⟨k + 1, (pos, .ioError "Read failed"), ?_⟩
        rw [readLoop, if_neg (Nat.not_le.mpr h), hk]
        exact if_pos hneg
      · refine ⟨max k fuel + 1, x, ?_⟩
        rw [readLoop, if_neg (Nat.not_le.mpr h), zbdRead_mono hk (Nat.le_max_left ..)]
        dsimp only
        rw [if_neg hneg]
        exact readLoop_mono hx (Nat.le_max_right ..)

/-- A read that returns nothing is made again and again. -/
theorem ZbdReads.not_loopEnds (hr : ZbdReads b d i pos (toInt32 ((to_read - got) % 2 ^ 32)) 0)
    (h : got < to_read) : ¬ LoopEnds b d i to_read got pos := by
  rintro ⟨fuel, x, hx⟩
  obtain ⟨k, hk⟩ := hr
  induction fuel with
  | zero => cases hx
  | succ fuel ih =>
      rw [readLoop, if_neg (Nat.not_le.mpr h)] at hx
      cases hz : zbdRead b d i fuel pos (toInt32 ((to_read - got) % 2 ^ 32)) with
      | none =>
          rw [hz] at hx
          cases hx
      | some ret =>
          obtain rfl : ret = 0 := Loop.run_unique hz hk
          rw [hz] at hx
          exact ih hx

/-! ## What a backend delivers -/

theorem zbdReads_neg {size : Int} (h0 : size ≠ 0) (h : beRead b d i size pos < 0) :
    ZbdReads b d i pos size (beRead b d i size pos) := by
  refine ⟨1, ?_⟩
  rw [zbdRead, Loop.run, zbdTurn, if_neg h0]
  dsimp only
  rw [if_pos (by omega)]
  exact congrArg some (if_pos h)

theorem zbdReads_zero {size : Int} (h0 : size ≠ 0) (h : beRead b d i size pos = 0) :
    ZbdReads b d i pos size 0 := by
  refine ⟨1, ?_⟩
  rw [zbdRead, Loop.run, zbdTurn, if_neg h0]
  dsimp only
  rw [if_pos (by omega), h]
  rfl

/-- The first read delivers something, and the next one, if there is any, nothing. -/
theorem zbdReads_pos {size : Int} (h0 : size ≠ 0) {r : Int} (hr : beRead b d i size pos = r)
    (hpos : 0 < r) (h : size ≠ r → beRead b d i (size - r) (pos + r.toNat) = 0) :
    ZbdReads b d i pos size r := by
  refine ⟨2, ?_⟩
  rw [zbdRead, Loop.run, zbdTurn, if_neg h0]
  dsimp only
  rw [hr, if_neg (by omega)]
  dsimp only
  rw [Loop.run, zbdTurn]
  dsimp only
  by_cases hsize : size = r
  · rw [if_pos (by omega)]
    refine congrArg some ?_
    rw [Vars.result, if_neg (by dsimp only; omega)]
    dsimp only
    omega
  · rw [if_neg (by omega), h hsize, if_pos (Int.le_refl 0)]
    refine congrArg some ?_
    rw [Vars.result, if_neg (by dsimp only; omega)]
    dsimp only
    omega

/-- A zone of the device: it starts at a multiple of the zone size, and what can be written
of it is in front of its end. -/
structure DeviceZone (d : Zbd) (i : ZoneId) : Prop where
  start : d.zoneSize ∣ (d.zones i).start
  capacity : (d.zones i).maxCapacity ≤ d.zoneSize
  size : d.zoneSize ≤ 2 ^ 63

/-- The rest of the zone as an `int`. -/
def restOfZone (d : Zbd) (pos : Nat) : Int := toInt32 ((d.zoneSize - pos % d.zoneSize) % 2 ^ 32)

/-- The `n` bytes from `pos` on are delivered, or the backend takes their number for a
negative one and the read fails.  On `zonefs` a number of 31 bits is no negative one if
the rest of the zone is not: then the rest is delivered first. -/
def Delivered (b : ZbdBackendType) (d : Zbd) (i : ZoneId) (pos n : Nat) : Prop :=
  b = .blockDev ∨ (n < 2 ^ 31 ∧ pos + n ≤ (d.zones i).wp) ∨
    (2 ^ 31 ≤ n ∧ (restOfZone d pos < 0 ∨
      0 < restOfZone d pos ∧ n < 2 ^ 31 + restOfZone d pos ∧ pos + n ≤ (d.zones i).wp))

theorem toInt32_of_lt (h : n < 2 ^ 31) : toInt32 n = n := if_pos h

theorem toInt32_of_ge (h : 2 ^ 31 ≤ n) : toInt32 n = n - 2 ^ 32 := if_neg (by omega)

theorem toUInt64_of_nonneg (h : n < 2 ^ 63) : toUInt64 n = n := by
  rw [toUInt64]
  omega

theorem le_toUInt64 {size : Int} (h : size < 0) (h' : -2 ^ 63 ≤ size) : 2 ^ 63 ≤ toUInt64 size := by
  rw [toUInt64]
  omega

theorem mod_zoneSize (hz : DeviceZone d i) (hle : (d.zones i).start ≤ pos)
    (hlt : pos < zoneEnd d i) : pos % d.zoneSize = pos - (d.zones i).start := by
  have hcap := hz.capacity
  obtain ⟨k, hk⟩ := hz.start
  have hpos : pos = d.zoneSize * k + (pos - (d.zones i).start) := by omega
  rw [zoneEnd] at hlt
  rw [hpos, Nat.mul_add_mod, Nat.mod_eq_of_lt (by omega)]
  omega

/-- What `ZoneFsBackend::Read` delivers of a number that is an `int`. -/
theorem zoneFsRead_of_lt (hz : DeviceZone d i) (hle : (d.zones i).start ≤ pos) (h0 : 0 < n)
    (hend : pos + n ≤ zoneEnd d i) (h31 : n < 2 ^ 31) :
    zoneFsRead d i n pos = min n ((d.zones i).wp - pos) := by
  have hcap := hz.capacity
  have hmod := mod_zoneSize hz hle (by omega)
  have hread : readFromZone d n pos = n := by
    rw [zoneEnd] at hend
    rw [readFromZone, toUInt64_of_nonneg (by omega), hmod, Nat.min_eq_left (by omega),
      Nat.mod_eq_of_lt (by omega), toInt32_of_lt h31]
  rw [zoneFsRead, hread, if_neg (by omega)]
  omega

theorem zoneFsRead_eof (hwp : (d.zones i).wp ≤ pos) (h31 : n < 2 ^ 31) :
    zoneFsRead d i n pos = 0 := by
  have hread : readFromZone d n pos = min n (d.zoneSize - pos % d.zoneSize) := by
    rw [readFromZone, toUInt64_of_nonneg (by omega), Nat.mod_eq_of_lt (by omega),
      toInt32_of_lt (by omega)]
  rw [zoneFsRead, hread, if_neg (by omega)]
  omega

theorem zbdReads_zoneFs (hz : DeviceZone d i) (hle : (d.zones i).start ≤ pos) (h0 : 0 < n)
    (hend : pos + n ≤ zoneEnd d i) (h31 : n < 2 ^ 31) :
    ZbdReads .zoneFS d i pos n (min n ((d.zones i).wp - pos) : Nat) := by
  have hread : beRead .zoneFS d i n pos = (min n ((d.zones i).wp - pos) : Nat) := by
    rw [beRead, zoneFsRead_of_lt hz hle h0 hend h31]
  by_cases hwp : (d.zones i).wp ≤ pos
  · have hzero : min n ((d.zones i).wp - pos) = 0 := by omega
    rw [hzero] at hread ⊢
    exact zbdReads_zero (by omega) hread
  · refine zbdReads_pos (by omega) hread (by omega) fun hne ↦ ?_
    have hleft : (n : Int) - (min n ((d.zones i).wp - pos) : Nat) =
        (n - min n ((d.zones i).wp - pos) : Nat) := by omega
    rw [hleft, beRead]
    exact zoneFsRead_eof (by omega) (by omega)

/-- On `zonefs` the loop is left if and only if everything has been written. -/
theorem loopEnds_zoneFs (hz : DeviceZone d i) (hle : (d.zones i).start ≤ pos)
    (hread : got < to_read) (hend : pos + (to_read - got) ≤ zoneEnd d i)
    (h31 : to_read - got < 2 ^ 31) :
    LoopEnds .zoneFS d i to_read got pos ↔ pos + (to_read - got) ≤ (d.zones i).wp := by
  have hint : ∀ k, k < 2 ^ 31 → toInt32 (k % 2 ^ 32) = k := fun k hk ↦ by
    rw [Nat.mod_eq_of_lt (by omega), toInt32_of_lt hk]
  have hr := zbdReads_zoneFs hz hle (by omega) hend h31
  rw [← hint _ h31] at hr
  by_cases hwp : pos + (to_read - got) ≤ (d.zones i).wp
  · refine iff_of_true ?_ hwp
    rw [hr.loopEnds_iff hread]
    exact .inr (loopEnds_of_le (by omega))
  · refine iff_of_false ?_ hwp
    by_cases hzero : (d.zones i).wp ≤ pos
    · have hmin : min (to_read - got) ((d.zones i).wp - pos) = 0 := by omega
      rw [hmin] at hr
      exact hr.not_loopEnds hread
    · -- what has been written is read, and then there is nothing more
      have hmin : min (to_read - got) ((d.zones i).wp - pos) = (d.zones i).wp - pos := by omega
      rw [hr.loopEnds_iff hread, hmin]
      rintro (hneg | hends)
      · omega
      · have hnext : ZbdReads .zoneFS d i (pos + ((d.zones i).wp - pos))
            (to_read - (got + ((d.zones i).wp - pos)) : Nat) 0 :=
          zbdReads_zero (by omega) (zoneFsRead_eof (by omega) (by omega))
        rw [← hint _ (by omega)] at hnext
        exact hnext.not_loopEnds (by omega) hends

/-! ## Numbers that are no `int` -/

/-- As an `uint64_t` a negative size is larger than the rest of the zone. -/
theorem readFromZone_neg (hz : DeviceZone d i) {size : Int} (h : size < 0) (h' : -2 ^ 63 ≤ size) :
    readFromZone d size pos = restOfZone d pos := by
  have hle := le_toUInt64 h h'
  have hsize := hz.size
  rw [readFromZone, restOfZone, Nat.min_eq_right (by omega)]

/-- A number that is no negative `int` is what is left of a whole number of `2 ^ 32`. -/
theorem restOfZone_add (hz : DeviceZone d i) (hle : (d.zones i).start ≤ pos)
    (hend : pos + n ≤ zoneEnd d i) (h31 : 2 ^ 31 ≤ n) {r : Nat} (hr : r ≤ restOfZone d pos) :
    restOfZone d (pos + r) = restOfZone d pos - r := by
  have hcap := hz.capacity
  have hend' := hend
  rw [zoneEnd] at hend'
  have hmod := mod_zoneSize hz hle (by omega)
  have hmod' : pos + r < zoneEnd d i → (pos + r) % d.zoneSize = pos + r - (d.zones i).start :=
    mod_zoneSize hz (by omega)
  have hrest : restOfZone d pos = toInt32 ((d.zoneSize - (pos - (d.zones i).start)) % 2 ^ 32) := by
    rw [restOfZone, hmod]
  rw [hrest] at hr ⊢
  have hlt : (d.zoneSize - (pos - (d.zones i).start)) % 2 ^ 32 < 2 ^ 31 := by
    by_contra hge
    rw [toInt32_of_ge (by omega)] at hr
    omega
  rw [toInt32_of_lt hlt] at hr ⊢
  have hsub : (d.zoneSize - (pos + r - (d.zones i).start)) % 2 ^ 32 =
      (d.zoneSize - (pos - (d.zones i).start)) % 2 ^ 32 - r := by omega
  rw [restOfZone, hmod' (by omega), hsub, toInt32_of_lt (by omega)]
  omega

theorem zoneFsRead_neg (hz : DeviceZone d i) {size : Int} (h : size < 0) (h' : -2 ^ 63 ≤ size)
    (hrest : 0 ≤ restOfZone d pos) :
    zoneFsRead d i size pos = min (restOfZone d pos) ((d.zones i).wp - pos : Nat) := by
  rw [zoneFsRead, readFromZone_neg hz h h', if_neg (by omega)]

theorem restOfZone_lt (d : Zbd) (pos : Nat) : restOfZone d pos < 2 ^ 31 := by
  rw [restOfZone, toInt32]
  split <;> omega

theorem toInt32_mod_of_ge (h31 : 2 ^ 31 ≤ n) (h32 : n < 2 ^ 32) :
    toInt32 (n % 2 ^ 32) = n - 2 ^ 32 := by
  rw [Nat.mod_eq_of_lt h32, toInt32_of_ge h31]

theorem loopEnds_large (hz : DeviceZone d i) (hle : (d.zones i).start ≤ pos)
    (hpos : pos < (d.zones i).wp) (hend : pos + n ≤ zoneEnd d i) (h31 : 2 ^ 31 ≤ n)
    (h32 : n < 2 ^ 32) :
    LoopEnds .zoneFS d i n 0 pos ↔ restOfZone d pos < 0 ∨
      0 < restOfZone d pos ∧ n < 2 ^ 31 + restOfZone d pos ∧ pos + n ≤ (d.zones i).wp := by
  have hsize : toInt32 ((n - 0) % 2 ^ 32) = n - 2 ^ 32 := toInt32_mod_of_ge h31 h32
  rcases Int.lt_trichotomy (restOfZone d pos) 0 with hrest | hrest | hrest
  · have hread : beRead .zoneFS d i (n - 2 ^ 32) pos = -1 := by
      rw [beRead, zoneFsRead, readFromZone_neg hz (by omega) (by omega), if_pos hrest]
    have hr : ZbdReads .zoneFS d i pos (n - 2 ^ 32) _ :=
      zbdReads_neg (by omega) (by rw [hread]; decide)
    rw [hread, ← hsize] at hr
    exact iff_of_true ((hr.loopEnds_iff (by omega)).mpr (.inl (by decide))) (.inl hrest)
  · have hread : beRead .zoneFS d i (n - 2 ^ 32) pos = 0 := by
      rw [beRead, zoneFsRead_neg hz (by omega) (by omega) (by omega), hrest]
      omega
    have hr : ZbdReads .zoneFS d i pos (n - 2 ^ 32) 0 := zbdReads_zero (by omega) hread
    rw [← hsize] at hr
    exact iff_of_false (hr.not_loopEnds (by omega)) (by omega)
  · -- the rest of the zone comes first, or as much of it as has been written
    obtain ⟨m, hm⟩ := Int.eq_ofNat_of_zero_le (Int.le_of_lt hrest)
    have hm31 := restOfZone_lt d pos
    have hadd : ∀ r ≤ m, restOfZone d (pos + r) = m - r := fun r hr ↦ by
      rw [restOfZone_add hz hle hend h31 (by omega), hm]
    generalize hk : min m ((d.zones i).wp - pos) = k
    have hread : beRead .zoneFS d i (n - 2 ^ 32) pos = k := by
      rw [beRead, zoneFsRead_neg hz (by omega) (by omega) (by omega)]
      omega
    have hnext : ∀ size : Int, size < 0 → -2 ^ 63 ≤ size →
        beRead .zoneFS d i size (pos + k) = 0 := by
      intro size hneg hge
      have hrest' := hadd k (by omega)
      rw [beRead, zoneFsRead_neg hz hneg hge (by omega)]
      omega
    have hr : ZbdReads .zoneFS d i pos (n - 2 ^ 32) k :=
      zbdReads_pos (by omega) hread (by omega) fun _ ↦ hnext _ (by omega) (by omega)
    rw [← hsize] at hr
    have hneg : ¬ (k : Int) < 0 := by omega
    rw [hr.loopEnds_iff (by omega), Int.toNat_natCast, Nat.zero_add, hm]
    by_cases h31' : n - k < 2 ^ 31
    · have hends : LoopEnds .zoneFS d i n k (pos + k) ↔ pos + k + (n - k) ≤ (d.zones i).wp :=
        loopEnds_zoneFs hz (by omega) (by omega) (by omega) h31'
      rw [hends]
      omega
    · have hstuck : ZbdReads .zoneFS d i (pos + k) ((n - k : Nat) - 2 ^ 32) 0 :=
        zbdReads_zero (by omega) (hnext _ (by omega) (by omega))
      rw [← toInt32_mod_of_ge (by omega) (by omega)] at hstuck
      have hnot := hstuck.not_loopEnds (by omega)
      refine iff_of_false ?_ (by omega)
      rintro (h | h)
      · exact hneg h
      · exact hnot h

/-! ## One record -/

theorem zbdReads_blockDev (h0 : 0 < n) : ZbdReads .blockDev d i pos n n := by
  have hread : beRead .blockDev d i n pos = n := by
    rw [beRead, zbdlibRead, if_neg (by omega)]
  exact zbdReads_pos (by omega) hread (by omega) fun hne ↦ absurd rfl hne

/-- Where the loop of `ZenMetaLog::Read` is left. -/
theorem loopEnds_iff_delivered (hz : DeviceZone d i) (hle : (d.zones i).start ≤ pos)
    (hpos : pos < (d.zones i).wp) (hend : pos + n ≤ zoneEnd d i) (h0 : 0 < n) (h32 : n < 2 ^ 32) :
    LoopEnds b d i n 0 pos ↔ Delivered b d i pos n := by
  rw [Delivered]
  by_cases h31 : n < 2 ^ 31
  · have hint : toInt32 ((n - 0) % 2 ^ 32) = n := by
      rw [Nat.sub_zero, Nat.mod_eq_of_lt h32, toInt32_of_lt h31]
    cases b with
    | blockDev =>
        refine iff_of_true ?_ (.inl rfl)
        have hr : ZbdReads .blockDev d i pos n n := zbdReads_blockDev h0
        rw [← hint] at hr
        rw [hr.loopEnds_iff h0]
        exact .inr (loopEnds_of_le (by omega))
    | zoneFS =>
        rw [loopEnds_zoneFs hz hle h0 hend h31]
        refine ⟨fun h ↦ .inr (.inl ⟨h31, h⟩), ?_⟩
        rintro (h | ⟨-, h⟩ | ⟨h, -⟩)
        · cases h
        · exact h
        · omega
  · have hge : 2 ^ 31 ≤ n := Nat.le_of_not_lt h31
    cases b with
    | blockDev =>
        refine iff_of_true ?_ (.inl rfl)
        have hread : beRead .blockDev d i (n - 2 ^ 32) pos = -1 := if_pos (by omega)
        have hr : ZbdReads .blockDev d i pos (n - 2 ^ 32) _ :=
          zbdReads_neg (by omega) (by rw [hread]; decide)
        rw [hread, ← toInt32_mod_of_ge hge h32, ← Nat.sub_zero n] at hr
        exact (hr.loopEnds_iff h0).mpr (.inl (by decide))
    | zoneFS =>
        rw [loopEnds_large hz hle hpos hend hge h32]
        refine ⟨fun h ↦ .inr (.inr ⟨hge, h⟩), ?_⟩
        rintro (h | ⟨h, -⟩ | ⟨-, h⟩)
        · cases h
        · omega
        · exact h

/-- A read of `n` bytes at `pos` is refused, or it asks for nothing, or gets what it asks for. -/
def ReadEnds (b : ZbdBackendType) (d : Zbd) (i : ZoneId) (pos n : Nat) : Prop :=
  (d.zones i).wp ≤ pos ∨ zoneEnd d i < pos + n ∨ n = 0 ∨ Delivered b d i pos n

theorem read_iff (hz : DeviceZone d i) (hle : (d.zones i).start ≤ pos) (h32 : n < 2 ^ 32) :
    (∃ fuel r, read b d i fuel pos n = some r) ↔ ReadEnds b d i pos n := by
  by_cases hwp : (d.zones i).wp ≤ pos
  · exact iff_of_true ⟨0, ([], pos, .ok), by rw [Reading.read, if_pos hwp]⟩ (.inl hwp)
  by_cases hend : zoneEnd d i < pos + n
  · refine iff_of_true ⟨0, ([], pos, .ioError "Read across zone"), ?_⟩ (.inr (.inl hend))
    rw [Reading.read, if_neg hwp, if_pos hend]
  have hloop : (∃ fuel r, read b d i fuel pos n = some r) ↔ LoopEnds b d i n 0 pos := by
    constructor
    · rintro ⟨fuel, r, hr⟩
      rw [Reading.read, if_neg hwp, if_neg hend] at hr
      cases hx : readLoop b d i n fuel 0 pos with
      | none =>
          rw [hx] at hr
          cases hr
      | some x => exact ⟨fuel, x, hx⟩
    · rintro ⟨fuel, ⟨pos', st⟩, hx⟩
      refine ⟨fuel, ?_⟩
      rw [Reading.read, if_neg hwp, if_neg hend, hx]
      cases st <;> exact ⟨_, rfl⟩
  rw [hloop, ReadEnds]
  rcases Nat.eq_zero_or_pos n with rfl | h0
  · exact iff_of_true (loopEnds_of_le (Nat.le_refl 0)) (.inr (.inr (.inl rfl)))
  · rw [loopEnds_iff_delivered hz hle (by omega) (by omega) h0 h32]
    simp [hwp, hend, Nat.ne_of_gt h0]

theorem read_mono {r : List Byte × Nat × Status} (h : read b d i fuel pos n = some r)
    (hle : fuel ≤ fuel') : read b d i fuel' pos n = some r := by
  rw [Reading.read] at h ⊢
  split
  · rename_i hwp
    rwa [if_pos hwp] at h
  · rename_i hwp
    rw [if_neg hwp] at h
    split
    · rename_i hend
      rwa [if_pos hend] at h
    · rename_i hend
      rw [if_neg hend] at h
      cases hx : readLoop b d i n fuel 0 pos with
      | none =>
          rw [hx] at h
          cases h
      | some x =>
          rw [readLoop_mono hx hle]
          rwa [hx] at h

/-- The loop ends well behind everything that it was to read. -/
theorem le_of_readLoop {pos' : Nat} (h : readLoop b d i to_read fuel got pos = some (pos', .ok)) :
    pos + (to_read - got) ≤ pos' := by
  induction fuel generalizing got pos with
  | zero => cases h
  | succ fuel ih =>
      rw [readLoop] at h
      split at h
      · obtain ⟨rfl, -⟩ := Prod.mk.inj (Option.some.inj h)
        omega
      · split at h
        · cases h
        · split at h
          · cases h
          · have := ih h
            omega

theorem readLoop_delivered (hz : DeviceZone d i) (hle : (d.zones i).start ≤ pos)
    (hend : pos + n ≤ zoneEnd d i) (h0 : 0 < n) (h31 : n < 2 ^ 31) (h : Delivered b d i pos n) :
    ∃ fuel, readLoop b d i n fuel 0 pos = some (pos + n, .ok) := by
  have hint : toInt32 ((n - 0) % 2 ^ 32) = n := by
    rw [Nat.sub_zero, Nat.mod_eq_of_lt (by omega), toInt32_of_lt h31]
  have hr : ZbdReads b d i pos n n := by
    cases b with
    | blockDev => exact zbdReads_blockDev h0
    | zoneFS =>
        have hr := zbdReads_zoneFs hz hle h0 hend h31
        rcases h with h | ⟨-, h⟩ | ⟨h, -⟩
        · cases h
        · rwa [Nat.min_eq_left (by omega)] at hr
        · omega
  obtain ⟨k, hk⟩ := hr
  refine ⟨k + 2, ?_⟩
  rw [readLoop, if_neg (by omega), hint, zbdRead_mono hk (Nat.le_succ k)]
  dsimp only
  rw [if_neg (by omega), Int.toNat_natCast, readLoop, if_pos (by omega)]

theorem read_delivered (hz : DeviceZone d i) (hle : (d.zones i).start ≤ pos)
    (hpos : pos < (d.zones i).wp) (hend : pos + n ≤ zoneEnd d i) (h0 : 0 < n) (h31 : n < 2 ^ 31)
    (h : Delivered b d i pos n) :
    ∃ fuel, read b d i fuel pos n = some (d.mem.read pos n, pos + n, .ok) := by
  obtain ⟨fuel, hfuel⟩ := readLoop_delivered hz hle hend h0 h31 h
  refine ⟨fuel, ?_⟩
  rw [Reading.read, if_neg (by omega), if_neg (by omega), hfuel]

theorem read_unique {r r' : List Byte × Nat × Status} (h : read b d i fuel pos n = some r)
    (h' : read b d i fuel' pos n = some r') : r = r' := by
  rcases Nat.le_total fuel fuel' with hle | hle
  · exact Option.some.inj ((read_mono h hle).symm.trans h')
  · exact Option.some.inj (h.symm.trans (read_mono h' hle))

variable {c : Crc32c}

/-- The header at `pos`. -/
def headerAt (d : Zbd) (pos : Nat) : List Byte := d.mem.read pos ZenMetaLog.zMetaHeaderSize

/-- The length that the header at `pos` claims. -/
def claimedAt (d : Zbd) (pos : Nat) : UInt32 := decodeFixed32 ((headerAt d pos).drop 4)

/-- What `ReadRecord` does behind the second read. -/
def checkRecord (c : Crc32c) (d : Zbd) (pos : Nat) :
    List Byte × Nat × Status → List Byte × Nat × Status
  | (record, readPos, s) =>
      if s.isOk = false then (record, readPos, s)
      else if ZenMetaLog.checksum c (claimedAt d pos) record ≠
        c.unmask (decodeFixed32 (headerAt d pos)) then
        (record, readPos, .ioError "Not a valid record")
      else (record, ZenMetaLog.toBoundary d.blockSize readPos, .ok)

theorem readRecord_of_header
    (h : read b d i fuel pos ZenMetaLog.zMetaHeaderSize =
      some (headerAt d pos, pos + ZenMetaLog.zMetaHeaderSize, .ok)) :
    readRecord b d i c fuel pos =
      (read b d i fuel (pos + ZenMetaLog.zMetaHeaderSize) (claimedAt d pos).toNat).map
        (checkRecord c d pos) := by
  have hne : headerAt d pos ≠ [] := by
    apply List.ne_nil_of_length_pos
    rw [headerAt, Mem.length_read]
    decide
  rw [readRecord, h]
  dsimp only
  rw [if_neg (by decide), if_neg hne, ← claimedAt]
  cases read b d i fuel (pos + ZenMetaLog.zMetaHeaderSize) (claimedAt d pos).toNat with
  | none => rfl
  | some x =>
      obtain ⟨record, readPos, st⟩ := x
      rw [Option.map_some, checkRecord]
      dsimp only
      split
      · rfl
      · split <;> rfl

/-- The header at `pos` is delivered, and the record that it claims. -/
def RecordEnds (b : ZbdBackendType) (d : Zbd) (i : ZoneId) (pos : Nat) : Prop :=
  ReadEnds b d i pos ZenMetaLog.zMetaHeaderSize ∧
    (pos < (d.zones i).wp → pos + ZenMetaLog.zMetaHeaderSize ≤ zoneEnd d i →
      ReadEnds b d i (pos + ZenMetaLog.zMetaHeaderSize) (claimedAt d pos).toNat)

theorem readRecord_iff (hz : DeviceZone d i) (hle : (d.zones i).start ≤ pos) :
    (∃ fuel r, readRecord b d i c fuel pos = some r) ↔ RecordEnds b d i pos := by
  have h8 : ZenMetaLog.zMetaHeaderSize = 8 := rfl
  by_cases hwp : (d.zones i).wp ≤ pos
  · refine iff_of_true ⟨0, ([], pos, .ok), ?_⟩ ⟨.inl hwp, fun h ↦ by omega⟩
    rw [readRecord, Reading.read, if_pos hwp]
    rfl
  by_cases hend : zoneEnd d i < pos + ZenMetaLog.zMetaHeaderSize
  · refine iff_of_true ⟨0, ([], pos, .ioError "Read across zone"), ?_⟩
      ⟨.inr (.inl hend), fun _ h ↦ by omega⟩
    rw [readRecord, Reading.read, if_neg hwp, if_pos hend]
    rfl
  have hfirst : ∀ {fuel r}, readRecord b d i c fuel pos = some r →
      ∃ x, read b d i fuel pos ZenMetaLog.zMetaHeaderSize = some x := by
    intro fuel r hr
    cases hx : read b d i fuel pos ZenMetaLog.zMetaHeaderSize with
    | none =>
        rw [readRecord, hx] at hr
        cases hr
    | some x => exact ⟨x, rfl⟩
  by_cases hd : Delivered b d i pos ZenMetaLog.zMetaHeaderSize
  · obtain ⟨k, hk⟩ := read_delivered hz hle (by omega) (by omega) (by decide) (by decide) hd
    have hsize := (claimedAt d pos).toNat_lt
    rw [RecordEnds, ← read_iff hz (by omega) hsize]
    constructor
    · rintro ⟨fuel, r, hr⟩
      refine ⟨.inr (.inr (.inr hd)), fun _ _ ↦ ⟨fuel, ?_⟩⟩
      obtain ⟨x, hx⟩ := hfirst hr
      obtain rfl := read_unique hx hk
      rw [readRecord_of_header hx, Option.map_eq_some_iff] at hr
      obtain ⟨y, hy, -⟩ := hr
      exact ⟨y, hy⟩
    · rintro ⟨-, h⟩
      obtain ⟨fuel, r, hr⟩ := h (by omega) (by omega)
      refine ⟨max k fuel, checkRecord c d pos r, ?_⟩
      rw [readRecord_of_header (read_mono hk (Nat.le_max_left ..)),
        read_mono hr (Nat.le_max_right ..)]
      rfl
  · have hends : ¬ ReadEnds b d i pos ZenMetaLog.zMetaHeaderSize := by
      rintro (h | h | h | h)
      · exact hwp h
      · exact hend h
      · omega
      · exact hd h
    refine iff_of_false ?_ fun h ↦ hends h.1
    rintro ⟨fuel, r, hr⟩
    obtain ⟨x, hx⟩ := hfirst hr
    exact hends ((read_iff hz hle (by decide)).mp ⟨fuel, x, hx⟩)

/-! ## The whole log -/

/-- Where the calls of `ReadRecord` get to, one after the other. -/
inductive Visits (b : ZbdBackendType) (d : Zbd) (i : ZoneId) (c : Crc32c) : Nat → Prop
  | start : Visits b d i c (d.zones i).start
  | next {fuel pos pos' : Nat} {record : List Byte} (h : Visits b d i c pos)
      (hr : readRecord b d i c fuel pos = some (record, pos', .ok)) (hne : record ≠ []) :
      Visits b d i c pos'

/-- A read gives nothing, or it ends well behind what it gives. -/
theorem le_of_read {bytes : List Byte} {pos' : Nat}
    (h : read b d i fuel pos n = some (bytes, pos', .ok)) :
    (bytes = [] ∧ pos' = pos) ∨ (pos + n ≤ zoneEnd d i ∧ pos + n ≤ pos') := by
  rw [Reading.read] at h
  split at h
  · simp only [Option.some.injEq, Prod.mk.injEq] at h
    exact .inl ⟨h.1.symm, h.2.1.symm⟩
  · split at h
    · simp at h
    · rename_i hend
      cases hx : readLoop b d i n fuel 0 pos with
      | none =>
          rw [hx] at h
          cases h
      | some x =>
          obtain ⟨p, st⟩ := x
          rw [hx] at h
          cases st with
          | ok =>
              obtain ⟨-, h⟩ := Prod.mk.inj (Option.some.inj h)
              obtain rfl := (Prod.mk.inj h).1
              exact .inr ⟨Nat.le_of_not_lt hend, le_of_readLoop hx⟩
          | notFound | corruption | notSupported | invalidArgument | ioError | noSpace => cases h

/-- The two reads behind a record that is returned. -/
theorem readRecord_eq_ok {record : List Byte} {pos' : Nat}
    (hr : readRecord b d i c fuel pos = some (record, pos', .ok)) (hne : record ≠ []) :
    ∃ header p p', read b d i fuel pos ZenMetaLog.zMetaHeaderSize = some (header, p, .ok) ∧
    header ≠ [] ∧
      read b d i fuel p (decodeFixed32 (header.drop 4)).toNat = some (record, p', .ok) ∧
      pos' = ZenMetaLog.toBoundary d.blockSize p' := by
  have isOk_eq : ∀ st : Status, st.isOk = true → st = .ok := by
    rintro (_ | _ | _ | _ | _ | _ | _) <;> simp [Status.isOk]
  rw [readRecord] at hr
  cases hx : read b d i fuel pos ZenMetaLog.zMetaHeaderSize with
  | none => simp [hx] at hr
  | some x =>
      obtain ⟨header, p, st⟩ := x
      simp only [hx] at hr
      split at hr
      · simp only [Option.some.injEq, Prod.mk.injEq] at hr
        exact absurd hr.1.symm hne
      rename_i hst
      obtain rfl := isOk_eq st (by simpa using hst)
      split at hr
      · simp only [Option.some.injEq, Prod.mk.injEq] at hr
        exact absurd hr.1.symm hne
      rename_i hheader
      cases hy : read b d i fuel p (decodeFixed32 (header.drop 4)).toNat with
      | none => simp [hy] at hr
      | some y =>
          obtain ⟨record', p', st'⟩ := y
          simp only [hy] at hr
          split at hr
          · rename_i hbad
            simp only [Option.some.injEq, Prod.mk.injEq] at hr
            simp [hr.2.2] at hbad
          rename_i hst'
          obtain rfl := isOk_eq st' (by simpa using hst')
          split at hr
          · simp at hr
          · simp only [Option.some.injEq, Prod.mk.injEq] at hr
            obtain ⟨rfl, rfl, -⟩ := hr
            exact ⟨header, p, p', rfl, hheader, hy, rfl⟩

/-- It is behind its header, and the zone ends behind it. -/
theorem readRecord_pos {record : List Byte} {pos' : Nat}
    (hr : readRecord b d i c fuel pos = some (record, pos', .ok)) (hne : record ≠ []) :
    pos + ZenMetaLog.zMetaHeaderSize ≤ pos' ∧ pos + ZenMetaLog.zMetaHeaderSize ≤ zoneEnd d i := by
  obtain ⟨header, p, p', hx, hheader, hy, rfl⟩ := readRecord_eq_ok hr hne
  obtain ⟨hend, hle⟩ := (le_of_read hx).resolve_left fun h ↦ hheader h.1
  have hle' := ((le_of_read hy).resolve_left fun h ↦ hne h.1).2
  have hb := ZenMetaLog.le_toBoundary d.blockSize p'
  exact ⟨by omega, hend⟩

theorem Visits.le (h : Visits b d i c pos) : (d.zones i).start ≤ pos := by
  induction h with
  | start => exact Nat.le_refl _
  | next _ hr hne ih =>
      have := (readRecord_pos hr hne).1
      omega

/-- Reading the log in zone `i` ends: `ReadRecord` returns, the position behind a
record is another one, and `RecoverFrom` returns. -/
structure ReadingEnds (b : ZbdBackendType) (d : Zbd) (i : ZoneId) (c : Crc32c) (σ : Type) :
    Prop where
  record : ∀ pos, Visits b d i c pos → ∃ fuel r, readRecord b d i c fuel pos = some r
  advances : ∀ fuel pos pos' record, Visits b d i c pos →
    readRecord b d i c fuel pos = some (record, pos', .ok) → record ≠ [] → pos < pos'
  recover : ∀ (k : Decoders σ) pos at_least_one_snapshot s, Visits b d i c pos →
    ∃ fuel r, recoverFrom b d i c k fuel pos at_least_one_snapshot s = some r

variable {σ : Type}

theorem readRecord_mono {r : List Byte × Nat × Status} (h : readRecord b d i c fuel pos = some r)
    (hle : fuel ≤ fuel') : readRecord b d i c fuel' pos = some r := by
  rw [readRecord] at h ⊢
  cases hx : read b d i fuel pos ZenMetaLog.zMetaHeaderSize with
  | none => simp [hx] at h
  | some x =>
      obtain ⟨header, p, st⟩ := x
      rw [read_mono hx hle]
      rw [hx] at h
      dsimp only at h ⊢
      by_cases hst : st.isOk = false
      · rwa [if_pos hst] at h ⊢
      by_cases hheader : header = []
      · rwa [if_neg hst, if_pos hheader] at h ⊢
      rw [if_neg hst, if_neg hheader] at h ⊢
      cases hy : read b d i fuel p (decodeFixed32 (header.drop 4)).toNat with
      | none => simp [hy] at h
      | some y =>
          rw [read_mono hy hle]
          rwa [hy] at h

theorem readRecord_unique {r r' : List Byte × Nat × Status}
    (h : readRecord b d i c fuel pos = some r)
    (h' : readRecord b d i c fuel' pos = some r') : r = r' := by
  rcases Nat.le_total fuel fuel' with hle | hle
  · exact Option.some.inj ((readRecord_mono h hle).symm.trans h')
  · exact Option.some.inj (h.symm.trans (readRecord_mono h' hle))

/-- Recovery goes on behind a record, or it returns. -/
theorem recoverFrom_ends (k : Decoders σ)
    (h : ∀ pos, Visits b d i c pos → ∃ fuel r, readRecord b d i c fuel pos = some r) :
    ∀ n pos, zoneEnd d i - pos ≤ n → Visits b d i c pos → ∃ bound, ∀ fuel, bound ≤ fuel →
      ∀ at_least_one_snapshot s, ∃ r, recoverFrom b d i c k fuel pos at_least_one_snapshot s =
      some r := by
  intro n
  induction n using Nat.strongRecOn with
  | ind n ih =>
      intro pos hn hpos
      obtain ⟨m, ⟨record, pos', st⟩, hr⟩ := h pos hpos
      have h8 : ZenMetaLog.zMetaHeaderSize = 8 := rfl
      -- the calls behind this one need this many turns
      obtain ⟨bound, hbound⟩ : ∃ bound, ∀ fuel, bound ≤ fuel → st = .ok → record ≠ [] →
          ∀ at_least_one_snapshot s,
            ∃ r, recoverFrom b d i c k fuel pos' at_least_one_snapshot s = some r := by
        by_cases hnext : st = .ok ∧ record ≠ []
        · obtain ⟨rfl, hne⟩ := hnext
          obtain ⟨hle, hend⟩ := readRecord_pos hr hne
          obtain ⟨bound, hbound⟩ := ih (zoneEnd d i - pos') (by omega) pos' (Nat.le_refl _)
            (hpos.next hr hne)
          exact ⟨bound, fun fuel hfuel _ _ ↦ hbound fuel hfuel⟩
        · exact ⟨0, fun _ _ hst hne ↦ absurd ⟨hst, hne⟩ hnext⟩
      refine ⟨max m bound + 1, fun fuel hfuel snapshot s ↦ ?_⟩
      obtain ⟨fuel, rfl⟩ : ∃ f, fuel = f + 1 := ⟨fuel - 1, by omega⟩
      rw [recoverFrom, readRecord_mono hr (by omega)]
      dsimp only
      by_cases hst : st.isOk = false
      · exact ⟨_, if_pos hst⟩
      rw [if_neg hst]
      by_cases hlast : record.length < 4 ∨ decodeFixed32 record = kEndRecord
      · exact ⟨_, if_pos hlast⟩
      rw [if_neg hlast]
      cases k.getLengthPrefixedSlice (record.drop 4) with
      | none => exact ⟨_, rfl⟩
      | some data =>
          dsimp only
          generalize k.apply (decodeFixed32 record) data s = x
          obtain ⟨s', st'⟩ := x
          cases st' with
          | ok =>
              refine hbound fuel (by omega) ?_ ?_ _ _
              · cases st with
                | ok => rfl
                | notFound | corruption | notSupported | invalidArgument | ioError | noSpace =>
                    exact absurd rfl hst
              · rintro rfl
                exact hlast (.inl (by decide))
          | notFound | corruption | notSupported | invalidArgument | ioError | noSpace =>
              exact ⟨_, rfl⟩

/-- Reading the log ends exactly if every header that the calls get to is delivered, and
the record that it claims. -/
theorem readingEnds_iff (hz : DeviceZone d i) :
    ReadingEnds b d i c σ ↔ ∀ pos, Visits b d i c pos → RecordEnds b d i pos := by
  constructor
  · exact fun h pos hpos ↦ (readRecord_iff hz hpos.le).mp (h.record pos hpos)
  · intro h
    have hrecord : ∀ pos, Visits b d i c pos → ∃ fuel r, readRecord b d i c fuel pos = some r :=
      fun pos hpos ↦ (readRecord_iff hz hpos.le).mpr (h pos hpos)
    refine ⟨hrecord, fun fuel pos pos' record _ hr hne ↦ ?_, fun k pos snapshot s hpos ↦ ?_⟩
    · have hle := (readRecord_pos hr hne).1
      have h8 : ZenMetaLog.zMetaHeaderSize = 8 := rfl
      omega
    · obtain ⟨bound, hbound⟩ := recoverFrom_ends k hrecord _ pos (Nat.le_refl _) hpos
      exact ⟨bound, hbound bound (Nat.le_refl _) snapshot s⟩

/-- A zone of which one block is written, with a header that claims `size` bytes. -/
def oneBlock (size : Byte) : Zbd where
  blockSize := 16
  zoneSize := 64
  nrZones := 1
  zones := fun _ ↦ ⟨64, 64, 48, 80, 0, true, 0, 0⟩
  mem := fun a ↦ if a = 68 then size else 0

theorem deviceZone_oneBlock (size : Byte) : DeviceZone (oneBlock size) 0 :=
  ⟨⟨1, rfl⟩, Nat.le_refl 64, by show 64 ≤ 2 ^ 63; decide⟩

/-- A record that lies in its block. -/
theorem readingEnds_iff_oneBlock : ReadingEnds .zoneFS (oneBlock 4) 0 .castagnoli Unit := by
  refine (readingEnds_iff (deviceZone_oneBlock 4)).mpr fun pos hpos ↦ ?_
  have hcases : pos = 64 ∨ 80 ≤ pos := by
    cases hpos with
    | start => exact .inl rfl
    | next h hr hne =>
        obtain ⟨header, p, p', hx, hheader, hy, rfl⟩ := readRecord_eq_ok hr hne
        have hle := h.le
        have hp := ((le_of_read hx).resolve_left fun h ↦ hheader h.1).2
        have hp' := ((le_of_read hy).resolve_left fun h ↦ hne h.1).2
        have h16 : (oneBlock 4).blockSize = 16 := rfl
        have h64 : ((oneBlock 4).zones 0).start = 64 := rfl
        have h8 : ZenMetaLog.zMetaHeaderSize = 8 := rfl
        have hb := ZenMetaLog.le_toBoundary 16 p'
        have hdvd : 16 ∣ ZenMetaLog.toBoundary 16 p' := ZenMetaLog.dvd_toBoundary (by decide) p'
        rw [h16]
        omega
  have hwp : ((oneBlock 4).zones 0).wp = 80 := rfl
  rcases hcases with rfl | hge
  · exact ⟨.inr (.inr (.inr (.inr (.inl (by decide))))), fun _ _ ↦
      .inr (.inr (.inr (.inr (.inl (by decide)))))⟩
  · exact ⟨.inl (by omega), fun h ↦ by omega⟩

/-- A crash has cut off the record behind its first block. -/
theorem exists_endless_read :
    (∀ fuel, readRecord .zoneFS (oneBlock 20) 0 .castagnoli fuel 64 = none) ∧
      ¬ ReadingEnds .zoneFS (oneBlock 20) 0 .castagnoli Unit := by
  have hnot : ¬ RecordEnds .zoneFS (oneBlock 20) 0 64 := by
    rintro ⟨-, h⟩
    rcases h (by decide) (by decide) with h | h | h | h | ⟨-, h⟩ | ⟨h, -⟩
    · exact absurd h (by decide)
    · exact absurd h (by decide)
    · exact absurd h (by decide)
    · cases h
    · exact absurd h (by decide)
    · exact absurd h (by decide)
  have hread : (∃ fuel r, readRecord .zoneFS (oneBlock 20) 0 .castagnoli fuel 64 = some r) ↔ _ :=
    readRecord_iff (deviceZone_oneBlock 20) (Nat.le_refl 64)
  refine ⟨fun fuel ↦ ?_, fun h ↦ hnot (hread.mp (h.record 64 .start))⟩
  rw [Option.eq_none_iff_forall_ne_some]
  exact fun r hr ↦ hnot (hread.mp ⟨fuel, r, hr⟩)

/-! ## Reads that get everything -/

/-- What is delivered, or refused, is what the log gets from a backend that delivers. -/
theorem read_eq (hz : DeviceZone d i) (hle : (d.zones i).start ≤ pos) (h32 : n < 2 ^ 32)
    (h : ReadEnds b d i pos n) (h31 : b = .blockDev ∨ n < 2 ^ 31) :
    ∃ fuel, read b d i fuel pos n = some (ZenMetaLog.read d i pos n) := by
  rw [ZenMetaLog.read]
  by_cases hwp : (d.zones i).wp ≤ pos
  · exact ⟨0, by rw [Reading.read, if_pos hwp, if_pos hwp]⟩
  rw [if_neg hwp, ← zoneEnd]
  by_cases hend : zoneEnd d i < pos + n
  · exact ⟨0, by rw [Reading.read, if_neg hwp, if_pos hend, if_pos hend]⟩
  rw [if_neg hend]
  rcases Nat.eq_zero_or_pos n with rfl | h0
  · refine ⟨1, ?_⟩
    rw [Reading.read, if_neg hwp, if_neg hend, readLoop, if_pos (Nat.le_refl 0), if_pos rfl]
    rfl
  rw [if_neg (Nat.ne_of_gt h0), Zbd.read, Nat.mod_eq_of_lt h32]
  by_cases hint : n < 2 ^ 31
  · have hd : Delivered b d i pos n := by
      rcases h with h | h | h | h
      · omega
      · omega
      · omega
      · exact h
    obtain ⟨fuel, hfuel⟩ := read_delivered hz hle (by omega) (by omega) h0 hint hd
    refine ⟨fuel, ?_⟩
    rw [hfuel, if_pos ⟨h0, hint⟩]
    dsimp only
    rw [Mem.length_read]
  · -- the block device refuses what is no `int`
    obtain rfl := h31.resolve_right hint
    have hneg : toInt32 ((n - 0) % 2 ^ 32) < 0 := by
      rw [Nat.sub_zero, toInt32_mod_of_ge (by omega) h32]
      omega
    obtain ⟨k, hk⟩ : ZbdReads .blockDev d i pos (toInt32 ((n - 0) % 2 ^ 32)) (-1) := by
      have hread : beRead .blockDev d i (toInt32 ((n - 0) % 2 ^ 32)) pos = -1 := if_pos hneg
      exact hread ▸ zbdReads_neg (by omega) (by rw [hread]; decide)
    refine ⟨k + 1, ?_⟩
    rw [Reading.read, if_neg hwp, if_neg hend, readLoop, if_neg (by omega), hk,
      if_neg (fun h ↦ hint h.2)]
    rfl

theorem frameReadRecord_eq (hwp : pos < (d.zones i).wp)
    (hend : pos + ZenMetaLog.zMetaHeaderSize ≤ zoneEnd d i) :
    ZenMetaLog.readRecord c d i pos =
      checkRecord c d pos
        (ZenMetaLog.read d i (pos + ZenMetaLog.zMetaHeaderSize) (claimedAt d pos).toNat) := by
  have hheader : ZenMetaLog.read d i pos ZenMetaLog.zMetaHeaderSize =
      (headerAt d pos, pos + ZenMetaLog.zMetaHeaderSize, .ok) := by
    rw [ZenMetaLog.read, if_neg (Nat.not_le.mpr hwp), ← zoneEnd, if_neg (Nat.not_lt.mpr hend),
      if_neg (by decide), Zbd.read, if_pos (by decide)]
    rfl
  have hne : headerAt d pos ≠ [] := by
    apply List.ne_nil_of_length_pos
    rw [headerAt, Mem.length_read]
    decide
  rw [ZenMetaLog.readRecord, hheader]
  dsimp only
  rw [if_neg (by decide), if_neg hne, ← claimedAt]
  generalize ZenMetaLog.read d i (pos + ZenMetaLog.zMetaHeaderSize) (claimedAt d pos).toNat = x
  obtain ⟨record, readPos, s⟩ := x
  rfl

/-- So is the record. -/
theorem readRecord_eq (hz : DeviceZone d i) (hle : (d.zones i).start ≤ pos)
    (h : RecordEnds b d i pos) (h31 : b = .blockDev ∨ (claimedAt d pos).toNat < 2 ^ 31) :
    ∃ fuel, readRecord b d i c fuel pos = some (ZenMetaLog.readRecord c d i pos) := by
  by_cases hwp : (d.zones i).wp ≤ pos
  · refine ⟨0, ?_⟩
    rw [readRecord, Reading.read, if_pos hwp, ZenMetaLog.readRecord_eof hwp]
    rfl
  by_cases hend : zoneEnd d i < pos + ZenMetaLog.zMetaHeaderSize
  · refine ⟨0, ?_⟩
    rw [readRecord, Reading.read, if_neg hwp, if_pos hend, ZenMetaLog.readRecord,
      ZenMetaLog.read, if_neg hwp, ← zoneEnd, if_pos hend]
    rfl
  have hsize := (claimedAt d pos).toNat_lt
  have hd : Delivered b d i pos ZenMetaLog.zMetaHeaderSize := by
    rcases h.1 with h | h | h | h
    · exact absurd h hwp
    · exact absurd h hend
    · cases h
    · exact h
  obtain ⟨k, hk⟩ := read_delivered hz hle (by omega) (by omega) (by decide) (by decide) hd
  obtain ⟨m, hm⟩ := read_eq (b := b) hz (by omega) hsize (h.2 (by omega) (by omega)) h31
  refine ⟨max k m, ?_⟩
  rw [readRecord_of_header (read_mono hk (Nat.le_max_left ..)), read_mono hm (Nat.le_max_right ..),
    Option.map_some, frameReadRecord_eq (by omega) (by omega)]

end Reading

end ZenFs
