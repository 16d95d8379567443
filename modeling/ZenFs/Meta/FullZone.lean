import ZenFs.Meta.Reading

/-!
# A metadata zone that is exactly full

A roll finishes the old log with an end record only if there is space for one.  Behind a
log that is exactly full the end is found by comparing the read position with the write
pointer.  When the device is opened again, that of a full zone is the end of the zone,
which is not where the log ends if the last part of the zone cannot be written.
-/

namespace ZenFs

namespace ZenMetaLog

variable (c : Crc32c) (b : ZbdBackendType) (d : Zbd) (i : ZoneId)

/-- The `Zone` of a full zone when the device is opened again. -/
def reopened : Zbd :=
  d.setZone i
    { d.zones i with
      capacity := 0
      wp := (d.zones i).start + d.zoneSize
      usedCapacity := 0
      busy := false
      resetCount := 0
      finishCount := 0 }

/-- No decoder reports what `RecoverFrom` reports when it cannot read a record. -/
def Distinct {σ : Type} (k : Reading.Decoders σ) : Prop :=
  ∀ tag data s, (k.apply tag data s).2 ≠ .corruption "Metadata corruption"

/-- A zone that the records fill can be read: behind a restart it gives the records, and
then there is nothing more; and `RecoverFrom` finds nothing that it cannot read. -/
structure Readable (σ : Type) (records : List (List Byte × List WriteCall)) : Prop where
  records : readRecords c (reopened d i) i (records.length + 1) (d.zones i).start =
    records.map (fun r ↦ (r.1, .ok)) ++ [([], .ok)]
  recover : ∀ (k : Reading.Decoders σ), Distinct k → ∀ fuel s s' st,
    Reading.recoverFrom b (reopened d i) i c k fuel (d.zones i).start false s = some (s', st) →
      st ≠ .corruption "Metadata corruption"

variable {c b d i} {pos n : Nat} {σ : Type}

/-! ## In front of the end of the log -/

theorem reopened_zones : (reopened d i).zones i =
    { d.zones i with
      capacity := 0
      wp := (d.zones i).start + d.zoneSize
      usedCapacity := 0
      busy := false
      resetCount := 0
      finishCount := 0 } := by
  simp [reopened]

theorem zoneEnd_reopened : Reading.zoneEnd (reopened d i) i = Reading.zoneEnd d i := by
  rw [Reading.zoneEnd, reopened_zones, Reading.zoneEnd]

/-- In front of the end of the log the write pointer does not matter. -/
theorem read_reopened (h : pos < (d.zones i).wp)
    (h' : (d.zones i).wp ≤ (d.zones i).start + d.zoneSize) :
    read (reopened d i) i pos n = read d i pos n := by
  have hread : (reopened d i).read pos n = d.read pos n := rfl
  rw [read, read, reopened_zones, hread]
  dsimp only
  rw [if_neg (by omega), if_neg (Nat.not_le.mpr h)]

theorem readRecord_reopened (h : pos + zMetaHeaderSize < (d.zones i).wp)
    (hend : (d.zones i).wp ≤ Reading.zoneEnd d i)
    (h' : (d.zones i).wp ≤ (d.zones i).start + d.zoneSize) :
    readRecord c (reopened d i) i pos = readRecord c d i pos := by
  have hwp : pos < ((reopened d i).zones i).wp := by
    rw [reopened_zones]
    dsimp only
    omega
  rw [Reading.frameReadRecord_eq hwp (by rw [zoneEnd_reopened]; omega),
    Reading.frameReadRecord_eq (by omega) (by omega)]
  exact congrArg (Reading.checkRecord c d pos) (read_reopened h h')

/-- Behind the last record of a zone that is exactly full. -/
theorem readRecord_full (hpos : pos = (d.zones i).start + (d.zones i).maxCapacity)
    (hcap : (d.zones i).maxCapacity ≤ d.zoneSize) :
    readRecord c (reopened d i) i pos =
      ([], pos, if (d.zones i).maxCapacity = d.zoneSize then .ok
        else .ioError "Read across zone") := by
  split
  · rename_i h
    refine readRecord_eof ?_
    rw [reopened_zones]
    dsimp only
    omega
  · rename_i h
    have h8 : zMetaHeaderSize = 8 := rfl
    have hread : read (reopened d i) i pos zMetaHeaderSize =
        ([], pos, .ioError "Read across zone") := by
      rw [read, reopened_zones]
      dsimp only
      rw [if_neg (by omega), if_pos (by omega)]
    rw [readRecord, hread]
    rfl

/-! ## All records -/

variable {records : List (List Byte × List WriteCall)}

/-- The frames of the records lie at `pos`, and with them the zone is full. -/
structure FullFrom (c : Crc32c) (d : Zbd) (i : ZoneId) (pos : Nat)
    (records : List (List Byte × List WriteCall)) : Prop where
  framesAt : At d i pos (frames c d.blockSize records)
  nonempty : ∀ r ∈ records, r.1 ≠ []
  size : ∀ r ∈ records, paddedSz d.blockSize r.1 < 2 ^ 32
  block : 0 < d.blockSize
  dvd : d.blockSize ∣ pos
  stop : (d.zones i).wp = pos + (frames c d.blockSize records).length
  full : (d.zones i).wp = Reading.zoneEnd d i
  zone : Reading.DeviceZone d i
  le : (d.zones i).start ≤ pos

theorem FullFrom.cons {r : List Byte × List WriteCall} (h : FullFrom c d i pos (r :: records)) :
    At d i pos (frameOf c d.blockSize r.1) ∧ pos + zMetaHeaderSize < (d.zones i).wp ∧
      FullFrom c d i (pos + (frameOf c d.blockSize r.1).length) records := by
  have hmem : r ∈ r :: records := List.mem_cons_self ..
  have hat := h.framesAt
  have hstop := h.stop
  rw [frames, List.flatMap_cons] at hat hstop
  obtain ⟨hr, hrs⟩ := hat.append
  have hlen : (frameOf c d.blockSize r.1).length = paddedSz d.blockSize r.1 :=
    length_frameOf (h.size r hmem)
  have hpad := le_toBoundary d.blockSize (r.1.length + zMetaHeaderSize)
  have hpos := List.length_pos_of_ne_nil (h.nonempty r hmem)
  rw [List.length_append] at hstop
  rw [paddedSz] at hlen
  refine ⟨hr, by omega, ?_⟩
  exact
    { framesAt := hrs
      nonempty := fun r' hr' ↦ h.nonempty r' (List.mem_cons_of_mem _ hr')
      size := fun r' hr' ↦ h.size r' (List.mem_cons_of_mem _ hr')
      block := h.block
      dvd := hlen ▸ Nat.dvd_add h.dvd (dvd_toBoundary h.block _)
      stop := by rw [hstop, Nat.add_assoc]; rfl
      full := h.full
      zone := h.zone
      le := Nat.le_add_right_of_le h.le }

theorem FullFrom.wp_le (h : FullFrom c d i pos records) :
    (d.zones i).wp ≤ (d.zones i).start + d.zoneSize := by
  have hcap := h.zone.capacity
  have hfull := h.full
  rw [Reading.zoneEnd] at hfull
  omega

/-- The records are read, and the end is found if the whole zone can be written. -/
theorem FullFrom.readRecords_iff (h : FullFrom c d i pos records) :
    readRecords c (reopened d i) i (records.length + 1) pos = records.map (fun r ↦ (r.1, .ok)) ++
    [([], .ok)] ↔
      (d.zones i).maxCapacity = d.zoneSize ∧ ∀ r ∈ records, r.1.length < 2 ^ 31 := by
  induction records generalizing pos with
  | nil =>
      have hpos : pos = (d.zones i).start + (d.zones i).maxCapacity := h.stop.symm.trans h.full
      rw [List.length_nil, readRecords, readRecord_full hpos h.zone.capacity]
      by_cases heq : (d.zones i).maxCapacity = d.zoneSize
      · rw [if_pos heq]
        exact iff_of_true rfl ⟨heq, by simp⟩
      · rw [if_neg heq]
        refine iff_of_false ?_ fun hall ↦ heq hall.1
        simp [readRecords]
  | cons r rs ih =>
      have hmem : r ∈ r :: rs := List.mem_cons_self ..
      obtain ⟨hr, hlt, hrs⟩ := h.cons
      rw [List.forall_mem_cons, List.length_cons, readRecords,
        readRecord_reopened hlt (Nat.le_of_eq h.full) h.wp_le, List.map_cons, List.cons_append,
        List.cons.injEq]
      rcases Nat.lt_or_ge r.1.length (2 ^ 31) with hint | hlarge
      · rw [readRecord_of_at hr (h.size r hmem) (h.nonempty r hmem) hint h.dvd]
        simp only [ih hrs, hint, true_and]
      · refine iff_of_false ?_ fun hall ↦ absurd hall.2.1 (Nat.not_lt.mpr hlarge)
        rintro ⟨hhead, -⟩
        have hfail := readRecord_large hr (h.size r hmem) hlarge
        rw [(Prod.mk.inj hhead).2] at hfail
        cases hfail

/-! ## Recovery -/

/-- The length in the header of a record. -/
theorem claimedAt_of_at {record : List Byte} (h : At d i pos (frameOf c d.blockSize record)) :
    Reading.claimedAt d pos = UInt32.ofNat record.length := by
  have hbytes := h.frameOf.1.bytes
  have hdrop : (encodeFixed32 (c.mask (checksum c (UInt32.ofNat record.length) record)) ++
      encodeFixed32 (UInt32.ofNat record.length)).drop 4 =
      encodeFixed32 (UInt32.ofNat record.length) ++ [] := by
    rw [List.drop_left' (length_encodeFixed32 _), List.append_nil]
  rw [Reading.claimedAt, Reading.headerAt, show d.mem.read pos zMetaHeaderSize =
    _ from hbytes, hdrop, decodeFixed32_encodeFixed32]

theorem deviceZone_reopened (h : Reading.DeviceZone d i) : Reading.DeviceZone (reopened d i) i := by
  refine ⟨?_, ?_, h.size⟩
  · rw [reopened_zones]
    exact h.start
  · rw [reopened_zones]
    exact h.capacity

/-- Through both backends a record is read as it is. -/
theorem FullFrom.readRecord_eq {r : List Byte × List WriteCall}
    (h : FullFrom c d i pos (r :: records))
    (hint : r.1.length < 2 ^ 31) {fuel : Nat} {x : List Byte × Nat × Status}
    (hx : Reading.readRecord b (reopened d i) i c fuel pos = some x) :
    x = (r.1, pos + (frameOf c d.blockSize r.1).length, .ok) := by
  have hmem : r ∈ r :: records := List.mem_cons_self ..
  obtain ⟨hr, hlt, -⟩ := h.cons
  have hclaimed : (Reading.claimedAt (reopened d i) pos).toNat = r.1.length := by
    show (Reading.claimedAt d pos).toNat = _
    rw [claimedAt_of_at hr, toNat_length (h.size r hmem)]
  have hwp : ((reopened d i).zones i).wp = (d.zones i).start + d.zoneSize := by rw [reopened_zones]
  have hstop := hr.frameOf.2.wp
  have hle := h.wp_le
  have hends : Reading.RecordEnds b (reopened d i) i pos := by
    refine ⟨.inr (.inr (.inr (.inr (.inl ⟨by decide, ?_⟩)))), fun _ _ ↦
      .inr (.inr (.inr (.inr (.inl ⟨?_, ?_⟩))))⟩
    · omega
    · omega
    · omega
  obtain ⟨k, hk⟩ := Reading.readRecord_eq (c := c) (deviceZone_reopened h.zone)
    (by rw [reopened_zones]; exact h.le) hends (.inr (by omega))
  rw [readRecord_reopened hlt (Nat.le_of_eq h.full) hle,
    readRecord_of_at hr (h.size r hmem) (h.nonempty r hmem) hint h.dvd] at hk
  exact Reading.readRecord_unique hx hk

/-- At the end of a zone that can be written as a whole there is nothing more. -/
theorem FullFrom.readRecord_nil (h : FullFrom c d i pos [])
    (hcap : (d.zones i).maxCapacity = d.zoneSize) {fuel : Nat} {x : List Byte × Nat × Status}
    (hx : Reading.readRecord b (reopened d i) i c fuel pos = some x) : x = ([], pos, .ok) := by
  have hpos : (d.zones i).wp = pos := h.stop
  have hfull := h.full
  rw [Reading.zoneEnd] at hfull
  have hwp : ((reopened d i).zones i).wp ≤ pos := by
    rw [reopened_zones]
    dsimp only
    omega
  rw [Reading.readRecord, Reading.read, if_pos hwp] at hx
  exact (Option.some.inj hx).symm

/-- Recovery gets all of the records and meets the end of the log. -/
theorem FullFrom.recoverFrom_ne {k : Reading.Decoders σ} (hk : Distinct k)
    (hcap : (d.zones i).maxCapacity = d.zoneSize) :
    ∀ {records : List (List Byte × List WriteCall)} {pos : Nat}, FullFrom c d i pos records →
      (∀ r ∈ records, r.1.length < 2 ^ 31) → ∀ fuel at_least_one_snapshot s s' st,
        Reading.recoverFrom b (reopened d i) i c k fuel pos at_least_one_snapshot s =
        some (s', st) →
          st ≠ .corruption "Metadata corruption" := by
  have hrecovered : ∀ snapshot, Reading.recovered snapshot ≠ .corruption "Metadata corruption" := by
    intro snapshot
    cases snapshot <;> decide
  intro records
  induction records with
  | nil =>
      intro pos h _ fuel snapshot s s' st hrun
      cases fuel with
      | zero => cases hrun
      | succ fuel =>
          rw [Reading.recoverFrom] at hrun
          cases hx : Reading.readRecord b (reopened d i) i c fuel pos with
          | none => simp [hx] at hrun
          | some x =>
              obtain rfl := h.readRecord_nil hcap hx
              rw [hx] at hrun
              dsimp only at hrun
              rw [if_neg (by decide), if_pos (.inl (by decide))] at hrun
              obtain ⟨-, rfl⟩ := Prod.mk.inj (Option.some.inj hrun)
              exact hrecovered snapshot
  | cons r rs ih =>
      intro pos h hint fuel snapshot s s' st hrun
      cases fuel with
      | zero => cases hrun
      | succ fuel =>
          rw [Reading.recoverFrom] at hrun
          cases hx : Reading.readRecord b (reopened d i) i c fuel pos with
          | none => simp [hx] at hrun
          | some x =>
              obtain rfl := h.readRecord_eq (hint r (List.mem_cons_self ..)) hx
              rw [hx] at hrun
              dsimp only at hrun
              rw [if_neg (by decide)] at hrun
              split at hrun
              · obtain ⟨-, rfl⟩ := Prod.mk.inj (Option.some.inj hrun)
                exact hrecovered snapshot
              cases hdata : k.getLengthPrefixedSlice (r.1.drop 4) with
              | none =>
                  rw [hdata] at hrun
                  obtain ⟨-, rfl⟩ := Prod.mk.inj (Option.some.inj hrun)
                  decide
              | some data =>
                  rw [hdata] at hrun
                  dsimp only at hrun
                  have happly := hk (decodeFixed32 r.1) data s
                  generalize k.apply (decodeFixed32 r.1) data s = y at hrun happly
                  obtain ⟨s₁, st₁⟩ := y
                  cases st₁ with
                  | ok => exact ih h.cons.2.2 (fun r' hr' ↦
                      hint r' (List.mem_cons_of_mem _ hr')) _ _ _ _ _ hrun
                  | notFound | corruption | notSupported | invalidArgument | ioError | noSpace =>
                      obtain ⟨-, rfl⟩ := Prod.mk.inj (Option.some.inj hrun)
                      exact happly

/-! ## Behind a restart -/

/-- The zone that the records have filled. -/
theorem fullFrom_addRecords (hz : EmptyZone d i) (hdev : Reading.DeviceZone d i)
    (h : Fits d i records) (hadd : (addRecords c b i d records).2 = records.map fun _ ↦ .ok)
    (hfull : (records.map fun r ↦ paddedSz d.blockSize r.1).sum = (d.zones i).capacity) :
    FullFrom c (addRecords c b i d records).1 i (d.zones i).start records := by
  rw [addRecords_eq h (lt_of_addRecords h hadd)]
  dsimp only
  have hlen : (frames c d.blockSize records).length = (d.zones i).capacity :=
    (length_frames h.size).trans hfull
  have hzone : (d.appended i (frames c d.blockSize records)).zones i =
      { d.zones i with
        wp := (d.zones i).wp + (frames c d.blockSize records).length
        capacity := (d.zones i).capacity - (frames c d.blockSize records).length } := by
    rw [Zbd.appended_zones, if_pos rfl]
  have hwp := hz.wp
  have hcap := hz.capacity
  exact
    { framesAt := by
        refine ⟨?_, ?_, ?_⟩
        · rw [Zbd.appended_mem, hz.wp, Zbd.appended_blockSize, Mem.read_write]
        · rw [hzone, Zbd.appended_blockSize, hwp]
        · rw [hzone]
          dsimp only
          omega
      nonempty := h.nonempty
      size := h.size
      block := Nat.lt_of_lt_of_le (by decide) hz.block
      dvd := hz.start
      stop := by rw [hzone, Zbd.appended_blockSize, hwp]
      full := by
        rw [Reading.zoneEnd, hzone]
        dsimp only
        omega
      zone := by
        refine ⟨?_, ?_, hdev.size⟩
        · rw [hzone]
          exact hdev.start
        · rw [hzone]
          exact hdev.capacity
      le := by rw [hzone] }

/-- A zone that the records fill is readable behind a restart exactly if all of it can be
written, and the length of each record is an `int`. -/
theorem readable_iff (hz : EmptyZone d i) (hdev : Reading.DeviceZone d i) (h : Fits d i records)
    (hadd : (addRecords c b i d records).2 = records.map fun _ ↦ .ok)
    (hfull : (records.map fun r ↦ paddedSz d.blockSize r.1).sum = (d.zones i).capacity) :
    Readable c b (addRecords c b i d records).1 i σ records ↔
      (d.zones i).maxCapacity = d.zoneSize ∧ ∀ r ∈ records, r.1.length < 2 ^ 31 := by
  have hfrom := fullFrom_addRecords hz hdev h hadd hfull
  have hzone : (addRecords c b i d records).1.zoneSize = d.zoneSize ∧
      ((addRecords c b i d records).1.zones i).start = (d.zones i).start ∧
      ((addRecords c b i d records).1.zones i).maxCapacity = (d.zones i).maxCapacity := by
    rw [addRecords_eq h (lt_of_addRecords h hadd), Zbd.appended_zones, if_pos rfl]
    exact ⟨rfl, rfl, rfl⟩
  obtain ⟨hsize, hstart, hmax⟩ := hzone
  have hiff := hfrom.readRecords_iff
  rw [hmax, hsize] at hiff
  constructor
  · intro hr
    have hread := hr.records
    rw [hstart] at hread
    exact hiff.mp hread
  · intro hall
    refine ⟨by rw [hstart]; exact hiff.mpr hall, fun k hk fuel s s' st hrun ↦ ?_⟩
    rw [hstart] at hrun
    exact hfrom.recoverFrom_ne hk (by rw [hmax, hsize]; exact hall.1) hall.2 fuel false s s' st hrun

/-- Two records in a zone of two blocks that can be written as a whole. -/
theorem readable_iff_twoRecords :
    Readable .castagnoli .blockDev (addRecords .castagnoli .blockDev 0 (emptyLog 16 32)
      twoRecords).1 0 Unit twoRecords := by
  have hz : EmptyZone (emptyLog 16 32) 0 := ⟨by decide, by decide, rfl, rfl⟩
  have hdev : Reading.DeviceZone (emptyLog 16 32) 0 := ⟨by decide, Nat.le_refl 32, by decide⟩
  have h : Fits (emptyLog 16 32) 0 twoRecords := ⟨by decide, by decide, by decide, by decide⟩
  exact (readable_iff hz hdev h (by decide) (by decide)).mpr ⟨rfl, by decide⟩

/-- The same records in a zone of four blocks of which two can be written. -/
theorem exists_unreadable :
    ¬ Readable .castagnoli .blockDev
      (addRecords .castagnoli .blockDev 0 { emptyLog 16 32 with zoneSize := 64 }
        twoRecords).1 0 Unit
      twoRecords := by
  intro hr
  have hz : EmptyZone { emptyLog 16 32 with zoneSize := 64 } 0 := ⟨by decide, by decide, rfl, rfl⟩
  have hdev : Reading.DeviceZone { emptyLog 16 32 with zoneSize := 64 } 0 :=
    ⟨by decide, by decide, by decide⟩
  have h : Fits { emptyLog 16 32 with zoneSize := 64 } 0 twoRecords :=
    ⟨by decide, by decide, by decide, by decide⟩
  have hfrom := fullFrom_addRecords (c := .castagnoli) (b := .blockDev) hz hdev h
    (by decide) (by decide)
  have hsize := (hfrom.readRecords_iff.mp hr.records).1
  exact absurd hsize (by decide)

end ZenMetaLog

end ZenFs
