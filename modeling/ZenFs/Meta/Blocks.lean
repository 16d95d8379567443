import ZenFs.Meta.FullZone
import ZenFs.Meta.Log

/-!
# The metadata log in blocks and in bytes

The device of `Meta.Log` is a list of blocks and that of `Meta.Frame` one of bytes.  Here
they are held against each other: a record that is added goes to both, and at every record
of a zone, and behind the last one, `ReadRecord` gives the same on both, also when the
device has been opened again.  What is torn is left out, since it is the checksum that
finds it, and nothing is known of `crc32c`.
-/

namespace ZenFs

/-- An encoding of the records that has the lengths of a geometry, which are all an `int`
behind the header. -/
structure Encoding (G : Geometry) where
  encode : Record → List Byte
  length_encode : ∀ r, (encode r).length = G.recordSize r
  encode_ne_nil : ∀ r, encode r ≠ []
  lt_int : ∀ r, ZenMetaLog.paddedSz G.blockSize (encode r) < 2 ^ 31

namespace ZenMetaLog

variable {G : Geometry} {E : Encoding G} {c : Crc32c} {b : ZbdBackendType} {d : Zbd} {i : ZoneId}
  {z : MediaZone} {rs before after : List Record} {r : Record}

/-- The next boundary lies behind the blocks that have been begun. -/
theorem toBoundary_eq {bs : Nat} (hbs : 0 < bs) (n : Nat) :
    toBoundary bs n = bs * ((n + (bs - 1)) / bs) := by
  have hdiv := Nat.div_add_mod n bs
  have hlt := Nat.mod_lt n hbs
  have hsucc : bs * (n / bs + 1) = bs * (n / bs) + bs := Nat.mul_succ ..
  unfold toBoundary
  split
  · have heq : (n + (bs - 1)) / bs = n / bs := by
      rw [Nat.div_eq_iff hbs, Nat.mul_comm]
      omega
    rw [heq]
    omega
  · have heq : (n + (bs - 1)) / bs = n / bs + 1 := by
      rw [Nat.div_eq_iff hbs, Nat.mul_comm]
      omega
    rw [heq]
    omega

/-- Records with nothing to write them by. -/
def slices (E : Encoding G) (rs : List Record) : List (List Byte × List WriteCall) :=
  rs.map fun r ↦ (E.encode r, [])

section Sizes

variable (E : Encoding G) (c : Crc32c)

theorem paddedSz_encode (r : Record) :
    paddedSz G.blockSize (E.encode r) = G.blockSize * G.physBlocks r := by
  have hbs := G.endRecord_le
  rw [paddedSz, toBoundary_eq (by omega), E.length_encode]
  rfl

theorem paddedSz_lt (r : Record) : paddedSz G.blockSize (E.encode r) < 2 ^ 32 :=
  (E.lt_int r).trans (by decide)

theorem length_frameOf_encode (r : Record) :
    (frameOf c G.blockSize (E.encode r)).length = G.blockSize * G.physBlocks r := by
  rw [length_frameOf (paddedSz_lt E r), paddedSz_encode]

theorem length_frames_slices (rs : List Record) :
    (frames c G.blockSize (slices E rs)).length = G.blockSize * (G.frames rs).length := by
  induction rs with
  | nil => rfl
  | cons r rs ih =>
      rw [slices, List.map_cons, frames, List.flatMap_cons, List.length_append,
        length_frameOf_encode,
        Geometry.frames_cons, List.length_append, Geometry.length_frame, Nat.mul_add, ← ih]
      rfl

theorem frames_slices_append (bs : Nat) (before after : List Record) :
    frames c bs (slices E (before ++ after)) = frames c bs (slices E before) ++
    frames c bs (slices E after) := by
  simp [frames, slices]

end Sizes

/-- A record that does not fit leaves the zone as it is. -/
theorem addRecord_noSpace {record : List Byte} {calls : List WriteCall}
    (h32 : paddedSz d.blockSize record < 2 ^ 32)
    (hcap : (d.zones i).capacity < paddedSz d.blockSize record) :
    ZenMetaLog.addRecord c b i d record calls = (d, .noSpace "Not enough capacity for append") := by
  have hlen : (frameOf c d.blockSize record).length = paddedSz d.blockSize record :=
    length_frameOf h32
  simp only [addRecord, toNat_length h32, physSz_eq h32, Nat.mod_eq_of_lt h32, List.take_length]
  rw [← frameOf, ← hlen, List.take_length, Zbd.append, if_pos (hlen ▸ hcap)]

/-- The zone of the bytes is that of the blocks, with the complete frames of `rs`. -/
structure InBlocks (E : Encoding G) (c : Crc32c) (d : Zbd) (i : ZoneId) (z : MediaZone)
    (rs : List Record) : Prop where
  blockSize : d.blockSize = G.blockSize
  dvd_start : d.blockSize ∣ (d.zones i).start
  maxCapacity : (d.zones i).maxCapacity = d.blockSize * z.maxCapacity
  capacity : (d.zones i).capacity = d.blockSize * (z.maxCapacity - z.blocks.length)
  wp : (d.zones i).wp = (d.zones i).start + d.blockSize * z.blocks.length
  length_le : z.blocks.length ≤ z.maxCapacity
  blocks : z.blocks = G.frames rs
  bytes : d.mem.read (d.zones i).start (frames c d.blockSize (slices E rs)).length =
    frames c d.blockSize (slices E rs)

/-- The two results of `ReadRecord`: the same record or none, the same place behind it, or
the same error. -/
def SameResult (E : Encoding G) (d : Zbd) (i : ZoneId) :
    Except Status (Option Record × Nat) → List Byte × Nat × Status → Prop
  | .ok (none, pos), x => x = ([], (d.zones i).start + d.blockSize * pos, .ok)
  | .ok (some r, pos), x => x = (E.encode r, (d.zones i).start + d.blockSize * pos, .ok)
  | .error e, x => x.2.2 = e

namespace InBlocks

theorem of_emptyZone (hz : EmptyZone d i) (hbs : d.blockSize = G.blockSize) {n : Nat}
    (hn : (d.zones i).maxCapacity = d.blockSize * n) : InBlocks E c d i ⟨n, [], false⟩ [] where
  blockSize := hbs
  dvd_start := hz.start
  maxCapacity := hn
  capacity := hz.capacity.trans hn
  wp := hz.wp
  length_le := Nat.zero_le n
  blocks := rfl
  bytes := rfl

theorem framesAt (h : InBlocks E c d i z rs) :
    At d i (d.zones i).start (frames c d.blockSize (slices E rs)) where
  bytes := h.bytes
  wp := by rw [h.wp, h.blocks, h.blockSize, length_frames_slices]
  room := by
    rw [h.wp, h.maxCapacity]
    exact Nat.add_le_add_left (Nat.mul_le_mul_left _ h.length_le) _

/-- A record goes to both zones, or fits none of them. -/
theorem addRecord (h : InBlocks E c d i z rs) {calls : List WriteCall} (hcalls : .failed ∉ calls)
    (r : Record) : if z.maxCapacity - z.blocks.length < G.physBlocks r then
      ZenMetaLog.addRecord c b i d (E.encode r) calls =
      (d, .noSpace "Not enough capacity for append")
    else
      (ZenMetaLog.addRecord c b i d (E.encode r) calls).2 = .ok ∧
        InBlocks E c (ZenMetaLog.addRecord c b i d (E.encode r) calls).1 i
          { z with blocks := z.blocks ++ G.frame r } (rs ++ [r]) := by
  have hbs : 0 < d.blockSize := by
    have := G.endRecord_le
    rw [h.blockSize]
    omega
  have hsize : paddedSz d.blockSize (E.encode r) = d.blockSize * G.physBlocks r := by
    rw [h.blockSize, paddedSz_encode]
  have h32 : paddedSz d.blockSize (E.encode r) < 2 ^ 32 := h.blockSize ▸ paddedSz_lt E r
  have hlen : (frameOf c d.blockSize (E.encode r)).length = d.blockSize * G.physBlocks r :=
    (length_frameOf h32).trans hsize
  split
  · rename_i hfull
    refine addRecord_noSpace h32 ?_
    rw [hsize, h.capacity]
    exact Nat.mul_lt_mul_of_pos_left hfull hbs
  · rename_i hfit
    have hcap : paddedSz d.blockSize (E.encode r) ≤ (d.zones i).capacity := by
      rw [hsize, h.capacity]
      exact Nat.mul_le_mul_left _ (Nat.le_of_not_lt hfit)
    have hadd := addRecord_eq (c := c) (b := b) hcalls h32 hcap fun _ ↦ h.blockSize ▸ E.lt_int r
    rw [hadd]
    refine ⟨rfl, ?_⟩
    have hle := h.length_le
    have hwp : (d.zones i).wp = (d.zones i).start +
        (frames c d.blockSize (slices E rs)).length := by
      rw [h.wp, h.blocks, h.blockSize, length_frames_slices]
    have hframes : frames c d.blockSize (slices E (rs ++ [r])) =
        frames c d.blockSize (slices E rs) ++ frameOf c d.blockSize (E.encode r) := by
      simp [frames, slices]
    exact
      { blockSize := h.blockSize
        dvd_start := by rw [Zbd.appended_zones, if_pos rfl]; exact h.dvd_start
        maxCapacity := by rw [Zbd.appended_zones, if_pos rfl]; exact h.maxCapacity
        capacity := by
          rw [Zbd.appended_zones, if_pos rfl]
          dsimp only
          rw [h.capacity, hlen, ← Nat.mul_sub, List.length_append, Geometry.length_frame,
            Nat.sub_sub]
          rfl
        wp := by
          rw [Zbd.appended_zones, if_pos rfl]
          dsimp only
          rw [h.wp, hlen, List.length_append, Geometry.length_frame, Nat.mul_add, Nat.add_assoc]
          rfl
        length_le := by
          rw [List.length_append, Geometry.length_frame]
          dsimp only
          omega
        blocks := by simp [h.blocks]
        bytes := by
          rw [Zbd.appended_blockSize, Zbd.appended_zones, if_pos rfl, Zbd.appended_mem,
            hframes, hwp]
          dsimp only
          rw [Mem.read_eq_append_iff]
          exact ⟨(Mem.read_write_of_le _ _ (Nat.le_refl _)).trans h.bytes, Mem.read_write ..⟩ }

/-- The frame of a record lies at the same place on both devices. -/
theorem frameAt (h : InBlocks E c d i z (before ++ r :: after)) :
    z.blocks.drop (G.frames before).length = G.frame r ++ G.frames after ∧
      (G.frames before).length + G.physBlocks r ≤ z.blocks.length ∧
      At d i ((d.zones i).start + d.blockSize * (G.frames before).length)
        (frameOf c d.blockSize (E.encode r)) := by
  have hblocks := h.blocks
  rw [Geometry.frames_append, Geometry.frames_cons] at hblocks
  refine ⟨by rw [hblocks, List.drop_left], ?_, ?_⟩
  · simp only [hblocks, List.length_append, Geometry.length_frame]
    omega
  · have hat := h.framesAt
    rw [frames_slices_append] at hat
    have hmid := hat.append.2
    rw [h.blockSize, length_frames_slices, ← h.blockSize] at hmid
    rw [slices, List.map_cons, frames, List.flatMap_cons] at hmid
    exact hmid.append.1

/-- `ReadRecord` gives the record at the place that it lies at. -/
theorem readRecord_eq (h : InBlocks E c d i z (before ++ r :: after)) :
    readRecord c d i ((d.zones i).start + d.blockSize * (G.frames before).length) =
      (E.encode r, (d.zones i).start + d.blockSize * ((G.frames before).length + G.physBlocks r),
        .ok) := by
  have h32 : paddedSz d.blockSize (E.encode r) < 2 ^ 32 := h.blockSize ▸ paddedSz_lt E r
  have hint : (E.encode r).length < 2 ^ 31 := length_lt_of_paddedSz (h.blockSize ▸ E.lt_int r)
  have hlen : (frameOf c d.blockSize (E.encode r)).length = d.blockSize * G.physBlocks r := by
    rw [h.blockSize, length_frameOf_encode]
  rw [readRecord_of_at h.frameAt.2.2 h32 (E.encode_ne_nil r) hint
    (Nat.dvd_add h.dvd_start (Nat.dvd_mul_right ..)), hlen, Nat.add_assoc, ← Nat.mul_add]

/-- At each record and behind the last one both logs give the same. -/
theorem sameResult (h : InBlocks E c d i z (before ++ after)) :
    SameResult E d i (ZenFs.readRecord G z z.blocks.length (G.frames before).length)
      (readRecord c d i ((d.zones i).start + d.blockSize * (G.frames before).length)) := by
  cases after with
  | nil =>
      have hend : z.blocks.length = (G.frames before).length := by rw [h.blocks, List.append_nil]
      rw [ZenFs.readRecord_eof (Nat.le_of_eq hend), ← hend, ← h.wp,
        readRecord_eof (Nat.le_refl _), h.wp]
      rfl
  | cons r after =>
      obtain ⟨hdrop, hle, -⟩ := h.frameAt
      have hpos := G.physBlocks_pos r
      rw [readRecord_frame hdrop (by omega) (hle.trans h.length_le)]
      exact h.readRecord_eq

/-- The same once the device has been opened again, where the write pointer of a full zone
is the end of the zone. -/
theorem sameResult_reopened (h : InBlocks E c d i z (before ++ after))
    (hfull : z.blocks.length = z.maxCapacity)
    (hzone : d.zoneSize = d.blockSize * G.zoneBlocks) (hcap : z.maxCapacity ≤ G.zoneBlocks) :
    SameResult E d i (ZenFs.readRecord G z (z.reportedWp G) (G.frames before).length)
      (readRecord c (reopened d i) i
        ((d.zones i).start + d.blockSize * (G.frames before).length)) := by
  have hbs : 0 < d.blockSize := by
    have := G.endRecord_le
    rw [h.blockSize]
    omega
  have hreported : z.reportedWp G = G.zoneBlocks := by
    simp [MediaZone.reportedWp, MediaZone.full, hfull]
  have hmax : (d.zones i).maxCapacity ≤ d.zoneSize := by
    rw [h.maxCapacity, hzone]
    exact Nat.mul_le_mul_left _ hcap
  have hwp : (d.zones i).wp = (d.zones i).start + (d.zones i).maxCapacity := by
    rw [h.wp, h.maxCapacity, hfull]
  rw [hreported]
  cases after with
  | nil =>
      have hend : (G.frames before).length = z.maxCapacity := by
        rw [← hfull, h.blocks, List.append_nil]
      rw [hend, readRecord_full (by rw [h.maxCapacity]) hmax, h.maxCapacity, hzone]
      by_cases heq : z.maxCapacity = G.zoneBlocks
      · rw [ZenFs.readRecord_eof (Nat.le_of_eq heq.symm), if_pos (by rw [heq])]
        rfl
      · have hne : d.blockSize * z.maxCapacity ≠ d.blockSize * G.zoneBlocks :=
          fun hmul ↦ heq (Nat.eq_of_mul_eq_mul_left hbs hmul)
        rw [ZenFs.readRecord, if_neg (by omega), if_pos (Nat.le_refl _), if_neg hne]
        rfl
  | cons r after =>
      obtain ⟨hdrop, hle, hat⟩ := h.frameAt
      have hpos := G.physBlocks_pos r
      rw [readRecord_frame hdrop (by omega) (hle.trans h.length_le), readRecord_reopened ?_ ?_ ?_]
      · exact h.readRecord_eq
      · have hlt := hat.frameOf.2.wp
        have := List.length_pos_of_ne_nil (E.encode_ne_nil r)
        omega
      · exact Nat.le_of_eq hwp
      · omega

end InBlocks

end ZenMetaLog

end ZenFs
