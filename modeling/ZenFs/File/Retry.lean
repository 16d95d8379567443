import ZenFs.File.Append

/-!
# Retried flushes

`BufferedAppend` and `SparseAppend` work on the buffer of the writer in place: they
shift what is left to the front, while `FlushBuffer` resets `buffer_pos` only if all
of it was written.  A flush that fails before it has written anything can be made
again; behind one that has written something, the buffer no longer is what the next
flush takes it for.
-/

namespace ZenFs

/-! ## The device -/

namespace Zbd

/-- The zones do not overlap, and the write pointer of a zone is inside of the zone. -/
structure Sane (d : Zbd) : Prop where
  block : SPARSE_HEADER_SIZE < d.blockSize
  apart : ∀ i < d.nrZones, ∀ j < d.nrZones, i ≠ j →
    (d.zones i).start + d.zoneSize ≤ (d.zones j).start ∨ (d.zones j).start + d.zoneSize ≤
    (d.zones i).start
  wp : ∀ i < d.nrZones, (d.zones i).start ≤ (d.zones i).wp ∧
    (d.zones i).wp + (d.zones i).capacity ≤ (d.zones i).start + d.zoneSize

/-- No zone is offline. -/
def Writable (d : Zbd) : Prop := ∀ i < d.nrZones, (d.zones i).isEmpty = true →
    0 < (d.zones i).capacity

instance (d : Zbd) : Decidable d.Writable :=
  inferInstanceAs
    (Decidable (∀ i < d.nrZones, (d.zones i).isEmpty = true → 0 < (d.zones i).capacity))

/-- The extent is in front of the write pointer of its zone. -/
structure Inside (d : Zbd) (e : ZoneExtent) : Prop where
  zone : e.zone < d.nrZones
  start : (d.zones e.zone).start ≤ e.start
  stop : e.start + e.length ≤ (d.zones e.zone).wp

/-- The zones differ in who holds them and in how many of their bytes count. -/
structure SameZones (d d' : Zbd) : Prop where
  blockSize : d'.blockSize = d.blockSize
  zoneSize : d'.zoneSize = d.zoneSize
  nrZones : d'.nrZones = d.nrZones
  mem : d'.mem = d.mem
  start : ∀ i, (d'.zones i).start = (d.zones i).start
  wp : ∀ i, (d'.zones i).wp = (d.zones i).wp
  capacity : ∀ i, (d'.zones i).capacity = (d.zones i).capacity

section

variable {d d' : Zbd} {i : ZoneId} {e : ZoneExtent} {es : List ZoneExtent} {data : List Byte}

theorem SameZones.refl (d : Zbd) : SameZones d d :=
  ⟨rfl, rfl, rfl, rfl, fun _ ↦ rfl, fun _ ↦ rfl, fun _ ↦ rfl⟩

theorem sameZones_setBusy (d : Zbd) (i : ZoneId) (b : Bool) : SameZones d (d.setBusy i b) where
  blockSize := rfl
  zoneSize := rfl
  nrZones := rfl
  mem := rfl
  start j := by by_cases h : j = i <;> simp [setBusy, h]
  wp j := by by_cases h : j = i <;> simp [setBusy, h]
  capacity j := by by_cases h : j = i <;> simp [setBusy, h]

theorem sameZones_addUsed (d : Zbd) (i : ZoneId) (n : Nat) : SameZones d (d.addUsed i n) where
  blockSize := rfl
  zoneSize := rfl
  nrZones := rfl
  mem := rfl
  start j := by simp [addUsed_zones]
  wp j := by simp [addUsed_zones]
  capacity j := by simp [addUsed_zones]

theorem SameZones.sane (h : SameZones d d') (hs : d.Sane) : d'.Sane where
  block := h.blockSize ▸ hs.block
  apart := by simpa only [h.nrZones, h.start, h.zoneSize] using hs.apart
  wp := by simpa only [h.nrZones, h.start, h.wp, h.capacity, h.zoneSize] using hs.wp

theorem SameZones.writable (h : SameZones d d') (hw : d.Writable) : d'.Writable := by
  simpa only [Writable, h.nrZones, Zone.isEmpty, h.wp, h.start, h.capacity] using hw

theorem SameZones.inside (h : SameZones d d') (hi : d.Inside e) : d'.Inside e where
  zone := h.nrZones ▸ hi.zone
  start := h.start _ ▸ hi.start
  stop := h.wp _ ▸ hi.stop

theorem SameZones.contents (h : SameZones d d') (es : List ZoneExtent) :
    d'.contents es = d.contents es := by
  simp only [Zbd.contents, h.mem]

/-- An append to a zone leaves the bytes in front of the write pointers alone. -/
theorem Sane.read_appended (hs : d.Sane) (hi : i < d.nrZones)
    (hd : data.length ≤ (d.zones i).capacity)
    (hin : d.Inside e) :
    (d.appended i data).mem.read e.start e.length = d.mem.read e.start e.length := by
  have hwp := hs.wp i hi
  have hwpe := hs.wp _ hin.zone
  have hstart := hin.start
  have hstop := hin.stop
  rw [appended_mem]
  by_cases he : e.zone = i
  · rw [he] at hstop
    exact Mem.read_write_of_le _ _ (by omega)
  · rcases hs.apart _ hin.zone i hi he with h | h
    · exact Mem.read_write_of_le _ _ (by omega)
    · exact Mem.read_write_of_ge _ _ (by omega)

theorem Sane.contents_appended (hs : d.Sane) (hi : i < d.nrZones)
    (hd : data.length ≤ (d.zones i).capacity)
    (hin : ∀ e ∈ es, d.Inside e) : (d.appended i data).contents es = d.contents es := by
  induction es with
  | nil => rfl
  | cons e es ih =>
      rw [contents_cons, contents_cons, hs.read_appended hi hd (hin e (by simp)),
        ih fun e' he' ↦ hin e' (by simp [he'])]

theorem Sane.appended (hs : d.Sane) (hi : i < d.nrZones) (hd : data.length ≤ (d.zones i).capacity) :
    (d.appended i data).Sane where
  block := hs.block
  apart := by
    intro j hj k hk hjk
    have h := hs.apart j hj k hk hjk
    have hstart : ∀ j, ((d.appended i data).zones j).start = (d.zones j).start := by
      intro j
      rw [appended_zones]
      split
      · rename_i hji
        rw [hji]
      · rfl
    simpa only [hstart, appended_zoneSize] using h
  wp := by
    intro j hj
    have h := hs.wp j hj
    rw [appended_zones]
    split
    · rename_i hji
      subst hji
      simp only [appended_zoneSize]
      omega
    · exact h

theorem Sane.writable_appended (hs : d.Sane) (hw : d.Writable) : (d.appended i data).Writable := by
  intro j hj he
  have h := hw j hj
  have hwp := hs.wp j hj
  rw [appended_zones] at he ⊢
  split at he
  · rename_i hji
    subst hji
    simp only [Zone.isEmpty, beq_iff_eq] at he h
    rw [if_pos rfl]
    have := h (by omega)
    simp only
    omega
  · rename_i hji
    rw [if_neg hji]
    exact h he

theorem Inside.appended (hin : d.Inside e) : (d.appended i data).Inside e where
  zone := hin.zone
  start := by
    have := hin.start
    rw [appended_zones]
    split
    · rename_i h
      rwa [← h]
    · exact this
  stop := by
    have := hin.stop
    rw [appended_zones]
    split
    · rename_i h
      rw [h] at this
      simp only
      omega
    · exact this

end

end Zbd

/-! ## The file on the device -/

namespace ZoneFile

/-- The extents of the file are written, and so is its active zone a zone. -/
structure Placed (f : ZoneFile) (d : Zbd) : Prop where
  sane : d.Sane
  inside : ∀ e ∈ f.extents, d.Inside e
  active : ∀ i, f.activeZone = some i → i < d.nrZones

/-- A file that is written in whole blocks.  Only its active zone may have another
number of bytes left. -/
structure InBlocks (f : ZoneFile) (d : Zbd) : Prop extends f.Placed d where
  size : f.fileSize = totalLength f.extents
  others : ∀ i < d.nrZones, f.activeZone ≠ some i → d.blockSize ∣ (d.zones i).capacity
  writable : f.isSparse = true → d.Writable

/-- The zone takes whole blocks, and the header of a sparse extent. -/
def Room (f : ZoneFile) (d : Zbd) (i : ZoneId) : Prop :=
  d.blockSize ∣ (d.zones i).capacity ∧ (f.isSparse = true → 0 < (d.zones i).capacity)

/-- The next extent starts at the write pointer of the active zone. -/
def InPlace (f : ZoneFile) (d : Zbd) : Prop :=
  ∀ i, f.activeZone = some i → (d.zones i).wp = f.extentStart

variable {f f' : ZoneFile} {d d' : Zbd} {i : ZoneId} {data : List Byte}

theorem Placed.sameZones (h : f.Placed d) (hz : d.SameZones d') (hx : f'.extents = f.extents)
    (ha : ∀ i, f'.activeZone = some i → i < d.nrZones) : f'.Placed d' where
  sane := hz.sane h.sane
  inside e he := hz.inside (h.inside e (hx ▸ he))
  active i hi := hz.nrZones ▸ ha i hi

theorem Placed.appended (h : f.Placed d) (hi : i < d.nrZones)
    (hd : data.length ≤ (d.zones i).capacity) : f.Placed (d.appended i data) where
  sane := h.sane.appended hi hd
  inside e he := (h.inside e he).appended
  active := h.active

theorem Room.sameZones (h : f.Room d i) (hz : d.SameZones d') (hf : f'.isSparse = f.isSparse) :
    f'.Room d' i := by
  rw [Room, hz.blockSize, hz.capacity, hf]
  exact h

/-- The active zone is released. -/
theorem InBlocks.release (h : f.InBlocks d) (hz : d.SameZones d')
    (hroom : ∀ i, f.activeZone = some i → d.blockSize ∣ (d.zones i).capacity) :
    { f with activeZone := none }.InBlocks d' where
  toPlaced := h.toPlaced.sameZones hz rfl (by simp)
  size := h.size
  others := by
    intro i hi _
    rw [hz.blockSize, hz.capacity]
    rw [hz.nrZones] at hi
    by_cases ha : f.activeZone = some i
    · exact hroom i ha
    · exact h.others i hi ha
  writable hs := hz.writable (h.writable hs)

/-- The file has no active zone, and `AllocateNewZone` makes `i` its active zone. -/
theorem InBlocks.allocate (h : f.InBlocks d) (hnone : f.activeZone = none)
    (he : d.eligible i = true) (hz : d.SameZones d') (hx : f'.extents = f.extents)
    (hsz : f'.fileSize = f.fileSize)
    (hsp : f'.isSparse = f.isSparse) (ha : f'.activeZone = some i) :
    f'.InBlocks d' ∧ f'.Room d' i := by
  simp only [Zbd.eligible, Bool.and_eq_true, decide_eq_true_eq] at he
  obtain ⟨⟨hi, -⟩, he⟩ := he
  have hall : ∀ j < d.nrZones, d.blockSize ∣ (d.zones j).capacity := by
    intro j hj
    exact h.others j hj (by simp [hnone])
  constructor
  · exact
      { toPlaced := h.toPlaced.sameZones hz hx (by
          intro j hj
          obtain rfl := Option.some.inj (ha.symm.trans hj)
          exact hi)
        size := by rw [hsz, hx, h.size]
        others := by
          intro j hj _
          rw [hz.blockSize, hz.capacity]
          exact hall j (hz.nrZones ▸ hj)
        writable := fun hs ↦ hz.writable (h.writable (hsp ▸ hs)) }
  · refine Room.sameZones ⟨hall i hi, ?_⟩ hz hsp
    intro hs
    rcases Bool.or_eq_true_iff.mp he with hu | hemp
    · simp only [Zone.isFull, Bool.and_eq_true, Bool.not_eq_true', beq_eq_false_iff_ne] at hu
      exact Nat.pos_of_ne_zero hu.2
    · exact h.writable hs i hi hemp

/-- A field that does not place any bytes has changed. -/
theorem InBlocks.setFile (h : f.InBlocks d) (hx : f'.extents = f.extents)
    (hsz : f'.fileSize = f.fileSize)
    (hsp : f'.isSparse = f.isSparse) (ha : f'.activeZone = f.activeZone) : f'.InBlocks d where
  sane := h.sane
  inside e he := h.inside e (hx ▸ he)
  active i hi := h.active i (ha ▸ hi)
  size := by rw [hsz, hx, h.size]
  others i hi hne := h.others i hi (ha ▸ hne)
  writable hs := h.writable (hsp ▸ hs)

/-- A first part of a write to the active zone arrives. -/
theorem InBlocks.appended (h : f.InBlocks d) (ha : f.activeZone = some i)
    (hd : data.length ≤ (d.zones i).capacity) : f.InBlocks (d.appended i data) where
  toPlaced := h.toPlaced.appended (h.active i ha) hd
  size := h.size
  others := by
    intro j hj hne
    have hji : j ≠ i := by
      rintro rfl
      exact hne ha
    rw [Zbd.appended_zones, if_neg hji]
    exact h.others j hj hne
  writable hs := h.sane.writable_appended (h.writable hs)

/-- An extent is recorded in the active zone. -/
theorem InBlocks.record {e : ZoneExtent} (h : f.InBlocks d) (hz : d.SameZones d') (he : d.Inside e)
    (hx : f'.extents = f.extents ++ [e]) (hsz : f'.fileSize = f.fileSize + e.length)
    (hsp : f'.isSparse = f.isSparse) (ha : f'.activeZone = f.activeZone) : f'.InBlocks d' where
  sane := hz.sane h.sane
  inside := by
    intro e' he'
    rw [hx, List.mem_append, List.mem_singleton] at he'
    rcases he' with he' | rfl
    · exact hz.inside (h.inside e' he')
    · exact hz.inside he
  active j hj := hz.nrZones ▸ h.active j (ha ▸ hj)
  size := by rw [hsz, hx, h.size]; simp
  others := by
    intro j hj hne
    rw [hz.blockSize, hz.capacity]
    exact h.others j (hz.nrZones ▸ hj) (ha ▸ hne)
  writable hs := hz.writable (h.writable (hsp ▸ hs))

end ZoneFile

/-! ## Padding -/

section Padding

variable {b n c : Nat}

theorem padSize_of_dvd (h : b ∣ n) : padSize b n = 0 := by
  rw [padSize, if_pos (Nat.mod_eq_zero_of_dvd h)]

theorem dvd_add_padSize (hb : 0 < b) : b ∣ n + padSize b n := by
  rw [padSize]
  split
  · rename_i h
    exact Nat.dvd_of_mod_eq_zero h
  · have hlt := Nat.mod_lt n hb
    have hdiv := Nat.div_add_mod n b
    refine ⟨n / b + 1, ?_⟩
    rw [Nat.mul_add, Nat.mul_one]
    omega

theorem padSize_lt (hb : 0 < b) : padSize b n < b := by
  rw [padSize]
  split
  · exact hb
  · omega

/-- The padding of a part of a zone stays in the zone. -/
theorem add_padSize_le (hb : 0 < b) (hc : b ∣ c) (h : n ≤ c) : n + padSize b n ≤ c := by
  have hlt : padSize b n < b := padSize_lt hb
  obtain ⟨k, rfl⟩ := hc
  obtain ⟨m, hm⟩ := dvd_add_padSize (n := n) hb
  rw [hm]
  have hmk : b * m < b * (k + 1) := by
    rw [← hm, Nat.mul_add, Nat.mul_one]
    omega
  exact Nat.mul_le_mul_left b (Nat.lt_succ_iff.mp (Nat.lt_of_mul_lt_mul_left hmk))

end Padding

namespace OpenFile

/-- The bytes of the extents of the file. -/
def stored (s : OpenFile) : List Byte := s.zbd.contents s.file.extents

/-- The writer is the same, apart from the bytes in its buffer. -/
structure SameWriter (s s' : OpenFile) : Prop where
  buffered : s'.buffered = s.buffered
  bufferSz : s'.bufferSz = s.bufferSz
  bufferPos : s'.bufferPos = s.bufferPos
  wp : s'.wp = s.wp
  isOpen : s'.isOpen = s.isOpen
  appended : s'.appended = s.appended
  failed : s'.failed = s.failed
  isSparse : s'.file.isSparse = s.file.isSparse

theorem SameWriter.refl (s : OpenFile) : SameWriter s s :=
  ⟨rfl, rfl, rfl, rfl, rfl, rfl, rfl, rfl⟩

theorem SameWriter.trans {s s' s'' : OpenFile} (h : SameWriter s s') (h' : SameWriter s' s'') :
    SameWriter s s'' where
  buffered := h'.buffered.trans h.buffered
  bufferSz := h'.bufferSz.trans h.bufferSz
  bufferPos := h'.bufferPos.trans h.bufferPos
  wp := h'.wp.trans h.wp
  isOpen := h'.isOpen.trans h.isOpen
  appended := h'.appended.trans h.appended
  failed := h'.failed.trans h.failed
  isSparse := h'.isSparse.trans h.isSparse

theorem SameWriter.header {s s' : OpenFile} (h : SameWriter s s') : s'.header = s.header := by
  rw [OpenFile.header, h.isSparse, OpenFile.header]

/-! ## Outcomes -/

section Outcomes

variable {s : OpenFile} {i : ZoneId}

/-- What holds of an error and of all that follows a success. -/
theorem andThen_induct {x : OpenFile × Status} {k : OpenFile → OpenFile × Status}
    {P : OpenFile × Status → Prop} (hx : x.2 ≠ .ok → P x) (hk : x.2 = .ok → P (k x.1)) :
    P (andThen x k) := by
  obtain ⟨s, st⟩ := x
  cases st with
  | ok => exact hk rfl
  | notFound | corruption | notSupported | invalidArgument | ioError | noSpace => exact hx (by simp)

theorem closeActiveZone_cases (s : OpenFile) :
    ∃ d fl, s.zbd.SameZones d ∧
      s.closeActiveZone.1 = { s with
        zbd := d, file := { s.file with activeZone := none }, faults := fl } := by
  rw [closeActiveZone]
  cases ha : s.file.activeZone with
  | none =>
      have hf : { s.file with activeZone := none } = s.file := by rw [← ha]
      refine ⟨s.zbd, s.faults, .refl _, ?_⟩
      rw [hf]
  | some i =>
      simp only
      split
      · exact ⟨_, _, s.zbd.sameZones_setBusy i false, rfl⟩
      · exact ⟨_, _, s.zbd.sameZones_setBusy i false, rfl⟩

/-- A full zone needs no close. -/
theorem closeActiveZone_full (ha : s.file.activeZone = some i) (hc : (s.zbd.zones i).capacity = 0) :
    s.closeActiveZone.2 = .ok := by
  rw [closeActiveZone, ha]
  simp [Zone.isFull, hc]

theorem allocateNewZone_cases (s : OpenFile) :
    (s.allocateNewZone.2 ≠ .ok ∧ ∃ fl, s.allocateNewZone.1 = { s with faults := fl }) ∨
    ∃ i fl, s.zbd.eligible i = true ∧
      s.allocateNewZone.1 = { s.setActiveZone i with faults := fl } := by
  rw [allocateNewZone]
  cases s.faults.zones.headD none with
  | none => exact .inl ⟨by simp, _, rfl⟩
  | some i =>
      simp only
      split
      · rename_i he
        exact .inr ⟨i, _, he, rfl⟩
      · exact .inl ⟨by simp, _, rfl⟩

theorem zoneAppend_cases (s : OpenFile) (i : ZoneId) (data : List Byte) :
    ∃ n fl, n ≤ data.length ∧ n ≤ (s.zbd.zones i).capacity ∧
      (s.zoneAppend i data).1 = { s with zbd := s.zbd.appended i (data.take n), faults := fl } ∧
      ((s.zoneAppend i data).2 = .ok → n = data.length) := by
  obtain ⟨n, hn, happ, hcap, hok⟩ := s.zbd.append_spec i data (s.faults.writes.headD [])
  refine ⟨n, { s.faults with writes := s.faults.writes.tail }, hn, hcap, ?_, fun h ↦ (hok h).1⟩
  rw [← happ]
  rfl

/-- One turn of the loop of a flush: a part of the padded data is written, or all of it,
and then the extent is recorded. -/
theorem appendChunk_cases (s : OpenFile) (i : ZoneId) (header left : Nat) :
    ∃ n fl, n ≤ s.wrSize i header left + padSize s.zbd.blockSize (s.wrSize i header left) ∧
      n ≤ (s.zbd.zones i).capacity ∧
      let padded := s.padBuffer header (s.wrSize i header left)
      let zbd := s.zbd.appended i (padded.buffer.read 0 n)
      ((s.appendChunk i header left).2 ≠ .ok ∧
        (s.appendChunk i header left).1 = { padded with zbd := zbd, faults := fl }) ∨
      (n = s.wrSize i header left + padSize s.zbd.blockSize (s.wrSize i header left) ∧
        s.appendChunk i header left =
          ({ padded with zbd := zbd, faults := fl }.recordExtent i header
            (sub32 (s.wrSize i header left) header), .ok)) := by
  rw [appendChunk]
  generalize hdata : (s.padBuffer header (s.wrSize i header left)).buffer.read 0
    (s.wrSize i header left + padSize s.zbd.blockSize (s.wrSize i header left)) = data
  obtain ⟨n, fl, hn, hcap, happ, hok⟩ :=
    (s.padBuffer header (s.wrSize i header left)).zoneAppend_cases i data
  rw [← hdata, Mem.length_read] at hn hok
  rw [← hdata, Mem.take_read _ _ _ _ hn, hdata] at happ
  refine ⟨n, fl, hn, hcap, ?_⟩
  simp only
  refine andThen_induct (P := fun r ↦ (r.2 ≠ .ok ∧ r.1 = _) ∨ (_ ∧ r = _)) ?_ ?_
  · intro hst
    exact .inl ⟨hst, happ⟩
  · intro hst
    refine .inr ⟨hok (hdata ▸ hst), ?_⟩
    rw [happ]
    rfl

end Outcomes

variable {s : OpenFile} {i : ZoneId} {header left wr : Nat}

/-- What is in the buffer does not depend on the padding, which is behind it or empty. -/
theorem read_padBuffer (h : wr = header + left ∨ s.zbd.blockSize ∣ wr) :
    (s.padBuffer header wr).buffer.read header left = s.buffer.read header left := by
  have hlen : ((encodeFixed64 (sub32 wr header)).take header).length ≤ header := by
    rw [List.length_take]
    exact Nat.min_le_left _ _
  rw [padBuffer, Mem.read_write_of_ge _ _ (by omega), Mem.fill]
  rcases h with rfl | h
  · exact Mem.read_write_of_le _ _ le_rfl
  · rw [padSize_of_dvd h, List.replicate_zero, Mem.write_nil]

/-! ## One turn -/

theorem header_le_capacity (hs : s.zbd.Sane) (hr : s.file.Room s.zbd i) :
    s.header ≤ (s.zbd.zones i).capacity := by
  rw [OpenFile.header]
  split
  · rename_i hsp
    exact hs.block.le.trans (Nat.le_of_dvd (hr.2 hsp) hr.1)
  · exact Nat.zero_le _

/-- A turn takes `len` bytes out of the buffer: all of them, or as many as fill the zone. -/
theorem wrSize_eq (left : Nat) (hc : header ≤ (s.zbd.zones i).capacity) :
    ∃ len ≤ left, s.wrSize i header left = header + len ∧ sub32 (header + len) header = len ∧
      sub32 left len = left - len ∧ (len = left ∨ header + len = (s.zbd.zones i).capacity) := by
  refine ⟨min (left + header) (s.zbd.zones i).capacity - header, by omega, ?_, ?_, ?_, by omega⟩
  · rw [wrSize]
    omega
  · rw [sub32, if_pos (Nat.le_add_right _ _), Nat.add_sub_cancel_left]
  · rw [sub32, if_pos (by omega)]

/-- What a turn that takes `len` of `left` bytes does. -/
structure Turn (s : OpenFile) (i : ZoneId) (left len : Nat) (r : OpenFile × Status) : Prop where
  same : SameWriter s r.1
  blocks : r.1.file.InBlocks r.1.zbd
  active : r.1.file.activeZone = some i
  buffer : r.1.buffer.read s.header left = s.buffer.read s.header left
  failed : r.2 ≠ .ok → r.1.stored = s.stored ∧
    ((r.1.zbd.zones i).wp = r.1.file.extentStart → r.1.file.Room r.1.zbd i)
  done : r.2 = .ok → r.1.stored = s.stored ++ (s.buffer.read s.header left).take len ∧
    (r.1.zbd.zones i).wp = r.1.file.extentStart ∧ r.1.zbd.blockSize ∣ (r.1.zbd.zones i).capacity ∧
    ((r.1.zbd.zones i).capacity = 0 ∨ len = left)

theorem appendChunk_turn {len : Nat} (h : s.file.InBlocks s.zbd) (ha : s.file.activeZone = some i)
    (hp : (s.zbd.zones i).wp = s.file.extentStart) (hr : s.file.Room s.zbd i)
    (hwr : s.wrSize i s.header left = s.header + len) (hle : len ≤ left)
    (hlen : len = left ∨ s.header + len = (s.zbd.zones i).capacity) :
    Turn s i left len (s.appendChunk i s.header left) := by
  have hi := h.active i ha
  have hb : 0 < s.zbd.blockSize := Nat.zero_lt_of_lt h.sane.block
  have hpad : (s.padBuffer s.header (s.header + len)).buffer.read s.header left =
      s.buffer.read s.header left := by
    apply read_padBuffer
    rcases hlen with rfl | hfull
    · exact .inl rfl
    · exact .inr (hfull ▸ hr.1)
  obtain ⟨n, fl, hn, hcap, hcases⟩ := s.appendChunk_cases i s.header left
  rw [hwr] at hn hcases
  simp only at hcases
  generalize s.appendChunk i s.header left = r at hcases
  obtain ⟨s', st⟩ := r
  generalize hm : (s.padBuffer s.header (s.header + len)).buffer = m at hcases hpad
  have hd : (m.read 0 n).length ≤ (s.zbd.zones i).capacity := by rwa [Mem.length_read]
  have hkeep := h.sane.contents_appended hi hd h.inside
  have hblocks := h.appended ha hd
  rcases hcases with ⟨hst, rfl⟩ | ⟨hn', heq⟩
  · -- nothing is recorded, and the zone is where it was only if nothing arrived
    refine ⟨⟨rfl, rfl, rfl, rfl, rfl, rfl, rfl, rfl⟩, hblocks, ha, hpad, fun _ ↦ ⟨hkeep, ?_⟩,
      fun h' ↦ absurd h' hst⟩
    intro hwp
    have h0 : n = 0 := by
      simp only [Zbd.appended_zones, if_true, Mem.length_read] at hwp
      exact Nat.add_left_cancel (hwp.trans (hp.symm.trans (Nat.add_zero _).symm))
    subst h0
    rw [Mem.read_zero, Zbd.appended_nil]
    exact hr
  · rw [show sub32 (s.header + len) s.header = len by
      rw [sub32, if_pos (Nat.le_add_right _ _), Nat.add_sub_cancel_left]] at heq
    obtain ⟨rfl, rfl⟩ := Prod.mk.inj heq
    have hz := (s.zbd.appended i (m.read 0 n)).sameZones_addUsed i len
    have hin : (s.zbd.appended i (m.read 0 n)).Inside ⟨s.file.extentStart + s.header, len, i⟩ := by
      have hwp := h.sane.wp i hi
      refine ⟨hi, ?_, ?_⟩
      · simp only [Zbd.appended_zones, if_true]
        omega
      · simp only [Zbd.appended_zones, if_true, Mem.length_read]
        omega
    refine ⟨⟨rfl, rfl, rfl, rfl, rfl, rfl, rfl, rfl⟩, hblocks.record hz hin rfl rfl rfl
      rfl, ha, hpad, fun h' ↦ absurd rfl h', fun _ ↦ ⟨?_, hz.wp i, ?_, ?_⟩⟩
    · have hread : (s.zbd.appended i (m.read 0 n)).mem.read (s.file.extentStart + s.header) len =
          (s.buffer.read s.header left).take len := by
        rw [Zbd.appended_mem, hp, Mem.read_write_mid _ _ _ (by rw [Mem.length_read]; omega),
          Mem.drop_read _ _ _ _ (by omega), Mem.take_read _ _ _ _ (by omega), Nat.zero_add, ← hpad,
          Mem.take_read _ _ _ _ hle]
      show (s.zbd.appended i (m.read 0 n)).contents
        (s.file.extents ++ [⟨s.file.extentStart + s.header, len, i⟩]) =
        s.zbd.contents s.file.extents ++ _
      rw [Zbd.contents_append, hkeep, Zbd.contents_cons, hread, Zbd.contents_nil, List.append_nil]
    · rw [show (recordExtent _ i s.header len).zbd = (s.zbd.appended i (m.read 0 n)).addUsed i
        len from rfl, hz.blockSize, hz.capacity]
      simp only [Zbd.appended_zones, if_true, Mem.length_read]
      exact Nat.dvd_sub hr.1 (hn' ▸ dvd_add_padSize hb)
    · rcases hlen with hlen | hfull
      · exact .inr hlen
      · refine .inl ?_
        rw [show (recordExtent _ i s.header len).zbd = (s.zbd.appended i (m.read 0 n)).addUsed i
          len from rfl, hz.capacity]
        simp only [Zbd.appended_zones, if_true, Mem.length_read]
        omega

/-! ## A flush -/

/-- A flush of `left` bytes: some of them are stored, and all of them if it succeeds.
If none are, the buffer is the one it was. -/
structure Flushed (s : OpenFile) (left : Nat) (r : OpenFile × Status) : Prop where
  same : SameWriter s r.1
  blocks : r.1.file.InBlocks r.1.zbd
  written : ∃ k ≤ left, r.1.stored = s.stored ++ (s.buffer.read s.header left).take k ∧
    (k = 0 → r.1.buffer.read s.header left = s.buffer.read s.header left) ∧ (r.2 = .ok → k = left)
  room : ∀ i, r.1.file.activeZone = some i → r.2 = .ok ∨
    (r.1.zbd.zones i).wp = r.1.file.extentStart → r.1.file.Room r.1.zbd i
  inPlace : r.2 = .ok → r.1.file.InPlace r.1.zbd

/-- The first `len` of `left` bytes are stored, and the others are at the front of the
buffer. -/
structure Taken (s : OpenFile) (left len : Nat) (s' : OpenFile) : Prop where
  same : SameWriter s s'
  le : len ≤ left
  stored : s'.stored = s.stored ++ (s.buffer.read s.header left).take len
  buffer : s'.buffer.read s.header (left - len) = (s.buffer.read s.header left).drop len

/-- A flush may stop with an error before it takes anything. -/
theorem Flushed.of_error {s' : OpenFile} {st : Status} (hst : st ≠ .ok) (same : SameWriter s s')
    (blocks : s'.file.InBlocks s'.zbd) (hstored : s'.stored = s.stored)
    (hbuf : s'.buffer.read s.header left = s.buffer.read s.header left)
    (room : ∀ i, s'.file.activeZone = some i → (s'.zbd.zones i).wp = s'.file.extentStart →
      s'.file.Room s'.zbd i) : Flushed s left (s', st) where
  same := same
  blocks := blocks
  written := ⟨0, Nat.zero_le _, by simpa using hstored, fun _ ↦ hbuf, fun h ↦ absurd h hst⟩
  room i hi h := room i hi (h.resolve_left hst)
  inPlace h := absurd h hst

theorem Taken.flushed {s' : OpenFile} {len : Nat} {r : OpenFile × Status} (h : Taken s left len s')
    (hr : Flushed s' (left - len) r) : Flushed s left r where
  same := h.same.trans hr.same
  blocks := hr.blocks
  written := by
    obtain ⟨k, hk, hstored, hbuf, hok⟩ := hr.written
    rw [h.same.header, h.buffer] at hstored hbuf
    have hle := h.le
    refine ⟨len + k, by omega, ?_, ?_, fun hst ↦ by have := hok hst; omega⟩
    · rw [hstored, h.stored, List.take_add, List.append_assoc]
    · intro h0
      obtain ⟨rfl, rfl⟩ := Nat.add_eq_zero_iff.mp h0
      exact hbuf rfl
  room := hr.room
  inPlace := hr.inPlace

theorem shiftBuffer_eq (s : OpenFile) (header : Nat) {len left : Nat} (hle : len ≤ left) :
    ∃ m, s.shiftBuffer header (header + len) (left - len) = { s with buffer := m } ∧
      m.read header (left - len) = (s.buffer.read header left).drop len := by
  rw [shiftBuffer, Mem.drop_read _ _ _ _ hle]
  split
  · rename_i h0
    refine ⟨s.buffer, rfl, ?_⟩
    rw [h0, Mem.read_zero, Mem.read_zero]
  · refine ⟨_, rfl, ?_⟩
    have hread := Mem.read_write s.buffer header (s.buffer.read (header + len) (left - len))
    rwa [Mem.length_read] at hread

/-- The flush goes on in a new zone, if there is one. -/
theorem Taken.allocate {s' : OpenFile} {len : Nat} {k : OpenFile → OpenFile × Status}
    (h : Taken s left len s') (hb : s'.file.InBlocks s'.zbd) (hnone : s'.file.activeZone = none)
    (hk : ∀ (t : OpenFile) (i : ZoneId), SameWriter s' t → t.file.InBlocks t.zbd →
      t.file.activeZone = some i → (t.zbd.zones i).wp = t.file.extentStart → t.file.Room t.zbd i →
      Flushed t (left - len) (k t)) : Flushed s left (andThen s'.allocateNewZone k) := by
  have hcases := s'.allocateNewZone_cases
  generalize s'.allocateNewZone = r at hcases
  obtain ⟨t, st⟩ := r
  simp only at hcases
  rcases hcases with ⟨hst, fl, rfl⟩ | ⟨i, fl, he, rfl⟩
  · refine andThen_induct (P := Flushed s left) (fun _ ↦ h.flushed ?_) (fun hok ↦ absurd hok hst)
    refine Flushed.of_error hst ⟨rfl, rfl, rfl, rfl, rfl, rfl, rfl, rfl⟩ hb rfl rfl ?_
    intro i hi
    cases hnone.symm.trans hi
  · have hz := s'.zbd.sameZones_setBusy i true
    have hsame : SameWriter s' { s'.setActiveZone i with faults := fl } :=
      ⟨rfl, rfl, rfl, rfl, rfl, rfl, rfl, rfl⟩
    obtain ⟨hb', hr⟩ : (s'.setActiveZone i).file.InBlocks (s'.setActiveZone i).zbd ∧
        (s'.setActiveZone i).file.Room (s'.setActiveZone i).zbd i :=
      hb.allocate hnone he hz rfl rfl rfl rfl
    refine andThen_induct (P := Flushed s left) (fun hst ↦ h.flushed ?_) (fun _ ↦ ?_)
    · refine Flushed.of_error hst hsame hb' rfl rfl ?_
      intro j hj _
      obtain rfl := Option.some.inj hj
      exact hr
    · exact Taken.flushed ⟨h.same.trans hsame, h.le, h.stored, h.buffer⟩
        (hk _ i hsame hb' rfl (hz.wp i) hr)

theorem bufferLoop_flushed (fuel : Nat) :
    ∀ (s : OpenFile) (left : Nat) (i : ZoneId), s.file.InBlocks s.zbd → s.file.activeZone = some i →
      (s.zbd.zones i).wp = s.file.extentStart → s.file.Room s.zbd i →
      Flushed s left (bufferLoop s.header fuel s left) := by
  induction fuel with
  | zero =>
      intro s left i h ha hp hr
      refine Flushed.of_error (by simp) (.refl s) h rfl rfl ?_
      intro j hj _
      obtain rfl := Option.some.inj (ha.symm.trans hj)
      exact hr
  | succ fuel ih =>
      intro s left i h ha hp hr
      rw [bufferLoop]
      split
      · -- everything is stored
        rename_i h0
        subst h0
        have hj : ∀ j, s.file.activeZone = some j → j = i :=
          fun j hj ↦ Option.some.inj (hj.symm.trans ha)
        exact ⟨.refl s, h, ⟨0, le_rfl, by simp, fun _ ↦ rfl, fun _ ↦ rfl⟩,
          fun j hj' _ ↦ hj j hj' ▸ hr, fun _ j hj' ↦ hj j hj' ▸ hp⟩
      · simp only [ha]
        obtain ⟨len, hle, hwr, hsub, hsub', hlen⟩ := wrSize_eq left (header_le_capacity h.sane hr)
        rw [hwr, hsub, hsub']
        have hturn := appendChunk_turn h ha hp hr hwr hle hlen
        generalize s.appendChunk i s.header left = r at hturn
        obtain ⟨s₁, st⟩ := r
        refine andThen_induct (P := Flushed s left) ?_ ?_
        · intro hst
          obtain ⟨hstored, hroom⟩ := hturn.failed hst
          refine Flushed.of_error hst hturn.same hturn.blocks hstored hturn.buffer ?_
          intro j hj hwp
          obtain rfl := Option.some.inj (hturn.active.symm.trans hj)
          exact hroom hwp
        · intro hst
          obtain ⟨hstored, hwp, hdvd, hfull⟩ := hturn.done hst
          split
          · -- the zone is full, and the rest goes to the next one
            rename_i hc
            refine andThen_induct (P := Flushed s left)
              (fun herr ↦ absurd (closeActiveZone_full hturn.active hc) herr) (fun _ ↦ ?_)
            obtain ⟨d, fl, hz, hclose⟩ := s₁.closeActiveZone_cases
            rw [hclose]
            obtain ⟨m, hshift, hm⟩ := shiftBuffer_eq
              { s₁ with zbd := d, file := { s₁.file with activeZone := none }, faults := fl }
              s.header hle
            rw [hshift]
            have hrelease := hturn.blocks.release hz fun j hj ↦
              Option.some.inj (hturn.active.symm.trans hj) ▸ hdvd
            have htaken : Taken s left len
                { s₁ with
                  zbd := d, file := { s₁.file with activeZone := none }, faults := fl
                  buffer := m } := by
              refine ⟨hturn.same.trans ⟨rfl, rfl, rfl, rfl, rfl, rfl, rfl, rfl⟩, hle, ?_, ?_⟩
              · exact (hz.contents _).trans hstored
              · rw [← hturn.buffer]
                exact hm
            refine htaken.allocate hrelease rfl fun t j hsame hb ha hp hr ↦ ?_
            rw [← htaken.same.header, ← hsame.header]
            exact ih t (left - len) j hb ha hp hr
          · rename_i hc
            obtain rfl := hfull.resolve_left hc
            rw [← hturn.same.header]
            refine Taken.flushed ⟨hturn.same, le_rfl, hstored, ?_⟩
              (ih s₁ (len - len) i hturn.blocks hturn.active hwp
                ⟨hdvd, fun _ ↦ Nat.pos_of_ne_zero hc⟩)
            simp

theorem bufferAppend_flushed (h : s.file.InBlocks s.zbd) (hp : s.file.InPlace s.zbd)
    (hr : ∀ i, s.file.activeZone = some i → s.file.Room s.zbd i) :
    Flushed s s.bufferPos (s.bufferAppend s.header) := by
  rw [bufferAppend]
  cases ha : s.file.activeZone with
  | none =>
      have htaken : Taken s s.bufferPos 0 s :=
        ⟨.refl s, Nat.zero_le _, by simp, by simp⟩
      refine htaken.allocate h ha fun t i hsame hb ha' hp' hr' ↦ ?_
      rw [← hsame.bufferPos, ← hsame.header]
      exact bufferLoop_flushed _ t t.bufferPos i hb ha' hp' hr'
  | some i => exact bufferLoop_flushed _ s s.bufferPos i h ha (hp i ha) (hr i ha)

end OpenFile

end ZenFs
