import ZenFs.File.Progress
import ZenFs.File.Sparse

/-!
# Sparse extents, written and recovered

`SparseAppend` and `RecoverSparseExtents` meet at `Segments`, the extents that lie one
behind the other in a zone.  The writer works in 32 bits here, as in the source; that
it is `bufferAppend` otherwise is a theorem.
-/

namespace ZenFs

theorem decodeFixed64_encodeFixed64 {n : Nat} (h : n < 2 ^ 64) :
    decodeFixed64 (encodeFixed64 n) = n := by
  simp [decodeFixed64, encodeFixed64, List.range_succ]
  omega

/-- Only the header counts. -/
theorem decodeFixed64_read (m : Mem Byte) (a : Nat) {n : Nat} (h : SPARSE_HEADER_SIZE ≤ n) :
    decodeFixed64 (m.read a n) = decodeFixed64 (m.read a SPARSE_HEADER_SIZE) := by
  have h8 : (8 : Nat) ≤ n := h
  rw [decodeFixed64, decodeFixed64, Mem.take_read _ _ _ _ h8,
    Mem.take_read m a SPARSE_HEADER_SIZE 8 (Nat.le_refl 8)]

/-! ## The writer -/

namespace OpenFile

/-- One turn of the loop in `ZoneFile::SparseAppend`, up to the point where the extent is
recorded. -/
def sparseChunk (s : OpenFile) (i : ZoneId) (wr_size : Nat) : OpenFile × Status :=
  let s' := s.padBuffer SPARSE_HEADER_SIZE wr_size
  let n := (wr_size + padSize s.zbd.blockSize wr_size) % 2 ^ 32
  andThen (s'.zoneAppend i (s'.buffer.read 0 n)) fun s ↦
    (s.recordExtent i SPARSE_HEADER_SIZE (sub32 wr_size SPARSE_HEADER_SIZE), .ok)

/-- The loop of `ZoneFile::SparseAppend`. -/
def sparseLoop : Nat → OpenFile → Nat → OpenFile × Status
  | 0, s, _ => (s, .noSpace "Zone allocation failure\n")
  | fuel + 1, s, left =>
      if left = 0 then (s, .ok)
      else match s.file.activeZone with
        | none => (s, .ok)
        | some i =>
            let wr_size := min ((left + SPARSE_HEADER_SIZE) % 2 ^ 32) (s.zbd.zones i).capacity
            let left' := sub32 left (sub32 wr_size SPARSE_HEADER_SIZE)
            andThen (s.sparseChunk i wr_size) fun s ↦
              if (s.zbd.zones i).capacity = 0 then
                andThen s.closeActiveZone fun s ↦
                  andThen (s.shiftBuffer SPARSE_HEADER_SIZE wr_size left').allocateNewZone fun s ↦
                    sparseLoop fuel s left'
              else sparseLoop fuel s left'

/-- `ZoneFile::SparseAppend`. -/
def sparseAppend (s : OpenFile) (sparse_buffer : Mem Byte) (data_size : Nat) : OpenFile × Status :=
  let s := { s with buffer := sparse_buffer }
  let loop := fun s : OpenFile ↦ sparseLoop (s.faults.zones.length + 2) s data_size
  match s.file.activeZone with
  | none => andThen s.allocateNewZone loop
  | some _ => loop s

/-- Calls of `SparseAppend`, one after the other, whatever they return. -/
def sparseAppends (s : OpenFile) (calls : List (Mem Byte × Nat)) : OpenFile :=
  calls.foldl (fun s c ↦ (s.sparseAppend c.1 c.2).1) s

end OpenFile

/-! ## Segments -/

/-- The extents lie one behind the other from `pos` to `stop`, each behind a header with
its length. -/
def Segments (m : Mem Byte) (bs : Nat) (i : ZoneId) (stop : Nat) : Nat → List ZoneExtent → Prop
  | pos, [] => pos = stop
  | pos, e :: es =>
      e = ⟨pos + SPARSE_HEADER_SIZE, e.length, i⟩ ∧ 0 < e.length ∧
        decodeFixed64 (m.read pos bs) = e.length ∧
        Segments m bs i stop
          (pos + (e.length + SPARSE_HEADER_SIZE + padSize bs (e.length + SPARSE_HEADER_SIZE))) es

namespace Segments

variable {m m' : Mem Byte} {bs : Nat} {i : ZoneId} {pos stop : Nat} {es : List ZoneExtent}

theorem le (h : Segments m bs i stop pos es) : pos ≤ stop := by
  induction es generalizing pos with
  | nil => exact Nat.le_of_eq h
  | cons e es ih => exact (Nat.le_add_right _ _).trans (ih h.2.2.2)

/-- The header of a segment is inside of the segment. -/
theorem congr (hb : SPARSE_HEADER_SIZE ≤ bs) (h : Segments m bs i stop pos es)
    (hm : ∀ a, pos ≤ a → a < stop → m a = m' a) : Segments m' bs i stop pos es := by
  induction es generalizing pos with
  | nil => exact h
  | cons e es ih =>
      obtain ⟨he, h0, hlen, hrest⟩ := h
      have hle := hrest.le
      refine ⟨he, h0, ?_, ih hrest fun a ha ha' ↦ hm a (by omega) ha'⟩
      rw [← hlen, decodeFixed64_read m' pos hb, decodeFixed64_read m pos hb]
      congr 1
      exact Mem.read_congr fun a ha ha' ↦ (hm a ha (by omega)).symm

/-- Another segment behind the last one. -/
theorem append {e : ZoneExtent} {stop' : Nat} (h : Segments m bs i stop pos es)
    (he : Segments m bs i stop' stop [e]) : Segments m bs i stop' pos (es ++ [e]) := by
  induction es generalizing pos with
  | nil => exact (show pos = stop from h) ▸ he
  | cons e' es ih => exact ⟨h.1, h.2.1, h.2.2.1, ih h.2.2.2⟩

/-- Recovery goes from header to header. -/
theorem recover {dev : Nat → Option (List Byte)} (hdev : ∀ a, dev a = some (m.read a bs))
    (hb : SPARSE_HEADER_SIZE ≤ bs) (hend : stop + bs ≤ 2 ^ 64) (h : Segments m bs i stop pos es)
    (before : List ZoneExtent) (z : Zone) :
    ∃ fuel, SparseScan.recoverSparseExtents dev bs stop i true fuel ⟨pos, before, z⟩ =
      some (⟨stop, before ++ es, { z with usedCapacity := z.usedCapacity + totalLength es }⟩,
        .ok) := by
  induction es generalizing pos before z with
  | nil =>
      obtain rfl : pos = stop := h
      refine ⟨1, ?_⟩
      simp [SparseScan.recoverSparseExtents, Loop.run, SparseScan.turn, totalLength]
  | cons e es ih =>
      obtain ⟨he, h0, hlen, hrest⟩ := h
      have hle := hrest.le
      have hpush := SparseScan.push_eq (i := i) (s := ⟨pos, before, z⟩) (n := e.length) hb hend
        (show pos + SPARSE_HEADER_SIZE + e.length ≤ stop by omega)
      have hturn : SparseScan.turn dev bs stop i ⟨pos, before, z⟩ =
          .inr (SparseScan.push bs i ⟨pos, before, z⟩ e.length) := by
        have hlt : pos < stop := by omega
        exact SparseScan.turn_eq_inr.mpr ⟨hlt, _, hdev pos, by omega, by rw [hlen]⟩
      obtain ⟨fuel, hfuel⟩ :=
        ih hrest (before ++ [e]) { z with usedCapacity := z.usedCapacity + e.length }
      refine ⟨fuel + 1, ?_⟩
      rw [SparseScan.recoverSparseExtents, if_pos rfl] at hfuel ⊢
      rw [Loop.run, hturn, hpush]
      dsimp only
      rw [← he, hfuel, List.append_assoc, List.singleton_append, totalLength_cons, Nat.add_assoc]

end Segments

/-! ## A zone that is written -/

namespace OpenFile

/-- The file writes to zone `i`, which takes whole blocks and lies in the first `2 ^ 64`
bytes, and every write to the device gets through. -/
structure Writes (s : OpenFile) (i : ZoneId) : Prop where
  sane : s.zbd.Sane
  block : s.zbd.blockSize < 2 ^ 31
  zone : i < s.zbd.nrZones
  active : s.file.activeZone = some i
  start : (s.zbd.zones i).wp = s.file.extentStart
  room : 0 < (s.zbd.zones i).capacity
  blocks : s.zbd.blockSize ∣ (s.zbd.zones i).capacity
  stop : (s.zbd.zones i).wp + (s.zbd.zones i).capacity + s.zbd.blockSize ≤ 2 ^ 64
  writes : ∀ calls ∈ s.faults.writes, .failed ∉ calls

/-- What has become of zone `i` since its write pointer was at `start` and the extents of
the file were `before`. -/
structure Written (bs : Nat) (i : ZoneId) (start : Nat) (before : List ZoneExtent) (s : OpenFile) :
    Prop where
  sane : s.zbd.Sane
  blockSize : s.zbd.blockSize = bs
  zone : i < s.zbd.nrZones
  active : ∀ j, s.file.activeZone = some j → j < s.zbd.nrZones
  writes : ∀ calls ∈ s.faults.writes, .failed ∉ calls
  le : (s.zbd.zones i).start ≤ start
  stop : (s.zbd.zones i).wp + (s.zbd.zones i).capacity + bs ≤ 2 ^ 64
  segments : ∃ added, s.file.extents = before ++ added ∧
    Segments s.zbd.mem bs i (s.zbd.zones i).wp start (added.filter fun e ↦ e.zone == i)
  inPlace : s.file.activeZone = some i →
    (s.zbd.zones i).wp = s.file.extentStart ∧ bs ∣ (s.zbd.zones i).capacity
  full : s.file.activeZone ≠ some i →
    (s.zbd.zones i).capacity = 0 ∧ (s.zbd.zones i).start < (s.zbd.zones i).wp

/-- At the head of the loop the active zone has room. -/
structure AtHead (bs : Nat) (i : ZoneId) (start : Nat) (before : List ZoneExtent) (s : OpenFile) :
    Prop extends Written bs i start before s where
  room : s.file.activeZone = some i → 0 < (s.zbd.zones i).capacity

/-- `data` has been written to zone `i`, and the extents `es` are recorded. -/
structure Chunk (s : OpenFile) (i : ZoneId) (data : List Byte) (es : List ZoneExtent)
    (t : OpenFile) : Prop where
  le : data.length ≤ (s.zbd.zones i).capacity
  zones : (s.zbd.appended i data).SameZones t.zbd
  extents : t.file.extents = s.file.extents ++ es
  active : t.file.activeZone = s.file.activeZone
  writes : t.faults.writes = s.faults.writes.tail

variable {s t : OpenFile} {bs : Nat} {i j : ZoneId} {start : Nat} {before es : List ZoneExtent}
  {data : List Byte}

theorem Writes.atHead (h : s.Writes i) :
    AtHead s.zbd.blockSize i s.file.extentStart s.file.extents s where
  sane := h.sane
  blockSize := rfl
  zone := h.zone
  active j hj := Option.some.inj (h.active.symm.trans hj) ▸ h.zone
  writes := h.writes
  le := h.start ▸ (h.sane.wp i h.zone).1
  stop := h.stop
  segments := ⟨[], by simp, h.start.symm⟩
  inPlace _ := ⟨h.start, h.blocks⟩
  full hne := absurd h.active hne
  room _ := h.room

/-- Zones are taken and given back, and nothing is written. -/
theorem Written.sameZones (h : Written bs i start before s) (hz : s.zbd.SameZones t.zbd)
    (hx : t.file.extents = s.file.extents) (hw : ∀ calls ∈ t.faults.writes, .failed ∉ calls)
    (ha : ∀ j, t.file.activeZone = some j → j < s.zbd.nrZones) (hi : t.file.activeZone ≠ some i)
    (hf : (s.zbd.zones i).capacity = 0 ∧ (s.zbd.zones i).start < (s.zbd.zones i).wp) :
    AtHead bs i start before t where
  sane := hz.sane h.sane
  blockSize := hz.blockSize.trans h.blockSize
  zone := hz.nrZones ▸ h.zone
  active j hj := hz.nrZones ▸ ha j hj
  writes := hw
  le := hz.start i ▸ h.le
  stop := by rw [hz.wp, hz.capacity]; exact h.stop
  segments := by rw [hx, hz.mem, hz.wp]; exact h.segments
  inPlace hi' := absurd hi' hi
  full _ := by rw [hz.start, hz.wp, hz.capacity]; exact hf
  room hi' := absurd hi' hi

theorem Chunk.writes_ok (hc : Chunk s i data es t)
    (hw : ∀ calls ∈ s.faults.writes, .failed ∉ calls) :
    ∀ calls ∈ t.faults.writes, .failed ∉ calls := by
  rw [hc.writes]
  exact fun calls h ↦ hw calls (List.mem_of_mem_tail h)

/-- The file writes to another zone. -/
theorem Chunk.other (hc : Chunk s j data es t) (h : Written bs i start before s)
    (ha : s.file.activeZone = some j) (hj : j ≠ i) (hes : ∀ e ∈ es, e.zone = j) :
    AtHead bs i start before t := by
  have hz := hc.zones
  have ha' : t.file.activeZone = some j := hc.active.trans ha
  have hne : t.file.activeZone ≠ some i := by
    rw [ha']
    exact fun h ↦ hj (Option.some.inj h)
  have hzone : (s.zbd.appended j data).zones i = s.zbd.zones i := by
    rw [Zbd.appended_zones, if_neg (Ne.symm hj)]
  have hjn := h.active j ha
  have hwpi := h.sane.wp i h.zone
  have hwpj := h.sane.wp j hjn
  have happ : Written bs i start before { s with zbd := s.zbd.appended j data } :=
    { sane := h.sane.appended hjn hc.le
      blockSize := h.blockSize
      zone := h.zone
      active := h.active
      writes := h.writes
      le := hzone ▸ h.le
      stop := hzone ▸ h.stop
      segments := by
        obtain ⟨added, hadded, hseg⟩ := h.segments
        refine ⟨added, hadded, hzone ▸ hseg.congr (h.blockSize ▸ h.sane.block.le)
          fun a hle hlt ↦ ?_⟩
        have hle' := h.le
        have hd := hc.le
        rcases h.sane.apart i h.zone j hjn (Ne.symm hj) with hap | hap
        · exact (Mem.write_of_lt _ _ (by omega)).symm
        · exact (Mem.write_of_ge _ _ (by omega)).symm
      inPlace := fun hi ↦ absurd (ha.symm.trans hi) fun h ↦ hj (Option.some.inj h)
      full := fun hi ↦ hzone ▸ h.full hi }
  obtain ⟨added, hadded, hseg⟩ := happ.segments
  have hfilter : (es.filter fun e ↦ e.zone == i) = [] := by
    rw [List.filter_eq_nil_iff]
    intro e he
    simpa [hes e he] using hj
  have hkept := happ.sameZones (t := { t with file := { t.file with extents := s.file.extents } })
    hz rfl (hc.writes_ok h.writes) (fun k hk ↦ Option.some.inj (ha'.symm.trans hk) ▸ hjn) hne
    (hzone ▸ h.full (ha ▸ by simpa using hj))
  exact { hkept with
    segments := by
      refine ⟨added ++ es, ?_, ?_⟩
      · rw [hc.extents, ← List.append_assoc, ← hadded]
      · rw [List.filter_append, hfilter, List.append_nil, hz.mem, hz.wp]
        exact hseg }

/-- The file writes a segment to the zone. -/
theorem Chunk.segment {len : Nat}
    (hc : Chunk s i data [⟨s.file.extentStart + SPARSE_HEADER_SIZE, len, i⟩] t)
    (h : Written bs i start before s) (ha : s.file.activeZone = some i) (hlen : 0 < len)
    (h64 : len < 2 ^ 64)
    (hdata : data.length = len + SPARSE_HEADER_SIZE + padSize bs (len + SPARSE_HEADER_SIZE))
    (hheader : data.take SPARSE_HEADER_SIZE = encodeFixed64 len)
    (hx : t.file.extentStart = (s.zbd.zones i).wp + data.length) :
    Written bs i start before t ∧ (t.zbd.zones i).capacity = (s.zbd.zones i).capacity -
    data.length ∧
      (t.zbd.zones i).start < (t.zbd.zones i).wp := by
  have hz := hc.zones
  have hd := hc.le
  have ha' : t.file.activeZone = some i := hc.active.trans ha
  have hb : SPARSE_HEADER_SIZE < bs := h.blockSize ▸ h.sane.block
  have hwp := h.sane.wp i h.zone
  have hstop := h.stop
  obtain ⟨hp, hdvd⟩ := h.inPlace ha
  have hstart' : (t.zbd.zones i).start = (s.zbd.zones i).start := by
    rw [hz.start, Zbd.appended_zones, if_pos rfl]
  have hwp' : (t.zbd.zones i).wp = (s.zbd.zones i).wp + data.length := by
    rw [hz.wp, Zbd.appended_zones, if_pos rfl]
  have hcap' : (t.zbd.zones i).capacity = (s.zbd.zones i).capacity - data.length := by
    rw [hz.capacity, Zbd.appended_zones, if_pos rfl]
  refine ⟨?_, hcap', by omega⟩
  exact
    { sane := hz.sane (h.sane.appended h.zone hd)
      blockSize := hz.blockSize.trans h.blockSize
      zone := hz.nrZones ▸ h.zone
      active := fun j hj ↦ hz.nrZones ▸ Option.some.inj (ha'.symm.trans hj) ▸ h.zone
      writes := hc.writes_ok h.writes
      le := hstart' ▸ h.le
      stop := by omega
      segments := by
        obtain ⟨added, hadded, hseg⟩ := h.segments
        refine ⟨added ++ [⟨s.file.extentStart + SPARSE_HEADER_SIZE, len, i⟩], ?_, ?_⟩
        · rw [hc.extents, ← List.append_assoc, ← hadded]
        · have hfilter : [ZoneExtent.mk (s.file.extentStart + SPARSE_HEADER_SIZE) len i].filter
              (fun e ↦ e.zone == i) = [⟨s.file.extentStart + SPARSE_HEADER_SIZE, len, i⟩] := by simp
          rw [List.filter_append, hfilter, hz.mem, Zbd.appended_mem, hwp']
          refine (hseg.congr hb.le fun a _ hlt ↦ (Mem.write_of_lt _ _ hlt).symm).append
            ⟨by rw [hp], hlen, ?_, ?_⟩
          · rw [decodeFixed64_read _ _ hb.le, Mem.read_write_take _ _ _ _ (by omega), hheader,
              decodeFixed64_encodeFixed64 h64]
          · show _ = _
            rw [hdata]
      inPlace := fun _ ↦ by
        rw [hwp', hx, hcap', hdata]
        refine ⟨rfl, Nat.dvd_sub hdvd (dvd_add_padSize (by omega))⟩
      full := fun hne ↦ absurd ha' hne }

/-! ## One turn -/

theorem take_padBuffer (s : OpenFile) (wr_size : Nat) {n : Nat} (hn : SPARSE_HEADER_SIZE ≤ n) :
    ((s.padBuffer SPARSE_HEADER_SIZE wr_size).buffer.read 0 n).take SPARSE_HEADER_SIZE =
      encodeFixed64 (sub32 wr_size SPARSE_HEADER_SIZE) := by
  have hlen : ∀ k, (encodeFixed64 k).take SPARSE_HEADER_SIZE = encodeFixed64 k := fun _ ↦ rfl
  rw [Mem.take_read _ _ _ _ hn, padBuffer, hlen]
  exact Mem.read_write _ 0 (encodeFixed64 (sub32 wr_size SPARSE_HEADER_SIZE))

/-- Whatever a turn returns, what it has written lies in the zone, and so does the extent
it may have recorded. -/
theorem sparseChunk_cases (s : OpenFile) (i : ZoneId) (wr_size : Nat) :
    ∃ data es, Chunk s i data es (s.sparseChunk i wr_size).1 ∧ ∀ e ∈ es, e.zone = i := by
  rw [sparseChunk]
  generalize (s.padBuffer SPARSE_HEADER_SIZE wr_size).buffer.read 0
    ((wr_size + padSize s.zbd.blockSize wr_size) % 2 ^ 32) = data
  obtain ⟨n, hn, happ, hcap, -⟩ := s.zbd.append_spec i data (s.faults.writes.headD [])
  have hfst : ((s.padBuffer SPARSE_HEADER_SIZE wr_size).zoneAppend i data).1 =
      { s.padBuffer SPARSE_HEADER_SIZE wr_size with
        zbd := s.zbd.appended i (data.take n)
        faults := { s.faults with writes := s.faults.writes.tail } } := by
    rw [← happ]
    rfl
  have hle : (data.take n).length ≤ (s.zbd.zones i).capacity := (List.length_take_le _ _).trans hcap
  refine andThen_induct
    (P := fun r ↦ ∃ data es, Chunk s i data es r.1 ∧ ∀ e ∈ es, e.zone = i) (fun _ ↦ ?_) (fun _ ↦ ?_)
  · rw [hfst]
    exact ⟨data.take n, [], ⟨hle, .refl _, (List.append_nil _).symm, rfl, rfl⟩, by simp⟩
  · rw [hfst]
    exact ⟨data.take n, [_], ⟨hle, Zbd.sameZones_addUsed _ i _, rfl, rfl, rfl⟩, by simp⟩

/-- No write fails, and the zone has room. -/
theorem sparseChunk_ok {wr_size n : Nat} (hw : ∀ calls ∈ s.faults.writes, .failed ∉ calls)
    (hn : (wr_size + padSize s.zbd.blockSize wr_size) % 2 ^ 32 = n)
    (hcap : n ≤ (s.zbd.zones i).capacity) : (s.sparseChunk i wr_size).2 = .ok ∧
      Chunk s i ((s.padBuffer SPARSE_HEADER_SIZE wr_size).buffer.read 0 n)
        [⟨s.file.extentStart + SPARSE_HEADER_SIZE, sub32 wr_size SPARSE_HEADER_SIZE, i⟩]
        (s.sparseChunk i wr_size).1 ∧
      (s.sparseChunk i wr_size).1.file.extentStart = (s.zbd.zones i).wp + n := by
  generalize hdata : (s.padBuffer SPARSE_HEADER_SIZE wr_size).buffer.read 0 n = data
  have hlen : data.length = n := by rw [← hdata, Mem.length_read]
  have hhead : .failed ∉ s.faults.writes.headD [] := by
    cases hx : s.faults.writes with
    | nil => simp
    | cons calls rest => exact hw calls (by rw [hx]; exact List.mem_cons_self)
  have happ : s.zbd.append i data (s.faults.writes.headD []) = (s.zbd.appended i data, .ok) :=
    s.zbd.append_of_notMem i hhead (hlen ▸ hcap)
  have hzone : (s.padBuffer SPARSE_HEADER_SIZE wr_size).zoneAppend i data =
      ({ s.padBuffer SPARSE_HEADER_SIZE wr_size with
        zbd := s.zbd.appended i data
        faults := { s.faults with writes := s.faults.writes.tail } }, .ok) := by
    rw [zoneAppend, show (s.padBuffer SPARSE_HEADER_SIZE wr_size).zbd.append i data
      ((s.padBuffer SPARSE_HEADER_SIZE wr_size).faults.writes.headD []) = _ from happ]
    rfl
  rw [sparseChunk, hn, hdata, hzone]
  refine ⟨rfl, ⟨hlen ▸ hcap, Zbd.sameZones_addUsed _ i _, rfl, rfl, rfl⟩, ?_⟩
  show ((s.zbd.appended i data).zones i).wp = _
  rw [Zbd.appended_zones, if_pos rfl, hlen]

/-- What a turn on the zone does, if its length fits in 32 bits. -/
theorem AtHead.chunk {left wr_size : Nat} (h : AtHead bs i start before s)
    (ha : s.file.activeZone = some i) (h0 : left ≠ 0)
    (h32 : left + SPARSE_HEADER_SIZE + bs ≤ 2 ^ 32)
    (hwr : min ((left + SPARSE_HEADER_SIZE) % 2 ^ 32) (s.zbd.zones i).capacity = wr_size) :
    (s.sparseChunk i wr_size).2 = .ok ∧ Written bs i start before (s.sparseChunk i wr_size).1 ∧
      (s.sparseChunk i wr_size).1.file.activeZone = some i ∧
      ((s.sparseChunk i wr_size).1.zbd.zones i).start <
      ((s.sparseChunk i wr_size).1.zbd.zones i).wp ∧
      (((s.sparseChunk i wr_size).1.zbd.zones i).capacity ≠ 0 →
        sub32 left (sub32 wr_size SPARSE_HEADER_SIZE) = 0) := by
  have hb : SPARSE_HEADER_SIZE < bs := h.blockSize ▸ h.sane.block
  have hb0 : 0 < bs := Nat.zero_lt_of_lt hb
  obtain ⟨hp, hdvd⟩ := h.inPlace ha
  have hcap : bs ≤ (s.zbd.zones i).capacity := Nat.le_of_dvd (h.room ha) hdvd
  rw [Nat.mod_eq_of_lt (by omega)] at hwr
  obtain ⟨len, hle, hwr', hsub, hsub', hlen⟩ : ∃ len ≤ left,
    s.wrSize i SPARSE_HEADER_SIZE left = _ ∧
      _ ∧ _ ∧ _ := wrSize_eq left (by omega)
  obtain rfl : wr_size = SPARSE_HEADER_SIZE + len := hwr.symm.trans hwr'
  have hpad := padSize_lt (n := SPARSE_HEADER_SIZE + len) hb0
  have hfits := add_padSize_le hb0 hdvd (n := SPARSE_HEADER_SIZE + len) (by omega)
  obtain ⟨hok, hchunk, hx⟩ := sparseChunk_ok (s := s) (i := i) h.writes
    (by rw [h.blockSize]; exact Nat.mod_eq_of_lt (by omega)) hfits
  rw [hsub] at hchunk
  obtain ⟨hw, hcap', hlt⟩ := hchunk.segment h.toWritten ha (by omega) (by omega)
    (by rw [Mem.length_read, Nat.add_comm len]) (by rw [take_padBuffer _ _ (by omega), hsub])
    (by rw [Mem.length_read]; exact hx)
  refine ⟨hok, hw, hchunk.active.trans ha, hlt, fun hne ↦ ?_⟩
  rw [hcap', Mem.length_read] at hne
  rw [hsub, hsub']
  omega

/-! ## The next zone -/

theorem closeActiveZone_writes (s : OpenFile) :
    s.closeActiveZone.1.faults.writes = s.faults.writes := by
  rw [closeActiveZone]
  cases s.file.activeZone with
  | none => rfl
  | some i =>
      dsimp only
      split <;> rfl

theorem allocateNewZone_writes (s : OpenFile) :
    s.allocateNewZone.1.faults.writes = s.faults.writes := by
  rw [allocateNewZone]
  cases s.faults.zones.headD none with
  | none => rfl
  | some i =>
      dsimp only
      split <;> rfl

theorem AtHead.buffer (h : AtHead bs i start before s) (m : Mem Byte) :
    AtHead bs i start before { s with buffer := m } where
  sane := h.sane
  blockSize := h.blockSize
  zone := h.zone
  active := h.active
  writes := h.writes
  le := h.le
  stop := h.stop
  segments := h.segments
  inPlace := h.inPlace
  full := h.full
  room := h.room

theorem AtHead.shiftBuffer (h : AtHead bs i start before s) (header wr_size left : Nat) :
    AtHead bs i start before (s.shiftBuffer header wr_size left) := by
  rw [OpenFile.shiftBuffer]
  split
  · exact h
  · exact h.buffer _

theorem shiftBuffer_file (s : OpenFile) (header wr_size left : Nat) :
    (s.shiftBuffer header wr_size left).file = s.file := by
  rw [OpenFile.shiftBuffer]
  split <;> rfl

/-- A zone that is full and has been written is given back. -/
theorem Written.closeActiveZone (h : Written bs i start before s)
    (hf : (s.zbd.zones i).capacity = 0 ∧ (s.zbd.zones i).start < (s.zbd.zones i).wp) :
    AtHead bs i start before s.closeActiveZone.1 ∧ s.closeActiveZone.1.file.activeZone = none := by
  have hw := s.closeActiveZone_writes
  obtain ⟨d, fl, hz, hclose⟩ := s.closeActiveZone_cases
  rw [hclose] at hw ⊢
  exact ⟨h.sameZones hz rfl (hw ▸ h.writes) (by simp) (by simp) hf, rfl⟩

/-- It is not taken again. -/
theorem AtHead.allocateNewZone (h : AtHead bs i start before s) (ha : s.file.activeZone ≠ some i) :
    AtHead bs i start before s.allocateNewZone.1 ∧
    s.allocateNewZone.1.file.activeZone ≠ some i := by
  have hf := h.full ha
  have hw := s.allocateNewZone_writes
  rcases s.allocateNewZone_cases with ⟨-, fl, heq⟩ | ⟨j, fl, he, heq⟩
  · rw [heq] at hw ⊢
    exact ⟨h.toWritten.sameZones (.refl _) rfl (hw ▸ h.writes) h.active ha hf, ha⟩
  · have hji : j ≠ i := by
      rintro rfl
      simp [Zbd.eligible, Zone.isFull, Zone.isEmpty, hf.1, hf.2.ne'] at he
    have hjn : j < s.zbd.nrZones := by
      simp only [Zbd.eligible, Bool.and_eq_true, decide_eq_true_eq] at he
      exact he.1.1
    have hne : (s.setActiveZone j).file.activeZone ≠ some i := fun h ↦ hji (Option.some.inj h)
    rw [heq] at hw ⊢
    refine ⟨h.toWritten.sameZones (s.zbd.sameZones_setBusy j true) rfl (hw ▸ h.writes)
      ?_ hne hf, hne⟩
    intro k hk
    exact Option.some.inj hk ▸ hjn

/-- What is left goes to another zone. -/
theorem Written.next {k : OpenFile → OpenFile × Status} (h : Written bs i start before s)
    (hf : (s.zbd.zones i).capacity = 0 ∧ (s.zbd.zones i).start < (s.zbd.zones i).wp)
    (hk : ∀ t, AtHead bs i start before t → t.file.activeZone ≠ some i →
      AtHead bs i start before (k t).1)
    (header wr_size left : Nat) :
    AtHead bs i start before (andThen s.closeActiveZone fun t ↦
      andThen (t.shiftBuffer header wr_size left).allocateNewZone k).1 := by
  obtain ⟨hclosed, hnone⟩ := h.closeActiveZone hf
  refine andThen_induct (P := fun r ↦ AtHead bs i start before r.1) (fun _ ↦ hclosed) (fun _ ↦ ?_)
  have hne : (s.closeActiveZone.1.shiftBuffer header wr_size left).file.activeZone ≠ some i := by
    simp [shiftBuffer_file, hnone]
  obtain ⟨halloc, hne'⟩ := (hclosed.shiftBuffer header wr_size left).allocateNewZone hne
  exact andThen_induct (P := fun r ↦ AtHead bs i start before r.1) (fun _ ↦ halloc)
    (fun _ ↦ hk _ halloc hne')

/-! ## A call -/

theorem AtHead.sparseLoop (fuel : Nat) : ∀ (s : OpenFile) (left : Nat), AtHead bs i start before s →
    (left ≠ 0 → s.file.activeZone = some i → left + SPARSE_HEADER_SIZE + bs ≤ 2 ^ 32) →
    AtHead bs i start before (sparseLoop fuel s left).1 := by
  induction fuel with
  | zero => exact fun s left h _ ↦ h
  | succ fuel ih =>
      intro s left h h32
      rw [OpenFile.sparseLoop]
      split
      · exact h
      · rename_i h0
        cases ha : s.file.activeZone with
        | none => exact h
        | some j =>
            dsimp only
            generalize hwr : min ((left + SPARSE_HEADER_SIZE) % 2 ^ 32)
              (s.zbd.zones j).capacity = wr_size
            generalize hleft : sub32 left (sub32 wr_size SPARSE_HEADER_SIZE) = left'
            have hnext : ∀ t, AtHead bs i start before t → t.file.activeZone ≠ some i →
                AtHead bs i start before (OpenFile.sparseLoop fuel t left').1 :=
              fun t ht hne ↦ ih t left' ht fun _ ha ↦ absurd ha hne
            by_cases hj : j = i
            · -- either the zone is full or nothing is left
              subst hj
              obtain ⟨hok, hw, ha', hlt, hrest⟩ := h.chunk ha h0 (h32 h0 ha) hwr
              rw [hleft] at hrest
              refine andThen_induct (P := fun r ↦ AtHead bs j start before r.1)
                (absurd hok) fun _ ↦ ?_
              split
              · rename_i hc
                exact hw.next ⟨hc, hlt⟩ hnext _ _ _
              · rename_i hc
                exact ih _ _ ⟨hw, fun _ ↦ Nat.pos_of_ne_zero hc⟩ fun hne ↦ absurd (hrest hc) hne
            · -- another zone, and the zone stays as it is
              have hne : some j ≠ some i := fun h ↦ hj (Option.some.inj h)
              obtain ⟨data, es, hc, hes⟩ := s.sparseChunk_cases j wr_size
              have ht := hc.other h.toWritten ha hj hes
              have hne' : (s.sparseChunk j wr_size).1.file.activeZone ≠ some i := by
                rwa [hc.active, ha]
              refine andThen_induct (P := fun r ↦ AtHead bs i start before r.1)
                (fun _ ↦ ht) fun _ ↦ ?_
              split
              · exact ht.toWritten.next (ht.full hne') hnext _ _ _
              · exact hnext _ ht hne'

theorem AtHead.sparseAppend (h : AtHead bs i start before s) (sparse_buffer : Mem Byte)
    {data_size : Nat} (h32 : data_size + SPARSE_HEADER_SIZE + bs ≤ 2 ^ 32) :
    AtHead bs i start before (s.sparseAppend sparse_buffer data_size).1 := by
  have hb := h.buffer sparse_buffer
  have hloop : ∀ t, AtHead bs i start before t →
      AtHead bs i start before
        (OpenFile.sparseLoop (t.faults.zones.length + 2) t data_size).1 :=
    fun t ht ↦ AtHead.sparseLoop _ t data_size ht fun _ _ ↦ h32
  rw [OpenFile.sparseAppend]
  dsimp only
  cases ha : s.file.activeZone with
  | none =>
      obtain ⟨halloc, -⟩ := hb.allocateNewZone (show s.file.activeZone ≠ some i by simp [ha])
      exact andThen_induct (P := fun r ↦ AtHead bs i start before r.1) (fun _ ↦ halloc)
        (fun _ ↦ hloop _ halloc)
  | some j => exact hloop _ hb

theorem AtHead.sparseAppends (h : AtHead bs i start before s) {calls : List (Mem Byte × Nat)}
    (h32 : ∀ c ∈ calls, c.2 + SPARSE_HEADER_SIZE + bs ≤ 2 ^ 32) :
    AtHead bs i start before (s.sparseAppends calls) := by
  induction calls generalizing s with
  | nil => exact h
  | cons c calls ih =>
      exact ih (h.sparseAppend c.1 (h32 c List.mem_cons_self)) fun c' hc' ↦
        h32 c' (List.mem_cons_of_mem _ hc')

/-- Recovery finds the extents that the calls have recorded in the zone, in their order. -/
theorem recover_sparseAppends (h : s.Writes i) {calls : List (Mem Byte × Nat)}
    (h32 : ∀ c ∈ calls, c.2 + SPARSE_HEADER_SIZE + s.zbd.blockSize ≤ 2 ^ 32) :
    let d := (s.sparseAppends calls).zbd
    ∃ added, (s.sparseAppends calls).file.extents = s.file.extents ++ added ∧
      ∀ extents zone, ∃ fuel zone', SparseScan.recoverSparseExtents (fun a ↦ d.read a d.blockSize)
        d.blockSize (d.zones i).wp i true fuel ⟨s.file.extentStart, extents, zone⟩ =
          some (⟨(d.zones i).wp, extents ++ added.filter fun e ↦ e.zone == i, zone'⟩, .ok) := by
  intro d
  have hhead := h.atHead.sparseAppends h32
  obtain ⟨added, hadded, hseg⟩ := hhead.segments
  have hbs : d.blockSize = s.zbd.blockSize := hhead.blockSize
  have hb := h.sane.block
  have hblock := h.block
  have hread : ∀ a, d.read a d.blockSize = some (d.mem.read a s.zbd.blockSize) := by
    intro a
    rw [Zbd.read, hbs, Nat.mod_eq_of_lt (by omega), if_pos ⟨by omega, hblock⟩]
  refine ⟨added, hadded, fun extents zone ↦ ?_⟩
  have hstop := hhead.stop
  obtain ⟨fuel, hrun⟩ := hseg.recover hread hb.le (by omega) extents zone
  rw [hbs] at hrun ⊢
  exact ⟨fuel, _, hrun⟩

/-- A file that has just got a zone with four blocks. -/
def onFourBlocks (writes : List (List WriteCall)) : OpenFile where
  zbd :=
    { blockSize := 16
      zoneSize := 64
      nrZones := 1
      zones := fun _ ↦ ⟨0, 64, 64, 0, 0, true, 0, 0⟩
      mem := fun _ ↦ 0 }
  file := { fileId := 1, isSparse := true, openForWr := true, activeZone := some 0,
            extentStart := 0 }
  buffered := true
  buffer := fun _ ↦ 0
  bufferSz := 100
  bufferPos := 0
  wp := 0
  isOpen := true
  faults := { writes := writes }
  appended := []
  failed := false

theorem writes_onFourBlocks : (onFourBlocks []).Writes 0 where
  sane := by
    refine ⟨by decide, ?_, ?_⟩
    · intro i hi j hj hij
      exact absurd ((Nat.lt_one_iff.mp hi).trans (Nat.lt_one_iff.mp hj).symm) hij
    · intro i _
      show 0 ≤ 0 ∧ 0 + 64 ≤ 0 + 64
      decide
  block := by decide
  zone := by decide
  active := rfl
  start := rfl
  room := by decide
  blocks := by decide
  stop := by decide
  writes := by simp [onFourBlocks]

/-- The second call is cut off at the end of the zone. -/
theorem recover_sparseAppends_onFourBlocks :
    let d := ((onFourBlocks []).sparseAppends [(fun _ ↦ 1, 10), (fun _ ↦ 2, 100)]).zbd
    ∃ added, ((onFourBlocks []).sparseAppends [(fun _ ↦ 1, 10), (fun _ ↦ 2, 100)]).file.extents =
        [] ++ added ∧
      ∀ extents zone, ∃ fuel zone', SparseScan.recoverSparseExtents (fun a ↦ d.read a d.blockSize)
        d.blockSize (d.zones 0).wp 0 true fuel ⟨0, extents, zone⟩ =
          some (⟨(d.zones 0).wp, extents ++ added.filter fun e ↦ e.zone == 0, zone'⟩, .ok) :=
  recover_sparseAppends writes_onFourBlocks (by decide)

/-- With a size of `2 ^ 32 - 8` the length wraps around: nothing is written for the extent.
And of an append that fails in the middle, recovery finds a part. -/
theorem exists_recover_ne :
    let s := ((onFourBlocks []).sparseAppend (fun _ ↦ 0) (2 ^ 32 - 8)).1
    let t := ((onFourBlocks [[.wrote 16, .failed]]).sparseAppend (fun _ ↦ 0) 20).1
    let recovered := fun (s : OpenFile) (fuel : Nat) ↦ SparseScan.recoverSparseExtents
      (fun a ↦ s.zbd.read a s.zbd.blockSize) s.zbd.blockSize (s.zbd.zones 0).wp 0 true fuel
      ⟨0, [], s.zbd.zones 0⟩
    (s.file.extents = [⟨8, 2 ^ 32 - 8, 0⟩] ∧
      (recovered s 1).map (fun r ↦ (r.1.extents, r.2)) = some ([], .ok)) ∧
    (t.file.extents = [] ∧
      (recovered t 2).map (fun r ↦ (r.1.extents, r.2)) = some ([⟨8, 20, 0⟩], .ok)) := by
  decide

/-! ## In 32 bits and without -/

section Words

variable {header left : Nat}

theorem sparseChunk_eq_appendChunk (hb : 0 < s.zbd.blockSize)
    (h32 : left + SPARSE_HEADER_SIZE + s.zbd.blockSize ≤ 2 ^ 32) :
    s.sparseChunk i (s.wrSize i SPARSE_HEADER_SIZE left) =
    s.appendChunk i SPARSE_HEADER_SIZE left := by
  have hpad := padSize_lt (n := s.wrSize i SPARSE_HEADER_SIZE left) hb
  have hwr : s.wrSize i SPARSE_HEADER_SIZE left ≤ left + SPARSE_HEADER_SIZE := Nat.min_le_left _ _
  rw [sparseChunk, appendChunk, Nat.mod_eq_of_lt (by omega)]

theorem sparseLoop_succ (hb : 0 < s.zbd.blockSize)
    (h32 : left + SPARSE_HEADER_SIZE + s.zbd.blockSize ≤ 2 ^ 32) (fuel : Nat) :
    sparseLoop (fuel + 1) s left =
      (bufferTurn SPARSE_HEADER_SIZE (s, left)).elim id fun x ↦ sparseLoop fuel x.1 x.2 := by
  rw [OpenFile.sparseLoop, bufferTurn, Nat.mod_eq_of_lt (by omega)]
  split
  · rfl
  cases s.file.activeZone with
  | none => rfl
  | some i =>
      dsimp only
      rw [elim_orReturn, ← sparseChunk_eq_appendChunk hb h32]
      refine congrArg (andThen _) (funext fun s ↦ ?_)
      split
      · rw [elim_orReturn]
        refine congrArg (andThen _) (funext fun s ↦ ?_)
        rw [elim_orReturn]
        rfl
      · rfl

theorem shiftBuffer_zbd (s : OpenFile) (header wr_size left : Nat) :
    (s.shiftBuffer header wr_size left).zbd = s.zbd := by
  rw [OpenFile.shiftBuffer]
  split <;> rfl

theorem appendChunk_blockSize (s : OpenFile) (i : ZoneId) (header left : Nat) :
    (s.appendChunk i header left).1.zbd.blockSize = s.zbd.blockSize := by
  obtain ⟨n, fl, -, -, hcases⟩ := s.appendChunk_cases i header left
  rcases hcases with ⟨-, heq⟩ | ⟨-, heq⟩
  · rw [heq]
    rfl
  · rw [heq]
    rfl

theorem closeActiveZone_blockSize (s : OpenFile) :
    s.closeActiveZone.1.zbd.blockSize = s.zbd.blockSize := by
  obtain ⟨d, fl, hz, heq⟩ := s.closeActiveZone_cases
  rw [heq]
  exact hz.blockSize

theorem allocateNewZone_blockSize (s : OpenFile) :
    s.allocateNewZone.1.zbd.blockSize = s.zbd.blockSize := by
  rcases s.allocateNewZone_cases with ⟨-, fl, heq⟩ | ⟨i, fl, -, heq⟩
  · rw [heq]
  · rw [heq]
    rfl

/-- The loop goes on with blocks of this size. -/
def KeepsBlocks (bs : Nat) : (OpenFile × Status) ⊕ (OpenFile × Nat) → Prop
  | .inl _ => True
  | .inr (s, _) => s.zbd.blockSize = bs

theorem bufferTurn_keepsBlocks (header : Nat) (s : OpenFile) (left : Nat) :
    KeepsBlocks s.zbd.blockSize (bufferTurn header (s, left)) := by
  rw [bufferTurn]
  split
  · exact trivial
  cases s.file.activeZone with
  | none => exact trivial
  | some i =>
      dsimp only
      refine orReturn_induct (fun _ ↦ trivial) fun _ ↦ ?_
      have hchunk := s.appendChunk_blockSize i header left
      split
      · refine orReturn_induct (fun _ ↦ trivial) fun _ ↦ ?_
        refine orReturn_induct (fun _ ↦ trivial) fun _ ↦ ?_
        rw [KeepsBlocks, allocateNewZone_blockSize, shiftBuffer_zbd,
          closeActiveZone_blockSize, hchunk]
      · exact hchunk

/-- With a size that fits, `SparseAppend` is the loop it has in common with
`BufferedAppend`. -/
theorem sparseLoop_eq_bufferLoop (fuel : Nat) : ∀ (s : OpenFile) (left : Nat),
    HeadInv SPARSE_HEADER_SIZE s left → left + SPARSE_HEADER_SIZE + s.zbd.blockSize ≤ 2 ^ 32 →
      sparseLoop fuel s left = bufferLoop SPARSE_HEADER_SIZE fuel s left := by
  induction fuel with
  | zero =>
      intro s left _ _
      rw [OpenFile.sparseLoop, bufferLoop]
  | succ fuel ih =>
      intro s left h h32
      rw [sparseLoop_succ (Nat.zero_lt_of_lt h.offers.block) h32, bufferLoop_succ]
      cases hturn : bufferTurn SPARSE_HEADER_SIZE (s, left) with
      | inl r => rw [Sum.elim_inl, Sum.elim_inl]
      | inr x =>
          obtain ⟨t, left'⟩ := x
          have h0 : left ≠ 0 := by
            rintro rfl
            rw [bufferTurn, if_pos rfl] at hturn
            cases hturn
          have hadv := bufferTurn_advances h (Nat.le_refl _) h0
          rw [hturn] at hadv
          have hbs := bufferTurn_keepsBlocks SPARSE_HEADER_SIZE s left
          rw [hturn, KeepsBlocks] at hbs
          have hlt := hadv.1
          exact ih t left' hadv.2 (by omega)

end Words

end OpenFile

end ZenFs
