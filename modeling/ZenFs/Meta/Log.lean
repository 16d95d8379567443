import ZenFs.Meta.Record
import Mathlib.Logic.Function.Basic

/-!
# The metadata log on its zones

`ZenMetaLog` frames a record with a checksum and a length, pads it to whole
blocks and appends it to a metadata zone.  The device is modelled block by
block: a written block is a `Frag`, the `idx`-th block of the frame of some
record, so a crash or a failed write may leave any prefix of a frame behind.

A frame is accepted by `ReadRecord` exactly when all its blocks are on the
device in order.  That is the framing together with the checksum: a torn frame
has the header of the record but not its contents, and `crc32c` tells them
apart.

The device (`MediaZone`) is kept apart from the `Zone` object in memory
(`MetaZone`), since a crash keeps the one and loses the other.  Offsets are
counted in blocks from the start of the zone.
-/

namespace ZenFs

/-- Block size, zone size in blocks, the length of the encoding of each record, and
the comparison `s == IOStatus::NoSpace()`.  A block holds the frame of an end record.
Of the comparison it is known that a full zone passes and success does not; whether
other errors pass is up to the definition of `IOStatus`. -/
structure Geometry where
  blockSize : Nat
  zoneBlocks : Nat
  nrZones : Nat
  recordSize : Record → Nat
  isNoSpace : Status → Bool
  zoneBlocks_pos : 0 < zoneBlocks
  endRecord_le : recordSize .endRecord + 8 ≤ blockSize
  isNoSpace_ok : isNoSpace .ok = false
  isNoSpace_noSpace (msg : String) : isNoSpace (.noSpace msg) = true

attribute [simp] Geometry.isNoSpace_ok Geometry.isNoSpace_noSpace

namespace Geometry

variable (G : Geometry)

/-- `phys_sz / bs_` in `ZenMetaLog::AddRecord`: header and payload, padded to
whole blocks. -/
def physBlocks (r : Record) : Nat := (G.recordSize r + 8 + (G.blockSize - 1)) / G.blockSize

theorem physBlocks_pos (r : Record) : 0 < G.physBlocks r := by
  have h := G.endRecord_le
  exact Nat.div_pos (by omega) (by omega)

@[simp] theorem physBlocks_endRecord : G.physBlocks .endRecord = 1 := by
  have h := G.endRecord_le
  rw [physBlocks, Nat.div_eq_iff (by omega)]
  omega

end Geometry

/-- Zones of eight blocks, with snapshots of two blocks once there is a file.  In
`IOStatus` a full zone is an I/O error with a subcode, and only codes are compared. -/
def smallGeometry : Geometry where
  blockSize := 4096
  zoneBlocks := 8
  nrZones := 16
  recordSize
    | .completeFilesSnapshot (_ :: _) => 4096
    | .superblock _ => 512
    | .endRecord => 4
    | _ => 100
  isNoSpace
    | .ioError _ | .noSpace _ => true
    | _ => false
  zoneBlocks_pos := by decide
  endRecord_le := by decide
  isNoSpace_ok := rfl
  isNoSpace_noSpace _ := rfl

/-- One block of a metadata zone: block `idx` of the frame of `record`. -/
structure Frag where
  record : Record
  idx : Nat
deriving DecidableEq, Repr

/-- The blocks `ZenMetaLog::AddRecord` appends for a record. -/
def Geometry.frame (G : Geometry) (r : Record) : List Frag :=
  (List.range (G.physBlocks r)).map (Frag.mk r)

@[simp] theorem Geometry.length_frame (G : Geometry) (r : Record) :
    (G.frame r).length = G.physBlocks r := by
  simp [Geometry.frame]

theorem Geometry.frame_eq_cons (G : Geometry) (r : Record) :
    ∃ t, G.frame r = ⟨r, 0⟩ :: t := by
  obtain ⟨n, hn⟩ := Nat.exists_eq_succ_of_ne_zero (Nat.pos_iff_ne_zero.mp (G.physBlocks_pos r))
  exact ⟨_, by rw [Geometry.frame, hn, List.range_succ_eq_map, List.map_cons]⟩

/-- A zone on the device: the blocks written since the last reset, and whether
the zone was finished. -/
structure MediaZone where
  maxCapacity : Nat
  blocks : List Frag
  finished : Bool
deriving DecidableEq, Repr

namespace MediaZone

/-- The zone condition is FULL: written to its capacity, or finished. -/
def full (z : MediaZone) : Bool := z.finished || z.blocks.length == z.maxCapacity

/-- The write pointer the backend reports; that of a full zone is the end of
the zone, not the end of its capacity. -/
def reportedWp (G : Geometry) (z : MediaZone) : Nat :=
  if z.full then G.zoneBlocks else z.blocks.length

end MediaZone

/-- The contents of all metadata zones. -/
abbrev Media := Nat → MediaZone

/-- A command that changes the metadata zones on the device. -/
inductive Cmd where
  | append (zone : Nat) (frags : List Frag)
  | finish (zone : Nat)
  | reset (zone : Nat)
deriving DecidableEq, Repr

/-- The device after a command. -/
def Cmd.apply : Cmd → Media → Media
  | .append i fs, d => Function.update d i { d i with blocks := (d i).blocks ++ fs }
  | .finish i, d => Function.update d i { d i with finished := true }
  | .reset i, d => Function.update d i { d i with blocks := [], finished := false }

/-- The device after a list of commands. -/
def applyAll (cs : List Cmd) (d : Media) : Media := cs.foldl (fun d c ↦ c.apply d) d

@[simp] theorem applyAll_nil (d : Media) : applyAll [] d = d := rfl

@[simp] theorem applyAll_cons (c : Cmd) (cs : List Cmd) (d : Media) :
    applyAll (c :: cs) d = applyAll cs (c.apply d) := rfl

@[simp] theorem applyAll_append (cs cs' : List Cmd) (d : Media) :
    applyAll (cs ++ cs') d = applyAll cs' (applyAll cs d) := by
  simp [applyAll]

/-- The `Zone` object of a metadata zone: write pointer and remaining capacity
in blocks, and the busy flag.  Metadata zones never have used capacity. -/
structure MetaZone where
  wp : Nat
  capacity : Nat
  busy : Bool
deriving DecidableEq, Repr, Inhabited

/-- The constructor `Zone::Zone` on the zone report of the backend. -/
def MetaZone.open (G : Geometry) (z : MediaZone) : MetaZone where
  wp := z.reportedWp G
  capacity := if z.full then 0 else z.maxCapacity - z.blocks.length
  busy := false

/-- The metadata side of a running filesystem: device, `meta_zones`, the zone
`meta_log_` appends to, and `superblock_`.  `cmds` records the commands issued
so far, so that the device at every earlier moment can be named. -/
structure MetaState where
  nr : Nat
  media : Media
  zones : Nat → MetaZone
  metaLog : Nat
  superblock : Superblock
  cmds : List Cmd

/-- What the backend does with an append: write everything, or fail after the
first `n` blocks. -/
inductive WriteRes where
  | written
  | failedAfter (n : Nat)
deriving DecidableEq, Repr

namespace MetaState

/-- Issue a command to the device. -/
def emit (m : MetaState) (c : Cmd) : MetaState :=
  { m with media := c.apply m.media, cmds := m.cmds ++ [c] }

/-- Replace the `Zone` object of zone `i`. -/
def setZone (m : MetaState) (i : Nat) (z : MetaZone) : MetaState :=
  { m with zones := Function.update m.zones i z }

/-- Blocks have been written at the write pointer of zone `i`. -/
def wrote (m : MetaState) (i : Nat) (fs : List Frag) : MetaState :=
  (m.emit (.append i fs)).setZone i
    { m.zones i with
      wp := (m.zones i).wp + fs.length
      capacity := (m.zones i).capacity - fs.length }

/-- `Zone::Append`. -/
def append (m : MetaState) (i : Nat) (fs : List Frag) (res : WriteRes) : MetaState × Status :=
  if (m.zones i).capacity < fs.length then
    (m, .noSpace "Not enough capacity for append")
  else match res with
    | .written => (m.wrote i fs, .ok)
    | .failedAfter n => (m.wrote i (fs.take (min n (fs.length - 1))), .ioError "Zone append failed")

/-- `ZenMetaLog::AddRecord`. -/
def addRecord (G : Geometry) (m : MetaState) (i : Nat) (r : Record) (res : WriteRes) :
    MetaState × Status :=
  m.append i (G.frame r) res

/-- `Zone::Reset`, which the device carries out. -/
def reset (m : MetaState) (i : Nat) : MetaState :=
  (m.emit (.reset i)).setZone i
    { m.zones i with wp := 0, capacity := (m.media i).maxCapacity }

/-- `Zone::Finish`. -/
def finish (G : Geometry) (m : MetaState) (i : Nat) : MetaState :=
  (m.emit (.finish i)).setZone i { m.zones i with wp := G.zoneBlocks, capacity := 0 }

/-- `Zone::Acquire` on a zone that is not busy. -/
def acquire (m : MetaState) (i : Nat) : MetaState := m.setZone i { m.zones i with busy := true }

/-- `Zone::Release`, as the destructor of `ZenMetaLog` calls it. -/
def release (m : MetaState) (i : Nat) : MetaState := m.setZone i { m.zones i with busy := false }

end MetaState

/-! ## Reading -/

/-- `ZenMetaLog::ReadRecord` at block `pos` of a zone with write pointer `wp`:
a record and the block behind its frame, or nothing at the end of the log. -/
def readRecord (G : Geometry) (z : MediaZone) (wp pos : Nat) :
    Except Status (Option Record × Nat) :=
  if wp ≤ pos then .ok (none, pos)
  else if z.maxCapacity ≤ pos then .error (.ioError "Read across zone")
  else match z.blocks[pos]? with
    | none => .error (.ioError "Not a valid record")
    | some b =>
        if z.maxCapacity < pos + G.physBlocks b.record then .error (.ioError "Read across zone")
        else if (z.blocks.drop pos).take (G.physBlocks b.record) = G.frame b.record then
          .ok (some b.record, pos + G.physBlocks b.record)
        else .error (.ioError "Not a valid record")

/-- What repeated `readRecord` finds from `pos` up to an end record or the end of
the log: the records, and the error that ended the reading if there was one. -/
inductive Reads (G : Geometry) (z : MediaZone) (wp : Nat) : Nat → List Record → Option Status → Prop
  | eof {pos p : Nat} (h : readRecord G z wp pos = .ok (none, p)) : Reads G z wp pos [] none
  | ended {pos p : Nat} (h : readRecord G z wp pos = .ok (some .endRecord, p)) :
      Reads G z wp pos [] none
  | bad {pos : Nat} {e : Status} (h : readRecord G z wp pos = .error e) :
      Reads G z wp pos [] (some e)
  | cons {pos p : Nat} {r : Record} {rs : List Record} {e : Option Status}
      (h : readRecord G z wp pos = .ok (some r, p)) (hr : r ≠ .endRecord)
      (t : Reads G z wp p rs e) : Reads G z wp pos (r :: rs) e

/-- A record that is read ends within the capacity of the zone. -/
theorem readRecord_some {G : Geometry} {z : MediaZone} {wp pos p : Nat} {r : Record}
    (h : readRecord G z wp pos = .ok (some r, p)) :
    p = pos + G.physBlocks r ∧ p ≤ z.maxCapacity := by
  unfold readRecord at h
  split at h
  · simp at h
  split at h
  · simp at h
  split at h
  · simp at h
  split at h
  · simp at h
  split at h
  · simp only [Except.ok.injEq, Prod.mk.injEq, Option.some.injEq] at h
    obtain ⟨rfl, rfl⟩ := h
    exact ⟨rfl, by omega⟩
  · simp at h

theorem Reads.length_le {G : Geometry} {z : MediaZone} {wp pos : Nat} {rs : List Record}
    {e : Option Status} (h : Reads G z wp pos rs e) :
    pos ≤ z.maxCapacity → rs.length ≤ z.maxCapacity - pos := by
  induction h with
  | eof _ => simp
  | ended _ => simp
  | bad _ => simp
  | @cons pos p r rs e h _ _ ih =>
      intro hpos
      obtain ⟨rfl, hp⟩ := readRecord_some h
      have := ih hp
      have := G.physBlocks_pos r
      simp only [List.length_cons]
      omega

section Frames

variable {G : Geometry}

/-- The blocks of a list of complete frames. -/
def Geometry.frames (G : Geometry) (rs : List Record) : List Frag := rs.flatMap G.frame

@[simp] theorem Geometry.frames_nil : G.frames [] = [] := rfl

@[simp] theorem Geometry.frames_cons (r : Record) (rs : List Record) :
    G.frames (r :: rs) = G.frame r ++ G.frames rs := rfl

@[simp] theorem Geometry.frames_append (rs rs' : List Record) :
    G.frames (rs ++ rs') = G.frames rs ++ G.frames rs' := by
  simp [Geometry.frames]

theorem readRecord_eof {z : MediaZone} {wp pos : Nat} (h : wp ≤ pos) :
    readRecord G z wp pos = .ok (none, pos) := by
  simp [readRecord, h]

/-- A complete frame is read back. -/
theorem readRecord_frame {z : MediaZone} {wp pos : Nat} {r : Record} {t : List Frag}
    (hz : z.blocks.drop pos = G.frame r ++ t) (hwp : pos < wp)
    (hcap : pos + G.physBlocks r ≤ z.maxCapacity) :
    readRecord G z wp pos = .ok (some r, pos + G.physBlocks r) := by
  have hpos := G.physBlocks_pos r
  obtain ⟨u, hu⟩ := G.frame_eq_cons r
  have hget : z.blocks[pos]? = some ⟨r, 0⟩ := by
    have h0 : (z.blocks.drop pos)[0]? = some ⟨r, 0⟩ := by rw [hz, hu]; rfl
    simpa using h0
  have htake : (z.blocks.drop pos).take (G.physBlocks r) = G.frame r := by
    rw [hz, List.take_append_of_le_length (by simp), List.take_of_length_le (by simp)]
  simp [readRecord, Nat.not_le.mpr hwp, hget, htake, Nat.not_lt.mpr hcap,
    show ¬ z.maxCapacity ≤ pos by omega]

/-- A frame of which the first blocks are there, but not all, is rejected. -/
theorem readRecord_torn {z : MediaZone} {wp pos k : Nat} {r : Record}
    (hz : z.blocks[pos]? = some ⟨r, k⟩)
    (hne : (z.blocks.drop pos).take (G.physBlocks r) ≠ G.frame r) (hwp : pos < wp) :
    ∃ e, readRecord G z wp pos = .error e := by
  simp only [readRecord, if_neg (Nat.not_le.mpr hwp), hz, if_neg hne]
  split
  · exact ⟨_, rfl⟩
  · split <;> exact ⟨_, rfl⟩

/-- The first `k` blocks of a frame followed by blocks of another record are not
the frame. -/
theorem take_frame_ne {k : Nat} {r : Record} {u : List Frag} (hk : k < G.physBlocks r)
    (hu : ∀ b ∈ u.head?, b.record ≠ r) :
    ((G.frame r).take k ++ u).take (G.physBlocks r) ≠ G.frame r := by
  intro h
  have hlen : ((G.frame r).take k).length = k := by
    rw [List.length_take, Geometry.length_frame]; omega
  have hk' : (((G.frame r).take k ++ u).take (G.physBlocks r))[k]? = u.head? := by
    rw [List.getElem?_take_of_lt hk, List.getElem?_append_right (Nat.le_of_eq hlen), hlen,
      Nat.sub_self, List.head?_eq_getElem?]
  rw [h] at hk'
  have hr : (G.frame r)[k]? = some ⟨r, k⟩ := by simp [Geometry.frame, hk]
  rw [hr] at hk'
  exact hu ⟨r, k⟩ (Option.mem_def.mpr hk'.symm) rfl

/-- Complete frames are read back one by one, up to whatever follows them. -/
theorem Reads.of_frames {z : MediaZone} {wp : Nat} {rs rs' : List Record} {e : Option Status}
    {t : List Frag} :
    ∀ {pos : Nat}, (∀ r ∈ rs, r ≠ .endRecord) → z.blocks.drop pos = G.frames rs ++ t →
      pos + (G.frames rs).length ≤ wp → pos + (G.frames rs).length ≤ z.maxCapacity →
      Reads G z wp (pos + (G.frames rs).length) rs' e → Reads G z wp pos (rs ++ rs') e := by
  induction rs with
  | nil => exact fun _ _ _ _ h ↦ by simpa using h
  | cons r rs ih =>
      intro pos hr hz hwp hcap h
      simp only [Geometry.frames_cons, List.length_append, Geometry.length_frame] at hwp hcap h
      have hpos := G.physBlocks_pos r
      refine .cons (readRecord_frame (t := G.frames rs ++ t) ?_ (by omega) (by omega))
        (hr r (List.mem_cons_self ..)) ?_
      · rw [hz, Geometry.frames_cons, List.append_assoc]
      · refine ih (fun r' h' ↦ hr r' (List.mem_cons_of_mem _ h')) ?_ (by omega) (by omega)
          (by rwa [Nat.add_assoc])
        rw [← List.drop_drop, hz, Geometry.frames_cons, List.append_assoc,
          List.drop_append_of_le_length (by simp), List.drop_of_length_le (by simp),
          List.nil_append]

end Frames

end ZenFs
