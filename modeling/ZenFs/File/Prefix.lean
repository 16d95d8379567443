import ZenFs.File.Direct

/-!
# Appended data stays a prefix

Under every pattern of failures, what can be read from a file is a first part of what
was appended, as long as nothing is written behind a failure that has left the writer
and the file with different ideas of where the data ends: the flush that is made again
would store bytes twice, and the extent it records would start in front of them.
-/

namespace ZenFs

namespace OpenFile

/-! ## The condition -/

/-- The bytes behind the last extent of a file that is written directly. -/
def unrecorded (s : OpenFile) : Nat :=
  if s.buffered then 0 else s.file.fileSize - s.file.extentFilepos

/-- The writer counts as many bytes as the file, and the write pointer of the active
zone is where the file takes it to be. -/
def settled (s : OpenFile) : Bool :=
  (!s.buffered || s.wp == s.file.fileSize) &&
    match s.file.activeZone with
    | none => true
    | some i => (s.zbd.zones i).wp == s.file.extentStart + s.unrecorded

/-- The call hands data to a zone. -/
def writesData (s : OpenFile) : Call → Bool
  | .append data => if s.buffered then decide (s.bufferSz - s.bufferPos < data.length)
  else decide (data ≠ [])
  | .sync | .fsync => s.buffered && s.bufferPos != 0
  | .close | .destroy => s.isOpen && (s.buffered && s.bufferPos != 0)

/-- Nothing is appended behind a failed `Append`, the size of what is appended fits in 32
bits, and data is handed to a zone only if the file is settled. -/
def safe (s : OpenFile) (x : Call × Faults) : Bool :=
  (match x.1 with
    | .append data => decide (data = []) || (!s.failed && decide (data.length < 2 ^ 32))
    | _ => true) &&
  (!s.writesData x.1 || s.settled)

/-! ## Buffered writes -/

/-- A buffered file, with the data that is not in the buffer yet.  As long as the writer
counts as many bytes as the file, the buffer goes on where the file ends. -/
structure Buffering (s : OpenFile) (later : List Byte) : Prop where
  buffered : s.buffered = true
  blocks : s.file.InBlocks s.zbd
  room : ∀ i, s.file.activeZone = some i → s.bufferPos = 0 ∨
    (s.zbd.zones i).wp = s.file.extentStart → s.file.Room s.zbd i
  bufferSz : 0 < s.bufferSz
  pos : s.bufferPos ≤ s.bufferSz
  stored : s.stored <+: s.appended
  staged : s.wp = s.file.fileSize →
    ∃ rest, s.appended = s.stored ++ (s.buffer.read s.header s.bufferPos ++ rest) ∧
      (s.failed = false → rest = later)

/-- A buffered file can be written to. -/
def Settled (s : OpenFile) : Prop := s.wp = s.file.fileSize ∧ s.file.InPlace s.zbd

theorem length_stored (s : OpenFile) : s.stored.length = totalLength s.file.extents :=
  s.zbd.length_contents _

section Buffered

variable {s : OpenFile} {data later : List Byte}

theorem settled_iff (hb : s.buffered = true) : s.settled = true ↔ s.Settled := by
  rw [settled, Settled, unrecorded, hb, ZoneFile.InPlace]
  cases s.file.activeZone <;> simp

theorem Buffering.setFaults (h : s.Buffering later) (fl : Faults) :
    { s with faults := fl }.Buffering later :=
  ⟨h.buffered, h.blocks, h.room, h.bufferSz, h.pos, h.stored, h.staged⟩

/-- An `Append` that fails loses what is not in the buffer. -/
theorem Buffering.fail (h : s.Buffering later) : { s with failed := true }.Buffering [] where
  buffered := h.buffered
  blocks := h.blocks
  room := h.room
  bufferSz := h.bufferSz
  pos := h.pos
  stored := h.stored
  staged := by
    intro hwp
    obtain ⟨rest, happ, -⟩ := h.staged hwp
    exact ⟨rest, happ, by simp⟩

/-- `Append` is called. -/
theorem Buffering.receive (h : s.Buffering []) (data : List Byte) :
    { s with appended := s.appended ++ data }.Buffering data where
  buffered := h.buffered
  blocks := h.blocks
  room := h.room
  bufferSz := h.bufferSz
  pos := h.pos
  stored := h.stored.trans (List.prefix_append _ _)
  staged := by
    intro hwp
    obtain ⟨rest, happ, hrest⟩ := h.staged hwp
    refine ⟨rest ++ data, ?_, ?_⟩
    · show s.appended ++ data = _
      rw [happ, List.append_assoc, List.append_assoc]
      rfl
    · intro hf
      rw [hrest hf, List.nil_append]

/-- A part of the data is copied to the buffer. -/
theorem Buffering.stage {n : Nat} (h : s.Buffering data) (hf : s.failed = false)
    (hn : n ≤ data.length) (hsz : n ≤ s.bufferSz - s.bufferPos) :
    { s with
      buffer := s.buffer.write (s.header + s.bufferPos) (data.take n)
      bufferPos := s.bufferPos + n }.Buffering (data.drop n) where
  buffered := h.buffered
  blocks := h.blocks
  room := by
    intro i hi hor
    refine h.room i hi (hor.imp_left ?_)
    intro h0
    exact (Nat.add_eq_zero_iff.mp h0).1
  bufferSz := h.bufferSz
  pos := by
    have := h.pos
    show s.bufferPos + n ≤ s.bufferSz
    omega
  stored := h.stored
  staged := by
    intro hwp
    obtain ⟨rest, happ, hrest⟩ := h.staged hwp
    refine ⟨data.drop n, ?_, fun _ ↦ rfl⟩
    have hread : (s.buffer.write (s.header + s.bufferPos) (data.take n)).read s.header
      (s.bufferPos + n) =
        s.buffer.read s.header s.bufferPos ++ data.take n := by
      have hlen : (data.take n).length = n := by
        rw [List.length_take]
        omega
      have hback := Mem.read_write s.buffer (s.header + s.bufferPos) (data.take n)
      rw [hlen] at hback
      rw [Mem.read_add, Mem.read_write_of_le _ _ le_rfl, hback]
    show s.appended = s.stored ++ (Mem.read _ s.header _ ++ _)
    rw [hread, List.append_assoc, List.take_append_drop, happ, hrest hf]

/-- A flush of a settled file.  If it fails it has stored a part of the buffer, and then the
writer counts less bytes than the file, or nothing at all. -/
theorem Buffering.flushBuffer (h : s.Buffering later) (hw : s.bufferPos = 0 ∨ s.Settled) :
    s.flushBuffer.1.Buffering later ∧ s.flushBuffer.1.failed = s.failed ∧
      (s.flushBuffer.2 = .ok → s.flushBuffer.1.bufferPos = 0 ∧
        (s.Settled → s.flushBuffer.1.Settled)) := by
  rw [OpenFile.flushBuffer]
  split
  · rename_i h0
    exact ⟨h, rfl, fun _ ↦ ⟨h0, id⟩⟩
  · rename_i h0
    obtain ⟨hwp, hplace⟩ := hw.resolve_left h0
    obtain ⟨rest, happ, hrest⟩ := h.staged hwp
    have hfl := bufferAppend_flushed h.blocks hplace fun i hi ↦ h.room i hi (.inr (hplace i hi))
    generalize s.bufferAppend s.header = r at hfl
    obtain ⟨s', st⟩ := r
    obtain ⟨k, hk, hstored, hbuf, hok⟩ := hfl.written
    have hsame := hfl.same
    simp only at hstored hbuf hok hsame
    have hsize : s'.file.fileSize = s.file.fileSize + k := by
      rw [hfl.blocks.size, h.blocks.size, ← length_stored, ← length_stored, hstored,
        List.length_append, List.length_take, Mem.length_read, Nat.min_eq_left hk]
    have hprefix : s'.stored <+: s'.appended := by
      rw [hsame.appended, hstored, happ]
      refine (List.prefix_append_right_inj _).mpr ?_
      exact (List.take_prefix _ _).trans (List.prefix_append _ _)
    refine andThen_induct
      (P := fun r ↦ r.1.Buffering later ∧ r.1.failed = s.failed ∧
        (r.2 = .ok → r.1.bufferPos = 0 ∧ (s.Settled → r.1.Settled))) ?_ ?_
    · intro hst
      refine ⟨⟨hsame.buffered.trans h.buffered, hfl.blocks, ?_, ?_, ?_, hprefix, ?_⟩, hsame.failed,
        fun hok ↦ absurd hok hst⟩
      · intro i hi hor
        rw [hsame.bufferPos] at hor
        exact hfl.room i hi (.inr (hor.resolve_left h0))
      · rw [hsame.bufferSz]
        exact h.bufferSz
      · rw [hsame.bufferPos, hsame.bufferSz]
        exact h.pos
      · -- the counts agree only if nothing was stored
        intro hwp'
        have hwp₀ : s.wp = s'.file.fileSize := hsame.wp.symm.trans hwp'
        obtain rfl : k = 0 := by omega
        refine ⟨rest, ?_, fun hf ↦ hrest (hsame.failed ▸ hf)⟩
        rw [hsame.appended, hsame.header, hsame.bufferPos, hbuf rfl, hstored, List.take_zero,
          List.append_nil]
        exact happ
    · intro hst
      have hlen := hok hst
      refine ⟨⟨hsame.buffered.trans h.buffered, hfl.blocks, ?_, ?_, Nat.zero_le _, hprefix, ?_⟩,
        hsame.failed, fun _ ↦ ⟨rfl, fun _ ↦ ⟨?_, hfl.inPlace hst⟩⟩⟩
      · intro i hi _
        exact hfl.room i hi (.inl hst)
      · show 0 < s'.bufferSz
        rw [hsame.bufferSz]
        exact h.bufferSz
      · intro _
        refine ⟨rest, ?_, fun hf ↦ hrest (hsame.failed ▸ hf)⟩
        show s'.appended = s'.stored ++ ([] ++ rest)
        rw [hsame.appended, hstored, happ, List.take_of_length_le (by simp [hlen]), List.nil_append,
          List.append_assoc]
      · show s'.wp + s'.bufferPos = s'.file.fileSize
        rw [hsame.wp, hsame.bufferPos, hsize]
        omega

/-- The buffer is flushed if it is full. -/
theorem Buffering.makeRoom {n : Nat} (h : s.Buffering later) (hn : 0 < n)
    (hfit : n ≤ s.bufferSz - s.bufferPos ∨ s.Settled) :
    let x := if s.bufferSz - s.bufferPos = 0 then s.flushBuffer else (s, .ok)
    x.1.Buffering later ∧ x.1.failed = s.failed ∧
      (x.2 = .ok → 0 < x.1.bufferSz - x.1.bufferPos ∧
        (n ≤ x.1.bufferSz - x.1.bufferPos ∨ x.1.Settled)) := by
  simp only
  split
  · have hset := hfit.resolve_left (by omega)
    obtain ⟨h', hf, hok⟩ := h.flushBuffer (.inr hset)
    refine ⟨h', hf, fun hst ↦ ?_⟩
    obtain ⟨h0, hset'⟩ := hok hst
    have := h'.bufferSz
    exact ⟨by omega, .inr (hset' hset)⟩
  · rename_i h0
    exact ⟨h, rfl, fun _ ↦ ⟨Nat.pos_of_ne_zero h0, hfit⟩⟩

theorem Buffering.bufferedWriteLoop (fuel : Nat) :
    ∀ (s : OpenFile) (data : List Byte), data.length < fuel → s.Buffering data →
      (data ≠ [] → s.failed = false) → (data.length ≤ s.bufferSz - s.bufferPos ∨ s.Settled) →
      let r := OpenFile.bufferedWriteLoop fuel s data
      { r.1 with failed := r.1.failed || !r.2.isOk }.Buffering [] := by
  induction fuel with
  | zero =>
      intro s data hlt
      exact absurd hlt (Nat.not_lt_zero _)
  | succ fuel ih =>
      intro s data hlt h hf hfit
      rw [OpenFile.bufferedWriteLoop]
      split
      · rename_i hnil
        subst hnil
        simpa using h
      · rename_i hne
        have hpos : 0 < data.length := List.length_pos_iff.mpr hne
        obtain ⟨h', hf', hok⟩ := h.makeRoom hpos hfit
        generalize (if s.bufferSz - s.bufferPos = 0 then s.flushBuffer else (s, .ok)) =
          x at h' hf' hok
        simp only
        refine andThen_induct
          (P := fun r ↦ { r.1 with failed := r.1.failed || !r.2.isOk }.Buffering []) ?_ ?_
        · intro hst
          have hno : x.2.isOk = false := by
            rw [← Bool.not_eq_true, Status.isOk_iff]
            exact hst
          rw [hno, Bool.not_false, Bool.or_true]
          exact h'.fail
        · intro hst
          obtain ⟨hroom, hfit'⟩ := hok hst
          have hf₁ : x.1.failed = false := hf'.trans (hf hne)
          refine ih _ _ ?_ (h'.stage hf₁ (Nat.min_le_left _ _) (Nat.min_le_right _ _))
            (fun _ ↦ hf₁) ?_
          · rw [List.length_drop]
            omega
          · refine hfit'.imp ?_ id
            intro hle
            rw [List.length_drop, Nat.min_eq_left hle]
            omega

/-- While the buffer is empty, it does not matter where the next extent starts. -/
theorem Buffering.setFile (h : s.Buffering later) (h0 : s.bufferPos = 0) (f : ZoneFile)
    (hx : f.extents = s.file.extents) (hsz : f.fileSize = s.file.fileSize)
    (hsp : f.isSparse = s.file.isSparse) (ha : f.activeZone = s.file.activeZone) :
    { s with file := f }.Buffering later where
  buffered := h.buffered
  blocks := h.blocks.setFile hx hsz hsp ha
  room := by
    intro i hi _
    show f.Room s.zbd i
    rw [ZoneFile.Room, hsp]
    exact h.room i (ha ▸ hi) (.inl h0)
  bufferSz := h.bufferSz
  pos := h.pos
  stored := by
    show s.zbd.contents f.extents <+: s.appended
    rw [hx]
    exact h.stored
  staged := by
    intro hwp
    obtain ⟨rest, happ, hrest⟩ := h.staged (hwp.trans hsz)
    refine ⟨rest, ?_, hrest⟩
    show s.appended = s.zbd.contents f.extents ++ (s.buffer.read _ s.bufferPos ++ rest)
    rw [hx, h0]
    rwa [h0] at happ

theorem Buffering.closeActiveZone (h : s.Buffering later) (h0 : s.bufferPos = 0) :
    s.closeActiveZone.1.Buffering later := by
  obtain ⟨d, fl, hz, heq⟩ := s.closeActiveZone_cases
  rw [heq]
  have hstored : d.contents s.file.extents = s.stored := hz.contents _
  refine ⟨h.buffered, h.blocks.release hz fun i hi ↦ (h.room i hi (.inl h0)).1, ?_, h.bufferSz,
    h.pos, ?_, ?_⟩
  · intro i hi
    cases hi
  · show d.contents s.file.extents <+: s.appended
    rw [hstored]
    exact h.stored
  · intro hwp
    obtain ⟨rest, happ, hrest⟩ := h.staged hwp
    refine ⟨rest, ?_, hrest⟩
    show s.appended = d.contents s.file.extents ++ _
    rw [hstored]
    exact happ

theorem Buffering.closeWR (h : s.Buffering later) (h0 : s.bufferPos = 0) :
    s.closeWR.1.Buffering later := by
  have hno : { s with file := { s.file with extentStart := NO_EXTENT } }.persistMetadata.1.Buffering
      later :=
    (h.setFile h0 { s.file with extentStart := NO_EXTENT } rfl rfl rfl rfl).setFaults _
  refine andThen_induct (P := fun r ↦ r.1.Buffering later) (fun _ ↦ hno) (fun _ ↦ ?_)
  exact (hno.setFile h0 { s.file with extentStart := NO_EXTENT, openForWr := false }
    rfl rfl rfl rfl).closeActiveZone h0

theorem Buffering.dataSync (h : s.Buffering later) (hw : s.bufferPos = 0 ∨ s.Settled) :
    s.dataSync.1.Buffering later ∧ (s.dataSync.2 = .ok → s.dataSync.1.bufferPos = 0) := by
  obtain ⟨h', -, hok⟩ := h.flushBuffer hw
  rw [OpenFile.dataSync, if_pos h.buffered]
  refine andThen_induct (P := fun r ↦ r.1.Buffering later ∧ (r.2 = .ok → r.1.bufferPos = 0)) ?_ ?_
  · intro hst
    exact ⟨h', fun hst' ↦ absurd hst' hst⟩
  · intro hst
    obtain ⟨h0, -⟩ := hok hst
    split
    · exact ⟨h', fun _ ↦ h0⟩
    · exact ⟨h'.setFaults _, fun _ ↦ h0⟩

theorem Buffering.fsync (h : s.Buffering later) (hw : s.bufferPos = 0 ∨ s.Settled) :
    s.fsync.1.Buffering later := by
  obtain ⟨h', -⟩ := h.dataSync hw
  refine andThen_induct (P := fun r ↦ r.1.Buffering later) (fun _ ↦ h') (fun _ ↦ ?_)
  split
  · exact h'
  · exact h'.setFaults _

theorem Buffering.closeInternal (h : s.Buffering later)
    (hw : s.isOpen = true → s.bufferPos = 0 ∨ s.Settled) : s.closeInternal.1.Buffering later := by
  rw [OpenFile.closeInternal]
  split
  · exact h
  · rename_i ho
    obtain ⟨h', hok⟩ := h.dataSync (hw (by simpa using ho))
    refine andThen_induct (P := fun r ↦ r.1.Buffering later) (fun _ ↦ h') (fun hst ↦ ?_)
    have hclose := h'.closeWR (hok hst)
    refine andThen_induct (P := fun r ↦ r.1.Buffering later) (fun _ ↦ hclose) (fun _ ↦ ?_)
    exact ⟨hclose.buffered, hclose.blocks, hclose.room, hclose.bufferSz, hclose.pos, hclose.stored,
      hclose.staged⟩

/-- Every call under the condition keeps the invariant, whatever fails. -/
theorem Buffering.exec {x : Call × Faults} (h : s.Buffering []) (hs : s.safe x = true) :
    ({ s with faults := x.2 }.exec x.1).1.Buffering [] := by
  obtain ⟨call, fl⟩ := x
  have h' := h.setFaults fl
  rw [safe, Bool.and_eq_true] at hs
  obtain ⟨hdata, hset⟩ := hs
  have hw : s.writesData call = true → s.Settled := by
    intro hwr
    rw [hwr] at hset
    exact (settled_iff h.buffered).mp hset
  have hempty : (s.buffered && s.bufferPos != 0) = false → s.bufferPos = 0 := by
    rw [h.buffered]
    simp
  cases call with
  | append data =>
      have hrecv := h'.receive data
      have hlt : data.length < 2 ^ 32 := by
        by_cases hnil : data = []
        · subst hnil
          decide
        · simp only [hnil, decide_false, Bool.false_or, Bool.and_eq_true,
            decide_eq_true_eq] at hdata
          exact hdata.2
      have hmod : data.take (data.length % 2 ^ 32) = data := by
        rw [Nat.mod_eq_of_lt hlt, List.take_length]
      have hfalse : data ≠ [] → s.failed = false := by
        intro hnil
        simp only [hnil, decide_false, Bool.false_or, Bool.and_eq_true, Bool.not_eq_true'] at hdata
        exact hdata.1
      have hloop := Buffering.bufferedWriteLoop (data.length + 1) _ data (Nat.lt_succ_self _)
        hrecv hfalse (by
        rcases Nat.lt_or_ge (s.bufferSz - s.bufferPos) data.length with hlong | hshort
        · exact .inr (hw (by simpa [writesData, h.buffered] using hlong))
        · exact .inl hshort)
      have happend : { s with faults := fl, appended := s.appended ++ data }.append data =
          OpenFile.bufferedWriteLoop (data.length + 1)
            { s with faults := fl, appended := s.appended ++ data } data := by
        rw [OpenFile.append, if_pos h.buffered, OpenFile.bufferedWrite, hmod]
      rw [← happend] at hloop
      exact hloop
  | sync =>
      refine (h'.dataSync ?_).1
      cases hb : s.writesData .sync with
      | false => exact .inl (hempty hb)
      | true => exact .inr (hw hb)
  | fsync =>
      refine h'.fsync ?_
      cases hb : s.writesData .fsync with
      | false => exact .inl (hempty hb)
      | true => exact .inr (hw hb)
  | close | destroy =>
      refine h'.closeInternal fun ho ↦ ?_
      cases hb : s.buffered && s.bufferPos != 0 with
      | false => exact .inl (hempty hb)
      | true =>
          refine .inr (hw ?_)
          show (s.isOpen && (s.buffered && s.bufferPos != 0)) = true
          rw [hb, show s.isOpen = true from ho]
          rfl

end Buffered

/-! ## Direct writes -/

/-- A file that is written directly, with the data that is not written yet. -/
structure Direct (s : OpenFile) (later : List Byte) : Prop where
  direct : s.buffered = false
  pieces : s.file.InPieces s.zbd
  staged : ∃ rest, s.appended = s.written ++ rest ∧ (s.failed = false → rest = later)

section Direct

variable {s s' : OpenFile} {data later : List Byte}

theorem Direct.same (h : s.Direct later) (hsame : SameWriter s s') (hp : s'.file.InPieces s'.zbd)
    (hwritten : s'.written = s.written) : s'.Direct later where
  direct := hsame.buffered.trans h.direct
  pieces := hp
  staged := by
    rw [hsame.appended, hsame.failed, hwritten]
    exact h.staged

theorem Direct.setFaults (h : s.Direct later) (fl : Faults) :
    { s with faults := fl }.Direct later :=
  ⟨h.direct, h.pieces, h.staged⟩

theorem atEnd_of_settled {i : ZoneId} (hd : s.buffered = false) (hs : s.settled = true)
    (ha : s.file.activeZone = some i) : s.AtEnd i := by
  refine ⟨ha, ?_⟩
  rw [settled, unrecorded, hd, ha] at hs
  simpa using hs

/-- `Append` writes a first part of the data. -/
theorem Direct.append (h : s.Direct []) (hlt : data.length < 2 ^ 32)
    (hf : data ≠ [] → s.failed = false)
    (hend : data ≠ [] → ∀ i, s.file.activeZone = some i → s.AtEnd i) :
    let r := { s with appended := s.appended ++ data }.append data
    { r.1 with failed := r.1.failed || !r.2.isOk }.Direct [] := by
  obtain ⟨rest, happ, hrest⟩ := h.staged
  have hwrote : Wrote { s with appended := s.appended ++ data } data
      ({ s with appended := s.appended ++ data }.appendDirect data) :=
      appendDirect_wrote h.pieces hlt hend
  have happend : { s with appended := s.appended ++ data }.append data =
      andThen ({ s with appended := s.appended ++ data }.appendDirect data) fun s ↦
        ({ s with wp := s.wp + data.length }, .ok) := by
    rw [OpenFile.append, if_neg (by simp [h.direct])]
  simp only [happend]
  generalize { s with appended := s.appended ++ data }.appendDirect data = r at hwrote
  obtain ⟨t, st⟩ := r
  obtain ⟨k, hk, hwritten, hok⟩ := hwrote.written
  have hsame := hwrote.same
  simp only at hwritten hok hsame
  have hstaged : t.appended = t.written ++ (data.drop k ++ rest) := by
    rw [hsame.appended, hwritten]
    show s.appended ++ data = s.written ++ data.take k ++ (data.drop k ++ rest)
    rcases eq_or_ne data [] with rfl | hne
    · simpa using happ
    · rw [happ, hrest (hf hne), List.append_nil, List.append_nil, List.append_assoc,
        List.take_append_drop]
  refine andThen_induct
    (P := fun r ↦ { r.1 with failed := r.1.failed || !r.2.isOk }.Direct []) ?_ ?_
  · intro hst
    refine ⟨hsame.buffered.trans h.direct, hwrote.pieces, _, hstaged, ?_⟩
    have hno : st.isOk = false := by
      rw [← Bool.not_eq_true, Status.isOk_iff]
      exact hst
    simp [hno]
  · intro hst
    refine ⟨hsame.buffered.trans h.direct, hwrote.pieces, _, hstaged, ?_⟩
    intro hfalse
    have hfailed : s.failed = false := by
      rw [← hsame.failed]
      simpa using hfalse
    rw [hok hst, List.drop_length, hrest hfailed, List.append_nil]

theorem Direct.pushExtent (h : s.Direct later) : s.pushExtent.Direct later :=
  h.same (pushExtent_spec h.pieces).1 (pushExtent_spec h.pieces).2.1 (written_pushExtent h.pieces)

theorem Direct.closeWR (h : s.Direct later) (hsize : s.file.fileSize = totalLength s.file.extents) :
    s.closeWR.1.Direct later := by
  have hset : ∀ f : ZoneFile, f.extents = s.file.extents → f.fileSize = s.file.fileSize →
      f.extentFilepos = s.file.extentFilepos → f.activeZone = s.file.activeZone →
      f.isSparse = s.file.isSparse → ∀ fl, { s with file := f, faults := fl }.Direct later := by
    intro f hx hsz hfp ha hsp fl
    have hp : f.InPieces s.zbd := h.pieces.setFile hsize (.refl _) hx hsz hfp (.inl ha)
    refine h.same ⟨rfl, rfl, rfl, rfl, rfl, rfl, rfl, hsp⟩ hp ?_
    rw [written, written, pending_eq_nil h.pieces hsize,
      pending_eq_nil (s := { s with file := f, faults := fl }) hp (by rw [hsz, hx, hsize])]
    show s.zbd.contents f.extents ++ [] = _
    rw [hx]
    rfl
  refine andThen_induct (P := fun r ↦ r.1.Direct later) ?_ ?_
  · intro _
    exact hset { s.file with extentStart := NO_EXTENT } rfl rfl rfl rfl rfl _
  · intro _
    obtain h' := hset { s.file with extentStart := NO_EXTENT, openForWr := false } rfl
      rfl rfl rfl rfl { s.faults with persists := s.faults.persists.tail }
    obtain ⟨hs, hp, -, hw⟩ := closeActiveZone_spec h'.pieces hsize
    exact h'.same hs hp hw

/-- Every call under the condition keeps the invariant, whatever fails. -/
theorem Direct.exec {x : Call × Faults} (h : s.Direct []) (hs : s.safe x = true) :
    ({ s with faults := x.2 }.exec x.1).1.Direct [] := by
  obtain ⟨call, fl⟩ := x
  have h' := h.setFaults fl
  have hsync : { s with faults := fl }.dataSync = ({ s with faults := fl }.pushExtent, .ok) := by
    rw [OpenFile.dataSync, if_neg (by simp [h.direct])]
  rw [safe, Bool.and_eq_true] at hs
  obtain ⟨hdata, hset⟩ := hs
  cases call with
  | append data =>
      rcases eq_or_ne data [] with rfl | hne
      · exact h'.append (by decide) (by simp) (by simp)
      · simp only [hne, decide_false, Bool.false_or, Bool.and_eq_true, Bool.not_eq_true',
          decide_eq_true_eq] at hdata
        refine h'.append hdata.2 (fun _ ↦ hdata.1) fun _ i ha ↦ ?_
        have hsettled : s.settled = true := by simpa [writesData, h.direct, hne] using hset
        exact atEnd_of_settled h.direct hsettled ha
  | sync =>
      rw [OpenFile.exec, hsync]
      exact h'.pushExtent
  | fsync =>
      rw [OpenFile.exec, OpenFile.fsync, hsync]
      simp only [andThen]
      split
      · exact h'.pushExtent
      · exact h'.pushExtent.setFaults _
  | close | destroy =>
      rw [OpenFile.exec, OpenFile.closeInternal, hsync]
      split
      · exact h'
      · have hclose := h'.pushExtent.closeWR (pushExtent_spec h'.pieces).2.2.1
        refine andThen_induct (P := fun r ↦ r.1.Direct []) (fun hst ↦ absurd rfl hst) (fun _ ↦ ?_)
        refine andThen_induct (P := fun r ↦ r.1.Direct []) (fun _ ↦ hclose) (fun _ ↦ ?_)
        exact ⟨hclose.direct, hclose.pieces, hclose.staged⟩

end Direct

/-! ## Runs -/

/-- The zones fit the way the file is written: a buffered file needs zones with room for
whole blocks, and a sparse one cannot use an offline zone. -/
structure ZonesFit (s : OpenFile) : Prop where
  aligned : s.buffered = true → ∀ i < s.zbd.nrZones, s.zbd.blockSize ∣ (s.zbd.zones i).capacity
  writable : s.file.isSparse = true → s.zbd.Writable

instance (s : OpenFile) : Decidable s.ZonesFit :=
  decidable_of_iff
    ((s.buffered = true → ∀ i < s.zbd.nrZones, s.zbd.blockSize ∣ (s.zbd.zones i).capacity) ∧
    (s.file.isSparse = true → s.zbd.Writable))
    ⟨fun ⟨h, h'⟩ ↦ ⟨h, h'⟩, fun h ↦ ⟨h.aligned, h.writable⟩⟩

/-- The condition on a call and on the state in front of it. -/
def Careful (s : OpenFile) (x : Call × Faults) : Prop := s.safe x = true ∧ s.ZonesFit

instance (s : OpenFile) (x : Call × Faults) : Decidable (s.Careful x) :=
  inferInstanceAs (Decidable (s.safe x = true ∧ s.ZonesFit))

/-- A file that was opened for writing, perhaps with data from before. -/
structure Opened (s : OpenFile) : Prop where
  sane : s.zbd.Sane
  inside : ∀ e ∈ s.file.extents, s.zbd.Inside e
  inactive : s.file.activeZone = none
  size : s.file.fileSize = totalLength s.file.extents
  wp : s.wp = s.file.fileSize
  bufferPos : s.bufferPos = 0
  bufferSz : s.buffered = true → 0 < s.bufferSz
  appended : s.appended = s.stored
  failed : s.failed = false

section Runs

variable {s₀ s : OpenFile}

theorem Opened.placed (h : s.Opened) : s.file.Placed s.zbd where
  sane := h.sane
  inside := h.inside
  active i hi := by cases h.inactive.symm.trans hi

theorem Opened.buffering (h : s.Opened) (hz : s.ZonesFit) (hb : s.buffered = true) :
    s.Buffering [] where
  buffered := hb
  blocks := ⟨h.placed, h.size, fun i hi _ ↦ hz.aligned hb i hi, hz.writable⟩
  room i hi := by cases h.inactive.symm.trans hi
  bufferSz := h.bufferSz hb
  pos := by
    rw [h.bufferPos]
    exact Nat.zero_le _
  stored := h.appended ▸ List.prefix_rfl
  staged _ := by
    refine ⟨[], ?_, fun _ ↦ rfl⟩
    rw [h.bufferPos, Mem.read_zero, List.append_nil, List.append_nil, h.appended]

theorem Opened.direct (h : s.Opened) (hb : s.buffered = false) : s.Direct [] where
  direct := hb
  pieces := by
    refine ⟨h.placed, fun _ ↦ h.size, fun i hi ↦ ?_, fun i hi ↦ ?_⟩
    · cases h.inactive.symm.trans hi
    · cases h.inactive.symm.trans hi
  staged := by
    refine ⟨[], ?_, fun _ ↦ rfl⟩
    rw [h.appended, written, pending, h.inactive, List.append_nil, List.append_nil]

/-- The extents of a file hold a first part of what was appended. -/
theorem stored_isPrefix (h₀ : s₀.Opened) (h : Reach step Careful s₀ s) :
    s.stored <+: s.appended := by
  -- behind a first call the zones are known to have fitted
  have hinv : s = s₀ ∨ s.Buffering [] ∨ s.Direct [] := by
    refine h.invariant (I := fun s ↦ s = s₀ ∨ s.Buffering [] ∨ s.Direct []) (.inl rfl) ?_
    intro t u x ht hx hu
    obtain rfl := Option.some.inj hu
    have hopen : t.Buffering [] ∨ t.Direct [] := by
      rcases ht with rfl | ht
      · cases hb : t.buffered with
        | true => exact .inl (h₀.buffering hx.2 hb)
        | false => exact .inr (h₀.direct hb)
      · exact ht
    rcases hopen with ht | ht
    · exact .inr (.inl (ht.exec hx.1))
    · exact .inr (.inr (ht.exec hx.1))
  rcases hinv with rfl | hb | hd
  · rw [h₀.appended]
  · exact hb.stored
  · obtain ⟨rest, happ, -⟩ := hd.staged
    rw [happ, written, List.append_assoc]
    exact List.prefix_append _ _

/-- Whatever fails, the bytes that can be read are a first part of those that were
appended, as long as every call meets the condition. -/
theorem reads_prefix_of_safe (h₀ : s₀.Opened) (h : Reach step Careful s₀ s) : s.ReadsPrefix := by
  intro offset n hn
  rw [positionedRead_eq s.zbd s.file hn]
  exact (List.take_prefix _ _).trans ((stored_isPrefix h₀ h).drop offset)

end Runs

/-! ## A flush that is made again -/

/-- A buffered file on a device with two zones: one has room for one more block, the other
is empty. -/
def nearlyFull : OpenFile where
  zbd :=
    { blockSize := 512
      zoneSize := 2 ^ 20
      nrZones := 2
      zones := fun i ↦
        if i = 0 then ⟨0, 2 ^ 20, 512, 2 ^ 20 - 512, 2 ^ 20 - 512, false, 0, 0⟩
        else ⟨i * 2 ^ 20, 2 ^ 20, 2 ^ 20, i * 2 ^ 20, 0, false, 0, 0⟩
      mem := fun _ ↦ 0 }
  file := { fileId := 1, openForWr := true }
  buffered := true
  buffer := fun _ ↦ 0
  bufferSz := 2 ^ 20
  bufferPos := 0
  wp := 0
  isOpen := true
  faults := {}
  appended := []
  failed := false

theorem opened_nearlyFull : nearlyFull.Opened where
  sane := by
    refine ⟨by decide, ?_, ?_⟩
    · decide
    · decide
  inside := by simp [nearlyFull]
  inactive := rfl
  size := rfl
  wp := rfl
  bufferPos := rfl
  bufferSz := by decide
  appended := rfl
  failed := rfl

/-- The first `Sync` finds no zone; the second one stores everything, but its metadata is
not persisted, and the third and `Close` have nothing left to store. -/
theorem reads_prefix_of_safe_retry :
    ∃ s, Reach step Careful nearlyFull s ∧ s.file.fileSize = 1024 ∧ s.ReadsPrefix := by
  have hrun : (runAll (fun s x ↦ if decide (s.Careful x) then step s x else none) nearlyFull
      [(.append (List.replicate 1024 1), {}), (.sync, {}),
        (.sync, { zones := [some 0, some 1], persists := [true, true, false] }),
        (.sync, {}), (.close, {})]).map (fun s ↦ s.file.fileSize) = some 1024 := by
    decide +kernel
  obtain ⟨s, hs, hsize⟩ := Option.map_eq_some_iff.mp hrun
  have hreach : Reach step Careful nearlyFull s := by simpa using Reach.of_checked _ hs
  exact ⟨s, hreach, hsize, reads_prefix_of_safe opened_nearlyFull hreach⟩

/-- `Sync` fills the first zone and then finds no other, and is called again: it stores all
of the buffer, of which the second half is the first half as well by now. -/
theorem flush_stores_bytes_twice :
    nearlyFull.Opened ∧ ¬ ∀ s, Reach step (fun _ _ ↦ True) nearlyFull s → s.ReadsPrefix := by
  refine ⟨opened_nearlyFull, fun hall ↦ ?_⟩
  have hrun : (runAll step nearlyFull
      [(.append (List.replicate 1024 1), {}), (.sync, { zones := [some 0] }),
        (.sync, { zones := [some 1] })]).map
        (fun s ↦ (s.file.fileSize, totalLength s.file.extents, s.appended.length)) =
        some (1536, 1536, 1024) := by
    decide +kernel
  obtain ⟨s, hs, hsize⟩ := Option.map_eq_some_iff.mp hrun
  simp only [Prod.mk.injEq] at hsize
  obtain ⟨hsz, htotal, happ⟩ := hsize
  have hread := hall s (Reach.of_any hs) 0 1536 (by decide)
  rw [positionedRead_eq s.zbd s.file (by decide)] at hread
  have hlen := hread.length_le
  simp only [List.length_take, List.drop_zero, Zbd.length_contents] at hlen
  omega

end OpenFile

end ZenFs
