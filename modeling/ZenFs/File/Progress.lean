import ZenFs.File.Retry
import ZenFs.Lib.Loop

/-!
# The append loops

`BufferedAppend`, `SparseAppend` and `Append` write to the active zone, and take another
one when it is full.  A turn makes progress if the zone has space left.  An offline zone
has none, but its write pointer is at its start, so that it counts as empty and is handed
out.
-/

namespace ZenFs

namespace OpenFile

/-! ## One turn -/

/-- `if (!s.ok()) return s;` in the body of a loop. -/
def orReturn {τ : Type} (x : OpenFile × Status) (k : OpenFile → (OpenFile × Status) ⊕ τ) :
    (OpenFile × Status) ⊕ τ :=
  match x with
  | (s, .ok) => k s
  | (s, st) => .inl (s, st)

/-- The body of the loop in `BufferedAppend` and `SparseAppend`. -/
def bufferTurn (header : Nat) : OpenFile × Nat → (OpenFile × Status) ⊕ (OpenFile × Nat)
  | (s, left) =>
      if left = 0 then .inl (s, .ok)
      else match s.file.activeZone with
        | none => .inl (s, .ok)
        | some i =>
            let wr_size := s.wrSize i header left
            let left' := sub32 left (sub32 wr_size header)
            orReturn (s.appendChunk i header left) fun s ↦
              if (s.zbd.zones i).capacity = 0 then
                orReturn s.closeActiveZone fun s ↦
                  orReturn (s.shiftBuffer header wr_size left').allocateNewZone fun s ↦
                    .inr (s, left')
              else .inr (s, left')

/-- The body of the loop in `Append`. -/
def directTurn : OpenFile × List Byte → (OpenFile × Status) ⊕ (OpenFile × List Byte)
  | (s, data) =>
      if data = [] then .inl (s, .ok)
      else match s.file.activeZone with
        | none => .inl (s, .ok)
        | some i =>
            orReturn
              (if (s.zbd.zones i).capacity = 0 then andThen s.pushExtent.closeActiveZone
                allocateNewZone
              else (s, .ok)) fun s ↦
                match s.file.activeZone with
                | none => .inl (s, .ok)
                | some i =>
                    let wr_size := min data.length (s.zbd.zones i).capacity
                    orReturn (s.zoneAppend i (data.take wr_size)) fun s ↦
                      .inr ({ s with
                        file := { s.file with fileSize := s.file.fileSize + wr_size } },
                        data.drop wr_size)

section Unfold

variable {τ : Type}

theorem elim_orReturn (x : OpenFile × Status) (k : OpenFile → (OpenFile × Status) ⊕ τ)
    (f : τ → OpenFile × Status) :
    (orReturn x k).elim id f = andThen x fun s ↦ (k s).elim id f := by
  obtain ⟨s, st⟩ := x
  cases st <;> rfl

/-- What holds of an error and of all that follows a success. -/
theorem orReturn_induct {x : OpenFile × Status} {k : OpenFile → (OpenFile × Status) ⊕ τ}
    {P : (OpenFile × Status) ⊕ τ → Prop} (hx : x.2 ≠ .ok → P (.inl x))
    (hk : x.2 = .ok → P (k x.1)) : P (orReturn x k) := by
  obtain ⟨s, st⟩ := x
  cases st with
  | ok => exact hk rfl
  | notFound | corruption | notSupported | invalidArgument | ioError | noSpace => exact hx (by simp)

/-- The loop goes from one turn to the next. -/
theorem bufferLoop_succ (header fuel : Nat) (s : OpenFile) (left : Nat) :
    bufferLoop header (fuel + 1) s left =
      (bufferTurn header (s, left)).elim id fun x ↦ bufferLoop header fuel x.1 x.2 := by
  rw [bufferLoop, bufferTurn]
  split
  · rfl
  cases s.file.activeZone with
  | none => rfl
  | some i =>
      dsimp only
      rw [elim_orReturn]
      refine congrArg (andThen _) (funext fun s ↦ ?_)
      split
      · rw [elim_orReturn]
        refine congrArg (andThen _) (funext fun s ↦ ?_)
        rw [elim_orReturn]
        rfl
      · rfl

theorem appendLoop_succ (fuel : Nat) (s : OpenFile) (data : List Byte) :
    appendLoop (fuel + 1) s data = (directTurn (s, data)).elim id fun x ↦
    appendLoop fuel x.1 x.2 := by
  rw [appendLoop, directTurn]
  split
  · rfl
  cases s.file.activeZone with
  | none => rfl
  | some i =>
      dsimp only
      rw [elim_orReturn]
      refine congrArg (andThen _) (funext fun s ↦ ?_)
      cases s.file.activeZone with
      | none => rfl
      | some j =>
          dsimp only
          rw [elim_orReturn]
          rfl

end Unfold

/-! ## Progress -/

/-- A turn has returned an error, or fewer bytes are left. -/
def Progress {τ : Type} (left : τ → Nat) (n : Nat) : (OpenFile × Status) ⊕ τ → Prop
  | .inl (_, st) => st ≠ .ok
  | .inr x => left x < n

/-- The state in which a call enters its loop: the file has an active zone, or it gets one. -/
inductive Enters (s : OpenFile) : OpenFile → Prop
  | active {i : ZoneId} (h : s.file.activeZone = some i) : Enters s s
  | allocated {s' : OpenFile} (h : s.file.activeZone = none) (h' : s.allocateNewZone = (s', .ok)) :
      Enters s s'

/-- A file that has an active zone holds it, and there is room for a header and more in
it: the loops give a zone back as soon as it is full. -/
def Ready (header : Nat) (s : OpenFile) : Prop :=
  ∀ i, s.file.activeZone = some i →
    (s.zbd.zones i).busy = true ∧ 0 < (s.zbd.zones i).capacity ∧ header ≤ (s.zbd.zones i).capacity

/-- `Append` may find its zone full, but that zone has been written. -/
def Held (s : OpenFile) : Prop :=
  ∀ i, s.file.activeZone = some i →
    (s.zbd.zones i).busy = true ∧
      (i < s.zbd.nrZones → (s.zbd.zones i).capacity = 0 →
        (s.zbd.zones i).start < (s.zbd.zones i).wp)

/-- The loops end: a zone that is handed out has capacity left, every turn
makes progress, and the length of an extent does not wrap.  A buffer
holds a header in front of its data, and its size has 32 bits. -/
structure MakesProgress (d : Zbd) : Prop where
  handedOut : ∀ s : OpenFile, s.zbd = d → s.file.activeZone = none →
    ∀ i, s.allocateNewZone.1.file.activeZone = some i →
    0 < (s.allocateNewZone.1.zbd.zones i).capacity
  buffer : ∀ (header : Nat) (s s' : OpenFile) (n : Nat), header = 0 ∨ header = SPARSE_HEADER_SIZE →
    s.zbd = d → s.Ready header → n + header < 2 ^ 32 → Enters s s' →
    (∀ t left, Loop.Head (bufferTurn header) (s', n) (t, left) → left ≠ 0 →
      Progress Prod.snd left (bufferTurn header (t, left)) ∧
        ∀ i, t.file.activeZone = some i → header ≤ t.wrSize i header left) ∧
      ∃ fuel r, Loop.run (bufferTurn header) fuel (s', n) = some r
  direct : ∀ (s s' : OpenFile) (data : List Byte), s.zbd = d → s.Held → Enters s s' →
    (∀ t left, Loop.Head directTurn (s', data) (t, left) → left ≠ [] →
      Progress (fun x : OpenFile × List Byte ↦ x.2.length) left.length (directTurn (t, left))) ∧
      ∃ fuel r, Loop.run directTurn fuel (s', data) = some r

end OpenFile

/-! ## What is handed out -/

namespace Zbd

/-- Every zone that may be handed out has room for a header. -/
structure Offers (d : Zbd) : Prop where
  block : SPARSE_HEADER_SIZE < d.blockSize
  wp : ∀ i < d.nrZones, (d.zones i).start ≤ (d.zones i).wp
  capacity : ∀ i, d.eligible i = true → SPARSE_HEADER_SIZE ≤ (d.zones i).capacity

namespace Offers

variable {d d' : Zbd} {i : ZoneId}

theorem eligible_iff {d : Zbd} {j : ZoneId} :
    d.eligible j = true ↔ j < d.nrZones ∧ (d.zones j).busy = false ∧
      (((d.zones j).isUsed = true ∧ (d.zones j).isFull = false) ∨ (d.zones j).isEmpty = true) := by
  simp [eligible, and_assoc]

/-- Only zone `i` has changed, and it cannot be handed out. -/
theorem of_off (h : d.Offers) (hb : d'.blockSize = d.blockSize) (hn : d'.nrZones = d.nrZones)
    (hoff : ∀ j, j ≠ i → d'.zones j = d.zones j) (hi : d'.eligible i = false)
    (hwp : i < d.nrZones → (d'.zones i).start ≤ (d'.zones i).wp) : d'.Offers where
  block := hb ▸ h.block
  wp := by
    intro j hj
    rw [hn] at hj
    by_cases hji : j = i
    · subst hji
      exact hwp hj
    · rw [hoff j hji]
      exact h.wp j hj
  capacity := by
    intro j hj
    have hji : j ≠ i := by
      rintro rfl
      rw [hi] at hj
      cases hj
    rw [hoff j hji]
    refine h.capacity j ?_
    rw [eligible_iff] at hj ⊢
    rwa [hn, hoff j hji] at hj

/-- A zone that is held is not handed out. -/
theorem hold (h : d.Offers) (i : ZoneId) : (d.setBusy i true).Offers := by
  refine h.of_off (i := i) rfl rfl (fun j hj ↦ by simp [setBusy, hj]) ?_ (fun hi ↦ ?_)
  · simp [eligible, setBusy]
  · simpa [setBusy] using h.wp i hi

/-- Nor does a write to it change that. -/
theorem appended (h : d.Offers) (hb : (d.zones i).busy = true) (data : List Byte) :
    (d.appended i data).Offers := by
  refine h.of_off (i := i) rfl rfl (fun j hj ↦ ?_) ?_ (fun hi ↦ ?_)
  · simp [appended_zones, hj]
  · simp [eligible, appended_zones, hb]
  · have := h.wp i hi
    simp only [appended_zones, if_true]
    omega

theorem addUsed (h : d.Offers) (hb : (d.zones i).busy = true) (n : Nat) :
    (d.addUsed i n).Offers := by
  refine h.of_off (i := i) rfl rfl (fun j hj ↦ ?_) ?_ (fun hi ↦ ?_)
  · simp [addUsed_zones, hj]
  · simp [eligible, addUsed_zones, hb]
  · simpa [addUsed_zones] using h.wp i hi

/-- A full zone that has been written is not handed out again. -/
theorem release (h : d.Offers) (hc : (d.zones i).capacity = 0)
    (hwp : i < d.nrZones → (d.zones i).start < (d.zones i).wp) : (d.setBusy i false).Offers := by
  refine h.of_off (i := i) rfl rfl (fun j hj ↦ by simp [setBusy, hj]) ?_ (fun hi ↦ ?_)
  · rw [← Bool.not_eq_true, eligible_iff]
    rintro ⟨hi, -, ⟨-, hfull⟩ | hempty⟩
    · simp [setBusy, Zone.isFull, hc] at hfull
    · have hne := (hwp hi).ne'
      simp [setBusy, Zone.isEmpty, hne] at hempty
  · simpa [setBusy] using h.wp i hi

end Offers

end Zbd

namespace OpenFile

variable {header left : Nat} {s : OpenFile} {i : ZoneId}

/-- The invariant at the head of the loops: the file holds a zone, which has room if
there is something to write. -/
structure HeadInv (header : Nat) (s : OpenFile) (left : Nat) : Prop where
  offers : s.zbd.Offers
  active : ∃ i, s.file.activeZone = some i ∧ (s.zbd.zones i).busy = true ∧
    (left ≠ 0 → 0 < (s.zbd.zones i).capacity ∧ header ≤ (s.zbd.zones i).capacity)

/-- A turn fails, or it ends with fewer bytes left and with the invariant. -/
def Advances (header left : Nat) : (OpenFile × Status) ⊕ (OpenFile × Nat) → Prop
  | .inl (_, st) => st ≠ .ok
  | .inr (s, left') => left' < left ∧ HeadInv header s left'

theorem setActiveZone_zbd (s : OpenFile) (i : ZoneId) :
    (s.setActiveZone i).zbd = s.zbd.setBusy i true := rfl

/-- A new zone has room. -/
theorem allocateNewZone_headInv (hs : s.zbd.Offers) (hh : header ≤ SPARSE_HEADER_SIZE)
    (hok : s.allocateNewZone.2 = .ok) : HeadInv header s.allocateNewZone.1 left := by
  rcases s.allocateNewZone_cases with ⟨hst, -⟩ | ⟨i, fl, he, halloc⟩
  · exact absurd hok hst
  · rw [halloc]
    have hcap := hs.capacity i he
    refine ⟨hs.hold i, i, rfl, ?_, fun _ ↦ ?_⟩
    · simp [setActiveZone_zbd, Zbd.setBusy]
    · have hpos : 0 < SPARSE_HEADER_SIZE := by decide
      simp only [setActiveZone_zbd, Zbd.setBusy, Zbd.setZone_zones, Function.update_self]
      omega

/-- How many bytes a turn takes: some, and all of them if the zone is not full behind it. -/
theorem wrSize_progress {pad : Nat} (hh : header ≤ SPARSE_HEADER_SIZE)
    (hb : SPARSE_HEADER_SIZE < s.zbd.blockSize)
    (h0 : left ≠ 0) (hc : 0 < (s.zbd.zones i).capacity)
    (hheader : header ≤ (s.zbd.zones i).capacity)
    (hpad : pad = padSize s.zbd.blockSize (s.wrSize i header left))
    (hfit : s.wrSize i header left + pad ≤ (s.zbd.zones i).capacity) :
    sub32 left (sub32 (s.wrSize i header left) header) < left ∧
      ((s.zbd.zones i).capacity - (s.wrSize i header left + pad) ≠ 0 →
        sub32 left (sub32 (s.wrSize i header left) header) = 0) := by
  obtain ⟨len, hle, hwr, hsub, hsub', hlen⟩ := wrSize_eq (s := s) (i := i) left hheader
  rw [hwr] at hpad hfit ⊢
  rw [hsub, hsub']
  rcases hlen with rfl | hfull
  · exact ⟨by omega, by omega⟩
  · -- the zone is filled, so no block was padded, and it holds more than a header
    have hpad0 : pad = 0 := by omega
    have hdvd : s.zbd.blockSize ∣ header + len := by
      rw [hpad, padSize] at hpad0
      split at hpad0
      · rename_i hmod
        exact Nat.dvd_of_mod_eq_zero hmod
      · have hlt := Nat.mod_lt (header + len) (Nat.zero_lt_of_lt hb)
        omega
    have hle' := Nat.le_of_dvd (hfull ▸ hc) hdvd
    exact ⟨by omega, by omega⟩

/-- An append that succeeds has written all of the padded data to the active zone. -/
theorem appendChunk_written (hs : s.zbd.Offers) (ha : s.file.activeZone = some i)
    (hbusy : (s.zbd.zones i).busy = true) (h0 : left ≠ 0) (hc : 0 < (s.zbd.zones i).capacity)
    (hok : (s.appendChunk i header left).2 = .ok) :
    let n := s.wrSize i header left + padSize s.zbd.blockSize (s.wrSize i header left)
    let s₁ := (s.appendChunk i header left).1
    n ≤ (s.zbd.zones i).capacity ∧ s₁.zbd.Offers ∧ s₁.file.activeZone = some i ∧
      (s₁.zbd.zones i).busy = true ∧ (s₁.zbd.zones i).capacity = (s.zbd.zones i).capacity - n ∧
      (i < s₁.zbd.nrZones → (s₁.zbd.zones i).start < (s₁.zbd.zones i).wp) := by
  intro n s₁
  obtain ⟨m, fl, -, hcap, hcases⟩ := s.appendChunk_cases i header left
  rcases hcases with ⟨hst, -⟩ | ⟨rfl, heq⟩
  · exact absurd hok hst
  have hpos : 0 < n := by
    simp only [n, wrSize]
    omega
  generalize hbytes : (s.padBuffer header (s.wrSize i header left)).buffer.read 0 _ = bytes at heq
  have hlen : bytes.length = n := by rw [← hbytes, Mem.length_read]
  have hs₁ : s₁ = _ := congrArg Prod.fst heq
  have hzbd : s₁.zbd = (s.zbd.appended i bytes).addUsed i
      (sub32 (s.wrSize i header left) header) := by
    rw [hs₁]
    rfl
  refine ⟨hcap, ?_, ?_, ?_, ?_, ?_⟩
  · rw [hzbd]
    refine (hs.appended hbusy bytes).addUsed ?_ _
    rw [Zbd.appended_zones, if_pos rfl]
    exact hbusy
  · rw [hs₁]
    exact ha
  · rw [hzbd, Zbd.addUsed_zones, Zbd.appended_zones, if_pos rfl]
    exact hbusy
  · rw [hzbd, Zbd.addUsed_zones, Zbd.appended_zones, if_pos rfl, hlen]
  · intro hi
    rw [hzbd, Zbd.addUsed_nrZones, Zbd.appended_nrZones] at hi
    have hwp := hs.wp i hi
    rw [hzbd, Zbd.addUsed_zones, Zbd.appended_zones, if_pos rfl]
    dsimp only
    omega

theorem closeActiveZone_zbd (ha : s.file.activeZone = some i) :
    s.closeActiveZone.1.zbd = s.zbd.setBusy i false := by
  rw [closeActiveZone, ha]
  dsimp only
  split <;> rfl

theorem bufferTurn_advances (h : HeadInv header s left) (hh : header ≤ SPARSE_HEADER_SIZE)
    (h0 : left ≠ 0) : Advances header left (bufferTurn header (s, left)) := by
  obtain ⟨hs, i, ha, hbusy, hroom⟩ := h
  obtain ⟨hc, hheader⟩ := hroom h0
  rw [bufferTurn, if_neg h0, ha]
  dsimp only
  refine orReturn_induct id fun hok ↦ ?_
  obtain ⟨hfit, hs₁, ha₁, hbusy₁, hcap₁, hwp₁⟩ := appendChunk_written hs ha hbusy h0 hc hok
  obtain ⟨hlt, hrest⟩ := wrSize_progress hh hs.block h0 hc hheader rfl hfit
  generalize (s.appendChunk i header left).1 = s₁ at hs₁ ha₁ hbusy₁ hcap₁ hwp₁ ⊢
  split
  · -- the zone is full, and the loop goes on in another one
    rename_i hfull
    refine orReturn_induct id fun hclose ↦ ?_
    have hrelease := hs₁.release hfull hwp₁
    rw [← closeActiveZone_zbd ha₁] at hrelease
    generalize s₁.closeActiveZone.1 = s₂ at hrelease ⊢
    refine orReturn_induct id fun halloc ↦ ⟨hlt, allocateNewZone_headInv ?_ hh halloc⟩
    rw [shiftBuffer]
    split
    · exact hrelease
    · exact hrelease
  · rename_i hfull
    refine ⟨hlt, hs₁, i, ha₁, hbusy₁, fun hleft ↦ absurd (hrest ?_) hleft⟩
    rwa [← hcap₁]

/-- The invariant of `Append`, which looks for a full zone at the head of a turn. -/
structure DirectInv (s : OpenFile) : Prop where
  offers : s.zbd.Offers
  active : ∃ i, s.file.activeZone = some i ∧ (s.zbd.zones i).busy = true ∧
    (i < s.zbd.nrZones → (s.zbd.zones i).capacity = 0 → (s.zbd.zones i).start < (s.zbd.zones i).wp)

theorem HeadInv.direct (h : HeadInv 0 s 1) : DirectInv s := by
  obtain ⟨hs, i, ha, hbusy, hroom⟩ := h
  refine ⟨hs, i, ha, hbusy, fun _ hc ↦ ?_⟩
  have hpos := (hroom Nat.one_ne_zero).1
  omega

/-- What `PushExtent` does to the device. -/
theorem pushExtent_zbd (ha : s.file.activeZone = some i) :
    ∃ n, s.pushExtent.zbd = s.zbd.addUsed i n ∧ s.pushExtent.file.activeZone = some i := by
  rw [pushExtent, ha]
  dsimp only
  split
  · refine ⟨0, ?_, ha⟩
    simp [Zbd.addUsed, Zbd.setZone]
  · exact ⟨_, rfl, ha⟩

/-- A turn of `Append` that has a zone with space. -/
def DirectAdvances (data : List Byte) : (OpenFile × Status) ⊕ (OpenFile × List Byte) → Prop
  | .inl (_, st) => st ≠ .ok
  | .inr (s, data') => data'.length < data.length ∧ DirectInv s

/-- The write at the end of a turn. -/
theorem zoneAppend_advances {data : List Byte} (hs : s.zbd.Offers) (ha : s.file.activeZone = some i)
    (hbusy : (s.zbd.zones i).busy = true) (hc : 0 < (s.zbd.zones i).capacity) (h0 : data ≠ []) :
    DirectAdvances data
      (orReturn (s.zoneAppend i (data.take (min data.length (s.zbd.zones i).capacity))) fun s' ↦
        .inr ({ s' with
          file := { s'.file with
            fileSize := s'.file.fileSize + min data.length (s.zbd.zones i).capacity } },
          data.drop (min data.length (s.zbd.zones i).capacity))) := by
  have hlen : 0 < data.length := List.length_pos_iff.mpr h0
  generalize hwr : min data.length (s.zbd.zones i).capacity = wr
  have hpos : 0 < wr := by omega
  refine orReturn_induct id fun hok ↦ ⟨?_, ?_⟩
  · rw [List.length_drop]
    omega
  · obtain ⟨n, fl, -, -, happ, hn⟩ := s.zoneAppend_cases i (data.take wr)
    have hn := hn hok
    rw [List.length_take] at hn
    rw [happ]
    refine ⟨hs.appended hbusy _, i, ha, ?_, fun hi _ ↦ ?_⟩
    · rw [Zbd.appended_zones, if_pos rfl]
      exact hbusy
    · have hwp := hs.wp i hi
      rw [Zbd.appended_zones, if_pos rfl]
      simp only [List.length_take]
      omega

theorem directTurn_advances {data : List Byte} (h : DirectInv s) (h0 : data ≠ []) :
    DirectAdvances data (directTurn (s, data)) := by
  obtain ⟨hs, i, ha, hbusy, hfull⟩ := h
  rw [directTurn, if_neg h0, ha]
  dsimp only
  split
  · -- the zone is full
    rename_i hc
    obtain ⟨n, hpush, hpusha⟩ := pushExtent_zbd ha
    have hs₁ := hs.addUsed hbusy n
    rw [← hpush] at hs₁
    have hz : (s.pushExtent.zbd.zones i).capacity = 0 ∧
        (i < s.pushExtent.zbd.nrZones → (s.pushExtent.zbd.zones i).start <
          (s.pushExtent.zbd.zones i).wp) := by
      rw [hpush, Zbd.addUsed_zones]
      exact ⟨hc, fun hi ↦ hfull hi hc⟩
    have hrelease := hs₁.release hz.1 hz.2
    rw [← closeActiveZone_zbd hpusha] at hrelease
    generalize s.pushExtent.closeActiveZone = x at hrelease
    refine orReturn_induct id fun hok ↦ ?_
    obtain ⟨s₂, st₂⟩ := x
    cases st₂ with
    | ok =>
        have hinv : HeadInv 0 s₂.allocateNewZone.1 1 :=
          allocateNewZone_headInv hrelease (Nat.zero_le _) hok
        obtain ⟨hs₃, j, hj, hbusyj, hroom⟩ := hinv
        dsimp only [andThen] at hok hs₃ hj hbusyj hroom ⊢
        rw [hj]
        exact zoneAppend_advances hs₃ hj hbusyj (hroom Nat.one_ne_zero).1 h0
    | _ => cases hok
  · rename_i hc
    rw [orReturn, ha]
    exact zoneAppend_advances hs ha hbusy (Nat.pos_of_ne_zero hc) h0

/-! ## When the loops make progress -/

theorem Enters.headInv {s' : OpenFile} {n : Nat} (h : Enters s s') (hs : s.zbd.Offers)
    (hr : s.Ready header) (hh : header ≤ SPARSE_HEADER_SIZE) : HeadInv header s' n := by
  cases h with
  | active ha =>
      obtain ⟨hbusy, hroom⟩ := hr _ ha
      exact ⟨hs, _, ha, hbusy, fun _ ↦ hroom⟩
  | allocated _ halloc =>
      have hinv : HeadInv header s.allocateNewZone.1 n :=
        allocateNewZone_headInv hs hh (by rw [halloc])
      rwa [halloc] at hinv

theorem Enters.directInv {s' : OpenFile} (h : Enters s s') (hs : s.zbd.Offers) (hr : s.Held) :
    DirectInv s' := by
  cases h with
  | active ha =>
      obtain ⟨hbusy, hfull⟩ := hr _ ha
      exact ⟨hs, _, ha, hbusy, hfull⟩
  | allocated _ halloc =>
      have hinv : HeadInv 0 s.allocateNewZone.1 1 := allocateNewZone_headInv hs (Nat.zero_le _)
        (by rw [halloc])
      rw [halloc] at hinv
      exact hinv.direct

theorem Advances.progress {r : (OpenFile × Status) ⊕ (OpenFile × Nat)}
    (h : Advances header left r) : Progress Prod.snd left r := by
  cases r with
  | inl x => exact h
  | inr x => exact h.1

theorem DirectAdvances.progress {data : List Byte}
    {r : (OpenFile × Status) ⊕ (OpenFile × List Byte)}
    (h : DirectAdvances data r) :
    Progress (fun x : OpenFile × List Byte ↦ x.2.length) data.length r := by
  cases r with
  | inl x => exact h
  | inr x => exact h.1

/-- The invariant holds at the head of every turn of a flush. -/
theorem HeadInv.of_head {s' t : OpenFile} {n left : Nat} (h : HeadInv header s' n)
    (hh : header ≤ SPARSE_HEADER_SIZE) (ht : Loop.Head (bufferTurn header) (s', n) (t, left)) :
    HeadInv header t left := by
  refine ht.invariant (I := fun x ↦ HeadInv header x.1 x.2) h ?_
  rintro ⟨t, left⟩ ⟨t', left'⟩ hinv hturn
  by_cases h0 : left = 0
  · rw [bufferTurn, if_pos h0] at hturn
    cases hturn
  · have hadv := bufferTurn_advances hinv hh h0
    rw [hturn] at hadv
    exact hadv.2

theorem DirectInv.of_head {s' t : OpenFile} {data left : List Byte} (h : DirectInv s')
    (ht : Loop.Head directTurn (s', data) (t, left)) : DirectInv t := by
  refine ht.invariant (I := fun x ↦ DirectInv x.1) h ?_
  rintro ⟨t, left⟩ ⟨t', left'⟩ hinv hturn
  by_cases h0 : left = []
  · rw [directTurn, if_pos h0] at hturn
    cases hturn
  · have hadv := directTurn_advances hinv h0
    rw [hturn] at hadv
    exact hadv.2

theorem makesProgress_of_offers {d : Zbd} (hd : d.Offers) : MakesProgress d where
  handedOut := by
    rintro s rfl hnone i hi
    rcases s.allocateNewZone_cases with ⟨-, fl, halloc⟩ | ⟨j, fl, he, halloc⟩
    · rw [halloc] at hi
      cases hnone.symm.trans hi
    · rw [halloc] at hi ⊢
      obtain rfl := Option.some.inj hi
      have hcap := hd.capacity j he
      have hpos : 0 < SPARSE_HEADER_SIZE := by decide
      simp only [setActiveZone_zbd, Zbd.setBusy, Zbd.setZone_zones, Function.update_self]
      omega
  buffer := by
    rintro header s s' n hheader rfl hr - hs'
    have hh : header ≤ SPARSE_HEADER_SIZE := by
      rcases hheader with rfl | rfl
      · exact Nat.zero_le _
      · exact le_rfl
    have hinv := hs'.headInv (n := n) hd hr hh
    constructor
    · intro t left ht h0
      have ht := hinv.of_head hh ht
      refine ⟨(bufferTurn_advances ht hh h0).progress, ?_⟩
      obtain ⟨-, i, ha, -, hroom⟩ := ht
      intro j hj
      obtain rfl := Option.some.inj (ha.symm.trans hj)
      exact le_min (Nat.le_add_left _ _) (hroom h0).2
    · refine Loop.exists_run Prod.snd ?_
      rintro ⟨t, left⟩ ht ⟨t', left'⟩ hturn
      by_cases h0 : left = 0
      · rw [bufferTurn, if_pos h0] at hturn
        cases hturn
      · have hadv := bufferTurn_advances (hinv.of_head hh ht) hh h0
        rw [hturn] at hadv
        exact hadv.1
  direct := by
    rintro s s' data rfl hr hs'
    have hinv := hs'.directInv hd hr
    constructor
    · intro t left ht h0
      exact (directTurn_advances (hinv.of_head ht) h0).progress
    · refine Loop.exists_run (fun x ↦ x.2.length) ?_
      rintro ⟨t, left⟩ ht ⟨t', left'⟩ hturn
      by_cases h0 : left = []
      · rw [directTurn, if_pos h0] at hturn
        cases hturn
      · have hadv := directTurn_advances (hinv.of_head ht) h0
        rw [hturn] at hadv
        exact hadv.1

/-- A file without a zone, which is going to get zone `i`. -/
def asking (d : Zbd) (i : ZoneId) : OpenFile where
  zbd := d
  file := { fileId := 0 }
  buffered := true
  buffer := fun _ ↦ 0
  bufferSz := 0
  bufferPos := 0
  wp := 0
  isOpen := true
  faults := { zones := [some i] }
  appended := []
  failed := false

theorem asking_allocateNewZone {d : Zbd} {i : ZoneId} (he : d.eligible i = true) :
    ∃ s', (asking d i).allocateNewZone = (s', .ok) ∧ s'.file.activeZone = some i ∧
      (s'.zbd.zones i).capacity = (d.zones i).capacity := by
  refine ⟨{ (asking d i).setActiveZone i with faults := {} }, ?_, rfl, ?_⟩
  · simp [allocateNewZone, asking, he, persistMetadata, setActiveZone]
  · simp [setActiveZone, asking, Zbd.setBusy]

/-- A zone that may be handed out is handed out, and written with a header in front. -/
theorem MakesProgress.capacity {d : Zbd} (h : MakesProgress d) {i : ZoneId}
    (he : d.eligible i = true) : SPARSE_HEADER_SIZE ≤ (d.zones i).capacity := by
  obtain ⟨s', halloc, ha, hcap⟩ := asking_allocateNewZone he
  have hready : (asking d i).Ready SPARSE_HEADER_SIZE := fun j hj ↦ nomatch hj
  obtain ⟨hturns, -⟩ := h.buffer SPARSE_HEADER_SIZE (asking d i) s' 1 (.inr rfl) rfl
    hready (by decide) (.allocated rfl halloc)
  have hwr := (hturns s' 1 .start Nat.one_ne_zero).2 i ha
  rw [← hcap]
  exact hwr.trans (min_le_right _ _)

/-- The loops make progress if and only if every zone that may be handed out has room for
a header.  Where capacities are whole blocks, this says that no free zone is empty and
has no capacity. -/
theorem makesProgress_iff {d : Zbd} (hblock : SPARSE_HEADER_SIZE < d.blockSize)
    (hwp : ∀ i < d.nrZones, (d.zones i).start ≤ (d.zones i).wp) :
    MakesProgress d ↔ ∀ i, d.eligible i = true → SPARSE_HEADER_SIZE ≤ (d.zones i).capacity := by
  constructor
  · intro h i he
    exact h.capacity he
  · intro h
    exact makesProgress_of_offers ⟨hblock, hwp, h⟩

/-- A full zone of 4096 bytes and a free one. -/
def fullAndFree : Zbd where
  blockSize := 4096
  zoneSize := 4096
  nrZones := 2
  zones := fun i ↦
    { start := 4096 * i, maxCapacity := 4096, capacity := 4096 * i, wp := 4096, usedCapacity := 0,
      busy := false, resetCount := 0, finishCount := 0 }
  mem := fun _ ↦ 0

theorem fullAndFree_wp :
    ∀ i < fullAndFree.nrZones, (fullAndFree.zones i).start ≤ (fullAndFree.zones i).wp := by
  decide

theorem fullAndFree_capacity :
    ∀ i, fullAndFree.eligible i = true → SPARSE_HEADER_SIZE ≤ (fullAndFree.zones i).capacity := by
  intro i hi
  have hlt : i < fullAndFree.nrZones := by
    by_contra hge
    simp [Zbd.eligible, hge] at hi
  have hall : ∀ i < fullAndFree.nrZones,
      fullAndFree.eligible i = true → SPARSE_HEADER_SIZE ≤ (fullAndFree.zones i).capacity := by
      decide
  exact hall i hlt hi

/-- The free zone may be handed out, and has room. -/
theorem makesProgress_fullAndFree : fullAndFree.eligible 1 = true ∧ MakesProgress fullAndFree :=
  ⟨by decide, (makesProgress_iff (by decide) fullAndFree_wp).mpr fullAndFree_capacity⟩

/-- A reset that reports the zone as offline leaves a zone that is handed out and cannot
be written. -/
theorem no_progress_offline :
    ¬ ∀ (d : Zbd) (i : ZoneId) (res : ResetRes), SPARSE_HEADER_SIZE < d.blockSize →
    (∀ j < d.nrZones, (d.zones j).start ≤ (d.zones j).wp) → MakesProgress d →
    MakesProgress (d.reset i res).1 := by
  intro h
  have hreset := h fullAndFree 0 .offline (by decide) fullAndFree_wp
    (makesProgress_of_offers ⟨by decide, fullAndFree_wp, fullAndFree_capacity⟩)
  have hcap := hreset.capacity (i := 0) (by decide)
  revert hcap
  decide

end OpenFile

end ZenFs
