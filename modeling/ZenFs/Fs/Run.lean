import ZenFs.Fs.Tick

/-!
# Operations are sequences of ticks

The write paths change devices, extents and buffers, and nothing that decides
who may do what.  With that, the loops of the source unfold into ticks, and
every operation of a run is a sequence of them.
-/

namespace ZenFs

namespace Fs

/-! ## The frame of the write paths -/

/-- Two states differ in what the write paths and the metadata log change. -/
structure DataOnly (fs fs' : Fs) : Prop where
  files : fs'.files = fs.files
  live : fs'.live = fs.live
  handles : fs'.handles = fs.handles
  nextRef : fs'.nextRef = fs.nextRef
  nextFileId : fs'.nextFileId = fs.nextFileId
  readers : fs'.readers = fs.readers
  bufferSize : fs'.bufferSize = fs.bufferSize
  nrZones : fs'.zbd.nrZones = fs.zbd.nrZones
  heap : ∀ r, (fs'.heap r).ident = (fs.heap r).ident
  writers : ∀ h, (fs'.writers h).map Writer.key = (fs.writers h).map Writer.key

namespace DataOnly

variable {fs fs₁ fs₂ : Fs}

theorem refl (fs : Fs) : DataOnly fs fs :=
  ⟨rfl, rfl, rfl, rfl, rfl, rfl, rfl, rfl, fun _ ↦ rfl, fun _ ↦ rfl⟩

theorem trans (h₁ : DataOnly fs fs₁) (h₂ : DataOnly fs₁ fs₂) : DataOnly fs fs₂ :=
  ⟨h₂.files.trans h₁.files, h₂.live.trans h₁.live, h₂.handles.trans h₁.handles,
    h₂.nextRef.trans h₁.nextRef, h₂.nextFileId.trans h₁.nextFileId, h₂.readers.trans h₁.readers,
    h₂.bufferSize.trans h₁.bufferSize, h₂.nrZones.trans h₁.nrZones,
    fun r ↦ (h₂.heap r).trans (h₁.heap r), fun h ↦ (h₂.writers h).trans (h₁.writers h)⟩

end DataOnly

theorem MetaOnly.dataOnly {fs fs' : Fs} (h : MetaOnly fs fs') : DataOnly fs fs' where
  files := h.files
  live := h.live
  handles := h.handles
  nextRef := h.nextRef
  nextFileId := h.nextFileId
  readers := h.readers
  bufferSize := h.bufferSize
  nrZones := congrArg Zbd.nrZones h.zbd
  heap := fun r ↦ (congrArg ZoneFile.ident (h.heap r) :)
  writers := fun k ↦ by rw [h.writers]

section Frame

variable {G : Geometry} (fs : Fs) (r : Ref)

theorem dataOnly_setFile {f : ZoneFile} (h : f.ident = (fs.heap r).ident) :
    DataOnly fs (fs.setFile r f) := by
  refine ⟨rfl, rfl, rfl, rfl, rfl, rfl, rfl, rfl, fun r' ↦ ?_, fun _ ↦ rfl⟩
  by_cases hr : r' = r
  · subst hr
    simpa [setFile] using h
  · simp [setFile, hr]

theorem dataOnly_zbd {d : Zbd} (h : d.nrZones = fs.zbd.nrZones) :
    DataOnly fs { fs with zbd := d } :=
  ⟨rfl, rfl, rfl, rfl, rfl, rfl, rfl, h, fun _ ↦ rfl, fun _ ↦ rfl⟩

theorem dataOnly_addUsed (i : ZoneId) (n : Nat) : DataOnly fs (fs.addUsed i n) :=
  ⟨rfl, rfl, rfl, rfl, rfl, rfl, rfl, rfl, fun _ ↦ rfl, fun _ ↦ rfl⟩

theorem dataOnly_env (env : Env) : DataOnly fs { fs with env := env } :=
  ⟨rfl, rfl, rfl, rfl, rfl, rfl, rfl, rfl, fun _ ↦ rfl, fun _ ↦ rfl⟩

theorem dataOnly_setWriter {h : Handle} {w w' : Writer} (hw : fs.writers h = some w)
    (hk : w'.key = w.key) : DataOnly fs (fs.setWriter h w') := by
  refine ⟨rfl, rfl, rfl, rfl, rfl, rfl, rfl, rfl, fun _ ↦ rfl, fun h' ↦ ?_⟩
  by_cases hh : h' = h
  · subst hh
    simp [setWriter, hw, hk]
  · simp [setWriter, hh]

theorem dataOnly_finishZones (is : List ZoneId) : DataOnly fs (fs.finishZones is) := by
  induction is generalizing fs with
  | nil => exact .refl fs
  | cons i is ih =>
      refine DataOnly.trans ?_ (ih _)
      dsimp only
      split
      · refine (dataOnly_zbd fs ?_).trans (metaOnly_note _ _).dataOnly
        rfl
      · exact .refl fs

theorem dataOnly_setActiveZone (i : ZoneId) : DataOnly fs (fs.setActiveZone r i) :=
  dataOnly_setFile fs r rfl

theorem dataOnly_setBusy (i : ZoneId) (b : Bool) :
    DataOnly fs { fs with zbd := fs.zbd.setBusy i b } := by
  refine dataOnly_zbd fs ?_
  rfl

theorem dataOnly_allocateNewZone : DataOnly fs (fs.allocateNewZone G r).1 := by
  obtain ⟨ps, is, fs₁, h₁, h | ⟨i, fs₂, -, h₂, h⟩⟩ := fs.allocateNewZone_cases G r
  all_goals
    have hf : DataOnly fs fs₁ := by
      rw [h₁]
      exact (dataOnly_env fs _).trans (dataOnly_finishZones _ is)
  · rw [h.1]
    exact hf.trans (metaOnly_note _ _).dataOnly
  · have hp : DataOnly fs fs₂.1 := by
      rw [h₂]
      exact ((hf.trans (dataOnly_setBusy _ i true)).trans (dataOnly_setActiveZone _ r i)).trans
        (metaOnly_persistMetadata _ r).dataOnly
    rcases h with h | h
    · rw [h.1]
      exact hp
    · rw [h.1]
      exact hp.trans (metaOnly_note _ _).dataOnly

theorem dataOnly_pushExtent : DataOnly fs (fs.pushExtent r) := by
  unfold pushExtent
  simp only
  split
  · exact .refl fs
  · split
    · exact .refl fs
    · exact (dataOnly_addUsed fs _ _).trans (dataOnly_setFile _ r rfl)

theorem dataOnly_closeActiveZone : DataOnly fs (fs.closeActiveZone r) := by
  unfold closeActiveZone
  split
  · exact .refl fs
  · refine (dataOnly_zbd fs ?_).trans (dataOnly_setFile _ r ?_) <;> rfl

end Frame

end Fs

namespace Zbd

theorem reset_nrZones (d : Zbd) (i : ZoneId) (res : ResetRes) :
    (d.reset i res).1.nrZones = d.nrZones := by
  rcases res with c | _ | erased
  · rfl
  · rfl
  · cases erased <;> rfl

end Zbd

namespace Fs

section Frame

variable {G : Geometry} (fs : Fs)

theorem dataOnly_wrote (i : ZoneId) (data : List Byte) (e : Event) :
    DataOnly fs (fs.wrote i data e) :=
  ⟨rfl, rfl, rfl, rfl, rfl, rfl, rfl, rfl, fun _ ↦ rfl, fun _ ↦ rfl⟩

theorem dataOnly_recordExtent (r : Ref) (i : ZoneId) (header length : Nat) :
    DataOnly fs (fs.recordExtent r i header length) :=
  (dataOnly_addUsed fs i length).trans (dataOnly_setFile _ r rfl)

theorem dataOnly_appendChunk {h : Handle} {w : Writer} (hw : fs.writers h = some w) (i : ZoneId)
    (header left : Nat) : DataOnly fs (fs.appendChunk h w i header left).1 := by
  obtain ⟨fs₁, data, len, h₁, -, -, h⟩ := fs.appendChunk_cases h w i header left
  have hs : DataOnly fs fs₁ := by
    rw [h₁]
    exact dataOnly_setWriter fs hw rfl
  rcases h with ⟨n, -, -, h, -⟩ | ⟨-, h, -⟩
  · rw [h]
    exact hs.trans (dataOnly_wrote _ i _ _)
  · rw [h]
    exact (hs.trans (dataOnly_wrote _ i _ _)).trans (dataOnly_recordExtent _ _ _ _ _)

theorem dataOnly_appendDirect (r : Ref) (i : ZoneId) (data : List Byte) :
    DataOnly fs (fs.appendDirect r i data).1 := by
  rcases fs.appendDirect_cases r i data with ⟨n, -, -, h, -⟩ | ⟨-, h, -⟩
  · rw [h]
    exact dataOnly_wrote fs i _ _
  · rw [h]
    refine (dataOnly_wrote fs i _ _).trans (dataOnly_setFile _ r ?_)
    rfl

end Frame

/-! ## The write paths -/

/-- An open writer `h` of the file `r`. -/
structure Writes (fs : Fs) (h : Handle) (r : Ref) (b sp : Bool) : Prop where
  writer : (fs.writers h).map Writer.key = some (r, b, true)
  sparse : (fs.heap r).isSparse = sp

/-- A sequence of ticks within the frame of the write paths. -/
structure Data (G : Geometry) (c : Conduct) (fs fs' : Fs) : Prop where
  ticks : Ticks G c fs fs'
  data : DataOnly fs fs'

section Chain

variable {G : Geometry} {c : Conduct} {fs fs₁ fs₂ : Fs} {h : Handle} {r : Ref} {b sp : Bool}

namespace Writes

theorem exists_writer (hw : Writes fs h r b sp) :
    ∃ w, OpenAt fs h w ∧ w.file = r ∧ w.buffered = b := by
  obtain ⟨w, h₁, h₂⟩ := Option.map_eq_some_iff.mp hw.writer
  simp only [Writer.key, Prod.mk.injEq] at h₂
  exact ⟨w, ⟨h₁, h₂.2.2⟩, h₂.1, h₂.2.1⟩

theorem congr (hw : Writes fs h r b sp) (hd : DataOnly fs fs₁) : Writes fs₁ h r b sp := by
  constructor
  · rw [hd.writers, hw.writer]
  · rw [← hw.sparse]
    exact congrArg (fun p ↦ p.2.2.1) (hd.heap r)

theorem of_openAt {w : Writer} (hw : OpenAt fs h w) :
    Writes fs h w.file w.buffered (fs.heap w.file).isSparse :=
  ⟨by simp [hw.writer, Writer.key, hw.isOpen], rfl⟩

end Writes

namespace Data

theorem refl (fs : Fs) : Data G c fs fs := ⟨.refl, .refl fs⟩

theorem trans (h₁ : Data G c fs fs₁) (h₂ : Data G c fs₁ fs₂) : Data G c fs fs₂ :=
  ⟨h₁.ticks.trans h₂.ticks, h₁.data.trans h₂.data⟩

theorem of_tick (h₁ : Tick G c fs fs₁) (h₂ : DataOnly fs fs₁) : Data G c fs fs₁ := ⟨.single h₁, h₂⟩

end Data

theorem data_note {e : Event} (he : e.isNote = true) (fs : Fs) : Data G c fs (fs.note e) :=
  .of_tick (.note fs he) (metaOnly_note fs e).dataOnly

theorem data_setWriter {w w' : Writer} (hw : fs.writers h = some w) (hk : w'.key = w.key) :
    Data G c fs (fs.setWriter h w') :=
  .of_tick (.setWriter hw hk) (dataOnly_setWriter fs hw hk)

theorem data_allocateNewZone (hw : Writes fs h r b sp) (hz : (fs.heap r).activeZone = none) :
    Data G c fs (fs.allocateNewZone G r).1 := by
  obtain ⟨w, ho, rfl, rfl⟩ := hw.exists_writer
  exact .of_tick (.allocateNewZone ho hz) (dataOnly_allocateNewZone fs _)

theorem data_shiftBuffer (hw : Writes fs h r b sp) (header wr_size left : Nat) :
    Data G c fs (fs.shiftBuffer h header wr_size left) := by
  obtain ⟨w, ho, rfl, rfl⟩ := hw.exists_writer
  unfold shiftBuffer
  rw [ho.writer]
  dsimp only
  split
  · exact .refl fs
  · exact data_setWriter ho.writer rfl

theorem closeActiveZone_activeZone (fs : Fs) (r : Ref) :
    ((fs.closeActiveZone r).heap r).activeZone = none := by
  unfold closeActiveZone
  split
  · assumption
  · simp [setFile]

theorem shiftBuffer_heap (fs : Fs) (h : Handle) (header wr_size left : Nat) :
    (fs.shiftBuffer h header wr_size left).heap = fs.heap := by
  unfold shiftBuffer
  split
  · rfl
  · split
    · rfl
    · rfl

/-- The common loop of `BufferedAppend` and `SparseAppend` consists of ticks. -/
theorem data_bufferLoop {header : Nat} (hh : header = if sp then SPARSE_HEADER_SIZE else 0) :
    ∀ (fuel : Nat) {fs : Fs}, Writes fs h r true sp → ∀ left : Nat,
      Data G c fs (fs.bufferLoop G header fuel h left).1 := by
  intro fuel
  induction fuel with
  | zero => exact fun _ left ↦ data_note rfl _
  | succ fuel ih =>
      intro fs hw left
      obtain ⟨w, ho, hr, hb⟩ := hw.exists_writer
      have hbase : fs.bufferBase w = header := by
        rw [bufferBase, hr, hw.sparse, hh]
      unfold bufferLoop
      split
      · exact .refl fs
      · rename_i hl
        simp only [withWriter, ho.writer]
        split
        · exact .refl fs
        · rename_i i hz
          have hd := dataOnly_appendChunk fs ho.writer i header left
          refine andThen_cases (P := fun x ↦ Data G c fs x.1) (fun hst ↦ ?_) (fun hok ↦ ?_)
          · rw [← hbase] at hst hd ⊢
            exact .of_tick (.appendChunk ho hb hz hl fun hok ↦ absurd hok hst) hd
          · have hchunk : ((fs.appendChunk h w i header left).1.zbd.zones i).capacity ≠ 0 →
                Data G c fs (fs.appendChunk h w i header left).1 := by
              rw [← hbase] at hd ⊢
              exact fun hcap ↦ .of_tick (.appendChunk ho hb hz hl fun _ ↦ hcap) hd
            have hlast : Data G c fs
                ((fs.appendChunk h w i header left).1.closeActiveZone w.file) := by
              rw [← hbase] at hok hd ⊢
              exact .of_tick (.appendLast ho hb hz hl hok) (hd.trans (dataOnly_closeActiveZone _ _))
            generalize (fs.appendChunk h w i header left).1 = fs₁ at hchunk hlast ⊢
            split
            · have hw₂ := hw.congr hlast.data
              have h₂ : Data G c _ ((fs₁.closeActiveZone w.file).shiftBuffer h header
                  (fs.wrSize i header left)
                  (sub32 left (sub32 (fs.wrSize i header left) header))) :=
                data_shiftBuffer hw₂ ..
              have hw₃ := hw₂.congr h₂.data
              have h₃ := data_allocateNewZone (G := G) (c := c) hw₃ (by
                rw [shiftBuffer_heap, ← hr]
                exact closeActiveZone_activeZone fs₁ w.file)
              rw [← hr] at h₃
              have h₁₃ := hlast.trans (h₂.trans h₃)
              refine andThen_cases (P := fun x ↦ Data G c fs x.1) (fun _ ↦ h₁₃) (fun _ ↦ ?_)
              exact h₁₃.trans (ih (hw.congr h₁₃.data) _)
            · rename_i hcap
              exact (hchunk hcap).trans (ih (hw.congr (hchunk hcap).data) _)

theorem data_bufferAppend {w : Writer} (hw : OpenAt fs h w) (hb : w.buffered = true) {header : Nat}
    (hh : header = fs.bufferBase w) : Data G c fs (fs.bufferAppend G h w header).1 := by
  have hs := Writes.of_openAt hw
  rw [hb] at hs
  unfold bufferAppend
  simp only
  split
  · rename_i hz
    have ha := data_allocateNewZone (G := G) (c := c) hs hz
    refine andThen_cases (P := fun x ↦ Data G c fs x.1) (fun _ ↦ ha) (fun _ ↦ ?_)
    exact ha.trans (data_bufferLoop hh _ (hs.congr ha.data) _)
  · exact data_bufferLoop hh _ hs _

/-- `FlushBuffer` consists of ticks. -/
theorem data_flushBuffer (hw : Writes fs h r true sp) : Data G c fs (fs.flushBuffer G h).1 := by
  obtain ⟨w, ho, hr, hb⟩ := hw.exists_writer
  unfold flushBuffer
  simp only [withWriter, ho.writer]
  split
  · exact .refl fs
  · have hf : Data G c fs
        (if (fs.heap w.file).isSparse then fs.sparseAppend G h w
          else fs.bufferedAppend G h w).1 := by
      split
      · rename_i hsp
        exact data_bufferAppend ho hb (by simp [bufferBase, hsp])
      · rename_i hsp
        exact data_bufferAppend ho hb (by simp [bufferBase, hsp])
    refine andThen_cases (P := fun x ↦ Data G c fs x.1) (fun _ ↦ hf) (fun _ ↦ ?_)
    obtain ⟨w', ho', -⟩ := (hw.congr hf.data).exists_writer
    simp only [ho'.writer]
    exact hf.trans (data_setWriter ho'.writer rfl)

theorem data_bufferedWriteLoop : ∀ (fuel : Nat) {fs : Fs}, Writes fs h r true sp →
    ∀ data : List Byte, Data G c fs (fs.bufferedWriteLoop G fuel h data).1 := by
  intro fuel
  induction fuel with
  | zero => exact fun _ _ ↦ .refl _
  | succ fuel ih =>
      intro fs hw data
      obtain ⟨w, ho, -, -⟩ := hw.exists_writer
      unfold bufferedWriteLoop
      split
      · exact .refl fs
      · simp only [withWriter, ho.writer]
        have hf : Data G c fs
            (if w.bufferSz - w.bufferPos = 0 then fs.flushBuffer G h else (fs, .ok)).1 := by
          split
          · exact data_flushBuffer hw
          · exact .refl fs
        refine andThen_cases (P := fun x ↦ Data G c fs x.1) (fun _ ↦ hf) (fun _ ↦ ?_)
        have hw₁ := hw.congr hf.data
        obtain ⟨w₁, ho₁, -, -⟩ := hw₁.exists_writer
        simp only [ho₁.writer]
        have h₂ : ∀ buffer pos,
            Data G c _ (setWriter _ h { w₁ with buffer := buffer, bufferPos := pos }) :=
          fun buffer pos ↦ data_setWriter ho₁.writer rfl
        exact (hf.trans (h₂ _ _)).trans (ih (hw₁.congr (h₂ _ _).data) _)

theorem pushed_pushExtent (fs : Fs) (r : Ref) : Pushed ((fs.pushExtent r).heap r) := by
  unfold pushExtent Pushed
  simp only
  split
  · rename_i hz
    exact .inl hz
  · split
    · right
      omega
    · right
      simp [setFile]

theorem pushExtent_zones (fs : Fs) (r : Ref) (i : ZoneId) :
    ((fs.pushExtent r).zbd.zones i).capacity = (fs.zbd.zones i).capacity := by
  unfold pushExtent
  simp only
  split
  · rfl
  · split
    · rfl
    · simp [setFile, Zbd.addUsed_zones]

theorem pushExtent_activeZone (fs : Fs) (r : Ref) :
    ((fs.pushExtent r).heap r).activeZone = (fs.heap r).activeZone := by
  unfold pushExtent
  simp only
  split
  · rfl
  · split
    · rfl
    · simp [setFile]

theorem data_pushExtent (hw : Writes fs h r false sp) : Data G c fs (fs.pushExtent r) := by
  obtain ⟨w, ho, rfl, hb⟩ := hw.exists_writer
  exact .of_tick (.pushExtent ho hb) (dataOnly_pushExtent fs _)

theorem data_persistMetadata (hw : Writes fs h r b sp) :
    Data G c fs (fs.persistMetadata G r).1 := by
  obtain ⟨w, ho, rfl, -⟩ := hw.exists_writer
  exact .of_tick (.persistMetadata ho) (metaOnly_persistMetadata fs _).dataOnly

/-- The space left in every zone is a multiple of `u`. -/
def Aligned (u : Nat) (fs : Fs) : Prop := ∀ i, u ∣ (fs.zbd.zones i).capacity

namespace Aligned

variable {u : Nat}

theorem congr (ha : Aligned u fs)
    (h : ∀ i, (fs₁.zbd.zones i).capacity = (fs.zbd.zones i).capacity) : Aligned u fs₁ := by
  intro i
  rw [h i]
  exact ha i

theorem finishZones (ha : Aligned u fs) (is : List ZoneId) : Aligned u (fs.finishZones is) := by
  induction is generalizing fs with
  | nil => exact ha
  | cons i is ih =>
      refine ih ?_
      dsimp only
      split
      · intro j
        by_cases hj : j = i
        · subst hj
          simp [note, Zbd.finish]
        · simpa [note, Zbd.finish, hj] using ha j
      · exact ha

theorem setBusy (ha : Aligned u fs) (i : ZoneId) (b : Bool) :
    Aligned u { fs with zbd := fs.zbd.setBusy i b } := by
  refine ha.congr fun j ↦ ?_
  by_cases hj : j = i
  · subst hj
    simp [Zbd.setBusy]
  · simp [Zbd.setBusy, hj]

theorem allocateNewZone (ha : Aligned u fs) (r : Ref) : Aligned u (fs.allocateNewZone G r).1 := by
  obtain ⟨ps, is, fs₁, h₁, h | ⟨i, fs₂, -, h₂, h⟩⟩ := fs.allocateNewZone_cases G r
  all_goals
    have hf : Aligned u fs₁ := by
      have hps : Aligned u { fs with env := { fs.env with picks := ps } } := ha
      rw [h₁]
      exact hps.finishZones is
  · rw [h.1]
    exact hf
  · have hp : Aligned u fs₂.1 := by
      rw [h₂]
      refine (hf.setBusy i true).congr fun j ↦ ?_
      rw [(metaOnly_persistMetadata _ r).zbd]
      rfl
    rcases h with h | h
    · rw [h.1]
      exact hp
    · rw [h.1]
      exact hp

theorem closeActiveZone (ha : Aligned u fs) (r : Ref) : Aligned u (fs.closeActiveZone r) := by
  unfold Fs.closeActiveZone
  split
  · exact ha
  · exact ha.setBusy _ false

theorem appendDirect (ha : Aligned u fs) {i : ZoneId} {data : List Byte} (hd : u ∣ data.length)
    (hok : (fs.appendDirect r i data).2 = .ok) : Aligned u (fs.appendDirect r i data).1 := by
  rcases fs.appendDirect_cases r i data with ⟨n, -, -, -, h⟩ | ⟨hc, h, -⟩
  · exact absurd hok h
  · rw [h]
    intro j
    simp only [setFile, wrote, note, Zbd.appended_zones]
    split
    · exact Nat.dvd_sub (ha i) hd
    · exact ha j

end Aligned

/-- The loop of `Append` consists of ticks. -/
theorem data_appendLoop : ∀ (fuel : Nat) {fs : Fs}, Writes fs h r false sp → Aligned c.unit fs →
    ∀ data : List Byte, c.unit ∣ data.length →
      Data G c fs (fs.appendLoop G fuel r data).1 := by
  intro fuel
  induction fuel with
  | zero => exact fun _ _ _ _ ↦ data_note rfl _
  | succ fuel ih =>
      intro fs hw ha data hu
      unfold appendLoop
      split
      · exact .refl fs
      · split
        · exact .refl fs
        · rename_i i hz
          generalize hx : (if (fs.zbd.zones i).capacity = 0 then
                ((fs.pushExtent r).closeActiveZone r).allocateNewZone G r
              else (fs, .ok)) = x
          have hf : Data G c fs x.1 ∧ Aligned c.unit x.1 := by
            rw [← hx]
            split
            · rename_i hcap
              have h₁ : Data G c fs (fs.pushExtent r) := data_pushExtent hw
              have hw₁ := hw.congr h₁.data
              have h₂ : Data G c (fs.pushExtent r) ((fs.pushExtent r).closeActiveZone r) := by
                obtain ⟨w, ho, rfl, -⟩ := hw₁.exists_writer
                refine .of_tick (.closeActiveZone ho (i := i) ?_ ?_ (pushed_pushExtent fs _))
                  (dataOnly_closeActiveZone _ _)
                · rw [pushExtent_activeZone, hz]
                · rw [pushExtent_zones, hcap]
              have h₃ := data_allocateNewZone (G := G) (c := c) (hw₁.congr h₂.data)
                (closeActiveZone_activeZone _ r)
              refine ⟨(h₁.trans h₂).trans h₃, ?_⟩
              exact ((ha.congr (pushExtent_zones fs r)).closeActiveZone r).allocateNewZone r
            · exact ⟨.refl fs, ha⟩
          refine andThen_cases (P := fun x ↦ Data G c fs x.1) (fun _ ↦ hf.1) (fun _ ↦ ?_)
          obtain ⟨hf, ha₁⟩ := hf
          have hw₁ := hw.congr hf.data
          split
          · exact hf
          · rename_i j hz₁
            have hlen : (data.take (min data.length (x.1.zbd.zones j).capacity)).length =
                min data.length (x.1.zbd.zones j).capacity := by
              rw [List.length_take]
              omega
            have hdvd : c.unit ∣ min data.length (x.1.zbd.zones j).capacity := by
              rcases Nat.le_total data.length (x.1.zbd.zones j).capacity with hm | hm
              · rwa [Nat.min_eq_left hm]
              · rw [Nat.min_eq_right hm]
                exact ha₁ j
            have hd : Data G c x.1 (x.1.appendDirect r j
                (data.take (min data.length (x.1.zbd.zones j).capacity))).1 := by
              obtain ⟨w, ho, rfl, hb⟩ := hw₁.exists_writer
              refine .of_tick (.appendDirect ho hb hz₁ ?_ ?_) (dataOnly_appendDirect x.1 _ _ _)
              · rw [hlen]
                exact Nat.min_le_right _ _
              · rw [hlen]
                exact hdvd
            refine andThen_cases (P := fun x ↦ Data G c fs x.1) (fun _ ↦ hf.trans hd) (fun hok ↦ ?_)
            refine (hf.trans hd).trans (ih (hw₁.congr hd.data) (ha₁.appendDirect ?_ hok) _ ?_)
            · rwa [hlen]
            · rw [List.length_drop]
              exact Nat.dvd_sub hu hdvd

theorem data_append (hw : Writes fs h r false sp) (ha : Aligned c.unit fs) {data : List Byte}
    (hu : c.unit ∣ data.length % 2 ^ 32) : Data G c fs (fs.append G r data).1 := by
  have hu' : c.unit ∣ (data.take (data.length % 2 ^ 32)).length := by
    rw [List.length_take, Nat.min_eq_left (Nat.mod_le _ _)]
    exact hu
  unfold append
  dsimp only
  split
  · rename_i hz
    have h₁ := data_allocateNewZone (G := G) (c := c) hw hz
    refine andThen_cases (P := fun x ↦ Data G c fs x.1) (fun _ ↦ h₁) (fun _ ↦ ?_)
    exact h₁.trans (data_appendLoop _ (hw.congr h₁.data) (ha.allocateNewZone r) _ hu')
  · exact data_appendLoop _ hw ha _ hu'

/-- `ZonedWritableFile::Append` consists of ticks. -/
theorem ticks_writerAppend (hw : Writes fs h r b sp) (ha : Aligned c.unit fs) {data : List Byte}
    (hu : b = false → c.unit ∣ data.length % 2 ^ 32) :
    Ticks G c fs (fs.writerAppend G h data).1 := by
  obtain ⟨w, ho, rfl, rfl⟩ := hw.exists_writer
  unfold writerAppend
  simp only [withWriter, ho.writer]
  have h₁ := Tick.appended (G := G) (c := c) ho data
  refine Relation.ReflTransGen.head h₁ ?_
  generalize hfs : { fs with
    appended := Function.update fs.appended w.file (fs.appended w.file ++ data) } = fs₁
  have hw₁ : Writes fs₁ h w.file w.buffered sp := by
    rw [← hfs]
    exact ⟨hw.writer, hw.sparse⟩
  have ha₁ : Aligned c.unit fs₁ := by
    rw [← hfs]
    exact ha
  split
  · rename_i hb
    rw [hb] at hw₁
    exact (data_bufferedWriteLoop _ hw₁ _).ticks
  · rename_i hb
    rw [Bool.not_eq_true] at hb
    rw [hb] at hw₁
    have hd := data_append (G := G) hw₁ ha₁ (hu hb)
    refine andThen_cases (P := fun x ↦ Ticks G c fs₁ x.1) (fun _ ↦ hd.ticks) (fun _ ↦ ?_)
    obtain ⟨w₂, ho₂, -, -⟩ := (hw₁.congr hd.data).exists_writer
    simp only [ho₂.writer]
    refine hd.ticks.tail (.setWriter ho₂.writer ?_)
    rfl

/-- `DataSync` consists of ticks, and pushes what was appended directly. -/
theorem data_dataSync (hw : Writes fs h r b sp) :
    Data G c fs (fs.dataSync G h).1 ∧ (b = false → Pushed ((fs.dataSync G h).1.heap r)) := by
  obtain ⟨w, ho, rfl, rfl⟩ := hw.exists_writer
  unfold dataSync
  simp only [withWriter, ho.writer]
  split
  · rename_i hb
    rw [hb] at hw
    refine ⟨?_, fun hb' ↦ absurd (hb.symm.trans hb') (by simp)⟩
    have hf := data_flushBuffer (G := G) (c := c) hw
    refine andThen_cases (P := fun x ↦ Data G c fs x.1) (fun _ ↦ hf) (fun _ ↦ ?_)
    split
    · exact hf
    · exact hf.trans (data_persistMetadata (hw.congr hf.data))
  · rename_i hb
    rw [Bool.not_eq_true] at hb
    rw [hb] at hw
    exact ⟨data_pushExtent hw, fun _ ↦ pushed_pushExtent fs _⟩

theorem data_fsync (hw : Writes fs h r b sp) : Data G c fs (fs.fsync G h).1 := by
  have hd := (data_dataSync (G := G) (c := c) hw).1
  unfold fsync
  refine andThen_cases (P := fun x ↦ Data G c fs x.1) (fun _ ↦ hd) (fun _ ↦ ?_)
  have hw₁ := hw.congr hd.data
  obtain ⟨w, ho, hr, -⟩ := hw₁.exists_writer
  simp only [withWriter, ho.writer]
  split
  · exact hd
  · rw [hr]
    exact hd.trans (data_persistMetadata hw₁)

/-- `CloseInternal` consists of ticks, and the handle keeps its file. -/
theorem ticks_closeInternal {w : Writer} (hw : fs.writers h = some w) :
    Ticks G c fs (fs.closeInternal G h).1 ∧
      ∃ w', (fs.closeInternal G h).1.writers h = some w' ∧ w'.file = w.file := by
  unfold closeInternal
  simp only [withWriter, hw]
  split
  · exact ⟨.refl, w, hw, rfl⟩
  · rename_i ho
    have ho : OpenAt fs h w := ⟨hw, by simpa using ho⟩
    have hs := Writes.of_openAt ho
    obtain ⟨hd, hp⟩ := data_dataSync (G := G) (c := c) hs
    have hw₁ := hs.congr hd.data
    refine andThen_cases
      (P := fun x ↦ Ticks G c fs x.1 ∧ ∃ w', x.1.writers h = some w' ∧ w'.file = w.file)
      (fun _ ↦ ?_) (fun _ ↦ ?_)
    · obtain ⟨w₁, ho₁, hr₁, -⟩ := hw₁.exists_writer
      exact ⟨hd.ticks, w₁, ho₁.writer, hr₁⟩
    · generalize (fs.dataSync G h).1 = fs₁ at hd hp hw₁ ⊢
      obtain ⟨w₁, ho₁, hr₁, hb₁⟩ := hw₁.exists_writer
      have ht : Tick G c fs₁ (fs₁.closeFile G h w.file).1 := by
        rw [← hr₁]
        refine .closeFile ho₁ ?_
        rw [hb₁, hr₁]
        exact hp
      refine ⟨hd.ticks.tail ht, ?_⟩
      have hm := metaOnly_persistMetadata (G := G)
        (fs₁.setFile w.file { fs₁.heap w.file with extentStart := NO_EXTENT }) w.file
      have hc : (fs₁.closeWR G w.file).1.writers h = some w₁ := by
        unfold closeWR
        refine andThen_cases (P := fun x ↦ x.1.writers h = some w₁) (fun _ ↦ ?_) (fun _ ↦ ?_)
        · rw [hm.writers]
          exact ho₁.writer
        · have hcl : ∀ fs' : Fs, (fs'.closePartialZone w.file).1.writers = fs'.writers := by
            intro fs'
            obtain ⟨env, h⟩ := fs'.closePartialZone_cases w.file
            rw [h]
            unfold closeActiveZone
            split
            · rfl
            · rfl
          rw [hcl]
          show (persistMetadata G _ _).1.writers h = some w₁
          rw [hm.writers]
          exact ho₁.writer
      refine andThen_cases (P := fun x ↦ ∃ w', x.1.writers h = some w' ∧ w'.file = w.file)
        (fun _ ↦ ⟨w₁, hc, hr₁⟩) (fun _ ↦ ?_)
      simp only [hc]
      exact ⟨_, Function.update_self .., hr₁⟩

theorem ticks_destroyWriter (fs : Fs) (h : Handle) : Ticks G c fs (fs.destroyWriter G h) := by
  unfold destroyWriter
  split
  · exact .refl
  · rename_i w hw
    obtain ⟨ht, w', hw', hf⟩ := ticks_closeInternal (G := G) (c := c) hw
    rw [← hf]
    exact ht.tail (.destroyWriter hw')

theorem ticks_noteSynced {x : Fs × Status} (hx : Ticks G c fs x.1) :
    Ticks G c fs (noteSynced h x).1 := by
  unfold noteSynced
  refine andThen_cases (P := fun x ↦ Ticks G c fs x.1) (fun _ ↦ hx) (fun _ ↦ ?_)
  unfold withWriter
  split
  · exact hx
  · exact hx.tail (.note _ rfl)

/-! ## Zones and names -/

theorem resetZone_nrZones (fs : Fs) (i : ZoneId) :
    (fs.resetZone i).1.zbd.nrZones = fs.zbd.nrZones := by
  unfold resetZone
  dsimp only
  split
  · exact Zbd.reset_nrZones fs.zbd i _
  · exact Zbd.reset_nrZones fs.zbd i _

theorem ticks_resetZones (is : List ZoneId) (hi : ∀ i ∈ is, i < fs.zbd.nrZones) :
    Ticks G c fs (fs.resetZones is).1 := by
  induction is generalizing fs with
  | nil => exact .refl
  | cons i is ih =>
      unfold resetZones
      dsimp only
      split
      · exact ih fun j hj ↦ hi j (List.mem_cons_of_mem i hj)
      · rename_i hcond
        simp only [Bool.or_eq_true, not_or, Bool.not_eq_true] at hcond
        have ht : Tick G c fs (fs.resetZone i).1 :=
          .resetZone (hi i List.mem_cons_self) hcond.1.1 hcond.1.2 hcond.2
        refine andThen_cases (P := fun x ↦ Ticks G c fs x.1) (fun _ ↦ .single ht) (fun _ ↦ ?_)
        refine Relation.ReflTransGen.head ht (ih fun j hj ↦ ?_)
        rw [resetZone_nrZones]
        exact hi j (List.mem_cons_of_mem i hj)

theorem ticks_resetUnusedIOZones (fs : Fs) : Ticks G c fs (fs.resetUnusedIOZones).1 :=
  ticks_resetZones _ fun _ hi ↦ List.mem_range.mp hi

theorem ticks_andThen {x : Fs × Status} {k : Fs → Fs × Status} (hx : Ticks G c fs x.1)
    (hk : x.2 = .ok → Ticks G c x.1 (k x.1).1) : Ticks G c fs (andThen x k).1 :=
  andThen_cases (P := fun y ↦ Ticks G c fs y.1) (fun _ ↦ hx) fun h ↦ hx.trans (hk h)

theorem release_files (s : Store) (r : Ref) : (s.release r).files = s.files := by
  unfold Store.release
  split
  · rfl
  · rfl

theorem release_handles (s : Store) (r : Ref) : (s.release r).handles = s.handles := by
  unfold Store.release
  split
  · rfl
  · rfl

theorem drop_hold_handles {fs fs' : Fs} {t : Holder} (h : fs'.handles = (fs.hold r t).handles) :
    (fs'.drop r t).handles = fs.handles := by
  simp only [drop, release_handles]
  rw [h]
  funext r'
  by_cases hr : r' = r
  · subst hr
    simp [hold]
  · simp [hold, hr]

/-- `DeleteFileNoLock` gives back the reference it takes, and what it deletes is
gone if it succeeds. -/
theorem deleteFileNoLock_frame (fs : Fs) (fname : Name) :
    (fs.deleteFileNoLock G fname).1.handles = fs.handles ∧
      (fs.deleteFileNoLock G fname).1.writers = fs.writers ∧
      ((fs.deleteFileNoLock G fname).2 = .ok → fs.files.lookup fname ≠ none →
        (fs.deleteFileNoLock G fname).1.files.lookup fname = none) := by
  unfold deleteFileNoLock
  split
  · rename_i hn
    exact ⟨rfl, rfl, fun _ h ↦ absurd hn h⟩
  · rename_i r hn
    dsimp only
    split
    · rename_i s hs
      refine ⟨drop_hold_handles rfl, rfl, fun h ↦ ?_⟩
      dsimp only at h
      rw [h, ZoneFile.removeLinkName] at hs
      split at hs <;> simp at hs
    · rename_i f hf
      have hm := metaOnly_persistRecord (G := G) (setFile
        { fs.hold r (.localVar 0) with files := fs.files.erase fname } r f)
        (.fileDeletion f.fileId fname)
      split
      · rename_i fs₁ heq
        rw [heq] at hm
        have hf : fs₁.files = fs.files.erase fname := hm.files
        split
        · refine ⟨drop_hold_handles hm.handles, hm.writers, fun _ _ ↦ ?_⟩
          simp [drop, release_files, hf]
        · refine ⟨drop_hold_handles hm.handles, hm.writers, fun _ _ ↦ ?_⟩
          simp [drop, release_files, hf, setFile]
      · rename_i fs₁ s hs heq
        rw [heq] at hm
        exact ⟨drop_hold_handles hm.handles, hm.writers, fun h ↦ absurd h hs⟩

theorem renameLinked_handles (fs : Fs) (r : Ref) (source_path dest_path : Name) :
    (fs.renameLinked G r source_path dest_path).1.handles = fs.handles := by
  unfold renameLinked
  split
  · rfl
  · rename_i f hf
    dsimp only
    have hm := metaOnly_syncFileMetadataNoLock (G := G) (setFile
      { fs with files := Files.insertNew (fs.files.erase source_path) dest_path r } r f) r false
    split
    · rename_i fs₁ heq
      rw [heq] at hm
      exact hm.handles
    · rename_i fs₁ s hs heq
      rw [heq] at hm
      split
      · exact hm.handles
      · exact hm.handles

theorem mem_hold (fs : Fs) (r : Ref) (t : Holder) : t ∈ (fs.hold r t).handles r := by
  simp [hold]

theorem mem_hold_of_mem {t t' : Holder} {r' : Ref} (h : t ∈ fs.handles r) :
    t ∈ (fs.hold r' t').handles r := by
  by_cases hr : r = r'
  · subst hr
    simp [hold, h]
  · simp [hold, hr, h]

theorem mem_drop_of_ne {t t' : Holder} {r' : Ref} (h : t ∈ fs.handles r) (ht : t ≠ t') :
    t ∈ (fs.drop r' t').handles r := by
  simp only [drop, release_handles]
  by_cases hr : r = r'
  · subst hr
    simpa using (List.mem_erase_of_ne ht).mpr h
  · simpa [hr] using h

/-- `RenameFileNoLock` consists of ticks. -/
theorem ticks_renameFileNoLock (fs : Fs) (source_path dest_path : Name) :
    Ticks G c fs (fs.renameFileNoLock G source_path dest_path).1 := by
  unfold renameFileNoLock
  split
  · exact .refl
  · rename_i r hs
    have h₁ : Tick G c fs (fs.hold r (.localVar 1)) := .hold hs 1
    split
    · rename_i hd
      have h₂ : Tick G c _ ((fs.hold r (.localVar 1)).renameLinked G r source_path dest_path).1 :=
        .renameLinked (mem_hold fs r _) hd source_path
      refine ((Relation.ReflTransGen.single h₁).tail h₂).tail (.drop ?_)
      rw [renameLinked_handles]
      exact mem_hold fs r _
    · rename_i r' hd
      have hd' : (fs.hold r (.localVar 1)).files.lookup dest_path = some r' := hd
      have h₂ : Tick G c _ ((fs.hold r (.localVar 1)).hold r' (.localVar 2)) := .hold hd' 2
      generalize hfs : (fs.hold r (.localVar 1)).hold r' (.localVar 2) = fs₁ at h₂ ⊢
      have hr₁ : .localVar 1 ∈ fs₁.handles r := by
        rw [← hfs]
        exact mem_hold_of_mem (mem_hold fs r _)
      have hr₂ : .localVar 2 ∈ fs₁.handles r' := by
        rw [← hfs]
        exact mem_hold _ r' _
      have hd₁ : fs₁.files.lookup dest_path = some r' := by
        rw [← hfs]
        exact hd
      have h₃ := Tick.deleteFileNoLock (G := G) (c := c) fs₁ dest_path
      obtain ⟨hh, -, hdel⟩ := deleteFileNoLock_frame (G := G) fs₁ dest_path
      generalize hx : andThen (fs₁.deleteFileNoLock G dest_path)
        (fun fs ↦ fs.renameLinked G r source_path dest_path) = x
      have h₄ : Ticks G c fs₁ x.1 ∧ x.1.handles = fs₁.handles := by
        rw [← hx]
        refine andThen_cases (P := fun x ↦ Ticks G c fs₁ x.1 ∧ x.1.handles = fs₁.handles)
          (fun _ ↦ ⟨.single h₃, hh⟩) (fun hok ↦ ⟨?_, ?_⟩)
        · refine (Relation.ReflTransGen.single h₃).tail 
            (.renameLinked (k := 1) ?_ (hdel hok ?_) source_path)
          · rw [hh]
            exact hr₁
          · simp [hd₁]
        · rw [renameLinked_handles, hh]
      have h₅ := (((Relation.ReflTransGen.single h₁).tail h₂).trans h₄.1)
      refine (h₅.tail (.drop (r := r') (k := 2) ?_)).tail (.drop ?_)
      · rw [h₄.2]
        exact hr₂
      · refine mem_drop_of_ne ?_ (by simp)
        rw [h₄.2]
        exact hr₁

/-- `OpenWritableFile` consists of ticks. -/
theorem ticks_openWritableFile {fname : Name} {direct reopen : Bool}
    (he : fs.enabled (.openWritable fname direct reopen h) = true) :
    Ticks G c fs (fs.openWritableFile G fname direct reopen h).1 := by
  simp only [enabled, Bool.and_eq_true, Option.isNone_iff_eq_none] at he
  obtain ⟨hw, hl⟩ := he
  unfold openWritableFile
  split
  · rename_i hn
    exact .single (.createFile hn hw direct)
  · rename_i r hn
    split
    · rename_i hre
      refine .single (.openWriter hn hw ?_ direct)
      simpa [hre, hn] using hl
    · obtain ⟨-, hwr, hdel⟩ := deleteFileNoLock_frame (G := G) fs fname
      refine ticks_andThen (.single (.deleteFileNoLock fs fname)) fun hok ↦ ?_
      refine ticks_andThen (.single (.createFile (hdel hok ?_) ?_ direct)) fun _ ↦
        ticks_resetUnusedIOZones _
      · simp [hn]
      · rw [hwr]
        exact hw

/-- Every file of a call of `MigrateExtents` may be migrated when its turn comes. -/
def Conduct.MigratesAll (c : Conduct) (G : Geometry) : Fs → List (Name × List (Nat × Nat)) → Prop
  | _, [] => True
  | fs, (fname, exts) :: rest =>
      if endsWith fname ".sst" then
        c.migrates fs fname exts ∧
          MigratesAll c G (fs.migrateFileExtents G fname exts).1.resetUnusedIOZones.1 rest
      else MigratesAll c G fs rest

theorem Conduct.migratesAll_of_forall (h : ∀ fs fname exts, c.migrates fs fname exts) (fs : Fs)
    (extents : List (Name × List (Nat × Nat))) : c.MigratesAll G fs extents := by
  induction extents generalizing fs with
  | nil => trivial
  | cons e rest ih =>
      obtain ⟨fname, exts⟩ := e
      unfold Conduct.MigratesAll
      split
      · exact ⟨h .., ih _⟩
      · exact ih _

theorem ticks_migrateExtents (extents : List (Name × List (Nat × Nat)))
    (hm : c.MigratesAll G fs extents) : Ticks G c fs (fs.migrateExtents G extents).1 := by
  induction extents generalizing fs with
  | nil => exact .refl
  | cons e rest ih =>
      obtain ⟨fname, exts⟩ := e
      unfold migrateExtents
      unfold Conduct.MigratesAll at hm
      split
      · rename_i hsst
        rw [if_pos hsst] at hm
        refine ticks_andThen (.single (.migrateFileExtents hm.1)) fun _ ↦ ?_
        exact ticks_andThen (ticks_resetUnusedIOZones _) fun _ ↦ ih hm.2
      · rename_i hsst
        rw [if_neg hsst] at hm
        exact ih hm

end Chain

/-! ## The history grows -/

section Hist

variable {G : Geometry} {c : Conduct} {fs fs' : Fs}

theorem drop_hist (fs : Fs) (r : Ref) (t : Holder) : (fs.drop r t).hist = fs.hist := rfl

theorem finishZones_hist (fs : Fs) (is : List ZoneId) : fs.hist <+: (fs.finishZones is).hist := by
  induction is generalizing fs with
  | nil => exact List.prefix_rfl
  | cons i is ih =>
      refine List.IsPrefix.trans ?_ (ih _)
      dsimp only
      split
      · exact List.prefix_append _ _
      · exact List.prefix_rfl

theorem allocateNewZone_hist (fs : Fs) (r : Ref) : fs.hist <+: (fs.allocateNewZone G r).1.hist := by
  obtain ⟨ps, is, fs₁, h₁, h | ⟨i, fs₂, -, h₂, h⟩⟩ := fs.allocateNewZone_cases G r
  all_goals
    have hf : fs.hist <+: fs₁.hist := by
      rw [h₁]
      exact finishZones_hist { fs with env := { fs.env with picks := ps } } is
  · rw [h.1]
    exact hf.trans (List.prefix_append _ _)
  · have hp : fs.hist <+: fs₂.1.hist := by
      rw [h₂]
      refine hf.trans (List.IsPrefix.trans ?_ (metaOnly_persistMetadata _ r).hist)
      exact List.prefix_rfl
    rcases h with h | h
    · rw [h.1]
      exact hp
    · rw [h.1]
      exact hp.trans (List.prefix_append _ _)

theorem pushExtent_hist (fs : Fs) (r : Ref) : (fs.pushExtent r).hist = fs.hist := by
  unfold pushExtent
  dsimp only
  split
  · rfl
  · split <;> rfl

theorem closeActiveZone_hist (fs : Fs) (r : Ref) : (fs.closeActiveZone r).hist = fs.hist := by
  unfold closeActiveZone
  split <;> rfl

theorem appendChunk_hist (fs : Fs) (h : Handle) (w : Writer) (i : ZoneId) (header left : Nat) :
    fs.hist <+: (fs.appendChunk h w i header left).1.hist := by
  obtain ⟨fs₁, data, len, h₁, -, -, ⟨n, -, -, h, -⟩ | ⟨-, h, -⟩⟩ :=
    fs.appendChunk_cases h w i header left
  · rw [h, h₁]
    exact List.prefix_append _ _
  · rw [h, h₁]
    exact List.prefix_append _ _

theorem appendDirect_hist (fs : Fs) (r : Ref) (i : ZoneId) (data : List Byte) :
    fs.hist <+: (fs.appendDirect r i data).1.hist := by
  rcases fs.appendDirect_cases r i data with ⟨n, -, -, h, -⟩ | ⟨-, h, -⟩
  · rw [h]
    exact List.prefix_append _ _
  · rw [h]
    exact List.prefix_append _ _

theorem closeFile_hist (fs : Fs) (h : Handle) (r : Ref) :
    fs.hist <+: (fs.closeFile G h r).1.hist := by
  have hm := (metaOnly_persistMetadata (G := G)
    (fs.setFile r { fs.heap r with extentStart := NO_EXTENT }) r).hist
  have hc : fs.hist <+: (fs.closeWR G r).1.hist := by
    unfold closeWR
    refine andThen_cases (P := fun x ↦ fs.hist <+: x.1.hist) (fun _ ↦ hm) (fun _ ↦ ?_)
    obtain ⟨env, h⟩ := closePartialZone_cases (setFile _ r _) r
    rw [h, closeActiveZone_hist]
    exact hm
  unfold closeFile
  refine andThen_cases (P := fun x ↦ fs.hist <+: x.1.hist) (fun _ ↦ hc) (fun _ ↦ ?_)
  unfold withWriter
  split
  · exact hc
  · exact hc

theorem resetZone_hist (fs : Fs) (i : ZoneId) : fs.hist <+: (fs.resetZone i).1.hist := by
  unfold resetZone
  dsimp only
  split
  · exact List.prefix_rfl
  · exact List.prefix_append _ _

theorem deleteFileNoLock_hist (fs : Fs) (fname : Name) :
    fs.hist <+: (fs.deleteFileNoLock G fname).1.hist := by
  unfold deleteFileNoLock
  split
  · exact List.prefix_rfl
  · rename_i r hn
    dsimp only
    split
    · exact List.prefix_rfl
    · rename_i f hf
      have hm := (metaOnly_persistRecord (G := G) (setFile
        { fs.hold r (.localVar 0) with files := fs.files.erase fname } r f)
          (.fileDeletion f.fileId fname)).hist
      split
      · rename_i fs₁ heq
        rw [heq] at hm
        split
        · exact hm
        · exact hm
      · rename_i fs₁ s hs heq
        rw [heq] at hm
        exact hm

theorem createFile_hist (fs : Fs) (fname : Name) (direct : Bool) (h : Handle) :
    fs.hist <+: (fs.createFile G fname direct h).1.hist := by
  unfold createFile
  dsimp only
  generalize hfs : (fs.newFile fname direct).2.noteRolled G _ = fs₁
  have h₁ : fs.hist <+: fs₁.hist := hfs ▸ (metaOnly_noteRolled (fs.newFile fname direct).2 _).hist
  have hm := (metaOnly_syncFileMetadataNoLock (G := G) fs₁ (fs.newFile fname direct).1 false).hist
  split
  · rename_i fs₂ heq
    rw [heq] at hm
    exact h₁.trans hm
  · rename_i fs₂ s _ heq
    rw [heq] at hm
    exact h₁.trans hm

theorem renameLinked_hist (fs : Fs) (r : Ref) (source_path dest_path : Name) :
    fs.hist <+: (fs.renameLinked G r source_path dest_path).1.hist := by
  unfold renameLinked
  split
  · exact List.prefix_rfl
  · rename_i f hf
    dsimp only
    have hm := (metaOnly_syncFileMetadataNoLock (G := G) (setFile
      { fs with files := Files.insertNew (fs.files.erase source_path) dest_path r } r f)
      r false).hist
    split
    · rename_i fs₁ heq
      rw [heq] at hm
      exact hm
    · rename_i fs₁ s hs heq
      rw [heq] at hm
      split
      · exact hm
      · exact hm

theorem linkFile_hist (fs : Fs) (fname lname : Name) :
    fs.hist <+: (fs.linkFile G fname lname).1.hist := by
  unfold linkFile
  split
  · exact List.prefix_rfl
  · split
    · exact List.prefix_rfl
    · rename_i r hn
      have hm := (metaOnly_syncFileMetadataNoLock (G := G) (setFile
        { fs with files := fs.files.insertNew lname r } r ((fs.heap r).addLinkName lname))
        r false).hist
      split
      · rename_i fs₁ heq
        rw [heq] at hm
        exact hm
      · rename_i fs₁ s hs heq
        rw [heq] at hm
        split
        · exact hm
        · exact hm

theorem migrateExtent_hist (fs : Fs) (r : Ref) (exts : List (Nat × Nat)) (ext : ZoneExtent) :
    fs.hist <+: (fs.migrateExtent r exts ext).1.hist := by
  obtain ⟨ps, is, fs₁, h₁, h | h | ⟨target, fs₂, fs₃, -, h₂, h₃, -, -, h⟩⟩ :=
    fs.migrateExtent_cases r exts ext
  all_goals
    have hf : fs.hist <+: fs₁.hist := by
      rw [h₁]
      exact finishZones_hist { fs with env := { fs.env with picks := ps } } is
  · rw [h]
  · rw [h]
    exact hf
  · have hc : fs.hist <+: fs₃.hist := by
      obtain ⟨env, evs, -, -, rfl⟩ := h₃.eq
      subst h₂
      exact hf.trans (List.prefix_append _ _)
    rw [h]
    split
    · exact hc.trans (List.prefix_append _ _)
    · exact hc

theorem migrateAll_hist (r : Ref) (exts : List (Nat × Nat)) (es : List ZoneExtent) (fs : Fs) :
    fs.hist <+: (fs.migrateAll r exts es).1.hist := by
  induction es generalizing fs with
  | nil => exact List.prefix_rfl
  | cons e es ih => exact (migrateExtent_hist fs r exts e).trans (ih _)

theorem syncFileExtents_hist (fs : Fs) (r : Ref) (es : List ZoneExtent) :
    fs.hist <+: (fs.syncFileExtents G r es).1.hist := by
  unfold syncFileExtents
  have hm := (metaOnly_syncFileMetadataNoLock (G := G)
    (fs.setFile r { fs.heap r with extents := es }.metadataUnsynced) r true).hist
  exact andThen_cases (P := fun x ↦ fs.hist <+: x.1.hist) (fun _ ↦ hm) (fun _ ↦ hm)

theorem migrateFileExtents_hist (fs : Fs) (fname : Name) (exts : List (Nat × Nat)) :
    fs.hist <+: (fs.migrateFileExtents G fname exts).1.hist := by
  obtain h | ⟨r, fs₁, fs₂, es, fs₃, -, -, h₁, h₂, h₃, h⟩ := fs.migrateFileExtents_cases G fname exts
  · rw [h]
  · rw [h, drop_hist]
    show fs.hist <+: fs₃.hist
    have hm : fs₁.hist <+: fs₂.hist := by
      have := migrateAll_hist r exts (fs.heap r).extents fs₁
      rwa [h₂] at this
    rw [h₁] at hm
    rw [h₃]
    exact hm.trans (syncFileExtents_hist fs₂ r es)

/-- Nothing is forgotten. -/
theorem Tick.hist_prefix (h : Tick G c fs fs') : fs.hist <+: fs'.hist := by
  cases h with
  | env | appended | setWriter | openWriter | destroyWriter | hold | drop | setLifetime =>
      exact List.prefix_rfl
  | note => exact List.prefix_append _ _
  | closeFile => exact closeFile_hist ..
  | openReader fname =>
      unfold Fs.openReader
      split
      · exact List.prefix_rfl
      · exact List.prefix_rfl
  | closeReader k =>
      unfold Fs.closeReader
      split
      · exact List.prefix_rfl
      · exact List.prefix_rfl
  | persistMetadata => exact (metaOnly_persistMetadata ..).hist
  | pushExtent =>
      rw [pushExtent_hist]
  | closeActiveZone =>
      rw [closeActiveZone_hist]
  | allocateNewZone => exact allocateNewZone_hist ..
  | appendChunk => exact appendChunk_hist ..
  | appendLast =>
      rw [closeActiveZone_hist]
      exact appendChunk_hist ..
  | appendDirect => exact appendDirect_hist ..
  | deleteFileNoLock => exact deleteFileNoLock_hist ..
  | createFile => exact createFile_hist ..
  | renameLinked => exact renameLinked_hist ..
  | linkFile => exact linkFile_hist ..
  | migrateFileExtents => exact migrateFileExtents_hist ..
  | resetZone => exact resetZone_hist ..

end Hist

/-! ## Runs -/

/-- What an operation and its environment keep to. -/
structure Conduct.Allows (c : Conduct) (G : Geometry) (fs : Fs) (e : Env) (op : Op) : Prop where
  env : c.env e
  migrates : ∀ extents, op = .migrate extents → c.MigratesAll G { fs with env := e } extents
  direct : ∀ h w data, (op = .append h data ∨ ∃ offset, op = .positionedAppend h data offset) →
    fs.writers h = some w → w.buffered = false → c.unit ∣ data.length % 2 ^ 32

section Run

variable {G : Geometry} {c : Conduct} {fs : Fs}

theorem exists_openAt {h : Handle} (hi : fs.isOpen h = true) : ∃ w, OpenAt fs h w := by
  unfold isOpen at hi
  cases hw : fs.writers h with
  | none => simp [hw] at hi
  | some w => exact ⟨w, hw, by simpa [hw] using hi⟩

/-- Every operation consists of ticks. -/
theorem ticks_exec {op : Op} (ha : Aligned c.unit fs) (hc : c.Allows G fs fs.env op)
    (he : fs.enabled op = true) : Ticks G c fs (fs.exec G op).1 := by
  cases op with
  | openWritable fname direct reopen h => exact ticks_openWritableFile he
  | openReader fname k => exact .single (.openReader fs fname (by simpa [enabled] using he))
  | closeReader k => exact .single (.closeReader fs k)
  | append h data =>
      obtain ⟨w, hw⟩ := exists_openAt he
      exact ticks_writerAppend (.of_openAt hw) ha (hc.direct h w data (.inl rfl) hw.writer)
  | positionedAppend h data offset =>
      obtain ⟨w, hw⟩ := exists_openAt he
      simp only [exec, positionedAppend, withWriter, hw.writer]
      split
      · exact .refl
      · exact ticks_writerAppend (.of_openAt hw) ha
          (hc.direct h w data (.inr ⟨offset, rfl⟩) hw.writer)
  | sync h =>
      obtain ⟨w, hw⟩ := exists_openAt he
      exact ticks_noteSynced (data_dataSync (.of_openAt hw)).1.ticks
  | fsync h =>
      obtain ⟨w, hw⟩ := exists_openAt he
      exact ticks_noteSynced (data_fsync (.of_openAt hw)).ticks
  | rangeSync h offset nbytes =>
      obtain ⟨w, hw⟩ := exists_openAt he
      simp only [exec, rangeSync, withWriter, hw.writer]
      split
      · exact (data_dataSync (.of_openAt hw)).1.ticks
      · exact .refl
  | close h =>
      obtain ⟨w, hw⟩ := exists_openAt he
      exact ticks_noteSynced (ticks_closeInternal hw.writer).1
  | destroy h => exact ticks_destroyWriter fs h
  | setLifetime h hint =>
      obtain ⟨w, hw⟩ := exists_openAt he
      simp only [exec, setWriteLifeTimeHint, withWriter, hw.writer]
      exact .single (.setLifetime hw hint)
  | link fname lname => exact .single (.linkFile fs fname lname)
  | rename source_path dest_path =>
      exact ticks_andThen (ticks_renameFileNoLock fs source_path dest_path) fun _ ↦
        ticks_resetUnusedIOZones _
  | delete fname =>
      exact ticks_andThen (.single (.deleteFileNoLock fs fname)) fun _ ↦ ticks_resetUnusedIOZones _
  | migrate extents => exact ticks_migrateExtents extents (hc.migrates extents rfl)
  | resetUnused => exact ticks_resetUnusedIOZones fs

/-- What ticks preserve holds throughout a run. -/
theorem Reaches.invariant {I : Fs → Prop} {fs' : Fs} (ha : ∀ fs, I fs → Aligned c.unit fs)
    (ht : ∀ fs fs', I fs → Tick G c fs fs' → I fs') (h : Reaches G (c.Allows G) fs fs')
    (hi : I fs) : I fs' := by
  have hts : ∀ fs fs', Ticks G c fs fs' → I fs → I fs' := by
    intro fs fs' h hi
    induction h with
    | refl => exact hi
    | tail _ h ih => exact ht _ _ ih h
  induction h with
  | refl => exact hi
  | step _ env op hp he ih =>
      have he₁ := ht _ _ ih (.env _ hp.env)
      exact hts _ _ (ticks_exec (ha _ he₁) ⟨hp.env, hp.migrates, hp.direct⟩ he) he₁

end Run

end Fs

end ZenFs
