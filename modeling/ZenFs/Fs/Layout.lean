import ZenFs.Fs.Charge
import ZenFs.File.Retry

/-!
# Where the extents of live files lie

All live files share the zones of one device.  Their extents lie in front of the write
pointers and no two of them overlap; a zone that a file writes to belongs to it alone
until it is closed, and what is not recorded yet is behind everything that is.
-/

namespace ZenFs

/-! ## Zones that move on -/

/-- Two extents have no byte in common. -/
def ZoneExtent.Apart (e e' : ZoneExtent) : Prop :=
  e.start + e.length ≤ e'.start ∨ e'.start + e'.length ≤ e.start

theorem ZoneExtent.Apart.symm {e e' : ZoneExtent} (h : e.Apart e') : e'.Apart e := Or.symm h

namespace Zbd

variable {own : Option ZoneId} {d d' d'' : Zbd} {e e' : ZoneExtent} {i : ZoneId}

/-- From `d` to `d'` write pointers have only moved on, what was in front of them is
still there, and the zones in use by others than the owner of `own` have been left
alone. -/
structure Advances (own : Option ZoneId) (d d' : Zbd) : Prop where
  blockSize : d'.blockSize = d.blockSize
  zoneSize : d'.zoneSize = d.zoneSize
  nrZones : d'.nrZones = d.nrZones
  start : ∀ i, (d'.zones i).start = (d.zones i).start
  wp : ∀ i, (d.zones i).wp ≤ (d'.zones i).wp
  bytes : ∀ e, d.Inside e → d'.mem.read e.start e.length = d.mem.read e.start e.length
  others : ∀ i, own ≠ some i → (d.zones i).busy = true →
    (d'.zones i).busy = true ∧ (d'.zones i).wp = (d.zones i).wp ∧
      (d'.zones i).capacity = (d.zones i).capacity

theorem SameZones.trans (h : SameZones d d') (h' : SameZones d' d'') : SameZones d d'' where
  blockSize := h'.blockSize.trans h.blockSize
  zoneSize := h'.zoneSize.trans h.zoneSize
  nrZones := h'.nrZones.trans h.nrZones
  mem := h'.mem.trans h.mem
  start i := (h'.start i).trans (h.start i)
  wp i := (h'.wp i).trans (h.wp i)
  capacity i := (h'.capacity i).trans (h.capacity i)

/-- The contents depend on the bytes of the extents only. -/
theorem contents_congr {es : List ZoneExtent}
    (h : ∀ e ∈ es, d'.mem.read e.start e.length = d.mem.read e.start e.length) :
    d'.contents es = d.contents es := by
  induction es with
  | nil => rfl
  | cons e es ih =>
      rw [contents_cons, contents_cons, h e List.mem_cons_self,
        ih fun e' he' ↦ h e' (List.mem_cons_of_mem e he')]

namespace Advances

theorem refl (own : Option ZoneId) (d : Zbd) : Advances own d d :=
  ⟨rfl, rfl, rfl, fun _ ↦ rfl, fun _ ↦ le_rfl, fun _ _ ↦ rfl, fun _ _ h ↦ ⟨h, rfl, rfl⟩⟩

theorem inside (h : Advances own d d') (he : d.Inside e) : d'.Inside e where
  zone := h.nrZones ▸ he.zone
  start := h.start _ ▸ he.start
  stop := he.stop.trans (h.wp _)

theorem trans (h : Advances own d d') (h' : Advances own d' d'') : Advances own d d'' where
  blockSize := h'.blockSize.trans h.blockSize
  zoneSize := h'.zoneSize.trans h.zoneSize
  nrZones := h'.nrZones.trans h.nrZones
  start i := (h'.start i).trans (h.start i)
  wp i := (h.wp i).trans (h'.wp i)
  bytes e he := (h'.bytes e (h.inside he)).trans (h.bytes e he)
  others := by
    intro i hi hb
    obtain ⟨hb₁, hw₁, hc₁⟩ := h.others i hi hb
    obtain ⟨hb₂, hw₂, hc₂⟩ := h'.others i hi hb₁
    exact ⟨hb₂, hw₂.trans hw₁, hc₂.trans hc₁⟩

theorem of_sameZones (h : SameZones d d')
    (hb : ∀ i, own ≠ some i → (d.zones i).busy = true → (d'.zones i).busy = true) :
    Advances own d d' where
  blockSize := h.blockSize
  zoneSize := h.zoneSize
  nrZones := h.nrZones
  start := h.start
  wp i := (h.wp i).ge
  bytes e _ := by rw [h.mem]
  others i hi hbusy := ⟨hb i hi hbusy, h.wp i, h.capacity i⟩

/-- The owner of a zone writes to it. -/
theorem appended (hs : d.Sane) (hi : i < d.nrZones) {data : List Byte}
    (hd : data.length ≤ (d.zones i).capacity) : Advances (some i) d (d.appended i data) where
  blockSize := rfl
  zoneSize := rfl
  nrZones := rfl
  start j := by
    rw [appended_zones]
    split
    · rename_i hj
      rw [hj]
    · rfl
  wp j := by
    rw [appended_zones]
    split
    · rename_i hj
      rw [hj]
      exact Nat.le_add_right _ _
    · exact le_rfl
  bytes e he := hs.read_appended hi hd he
  others j hj hb := by
    have hji : j ≠ i := fun h ↦ hj (congrArg some h.symm)
    rw [appended_zones, if_neg hji]
    exact ⟨hb, rfl, rfl⟩

/-- A zone that nobody uses is finished. -/
theorem finish (hs : d.Sane) (hf : d.finishable i = true) : Advances none d (d.finish i) where
  blockSize := rfl
  zoneSize := rfl
  nrZones := rfl
  start j := by by_cases hj : j = i <;> simp [Zbd.finish, hj]
  wp j := by
    by_cases hj : j = i
    · subst hj
      simp only [finishable, Bool.and_eq_true, decide_eq_true_eq] at hf
      have := hs.wp j hf.1.1.1
      simp [Zbd.finish]
      omega
    · simp [Zbd.finish, hj]
  bytes _ _ := rfl
  others j _ hb := by
    have hji : j ≠ i := by
      rintro rfl
      simp [finishable, hb] at hf
    simp [Zbd.finish, hji, hb]

theorem contents (h : Advances own d d') {es : List ZoneExtent} (he : ∀ e ∈ es, d.Inside e) :
    d'.contents es = d.contents es :=
  contents_congr fun e h' ↦ h.bytes e (he e h')

end Advances

theorem Sane.finish (hs : d.Sane) (i : ZoneId) : (d.finish i).Sane where
  block := hs.block
  apart := by
    have hst : ∀ j, ((d.finish i).zones j).start = (d.zones j).start := by
      intro j
      by_cases hj : j = i <;> simp [Zbd.finish, hj]
    intro j hj k hk hjk
    rw [hst j, hst k]
    exact hs.apart j hj k hk hjk
  wp := by
    intro j hj
    by_cases hji : j = i
    · subst hji
      simp [Zbd.finish]
    · simpa [Zbd.finish, hji] using hs.wp j hj

theorem Writable.finish (hw : d.Writable) (hs : d.Sane) (hf : d.finishable i = true) :
    (d.finish i).Writable := by
  intro j hj he
  by_cases hji : j = i
  · subst hji
    simp only [finishable, Bool.and_eq_true, decide_eq_true_eq, Bool.not_eq_true', Zone.isEmpty,
      beq_eq_false_iff_ne] at hf
    have := hs.wp j hf.1.1.1
    have := hf.1.2
    simp [Zbd.finish, Zone.isEmpty] at he
    omega
  · simp only [Zbd.finish, setZone_zones, Function.update_of_ne hji] at he ⊢
    exact hw j hj he

/-- Only space counters differ. -/
structure OnlyUsed (d d' : Zbd) : Prop where
  blockSize : d'.blockSize = d.blockSize
  zoneSize : d'.zoneSize = d.zoneSize
  nrZones : d'.nrZones = d.nrZones
  mem : d'.mem = d.mem
  layout : d'.layout = d.layout

namespace OnlyUsed

theorem refl (d : Zbd) : OnlyUsed d d := ⟨rfl, rfl, rfl, rfl, rfl⟩

theorem trans (h : OnlyUsed d d') (h' : OnlyUsed d' d'') : OnlyUsed d d'' :=
  ⟨h'.blockSize.trans h.blockSize, h'.zoneSize.trans h.zoneSize, h'.nrZones.trans h.nrZones,
    h'.mem.trans h.mem, h'.layout.trans h.layout⟩

theorem addUsed (d : Zbd) (i : ZoneId) (n : Nat) : OnlyUsed d (d.addUsed i n) :=
  ⟨rfl, rfl, rfl, rfl, addUsed_layout d i n⟩

theorem subUsed (d : Zbd) (i : ZoneId) (n : Nat) : OnlyUsed d (d.subUsed i n) :=
  ⟨rfl, rfl, rfl, rfl, subUsed_layout d i n⟩

theorem clearExtents (d : Zbd) (es : List ZoneExtent) : OnlyUsed d (d.clearExtents es) := by
  induction es generalizing d with
  | nil => exact .refl d
  | cons e es ih => exact (OnlyUsed.subUsed d e.zone e.length).trans (ih _)

theorem sameZones (h : OnlyUsed d d') : d.SameZones d' where
  blockSize := h.blockSize
  zoneSize := h.zoneSize
  nrZones := h.nrZones
  mem := h.mem
  start i := (congrArg Zone.start (congrFun h.layout i) :)
  wp i := (congrArg Zone.wp (congrFun h.layout i) :)
  capacity i := (congrArg Zone.capacity (congrFun h.layout i) :)

theorem busy (h : OnlyUsed d d') (i : ZoneId) : (d'.zones i).busy = (d.zones i).busy :=
  (congrArg Zone.busy (congrFun h.layout i) :)

end OnlyUsed

/-- Extents in different zones do not overlap. -/
theorem Sane.apart_of_ne (hs : d.Sane) (he : d.Inside e) (he' : d.Inside e')
    (hz : e.zone ≠ e'.zone) : e.Apart e' := by
  have hw := hs.wp _ he.zone
  have hw' := hs.wp _ he'.zone
  have := he.start
  have := he.stop
  have := he'.start
  have := he'.stop
  unfold ZoneExtent.Apart
  rcases hs.apart _ he.zone _ he'.zone hz with h | h
  · omega
  · omega

/-- An extent that ends where the other one may start does not overlap it. -/
theorem Sane.apart_of_front (hs : d.Sane) (he : d.Inside e) (he' : d.Inside e')
    (hz : e.zone = e'.zone → e.start + e.length ≤ e'.start) : e.Apart e' := by
  by_cases h : e.zone = e'.zone
  · exact .inl (hz h)
  · exact hs.apart_of_ne he he' h

end Zbd

/-! ## The layout -/

/-- What the layout depends on in a file. -/
def ZoneFile.layout (f : ZoneFile) : ZoneFile :=
  { f with fileId := 0, lifetime := 0, linkfiles := [], mTime := 0, isDeleted := false,
           nrSyncedExtents := 0 }

/-- No zone goes offline, a reset zone has space, and no zone fails to close. -/
structure Env.Orderly (zoneSize : Nat) (env : Env) : Prop where
  resets : ∀ i, (∃ c, env.resets i = .done c ∧ 0 < c ∧ c ≤ zoneSize) ∨ ∃ b, env.resets i = .failed b
  closes : ∀ b ∈ env.closes, b = true

theorem Env.Orderly.setPicks {zs : Nat} {env : Env} (h : env.Orderly zs) (ps : List Zbd.Pick) :
    Env.Orderly zs { env with picks := ps } := ⟨h.resets, h.closes⟩

theorem Env.Orderly.later {zs : Nat} {env env' : Env} (h : env.Orderly zs) (hl : env.Later env') :
    env'.Orderly zs := ⟨hl.resets ▸ h.resets, hl.closes ▸ h.closes⟩

theorem Env.Orderly.setWrites {zs : Nat} {env : Env} (h : env.Orderly zs)
    (ws : List (List WriteCall)) : Env.Orderly zs { env with writes := ws } := ⟨h.resets, h.closes⟩

namespace Zbd

variable {d : Zbd} {i : ZoneId} {e : ZoneExtent}

/-- Only zone `i` has changed. -/
structure Elsewhere (i : ZoneId) (d d' : Zbd) : Prop where
  zoneSize : d'.zoneSize = d.zoneSize
  nrZones : d'.nrZones = d.nrZones
  zones : ∀ j ≠ i, d'.zones j = d.zones j
  sane : d'.Sane
  writable : d'.Writable
  bytes : ∀ e, d.Inside e → e.zone ≠ i → d'.mem.read e.start e.length = d.mem.read e.start e.length

/-- Erasing a zone leaves the bytes of the others. -/
theorem Sane.read_erase (hs : d.Sane) (hi : i < d.nrZones) (he : d.Inside e) (hz : e.zone ≠ i) :
    (d.erase i).read e.start e.length = d.mem.read e.start e.length := by
  have hw := hs.wp _ he.zone
  have := he.start
  have := he.stop
  unfold Zbd.erase Mem.fill
  rcases hs.apart _ he.zone i hi hz with h | h
  · exact Mem.read_write_of_le _ _ (by omega)
  · exact Mem.read_write_of_ge _ _ (by rw [List.length_replicate]; omega)

theorem Elsewhere.reset (hs : d.Sane) (hw : d.Writable) (hi : i < d.nrZones) {env : Env}
    (he : env.Orderly d.zoneSize) : Elsewhere i d (d.reset i (env.resets i)).1 := by
  rcases he.resets i with ⟨c, hc, hpos, hle⟩ | ⟨b, hb⟩
  · rw [hc]
    refine ⟨rfl, rfl, fun j hj ↦ by simp [Zbd.reset, hj], ⟨hs.block, ?_, ?_⟩, ?_, fun e he hz ↦
      hs.read_erase hi he hz⟩
    · have hst : ∀ j, ((d.reset i (.done c)).1.zones j).start = (d.zones j).start := by
        intro j
        by_cases hj : j = i
        · subst hj
          simp [Zbd.reset]
        · simp [Zbd.reset, hj]
      intro j hj k hk hjk
      rw [hst j, hst k]
      exact hs.apart j hj k hk hjk
    · intro j hj
      by_cases hji : j = i
      · subst hji
        simpa [Zbd.reset] using hle
      · simpa [Zbd.reset, hji] using hs.wp j hj
    · intro j hj hempty
      by_cases hji : j = i
      · subst hji
        simpa [Zbd.reset] using hpos
      · simp only [Zbd.reset, setZone_zones, Function.update_of_ne hji] at hempty ⊢
        exact hw j hj hempty
  · rw [hb]
    cases b with
    | false => exact ⟨rfl, rfl, fun _ _ ↦ rfl, hs, hw, fun _ _ _ ↦ rfl⟩
    | true => exact ⟨rfl, rfl, fun _ _ ↦ rfl, ⟨hs.block, hs.apart, hs.wp⟩, hw, fun e he hz ↦
        hs.read_erase hi he hz⟩

end Zbd

namespace Fs

/-- The extents of live files are written, have bytes, and do not overlap. -/
structure Stored (fs : Fs) : Prop where
  sane : fs.zbd.Sane
  inside : ∀ r ∈ fs.live, ∀ e ∈ (fs.heap r).extents, fs.zbd.Inside e
  pos : ∀ r ∈ fs.live, ∀ e ∈ (fs.heap r).extents, 0 < e.length
  apart : ∀ r ∈ fs.live, (fs.heap r).extents.Pairwise ZoneExtent.Apart
  alone : ∀ r ∈ fs.live, ∀ r' ∈ fs.live, r ≠ r' →
    ∀ e ∈ (fs.heap r).extents, ∀ e' ∈ (fs.heap r').extents, e.Apart e'

/-- A file has the zone it writes to for itself. -/
structure Holds (fs : Fs) (r : Ref) (i : ZoneId) : Prop where
  zone : i < fs.zbd.nrZones
  busy : (fs.zbd.zones i).busy = true
  start : (fs.zbd.zones i).start ≤ (fs.heap r).extentStart
  wp : (fs.heap r).extentStart ≤ (fs.zbd.zones i).wp
  front : ∀ r' ∈ fs.live, ∀ e ∈ (fs.heap r').extents, e.zone = i →
    e.start + e.length ≤ (fs.heap r).extentStart

/-- The files, their writers and the zones they write to. -/
structure Laid (zoneSize : Nat) (fs : Fs) : Prop extends Stored fs where
  size : fs.zbd.zoneSize = zoneSize
  writable : fs.zbd.Writable
  env : fs.env.Orderly zoneSize
  active : ∀ r ∈ fs.live, ∀ i, (fs.heap r).activeZone = some i → Holds fs r i
  exclusive : ∀ r ∈ fs.live, ∀ r' ∈ fs.live, ∀ i, (fs.heap r).activeZone = some i →
    (fs.heap r').activeZone = some i → r = r'
  idle : ∀ r ∈ fs.live, (fs.heap r).openForWr = false → (fs.heap r).activeZone = none
  opened : ∀ h w, OpenAt fs h w → (fs.heap w.file).openForWr = true
  unique : ∀ h w h' w', OpenAt fs h w → OpenAt fs h' w' → w.file = w'.file → h = h'
  direct : ∀ h w i, OpenAt fs h w → w.buffered = false → (fs.heap w.file).activeZone = some i →
    (fs.heap w.file).extentStart + ((fs.heap w.file).fileSize - (fs.heap w.file).extentFilepos) ≤
      (fs.zbd.zones i).wp
  buffered : ∀ h w i, OpenAt fs h w → w.buffered = true → (fs.heap w.file).activeZone = some i →
    0 < (fs.zbd.zones i).capacity

/-- The bytes of a file that are recorded in its extents. -/
def recorded (fs : Fs) (r : Ref) : List Byte := fs.zbd.contents (fs.heap r).extents

/-- From `fs` to `fs'`, what files had recorded is still there, and may have grown. -/
structure Keeps (fs fs' : Fs) : Prop where
  nextRef : fs.nextRef ≤ fs'.nextRef
  live : ∀ r ∈ fs'.live, r < fs.nextRef → r ∈ fs.live
  recorded : ∀ r ∈ fs.live, r ∈ fs'.live → fs.recorded r <+: fs'.recorded r

variable {zs : Nat} {leak : ZoneId → Nat} {fs fs₁ fs₂ fs' : Fs} {r : Ref} {G : Geometry}

namespace Keeps

theorem refl (fs : Fs) : Keeps fs fs := ⟨le_rfl, fun _ hr _ ↦ hr, fun _ _ _ ↦ List.prefix_rfl⟩

theorem trans (h : Keeps fs fs₁) (h' : Keeps fs₁ fs₂) (hf : ∀ r ∈ fs.live, r < fs.nextRef) :
    Keeps fs fs₂ where
  nextRef := h.nextRef.trans h'.nextRef
  live r hr hlt := h.live r (h'.live r hr (hlt.trans_le h.nextRef)) hlt
  recorded r hr hr₂ := by
    have hr₁ := h'.live r hr₂ ((hf r hr).trans_le h.nextRef)
    exact (h.recorded r hr hr₁).trans (h'.recorded r hr₁ hr₂)

end Keeps

/-! ## Steps that leave the layout alone -/

/-- Two states agree on the layout, except that files may have gone. -/
structure Still (fs fs' : Fs) : Prop where
  zones : fs.zbd.SameZones fs'.zbd
  busy : ∀ i, (fs'.zbd.zones i).busy = (fs.zbd.zones i).busy
  live : fs'.live ⊆ fs.live
  nextRef : fs'.nextRef = fs.nextRef
  heap : ∀ r, (fs'.heap r).layout = (fs.heap r).layout
  writers : ∀ h w', OpenAt fs' h w' → ∃ w, OpenAt fs h w ∧ w.key = w'.key
  closes : ∀ b ∈ fs'.env.closes, b ∈ fs.env.closes
  resets : fs'.env.resets = fs.env.resets

namespace Still

theorem refl (fs : Fs) : Still fs fs :=
  ⟨.refl _, fun _ ↦ rfl, fun _ h ↦ h, rfl, fun _ ↦ rfl, fun _ w h ↦ ⟨w, h, rfl⟩, fun _ h ↦ h, rfl⟩

theorem trans (h : Still fs fs₁) (h' : Still fs₁ fs₂) : Still fs fs₂ where
  zones := h.zones.trans h'.zones
  busy i := (h'.busy i).trans (h.busy i)
  live := h'.live.trans h.live
  nextRef := h'.nextRef.trans h.nextRef
  heap r := (h'.heap r).trans (h.heap r)
  writers := by
    intro k w₂ hw₂
    obtain ⟨w₁, hw₁, hk₁⟩ := h'.writers k w₂ hw₂
    obtain ⟨w, hw, hk⟩ := h.writers k w₁ hw₁
    exact ⟨w, hw, hk.trans hk₁⟩
  closes b hb := h.closes b (h'.closes b hb)
  resets := h'.resets.trans h.resets

theorem extents (h : Still fs fs') (r : Ref) : (fs'.heap r).extents = (fs.heap r).extents :=
  (congrArg ZoneFile.extents (h.heap r) :)

theorem activeZone (h : Still fs fs') (r : Ref) :
    (fs'.heap r).activeZone = (fs.heap r).activeZone :=
  (congrArg ZoneFile.activeZone (h.heap r) :)

theorem extentStart (h : Still fs fs') (r : Ref) :
    (fs'.heap r).extentStart = (fs.heap r).extentStart :=
  (congrArg ZoneFile.extentStart (h.heap r) :)

theorem extentFilepos (h : Still fs fs') (r : Ref) :
    (fs'.heap r).extentFilepos = (fs.heap r).extentFilepos :=
  (congrArg ZoneFile.extentFilepos (h.heap r) :)

theorem fileSize (h : Still fs fs') (r : Ref) : (fs'.heap r).fileSize = (fs.heap r).fileSize :=
  (congrArg ZoneFile.fileSize (h.heap r) :)

theorem openForWr (h : Still fs fs') (r : Ref) : (fs'.heap r).openForWr = (fs.heap r).openForWr :=
  (congrArg ZoneFile.openForWr (h.heap r) :)

theorem keeps (h : Still fs fs') : Keeps fs fs' where
  nextRef := h.nextRef.ge
  live r hr _ := h.live hr
  recorded r _ _ := by
    rw [Fs.recorded, Fs.recorded, h.extents, h.zones.contents]

theorem stored (h : Still fs fs') (hl : Stored fs) : Stored fs' where
  sane := h.zones.sane hl.sane
  inside r hr e he := h.zones.inside (hl.inside r (h.live hr) e (h.extents r ▸ he))
  pos r hr e he := hl.pos r (h.live hr) e (h.extents r ▸ he)
  apart r hr := h.extents r ▸ hl.apart r (h.live hr)
  alone r hr r' hr' hne e he e' he' :=
    hl.alone r (h.live hr) r' (h.live hr') hne e (h.extents r ▸ he) e' (h.extents r' ▸ he')

theorem laid (h : Still fs fs') (hl : Laid zs fs) : Laid zs fs' where
  toStored := h.stored hl.toStored
  size := h.zones.zoneSize.trans hl.size
  writable := h.zones.writable hl.writable
  env := ⟨h.resets ▸ hl.env.resets, fun b hb ↦ hl.env.closes b (h.closes b hb)⟩
  active := by
    intro r hr i hi
    have ha := hl.active r (h.live hr) i (h.activeZone r ▸ hi)
    refine ⟨h.zones.nrZones ▸ ha.zone, h.busy i ▸ ha.busy, ?_, ?_, fun r' hr' e he hz ↦ ?_⟩
    · rw [h.zones.start, h.extentStart]
      exact ha.start
    · rw [h.zones.wp, h.extentStart]
      exact ha.wp
    · rw [h.extentStart]
      exact ha.front r' (h.live hr') e (h.extents r' ▸ he) hz
  exclusive r hr r' hr' i hi hi' :=
    hl.exclusive r (h.live hr) r' (h.live hr') i (h.activeZone r ▸ hi) (h.activeZone r' ▸ hi')
  idle r hr ho := (h.activeZone r).trans (hl.idle r (h.live hr) (h.openForWr r ▸ ho))
  opened := by
    intro k w' hw'
    obtain ⟨w, hw, hk⟩ := h.writers k w' hw'
    have hf : w.file = w'.file := congrArg Prod.fst hk
    rw [h.openForWr, ← hf]
    exact hl.opened k w hw
  unique := by
    intro k w' k₁ w₁' hw' hw₁' hf
    obtain ⟨w, hw, hk⟩ := h.writers k w' hw'
    obtain ⟨w₁, hw₁, hk₁⟩ := h.writers k₁ w₁' hw₁'
    exact hl.unique k w k₁ w₁ hw hw₁
      ((congrArg Prod.fst hk).trans (hf.trans (congrArg Prod.fst hk₁).symm))
  direct := by
    intro k w' i hw' hb hi
    obtain ⟨w, hw, hk⟩ := h.writers k w' hw'
    have hf : w.file = w'.file := congrArg Prod.fst hk
    rw [h.activeZone, ← hf] at hi
    rw [h.extentStart, h.fileSize, h.extentFilepos, h.zones.wp, ← hf]
    exact hl.direct k w i hw ((congrArg (fun p ↦ p.2.1) hk).trans hb) hi
  buffered := by
    intro k w' i hw' hb hi
    obtain ⟨w, hw, hk⟩ := h.writers k w' hw'
    have hf : w.file = w'.file := congrArg Prod.fst hk
    rw [h.activeZone, ← hf] at hi
    rw [h.zones.capacity]
    exact hl.buffered k w i hw ((congrArg (fun p ↦ p.2.1) hk).trans hb) hi

/-! ### Such steps -/

theorem of_eq (hz : fs.zbd.OnlyUsed fs'.zbd) (hl : fs'.live ⊆ fs.live)
    (hn : fs'.nextRef = fs.nextRef)
    (hh : ∀ r, (fs'.heap r).layout = (fs.heap r).layout) (hw : fs'.writers = fs.writers)
    (he : fs.env.Later fs'.env) : Still fs fs' where
  zones := hz.sameZones
  busy := hz.busy
  live := hl
  nextRef := hn
  heap := hh
  writers _ w h := ⟨w, ⟨hw ▸ h.writer, h.isOpen⟩, rfl⟩
  closes _ hb := he.closes ▸ hb
  resets := he.resets

theorem of_metaOnly (h : MetaOnly fs fs') : Still fs fs' := by
  refine .of_eq ?_ h.live.le h.nextRef (fun r ↦ ?_) h.writers h.env
  · rw [h.zbd]
    exact .refl _
  · have hcore := h.heap r
    simp only [ZoneFile.core, ZoneFile.mk.injEq] at hcore
    simp [ZoneFile.layout, hcore]

theorem zbd (fs : Fs) {d : Zbd} (hd : fs.zbd.OnlyUsed d) : Still fs { fs with zbd := d } :=
  .of_eq hd (fun _ h ↦ h) rfl (fun _ ↦ rfl) rfl (.refl _)

theorem setFile (fs : Fs) (r : Ref) {f : ZoneFile} (hf : f.layout = (fs.heap r).layout := by rfl) :
    Still fs (fs.setFile r f) := by
  refine .of_eq (.refl _) (fun _ h ↦ h) rfl (fun r' ↦ ?_) rfl (.refl _)
  by_cases hr : r' = r
  · subst hr
    simp [Fs.setFile, hf]
  · simp [Fs.setFile, hr]

theorem setWriter {k : Handle} {w w' : Writer} (hw : fs.writers k = some w) (hk : w'.key = w.key) :
    Still fs (fs.setWriter k w') := by
  refine ⟨.refl _, fun _ ↦ rfl, fun _ h ↦ h, rfl, fun _ ↦ rfl, fun k' w₁ hw₁ ↦ ?_, fun _ h ↦ h, rfl⟩
  by_cases hh : k' = k
  · subst hh
    obtain rfl : w' = w₁ := by simpa [Fs.setWriter] using hw₁.writer
    exact ⟨w, ⟨hw, (congrArg (fun p ↦ p.2.2) hk).symm.trans hw₁.isOpen⟩, hk.symm⟩
  · exact ⟨w₁, ⟨by simpa [Fs.setWriter, hh] using hw₁.writer, hw₁.isOpen⟩, rfl⟩

theorem setFiles (fs : Fs) (files : Files) : Still fs { fs with files := files } :=
  .of_eq (.refl _) (fun _ h ↦ h) rfl (fun _ ↦ rfl) rfl (.refl _)

theorem hold (fs : Fs) (r : Ref) (t : Holder) : Still fs (fs.hold r t) :=
  .of_eq (.refl _) (fun _ h ↦ h) rfl (fun _ ↦ rfl) rfl (.refl _)

theorem drop (fs : Fs) (r : Ref) (t : Holder) : Still fs (fs.drop r t) := by
  unfold Fs.drop Store.release
  split
  · exact .of_eq (.refl _) (fun _ h ↦ h) rfl (fun _ ↦ rfl) rfl (.refl _)
  · exact .of_eq (.clearExtents fs.zbd (fs.heap r).extents) (Finset.erase_subset _ _) rfl
      (fun _ ↦ rfl) rfl (.refl _)

theorem openReader (fs : Fs) (fname : Name) (k : Nat) : Still fs (fs.openReader fname k).1 := by
  unfold Fs.openReader
  split
  · exact .refl fs
  · rename_i r _
    exact (Still.hold fs r (.reader k)).trans
      (.of_eq (.refl _) (fun _ h ↦ h) rfl (fun _ ↦ rfl) rfl (.refl _))

theorem closeReader (fs : Fs) (k : Nat) : Still fs (fs.closeReader k) := by
  unfold Fs.closeReader
  split
  · exact .refl fs
  · refine Still.trans ?_ (.drop _ _ _)
    exact .of_eq (.refl _) (fun _ h ↦ h) rfl (fun _ ↦ rfl) rfl (.refl _)

theorem destroyWriter (fs : Fs) (k : Handle) (r : Ref) (t : Holder) :
    Still fs ({ fs with writers := Function.update fs.writers k none }.drop r t) := by
  refine Still.trans ?_ (.drop _ _ _)
  refine ⟨.refl _, fun _ ↦ rfl, fun _ h ↦ h, rfl, fun _ ↦ rfl, fun k' w hw ↦
    ⟨w, ⟨?_, hw.isOpen⟩, rfl⟩, fun _ h ↦ h, rfl⟩
  have hne : k' ≠ k := by
    rintro rfl
    simpa using hw.writer
  simpa [hne] using hw.writer

theorem removeLinkName {f f' : ZoneFile} {n : Name} (h : f.removeLinkName n = .ok f') :
    f'.layout = f.layout := by
  unfold ZoneFile.removeLinkName at h
  split at h
  · obtain rfl := Except.ok.inj h
    rfl
  · cases h

theorem renameLink {f f' : ZoneFile} {n m : Name} (h : f.renameLink n m = .ok f') :
    f'.layout = f.layout := by
  unfold ZoneFile.renameLink at h
  split at h
  · obtain rfl := Except.ok.inj h
    rfl
  · cases h

theorem syncFileMetadataNoLock (fs : Fs) (r : Ref) (replace : Bool) :
    Still fs (fs.syncFileMetadataNoLock G r replace).1 :=
  .of_metaOnly (metaOnly_syncFileMetadataNoLock fs r replace)

theorem deleteFileNoLock (fs : Fs) (fname : Name) : Still fs (fs.deleteFileNoLock G fname).1 := by
  unfold Fs.deleteFileNoLock
  split
  · exact .refl fs
  · rename_i r _
    have h₁ : Still fs { fs.hold r (.localVar 0) with files := fs.files.erase fname } :=
      (Still.hold fs r _).trans (.setFiles _ _)
    dsimp only
    split
    · exact h₁.trans (.drop _ _ _)
    · rename_i f hf
      have h₂ := (h₁.trans (.setFile _ r (removeLinkName hf))).trans
        (.of_metaOnly (metaOnly_persistRecord (G := G) _ (.fileDeletion f.fileId fname)))
      split
      · rename_i fs₁ heq
        rw [heq] at h₂
        split
        · exact h₂.trans (.drop _ _ _)
        · exact (h₂.trans (.setFile fs₁ r)).trans (.drop _ _ _)
      · rename_i fs₁ s hs heq
        rw [heq] at h₂
        have h₃ := (h₂.trans (.setFiles fs₁ (fs₁.files.insertNew fname r))).trans
          (.setFile _ r (f := (fs₁.heap r).addLinkName fname))
        exact h₃.trans (.drop _ _ _)

theorem renameLinked (fs : Fs) (r : Ref) (source_path dest_path : Name) :
    Still fs (fs.renameLinked G r source_path dest_path).1 := by
  unfold Fs.renameLinked
  split
  · exact .refl fs
  · rename_i f hf
    dsimp only
    have h₁ := ((Still.setFiles fs (Files.insertNew (fs.files.erase source_path) dest_path r)).trans
      (.setFile _ r (renameLink hf))).trans (.syncFileMetadataNoLock (G := G) _ r false)
    split
    · rename_i fs₁ heq
      rw [heq] at h₁
      exact h₁
    · rename_i fs₁ s hs heq
      rw [heq] at h₁
      have h₂ := h₁.trans (.setFiles fs₁ (fs₁.files.erase dest_path))
      split
      · exact h₂
      · rename_i f' hf'
        exact (h₂.trans (.setFiles _ _)).trans (.setFile _ r (renameLink hf'))

theorem linkFile (fs : Fs) (fname lname : Name) : Still fs (fs.linkFile G fname lname).1 := by
  unfold Fs.linkFile
  split
  · exact .refl fs
  · split
    · exact .refl fs
    · rename_i r _
      have h₁ := ((Still.setFiles fs (fs.files.insertNew lname r)).trans
        (.setFile _ r (f := (fs.heap r).addLinkName lname))).trans
        (.syncFileMetadataNoLock (G := G) _ r false)
      split
      · rename_i fs₁ heq
        rw [heq] at h₁
        exact h₁
      · rename_i fs₁ s hs heq
        rw [heq] at h₁
        split
        · exact h₁
        · rename_i f hf
          exact (h₁.trans (.setFiles fs₁ _)).trans (.setFile _ r (removeLinkName hf))

end Still

end Fs

end ZenFs
