import ZenFs.Fs.Moves
import ZenFs.Fs.Accounts

/-!
# Files do not touch each other's bytes

In every run of a mounted filesystem on an orderly device, the extents of live files
lie in front of the write pointers and never overlap, and what a file has recorded
stays what it is for as long as the file lives, whatever is written, deleted, migrated
or reset meanwhile.
-/

namespace ZenFs

/-! ## Objects that come from the log -/

/-- A file that is not open for writing and has no zone. -/
def ZoneFile.Resting (f : ZoneFile) : Prop := f.activeZone = none ∧ f.openForWr = false

/-- What replay and repair leave of the device `d` and the objects. -/
structure Store.Replayed (d : Zbd) (s : Store) : Prop where
  zbd : d.OnlyUsed s.zbd
  resting : ∀ r, (s.heap r).Resting

namespace Store.Replayed

variable {d d' : Zbd} {s s' : Store} {r : Ref} {f : ZoneFile} {fr : FileRecord}

theorem update (h : s.Replayed d) (hz : d.OnlyUsed s'.zbd) (hf : f.Resting)
    (hh : s'.heap = Function.update s.heap r f := by rfl) : s'.Replayed d := by
  refine ⟨hz, fun r' ↦ ?_⟩
  rw [hh]
  by_cases hr : r' = r
  · subst hr
    simpa using hf
  · simpa [hr] using h.resting r'

theorem release (h : s.Replayed d) (r : Ref) : (s.release r).Replayed d := by
  unfold Store.release
  split
  · exact h
  · exact ⟨h.zbd.trans (.clearExtents _ _), h.resting⟩

theorem countExtents (d : Zbd) (es : List ZoneExtent) : d.OnlyUsed (d.countExtents es) := by
  induction es generalizing d with
  | nil => exact .refl d
  | cons e es ih => exact (Zbd.OnlyUsed.addUsed d e.zone e.length).trans (ih _)

theorem decodeFrom (h : ZoneFile.decodeFrom fr d = .ok (f, d')) : f.Resting ∧ d.OnlyUsed d' := by
  refine ⟨?_, ZoneFile.decodeFrom_eq_ok h ▸ countExtents d f.extents⟩
  unfold ZoneFile.decodeFrom at h
  split at h
  · cases h
  · split at h
    · cases h
    · cases h
      exact ⟨rfl, rfl⟩

theorem mergeUpdate {update f' : ZoneFile} {replace : Bool} (hf : f.Resting)
    (h : f.mergeUpdate update replace d = .ok (f', d')) : f'.Resting ∧ d.OnlyUsed d' := by
  constructor
  · unfold ZoneFile.mergeUpdate at h
    split at h
    · cases h
    · cases h
      exact hf
  · rw [(ZoneFile.mergeUpdate_spec h).2]
    split
    · exact (Zbd.OnlyUsed.clearExtents _ _).trans (countExtents _ _)
    · exact countExtents _ _

theorem kept (d : Zbd) : Store.Kept (Replayed d) where
  clearFiles := by
    intro s h
    have hfold : ∀ (rs : List Ref) (s : Store), s.Replayed d →
        (rs.foldl Store.release s).Replayed d := by
      intro rs
      induction rs with
      | nil => exact fun _ h ↦ h
      | cons r rs ih => exact fun s h ↦ ih _ (h.release r)
    exact hfold _ _ ⟨h.zbd, h.resting⟩
  snapshotFile := by
    intro s s' fr h hok
    unfold Store.decodeSnapshotFile at hok
    split at hok
    · cases hok
    · rename_i f d hdec
      obtain ⟨hf, hz⟩ := decodeFrom hdec
      cases hok
      refine .release ?_ _
      exact h.update (h.zbd.trans hz) hf
  fileUpdate := by
    intro s s' fr replace h hok
    unfold Store.decodeFileUpdateFrom at hok
    split at hok
    · cases hok
    · rename_i update d hdec
      obtain ⟨hf, hz⟩ := decodeFrom hdec
      split at hok
      · split at hok
        · cases hok
        · split at hok
          · cases hok
          · rename_i hmerge
            obtain ⟨hf', hz'⟩ := mergeUpdate (h.resting _) hmerge
            cases hok
            refine .release ?_ _
            exact h.update (((h.zbd.trans hz).trans hz').trans (.clearExtents _ _)) hf'
      · split at hok
        · cases hok
        · cases hok
          refine .release ?_ _
          exact h.update (h.zbd.trans hz) hf
  fileDeletion := by
    intro s s' id n h hok
    unfold Store.decodeFileDeletionFrom at hok
    split at hok
    · cases hok
    · rename_i r _
      split at hok
      · cases hok
      · split at hok
        · cases hok
        · rename_i f hf
          cases hok
          refine .release ?_ _
          refine h.update (r := r) (f := f) h.zbd ?_
          unfold ZoneFile.removeLinkName at hf
          split at hf
          · cases hf
            exact h.resting r
          · cases hf

theorem repair {fuel : Nat} {rs : List Ref} {st : Status} (h : s.Replayed d)
    (hrep : s.repair fuel rs = some (s', st)) : s'.Replayed d := by
  have hone : ∀ {s s' : Store} {r : Ref} {st : Status}, s.Replayed d →
    s.recoverFile fuel r = some (s', st) →
      s'.Replayed d := by
    intro s s' r st h hrec
    obtain ⟨⟨d', f, st'⟩, hd, heq⟩ := Option.map_eq_some_iff.mp hrec
    obtain ⟨new, start, size, hf, rfl⟩ := Zbd.recover_spec hd
    have hrest : f.Resting := hf ▸ h.resting r
    cases heq
    exact h.update (r := r) (f := f) (h.zbd.trans (countExtents s.zbd new)) hrest
  induction rs generalizing s with
  | nil =>
      cases hrep
      exact h
  | cons r rs ih =>
      unfold Store.repair at hrep
      split at hrep
      · rename_i s₁ heq
        exact ih (hone h heq) hrep
      · exact hone h hrep

end Store.Replayed

namespace Fs

variable {zs : Nat} {leak : ZoneId → Nat} {fs fs₀ fs₁ fs' : Fs} {G : Geometry}

/-! ## A filesystem that has just been mounted -/

/-- A filesystem with its zones in order in which nobody writes to a file. -/
structure Mounted (zs : Nat) (fs : Fs) : Prop where
  writers : ∀ k, fs.writers k = none
  resting : ∀ r, (fs.heap r).Resting
  sane : fs.zbd.Sane
  writable : fs.zbd.Writable
  size : fs.zbd.zoneSize = zs
  env : fs.env.Orderly zs

namespace Mounted

theorem metaOnly (h : Mounted zs fs) (hm : MetaOnly fs fs') : Mounted zs fs' where
  writers k := hm.writers ▸ h.writers k
  resting r := by
    have hz := (Still.of_metaOnly hm).activeZone r
    have ho := (Still.of_metaOnly hm).openForWr r
    exact ⟨hz.trans (h.resting r).1, ho.trans (h.resting r).2⟩
  sane := hm.zbd ▸ h.sane
  writable := hm.zbd ▸ h.writable
  size := hm.zbd ▸ h.size
  env := h.env.later hm.env

theorem resetZone (h : Mounted zs fs) {i : ZoneId} (hi : i < fs.zbd.nrZones) :
    Mounted zs (fs.resetZone i).1 := by
  have hd : fs.zbd.Elsewhere i _ := .reset h.sane h.writable hi (h.size.symm ▸ h.env)
  have h₁ : Mounted zs { fs with zbd := (fs.zbd.reset i (fs.env.resets i)).1 } :=
    ⟨h.writers, h.resting, hd.sane, hd.writable, hd.zoneSize.trans h.size, h.env⟩
  unfold Fs.resetZone
  dsimp only
  split
  · exact h₁
  · exact h₁.metaOnly (metaOnly_note _ _)

theorem resetZones (h : Mounted zs fs) {is : List ZoneId} (his : ∀ i ∈ is, i < fs.zbd.nrZones) :
    Mounted zs (fs.resetZones is).1 := by
  induction is generalizing fs with
  | nil => exact h
  | cons i is ih =>
      have h₁ := h.resetZone (his i List.mem_cons_self)
      have his' : ∀ i ∈ is, i < fs.zbd.nrZones := fun j hj ↦ his j (List.mem_cons_of_mem i hj)
      unfold Fs.resetZones
      dsimp only
      split
      · exact ih h his'
      · refine andThen_cases (P := fun x ↦ Mounted zs x.1) (fun _ ↦ h₁) fun _ ↦ ih h₁ fun j hj ↦ ?_
        rw [resetZone_nrZones]
        exact his' j hj

/-- The extents are all there is to the layout. -/
theorem laid (h : Mounted zs fs) (hs : Stored fs) : Laid zs fs := by
  have hnone : ∀ {r i}, (fs.heap r).activeZone = some i → False := fun hi ↦ by
    cases (h.resting _).1.symm.trans hi
  have hopen : ∀ {k w}, OpenAt fs k w → False := fun hw ↦ by
    cases (h.writers _).symm.trans hw.writer
  exact {
    toStored := hs
    size := h.size
    writable := h.writable
    env := h.env
    active := fun _ _ _ hi ↦ (hnone hi).elim
    exclusive := fun _ _ _ _ _ hi ↦ (hnone hi).elim
    idle := fun r _ _ ↦ (h.resting r).1
    opened := fun _ _ hw ↦ (hopen hw).elim
    unique := fun _ _ _ _ hw ↦ (hopen hw).elim
    direct := fun _ _ _ hw ↦ (hopen hw).elim
    buffered := fun _ _ _ hw ↦ (hopen hw).elim }

end Mounted

variable {fuel : Nat} {media : Media} {nr : Nat} {zbd : Zbd} {bufferSize : Nat} {env : Env}

/-- `Mount` hands over a device as it has found it, and files that nobody writes to. -/
theorem mounted_mount (hm : mount G fuel media nr zbd bufferSize env = some (.ok fs))
    (hs : zbd.Sane) (hw : zbd.Writable) (he : env.Orderly zbd.zoneSize) :
    Mounted zbd.zoneSize fs := by
  obtain ⟨v, s, s₁, hrec, hrep, -, rfl⟩ := exists_of_mount hm
  have hinit : (Store.init zbd).Replayed zbd := ⟨.refl zbd, fun _ ↦ ⟨rfl, rfl⟩⟩
  have hreplayed := ((Store.Replayed.kept zbd).mountRecover hinit hrec).repair hrep
  have hz := hreplayed.zbd.sameZones
  have h₁ : Mounted zbd.zoneSize (recovered G s₁ media nr v bufferSize env) :=
    ⟨fun _ ↦ rfl, hreplayed.resting, hz.sane hs, hz.writable hw, hz.zoneSize, he⟩
  have h₂ := h₁.metaOnly (metaOnly_rollMetaZoneLocked (G := G) _)
  exact h₂.resetZones fun _ hi ↦ List.mem_range.mp hi

/-! ## Runs -/

/-- What a run keeps to: an orderly device, and migrations that copy what they move. -/
def orderly (zs : Nat) : Conduct := { env := Env.Orderly zs, migrates := MigratesWhole }

/-- No tick disturbs the layout or what is recorded, or leaves anything counted. -/
theorem Safe.tick (hz : zs < 2 ^ 64) (hs : Spending (fun _ ↦ 0) fs) (hl : Laid zs fs)
    (hp : Event.persistFailed ∉ fs'.hist) (ht : Tick G (orderly zs) fs fs') :
    Safe zs fs fs' ∧ Spending (fun _ ↦ 0) fs' := by
  have ho := hs.openLive
  have hf := hs.fresh
  obtain ⟨leak, hs', hleak⟩ := hs.tick ht
  have ho' := hs'.openLive
  suffices hsafe : Safe zs fs fs' ∧ ∀ fname exts, (orderly zs).migrates fs fname exts →
      fs' = (fs.migrateFileExtents G fname exts).1 → Displaces fs fs' by
    obtain rfl := hleak hp hsafe.2
    exact ⟨hsafe.1, hs'⟩
  refine ⟨?_, fun fname exts hm heq ↦ ?_⟩
  · cases ht with
    | env he => exact .setEnv hl ho he
    | note he => exact .of_metaOnly (metaOnly_note _ _) hl ho
    | appended hw data =>
        exact .of_same (.of_eq (.refl _) (fun _ h ↦ h) rfl (fun _ ↦ rfl) rfl (.refl _)) hl ho rfl
    | setWriter hw hk => exact .of_same (.setWriter hw hk) hl ho rfl
    | openWriter hn hw hcl direct => exact .openWriter hl ho hf (hs.named _ _ hn) hcl _ direct _
    | closeFile hw _ => exact .closeFile hl ho hw hp
    | destroyWriter hw => exact .of_still (.destroyWriter _ _ _ _) hl ho'
    | openReader fname hk => exact .of_still (.openReader _ fname _) hl ho'
    | closeReader k => exact .of_still (.closeReader _ k) hl ho'
    | hold hn k => exact .of_same (.hold _ _ _) hl ho rfl
    | drop hr => exact .of_still (.drop _ _ _) hl ho'
    | persistMetadata hw => exact .of_metaOnly (metaOnly_persistMetadata _ _) hl ho
    | setLifetime hw hint => exact .of_same (.setFile _ _) hl ho rfl
    | pushExtent hw hb =>
        obtain ⟨new, hg⟩ := Goes.pushExtent hl hw hb (ho _ _ hw)
        exact .of_goes hg hl ho (ho _ _ hw)
    | closeActiveZone hw hz hc _ =>
        exact .of_goes (.closeActiveZone hl (ho _ _ hw)) hl ho (ho _ _ hw)
    | allocateNewZone hw hz => exact .allocateNewZone hl ho hf (ho _ _ hw) (hl.opened _ _ hw)
    | appendChunk hw hb hz hleft hc => exact (Safe.appendChunk hl ho hf hw hb hz hleft).1 hc
    | appendLast hw hb hz hleft hok => exact (Safe.appendChunk hl ho hf hw hb hz hleft).2 hok
    | appendDirect hw hb hz hc hu => exact .appendDirect hl ho hw hb hz
    | deleteFileNoLock fname => exact .of_still (.deleteFileNoLock _ fname) hl ho'
    | createFile hn hw direct => exact .createFile hl ho hf _ direct _ ho'
    | renameLinked hr hd source_path => exact .of_still (.renameLinked _ _ source_path _) hl ho'
    | linkFile fname lname => exact .of_still (.linkFile _ fname lname) hl ho'
    | migrateFileExtents hm => exact (Safe.migrateFileExtents hl ho hf hs.named hm ho').1
    | resetZone hi hb _ hu =>
        exact .resetZone hl ho hf hi hb (hl.unused hs (hl.size.symm ▸ hz) hi hu)
  · subst heq
    exact (Safe.migrateFileExtents hl ho hf hs.named hm ho').2

/-- What holds throughout a run that begins in `fs₀`. -/
structure Isolated (zs : Nat) (fs₀ fs : Fs) : Prop where
  spending : Spending (fun _ ↦ 0) fs
  laid : Laid zs fs
  keeps : Keeps fs₀ fs

theorem Isolated.tick (hz : zs < 2 ^ 64) (hf : ∀ r ∈ fs₀.live, r < fs₀.nextRef)
    (h : Isolated zs fs₀ fs) (hp : Event.persistFailed ∉ fs'.hist)
    (ht : Tick G (orderly zs) fs fs') :
    Isolated zs fs₀ fs' := by
  obtain ⟨hsafe, hs⟩ := Safe.tick hz h.spending h.laid hp ht
  exact ⟨hs, hsafe.laid, h.keeps.trans hsafe.keeps hf⟩

/-- In a run whose records are all persisted. -/
theorem Isolated.reaches (hz : zs < 2 ^ 64) (hf : ∀ r ∈ fs₀.live, r < fs₀.nextRef)
    (h : Isolated zs fs₀ fs) (hr : Reaches G ((orderly zs).Allows G) fs fs')
    (hp : Event.persistFailed ∉ fs'.hist) :
    Isolated zs fs₀ fs' :=
  hr.invariant (I := fun fs ↦ Event.persistFailed ∉ fs.hist → Isolated zs fs₀ fs)
    (fun _ _ _ ↦ one_dvd _)
    (fun _ _ h ht hp ↦ (h fun hmem ↦ hp (ht.hist_prefix.subset hmem)).tick hz hf hp ht)
    (fun _ ↦ h) hp

/-- A device in order, none of whose zones is offline, before it is mounted. -/
structure InOrder (zbd : Zbd) (env : Env) : Prop where
  sane : zbd.Sane
  writable : zbd.Writable
  env : env.Orderly zbd.zoneSize
  size : zbd.zoneSize < 2 ^ 64
  used : ∀ i, zbd.used i = 0
  exact : zbd.wrapped = false

theorem isolated_mount (hm : mount G fuel media nr zbd bufferSize env = some (.ok fs))
    (hz : InOrder zbd env) (hs : Stored fs)
    (hr : Reaches G ((orderly zbd.zoneSize).Allows G) fs fs')
    (hp : Event.persistFailed ∉ fs'.hist) : Isolated zbd.zoneSize fs' fs' := by
  have hspend := spending_mount hm hz.used hz.exact
  have hl := (mounted_mount hm hz.sane hz.writable hz.env).laid hs
  have h := Isolated.reaches hz.size hspend.fresh ⟨hspend, hl, .refl fs⟩ hr hp
  exact ⟨h.spending, h.laid, .refl fs'⟩

/-- In every run the extents of live files lie in front of the write pointers and do not
overlap, and a file has the zone it writes to for itself: what is there already ends in
front of what it has not recorded yet. -/
theorem extents_stay_apart (hm : mount G fuel media nr zbd bufferSize env = some (.ok fs))
    (hz : InOrder zbd env) (hs : Stored fs)
    (hr : Reaches G ((orderly zbd.zoneSize).Allows G) fs fs')
    (hp : Event.persistFailed ∉ fs'.hist) :
    Stored fs' ∧ (∀ r ∈ fs'.live, ∀ i, (fs'.heap r).activeZone = some i → Holds fs' r i) ∧
      ∀ r ∈ fs'.live, ∀ r' ∈ fs'.live, ∀ i, (fs'.heap r).activeZone = some i →
        (fs'.heap r').activeZone = some i → r = r' := by
  have hl := (isolated_mount hm hz hs hr hp).laid
  exact ⟨hl.toStored, hl.active, hl.exclusive⟩

/-- A run adds to the history. -/
theorem Reaches.hist_prefix {c : Conduct} (hu : c.unit = 1) (hr : Reaches G (c.Allows G) fs fs') :
    fs.hist <+: fs'.hist :=
  hr.invariant (I := fun fs' ↦ fs.hist <+: fs'.hist) (fun _ _ _ ↦ hu ▸ one_dvd _)
    (fun _ _ h ht ↦ h.trans ht.hist_prefix) List.prefix_rfl

/-- From any state of a run on, what a file has recorded stays the beginning of what it
has recorded for as long as the file lives, and is read as before. -/
theorem recorded_bytes_stay (hm : mount G fuel media nr zbd bufferSize env = some (.ok fs))
    (hz : InOrder zbd env) (hs : Stored fs)
    (hr : Reaches G ((orderly zbd.zoneSize).Allows G) fs fs₁)
    (hr' : Reaches G ((orderly zbd.zoneSize).Allows G) fs₁ fs')
    (hp : Event.persistFailed ∉ fs'.hist) {r : Ref} (h₁ : r ∈ fs₁.live) (h' : r ∈ fs'.live) :
    fs₁.recorded r <+: fs'.recorded r ∧ ∀ offset n, n < 2 ^ 31 →
    offset + n ≤ (fs₁.recorded r).length →
      offset + n ≤ (fs₁.heap r).fileSize → offset + n ≤ (fs'.heap r).fileSize →
        positionedRead fs'.zbd (fs'.heap r) offset n false =
          positionedRead fs₁.zbd (fs₁.heap r) offset n false := by
  have hp₁ : Event.persistFailed ∉ fs₁.hist := fun hmem ↦ hp ((hr'.hist_prefix rfl).subset hmem)
  have h := isolated_mount hm hz hs hr hp₁
  have hpre := (h.reaches hz.size h.spending.fresh hr' hp).keeps.recorded r h₁ h'
  refine ⟨hpre, fun offset n hn hlen hsz₁ hsz' ↦ ?_⟩
  obtain ⟨rest, hrest⟩ := hpre
  have hrest' : fs'.zbd.contents (fs'.heap r).extents = fs₁.recorded r ++ rest := hrest.symm
  rw [positionedRead_eq _ _ hn, positionedRead_eq _ _ hn, Nat.min_eq_left (by omega),
    Nat.min_eq_left (by omega),
    hrest', List.drop_append_of_le_length (by omega),
    List.take_append_of_le_length (by simp; omega)]
  rfl

/-! ### A file that is migrated -/

instance (zs : Nat) (fs : Fs) (fname : Name) (exts : List (Nat × Nat)) :
    Decidable ((orderly zs).migrates fs fname exts) :=
  inferInstanceAs (Decidable (fs.MigratesWhole fname exts))

instance migratesAllDecidable (zs : Nat) (G : Geometry) :
    (extents : List (Name × List (Nat × Nat))) → (fs : Fs) →
    Decidable ((orderly zs).MigratesAll G fs extents)
  | [], _ => .isTrue trivial
  | (fname, exts) :: rest, fs =>
      have := migratesAllDecidable zs G rest
        (fs.migrateFileExtents G fname exts).1.resetUnusedIOZones.1
      have := migratesAllDecidable zs G rest fs
      inferInstanceAs (Decidable (if endsWith fname ".sst" then _ ∧ _ else _))

/-- The migrations of a run copy what they move. -/
def movesWhole (zs : Nat) (G : Geometry) (fs : Fs) (env : Env) : Op → Bool
  | .migrate extents => decide ((orderly zs).MigratesAll G { fs with env := env } extents)
  | _ => true

theorem allows_of_movesWhole {op : Op} (he : env.Orderly zs)
    (h : movesWhole zs G fs env op = true) : (orderly zs).Allows G fs env op where
  env := he
  migrates := by
    rintro extents rfl
    exact of_decide_eq_true h
  direct _ _ _ _ _ _ := one_dvd _

/-- The allocator returns the given zone. -/
def zoneEnv (i : ZoneId) : Env := { firstZoneEnv with picks := [{ zone := some i }] }

/-- The blank device with an allocator that returns what it is told to. -/
def zoneRun (ops : List (ZoneId × Op)) : List (Env × Op) := ops.map fun p ↦ (zoneEnv p.1, p.2)

theorem allows_zoneRun (ops : List (ZoneId × Op)) (fs : Fs) (e : Env × Op) (he : e ∈ zoneRun ops)
    (h : movesWhole 64 smallGeometry fs e.1 e.2 = true) :
    (orderly 64).Allows smallGeometry fs e.1 e.2 := by
  obtain ⟨p, -, rfl⟩ := List.mem_map.mp he
  exact allows_of_movesWhole ⟨fun _ ↦ .inl ⟨64, rfl, by decide, le_rfl⟩, fun _ hb ↦
    absurd hb List.not_mem_nil⟩ h

theorem inOrder_blankZbd : InOrder blankZbd firstZoneEnv where
  sane := by
    refine ⟨by decide, fun i hi j hj hij ↦ ?_, fun i hi ↦ ?_⟩
    · simp only [blankZbd]
      omega
    · simp only [blankZbd]
      omega
  writable _ _ _ := show 0 < 64 by decide
  env := ⟨fun _ ↦ .inl ⟨64, rfl, by decide, le_rfl⟩, fun _ hb ↦ absurd hb List.not_mem_nil⟩
  size := show 64 < 2 ^ 64 by decide
  used _ := rfl
  exact := rfl

theorem stored_mountBlank (hm : mountBlank = some (.ok fs)) : Stored fs := by
  have hlive : (mountBlank.bind Except.toOption).map (·.live) = some ∅ := by decide +kernel
  rw [hm] at hlive
  have hnone : ∀ r, r ∉ fs.live := by
    have h : fs.live = ∅ := Option.some.inj hlive
    simp [h]
  have hmounted := mounted_mount hm inOrder_blankZbd.sane inOrder_blankZbd.writable
    inOrder_blankZbd.env
  exact ⟨hmounted.sane, fun r hr ↦ absurd hr (hnone r), fun r hr ↦ absurd hr (hnone r),
    fun r hr ↦ absurd hr (hnone r), fun r hr ↦ absurd hr (hnone r)⟩

/-- A file is written to one zone and closed, and another is being written. -/
def writingRun : List (Env × Op) :=
  zoneRun [(0, .openWritable "a.sst" true false 0), (0, .append 0 (List.replicate 16 7)),
    (0, .close 0), (0, .openWritable "b" true false 1), (0, .append 1 (List.replicate 16 5))]

theorem extents_stay_apart_writing : ∃ fs fs' : Fs, mountBlank = some (.ok fs) ∧
    (fs'.heap 1).activeZone = some 0 ∧ Stored fs' ∧
    (∀ r ∈ fs'.live, ∀ i, (fs'.heap r).activeZone = some i → Holds fs' r i) ∧
    ∀ r ∈ fs'.live, ∀ r' ∈ fs'.live, ∀ i, (fs'.heap r).activeZone = some i →
      (fs'.heap r').activeZone = some i → r = r' := by
  obtain ⟨fs, fs', hm, hr, hq⟩ :=
    exists_run (movesWhole 64 smallGeometry) ((orderly 64).Allows smallGeometry)
    writingRun (fun fs ↦ decide ((fs.heap 1).activeZone = some 0 ∧ Event.persistFailed ∉ fs.hist))
    (allows_zoneRun _) (by decide +kernel)
  obtain ⟨hz, hp⟩ := of_decide_eq_true hq
  exact ⟨fs, fs', hm, hz, extents_stay_apart hm inOrder_blankZbd (stored_mountBlank hm) hr hp⟩

/-- The first file is moved to the other zone. -/
def migratingRun : List (Env × Op) := zoneRun [(1, .migrate [("a.sst", [(0, 16)])])]

theorem recorded_bytes_stay_migrated : ∃ fs fs₁ fs' : Fs, mountBlank = some (.ok fs) ∧
    (fs₁.heap 0).extents = [⟨0, 16, 0⟩] ∧ (fs'.heap 0).extents = [⟨64, 16, 1⟩] ∧
    fs₁.recorded 0 <+: fs'.recorded 0 ∧ ∀ offset n, n < 2 ^ 31 →
    offset + n ≤ (fs₁.recorded 0).length →
      offset + n ≤ (fs₁.heap 0).fileSize → offset + n ≤ (fs'.heap 0).fileSize →
        positionedRead fs'.zbd (fs'.heap 0) offset n false =
          positionedRead fs₁.zbd (fs₁.heap 0) offset n false := by
  obtain ⟨fs, fs₁, hm, hr, hq⟩ :=
    exists_run (movesWhole 64 smallGeometry) ((orderly 64).Allows smallGeometry)
    writingRun (fun fs₁ ↦ decide ((fs₁.heap 0).extents = [⟨0, 16, 0⟩] ∧ 0 ∈ fs₁.live) &&
      (runOps smallGeometry (movesWhole 64 smallGeometry) fs₁ migratingRun).any fun fs' : Fs ↦
        decide ((fs'.heap 0).extents = [⟨64, 16, 1⟩] ∧ 0 ∈ fs'.live ∧
          Event.persistFailed ∉ fs'.hist))
    (allows_zoneRun _) (by decide +kernel)
  rw [Bool.and_eq_true] at hq
  obtain ⟨he₁, h₁⟩ := of_decide_eq_true hq.1
  obtain ⟨fs', hrun, hq'⟩ := (Option.any_eq_true _ _).mp hq.2
  obtain ⟨he', h', hp⟩ := of_decide_eq_true hq'
  have hr' := Reaches.of_runOps (allows_zoneRun _) (.refl : Reaches _ _ fs₁ fs₁) hrun
  exact ⟨fs, fs₁, fs', hm, he₁, he',
    recorded_bytes_stay hm inOrder_blankZbd (stored_mountBlank hm) hr hr' hp h₁ h'⟩

end Fs

end ZenFs
