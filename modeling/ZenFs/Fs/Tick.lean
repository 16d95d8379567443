import ZenFs.Fs.Namespace
import Mathlib.Logic.Relation

/-!
# What the filesystem does, step by step

Every operation is a sequence of ticks: persisting a record, appending to a
zone, recording an extent, taking a name.  A tick comes with what the control
flow in front of it has established.  Properties of runs are proved for one
tick, and the induction over operations and their loops is done here, once.
-/

namespace ZenFs

/-- A file without what `MetadataSynced` and the clock change. -/
def ZoneFile.core (f : ZoneFile) : ZoneFile := { f with nrSyncedExtents := 0, mTime := 0 }

/-- What of a file the write paths leave alone. -/
def ZoneFile.ident (f : ZoneFile) : Nat × List Name × Bool × Bool × Bool :=
  (f.fileId, f.linkfiles, f.isSparse, f.isDeleted, f.openForWr)

/-- What of a writer they leave alone. -/
def Writer.key (w : Writer) : Ref × Bool × Bool := (w.file, w.buffered, w.isOpen)

/-- Events that are noted on their own. -/
def Event.isNote : Event → Bool
  | .allocFailed => true
  | .synced _ _ => true
  | _ => false

namespace Fs

/-- Two states differ in the metadata log and in what it knows of the files. -/
structure MetaOnly (fs fs' : Fs) : Prop where
  zbd : fs'.zbd = fs.zbd
  files : fs'.files = fs.files
  live : fs'.live = fs.live
  handles : fs'.handles = fs.handles
  nextRef : fs'.nextRef = fs.nextRef
  nextFileId : fs'.nextFileId = fs.nextFileId
  writers : fs'.writers = fs.writers
  readers : fs'.readers = fs.readers
  bufferSize : fs'.bufferSize = fs.bufferSize
  env : fs.env.Later fs'.env
  appended : fs'.appended = fs.appended
  overflowed : fs'.overflowed = fs.overflowed
  heap : ∀ r, (fs'.heap r).core = (fs.heap r).core
  hist : fs.hist <+: fs'.hist

namespace MetaOnly

variable {fs fs₁ fs₂ : Fs}

theorem refl (fs : Fs) : MetaOnly fs fs :=
  ⟨rfl, rfl, rfl, rfl, rfl, rfl, rfl, rfl, rfl, .refl _, rfl, rfl, fun _ ↦ rfl, List.prefix_rfl⟩

theorem trans (h₁ : MetaOnly fs fs₁) (h₂ : MetaOnly fs₁ fs₂) : MetaOnly fs fs₂ :=
  ⟨h₂.zbd.trans h₁.zbd, h₂.files.trans h₁.files, h₂.live.trans h₁.live,
    h₂.handles.trans h₁.handles, h₂.nextRef.trans h₁.nextRef, h₂.nextFileId.trans h₁.nextFileId,
    h₂.writers.trans h₁.writers, h₂.readers.trans h₁.readers, h₂.bufferSize.trans h₁.bufferSize,
    h₁.env.trans h₂.env, h₂.appended.trans h₁.appended, h₂.overflowed.trans h₁.overflowed,
    fun r ↦ (h₂.heap r).trans (h₁.heap r),
    h₁.hist.trans h₂.hist⟩

end MetaOnly

section Frame

variable {G : Geometry} (fs : Fs) (r : Ref)

theorem andThen_ok {x : Fs × Status} {k : Fs → Fs × Status} (h : x.2 = .ok) :
    andThen x k = k x.1 := by
  obtain ⟨fs, s⟩ := x
  subst h
  rfl

theorem andThen_of_ne {x : Fs × Status} {k : Fs → Fs × Status} (h : x.2 ≠ .ok) :
    andThen x k = x := by
  obtain ⟨fs, s⟩ := x
  cases s with
  | ok => exact absurd rfl h
  | _ => rfl

/-- What holds at the end of both ways through an `andThen`. -/
theorem andThen_cases {P : Fs × Status → Prop} {x : Fs × Status} {k : Fs → Fs × Status}
    (h : x.2 ≠ .ok → P x) (hk : x.2 = .ok → P (k x.1)) : P (andThen x k) := by
  by_cases hx : x.2 = .ok
  · rw [andThen_ok hx]
    exact hk hx
  · rw [andThen_of_ne hx]
    exact h hx

theorem metaOnly_note (e : Event) : MetaOnly fs (fs.note e) :=
  ⟨rfl, rfl, rfl, rfl, rfl, rfl, rfl, rfl, rfl, .refl _, rfl, rfl, fun _ ↦ rfl,
    List.prefix_append ..⟩

theorem metaOnly_markSynced : MetaOnly fs (fs.markSynced r) := by
  refine ⟨rfl, rfl, rfl, rfl, rfl, rfl, rfl, rfl, rfl, .refl _, rfl, rfl, fun r' ↦ ?_,
    List.prefix_rfl⟩
  by_cases hr : r' = r
  · subst hr
    simp [markSynced, setFile, ZoneFile.core, ZoneFile.metadataSynced]
  · simp [markSynced, setFile, hr]

theorem metaOnly_markAllSynced : MetaOnly fs fs.markAllSynced := by
  refine ⟨rfl, rfl, rfl, rfl, rfl, rfl, rfl, rfl, rfl, .refl _, rfl, rfl, fun r' ↦ ?_,
    List.prefix_rfl⟩
  simp only [markAllSynced]
  split
  · rfl
  · rfl

theorem metaOnly_withLog (log : MetaState) : MetaOnly fs (fs.withLog log) where
  zbd := rfl
  files := rfl
  live := rfl
  handles := rfl
  nextRef := rfl
  nextFileId := rfl
  writers := rfl
  readers := rfl
  bufferSize := rfl
  env := ⟨rfl, rfl, rfl, List.suffix_rfl, List.suffix_rfl, List.suffix_rfl, rfl, List.tail_suffix _⟩
  appended := rfl
  overflowed := rfl
  heap _ := rfl
  hist := List.prefix_append ..

/-- `PersistRecord` leaves everything but the metadata alone. -/
theorem metaOnly_persistRecord (rec : Record) : MetaOnly fs (fs.persistRecord G rec).1 := by
  obtain ⟨log, -, -, -, ⟨-, h | h⟩ | ⟨-, h⟩⟩ := fs.persistRecord_cases (G := G) rec
  · exact h ▸ fs.metaOnly_withLog log
  · exact h ▸ (fs.metaOnly_withLog log).trans (metaOnly_markAllSynced _)
  · exact h ▸ (fs.metaOnly_withLog log).trans (metaOnly_note _ _)

theorem metaOnly_noteRolled (rec : Record) : MetaOnly fs (fs.noteRolled G rec) := by
  unfold noteRolled
  split
  · exact metaOnly_note fs _
  · exact .refl fs

theorem metaOnly_mTime (now : Nat) :
    MetaOnly fs (fs.setFile r { fs.heap r with mTime := now }) := by
  refine ⟨rfl, rfl, rfl, rfl, rfl, rfl, rfl, rfl, rfl, .refl _, rfl, rfl, fun r' ↦ ?_,
    List.prefix_rfl⟩
  by_cases hr : r' = r
  · subst hr
    simp [setFile, ZoneFile.core]
  · simp [setFile, hr]

/-- And so does `SyncFileMetadataNoLock`. -/
theorem metaOnly_syncFileMetadataNoLock (replace : Bool) :
    MetaOnly fs (fs.syncFileMetadataNoLock G r replace).1 := by
  unfold syncFileMetadataNoLock
  split
  · exact MetaOnly.refl fs
  · have hm : MetaOnly fs
        (if replace then fs else fs.setFile r { fs.heap r with mTime := fs.env.now }) := by
      split
      · exact MetaOnly.refl fs
      · exact metaOnly_mTime fs r _
    simp only
    refine andThen_cases (P := fun x ↦ MetaOnly fs x.1) (fun _ ↦ ?_) (fun _ ↦ ?_)
    · exact hm.trans (metaOnly_persistRecord _ _)
    · exact (hm.trans (metaOnly_persistRecord _ _)).trans (metaOnly_markSynced _ _)

theorem metaOnly_persistMetadata : MetaOnly fs (fs.persistMetadata G r).1 :=
  metaOnly_syncFileMetadataNoLock fs r false

theorem persistRecord_failed (rec : Record) (h : (fs.persistRecord G rec).2 ≠ .ok) :
    Event.persistFailed ∈ (fs.persistRecord G rec).1.hist := by
  obtain ⟨log, s, -, hs, ⟨rfl, -⟩ | ⟨-, h₁⟩⟩ := fs.persistRecord_cases (G := G) rec
  · exact absurd hs h
  · rw [h₁]
    simp [note]

theorem syncFileMetadataNoLock_failed (replace : Bool)
    (h : (fs.syncFileMetadataNoLock G r replace).2 ≠ .ok) :
    Event.persistFailed ∈ (fs.syncFileMetadataNoLock G r replace).1.hist := by
  unfold syncFileMetadataNoLock at h ⊢
  split at h
  · exact absurd rfl h
  · rename_i hdel
    rw [if_neg hdel]
    dsimp only at h ⊢
    generalize hx : persistRecord G _ _ = x at h ⊢
    by_cases hok : x.2 = .ok
    · rw [andThen_ok hok] at h
      exact absurd rfl h
    · rw [andThen_of_ne hok, ← hx]
      rw [← hx] at hok
      exact persistRecord_failed _ _ hok

end Frame

/-! ## Ticks -/

/-- What the callers and the device of a run keep to: which environments are
possible, which extents of a file are migrated in which states, and what divides the
size of a direct append. -/
structure Conduct where
  env : Env → Prop := fun _ ↦ True
  migrates : Fs → Name → List (Nat × Nat) → Prop := fun _ _ _ ↦ True
  unit : Nat := 1

/-- An open writer of the filesystem. -/
structure OpenAt (fs : Fs) (h : Handle) (w : Writer) : Prop where
  writer : fs.writers h = some w
  isOpen : w.isOpen = true

/-- All that was appended directly has been pushed. -/
def Pushed (f : ZoneFile) : Prop := f.activeZone = none ∨ f.fileSize ≤ f.extentFilepos

/-- The end of `CloseInternal`, behind `DataSync`. -/
def closeFile (G : Geometry) (fs : Fs) (h : Handle) (r : Ref) : Fs × Status :=
  andThen (fs.closeWR G r) fun fs ↦ fs.withWriter h fun w ↦
    (fs.setWriter h { w with isOpen := false }, .ok)

/-- The steps that operations consist of. -/
inductive Tick (G : Geometry) (c : Conduct) : Fs → Fs → Prop
  | env (fs : Fs) {env : Env} (he : c.env env) : Tick G c fs { fs with env := env }
  | note (fs : Fs) {e : Event} (he : e.isNote = true) : Tick G c fs (fs.note e)
  | appended {fs : Fs} {h : Handle} {w : Writer} (hw : OpenAt fs h w) (data : List Byte) :
      Tick G c fs
        { fs with appended := Function.update fs.appended w.file (fs.appended w.file ++ data) }
  -- handles
  | setWriter {fs : Fs} {h : Handle} {w w' : Writer} (hw : fs.writers h = some w)
      (hk : w'.key = w.key) : Tick G c fs (fs.setWriter h w')
  | openWriter {fs : Fs} {r : Ref} {fname : Name} {h : Handle} (hn : fs.files.lookup fname = some r)
      (hw : fs.writers h = none) (hl : (fs.heap r).openForWr = false) (direct : Bool) :
      Tick G c fs (fs.openWriter r fname direct h)
  | closeFile {fs : Fs} {h : Handle} {w : Writer} (hw : OpenAt fs h w)
      (hp : w.buffered = false → Pushed (fs.heap w.file)) :
      Tick G c fs (fs.closeFile G h w.file).1
  | destroyWriter {fs : Fs} {h : Handle} {w : Writer} (hw : fs.writers h = some w) :
      Tick G c fs ({ fs with writers := Function.update fs.writers h none }.drop w.file (.writer h))
  | openReader (fs : Fs) (fname : Name) {k : Nat} (hk : fs.readers k = none) :
      Tick G c fs (fs.openReader fname k).1
  | closeReader (fs : Fs) (k : Nat) : Tick G c fs (fs.closeReader k)
  | hold {fs : Fs} {r : Ref} {fname : Name} (hn : fs.files.lookup fname = some r) (k : Nat) :
      Tick G c fs (fs.hold r (.localVar k))
  | drop {fs : Fs} {r : Ref} {k : Nat} (hr : .localVar k ∈ fs.handles r) :
      Tick G c fs (fs.drop r (.localVar k))
  -- files
  | persistMetadata {fs : Fs} {h : Handle} {w : Writer} (hw : OpenAt fs h w) :
      Tick G c fs (fs.persistMetadata G w.file).1
  | setLifetime {fs : Fs} {h : Handle} {w : Writer} (hw : OpenAt fs h w) (hint : Nat) :
      Tick G c fs (fs.setFile w.file { fs.heap w.file with lifetime := hint })
  | pushExtent {fs : Fs} {h : Handle} {w : Writer} (hw : OpenAt fs h w) (hb : w.buffered = false) :
      Tick G c fs (fs.pushExtent w.file)
  | closeActiveZone {fs : Fs} {h : Handle} {w : Writer} {i : ZoneId} (hw : OpenAt fs h w)
      (hz : (fs.heap w.file).activeZone = some i) (hc : (fs.zbd.zones i).capacity = 0)
      (hp : Pushed (fs.heap w.file)) : Tick G c fs (fs.closeActiveZone w.file)
  | allocateNewZone {fs : Fs} {h : Handle} {w : Writer} (hw : OpenAt fs h w)
      (hz : (fs.heap w.file).activeZone = none) :
      Tick G c fs (fs.allocateNewZone G w.file).1
  -- a turn of the buffered loop closes the zone that it fills
  | appendChunk {fs : Fs} {h : Handle} {w : Writer} {i : ZoneId} {left : Nat} (hw : OpenAt fs h w)
      (hb : w.buffered = true) (hz : (fs.heap w.file).activeZone = some i) (hl : left ≠ 0)
      (hc : (fs.appendChunk h w i (fs.bufferBase w) left).2 = .ok →
        ((fs.appendChunk h w i (fs.bufferBase w) left).1.zbd.zones i).capacity ≠ 0) :
      Tick G c fs (fs.appendChunk h w i (fs.bufferBase w) left).1
  | appendLast {fs : Fs} {h : Handle} {w : Writer} {i : ZoneId} {left : Nat} (hw : OpenAt fs h w)
      (hb : w.buffered = true) (hz : (fs.heap w.file).activeZone = some i) (hl : left ≠ 0)
      (hok : (fs.appendChunk h w i (fs.bufferBase w) left).2 = .ok) :
      Tick G c fs ((fs.appendChunk h w i (fs.bufferBase w) left).1.closeActiveZone w.file)
  | appendDirect {fs : Fs} {h : Handle} {w : Writer} {i : ZoneId} {data : List Byte}
      (hw : OpenAt fs h w) (hb : w.buffered = false) (hz : (fs.heap w.file).activeZone = some i)
      (hc : data.length ≤ (fs.zbd.zones i).capacity)
      (hu : c.unit ∣ data.length) :
      Tick G c fs (fs.appendDirect w.file i data).1
  -- names
  | deleteFileNoLock (fs : Fs) (fname : Name) : Tick G c fs (fs.deleteFileNoLock G fname).1
  | createFile {fs : Fs} {fname : Name} {h : Handle} (hn : fs.files.lookup fname = none)
      (hw : fs.writers h = none) (direct : Bool) : Tick G c fs (fs.createFile G fname direct h).1
  | renameLinked {fs : Fs} {r : Ref} {k : Nat} {dest_path : Name} (hr : .localVar k ∈ fs.handles r)
      (hd : fs.files.lookup dest_path = none) (source_path : Name) :
      Tick G c fs (fs.renameLinked G r source_path dest_path).1
  | linkFile (fs : Fs) (fname lname : Name) : Tick G c fs (fs.linkFile G fname lname).1
  -- zones
  | migrateFileExtents {fs : Fs} {fname : Name} {exts : List (Nat × Nat)}
      (hm : c.migrates fs fname exts) : Tick G c fs (fs.migrateFileExtents G fname exts).1
  | resetZone {fs : Fs} {i : ZoneId} (hi : i < fs.zbd.nrZones) (hb : (fs.zbd.zones i).busy = false)
      (he : (fs.zbd.zones i).isEmpty = false) (hu : (fs.zbd.zones i).stored.isUsed = false) :
      Tick G c fs (fs.resetZone i).1

/-- A sequence of ticks. -/
abbrev Ticks (G : Geometry) (c : Conduct) : Fs → Fs → Prop := Relation.ReflTransGen (Tick G c)

end Fs

end ZenFs
