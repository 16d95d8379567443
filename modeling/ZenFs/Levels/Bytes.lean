import ZenFs.File.Basic
import ZenFs.Fs.Write
import ZenFs.Levels.Label
import ZenFs.Lib.Reach
import Mathlib.Data.Finset.Insert

/-!
# Files and the levels of their extents

Files with their extents, the zones, and the level labels of both.  One step is one
function of the source that records, relabels, moves or drops extents, gives a zone to
a file, or resets a zone.  `effect` is what the function does, without its calls of
`Zone::UpdateBytesOfLevel`, which are listed by `calls`.  A migration is several steps,
and other functions may run between them.

`fault` is not in the source: it tells whether a call has ever gone outside of
`bytes_of_level`.
-/

namespace ZenFs

/-- A `ZoneExtent` with its level. -/
structure LevelExtent extends ZoneExtent where
  level : Int := -1
deriving DecidableEq, Repr

/-- The fields of a `ZoneFile` that extents are made from. -/
structure LevelFile where
  level : Int := -1
  fileSize : Nat := 0
  extents : List LevelExtent := []
  activeZone : Option ZoneId := none
  extentStart : Nat := NO_EXTENT
  extentFilepos : Nat := 0
  isSparse : Bool := false
  openForWr : Bool := false
deriving DecidableEq, Repr

/-- The local variables of `ZenFS::MigrateFileExtents`: the file, and the new extents,
each with whether it has been moved. -/
structure Migration where
  file : Ref
  extents : List (LevelExtent × Bool)
deriving DecidableEq, Repr

/-- The files and zones of a mounted filesystem. -/
structure LevelFs where
  dynamic : Bool
  zbd : Zbd
  labels : ZoneId → ZoneLabel := fun _ ↦ {}
  files : Ref → LevelFile := fun _ ↦ {}
  live : Finset Ref := ∅
  gc : Option Migration := none
  fault : Bool := false

namespace LevelFile

variable (f : LevelFile)

/-- `ZoneFile::PushExtent` pushes this extent, if it is not empty. -/
def pushed (i : ZoneId) : LevelExtent :=
  { start := f.extentStart, length := f.fileSize - f.extentFilepos, zone := i, level := f.level }

/-- `ZoneFile::Recover` pushes these extents. -/
def found (i : ZoneId) (es : List (Nat × Nat)) : List LevelExtent :=
  es.map fun e ↦ { start := e.1, length := e.2, zone := i, level := f.level }

/-- The list `MigrateFileExtents` starts from. -/
def newExtentList : List (LevelExtent × Bool) :=
  f.extents.map fun e ↦ ({ e with level := f.level }, false)

end LevelFile

/-- A function that records, relabels, moves or drops extents, gives a zone to a file,
or resets a zone, with what it decides from data that is not modelled. -/
inductive LevelAct where
  | newFile (r : Ref)
  | openForWr (r : Ref) (isSparse : Bool)
  | decode (r : Ref) (fileSize extentStart : Nat) (isSparse : Bool) (extents : List ZoneExtent)
  | mergeUpdate (r update : Ref) (replace : Bool)
  | recover (r : Ref) (i : ZoneId) (extents : List (Nat × Nat))
  | allocate (r : Ref) (i : ZoneId) (empty : Bool) (level : Int)
  | append (r : Ref) (written : Nat) (ok : Bool)
  | pushExtent (r : Ref)
  | appendChunk (r : Ref) (header wr_size : Nat)
  | closeActiveZone (r : Ref)
  | closeWR (r : Ref)
  | setLevel (r : Ref) (level : Int)
  | migrateBegin (r : Ref)
  | migrateExtent (k : Nat) (i : ZoneId) (empty : Bool) (level : Int) (written : Nat)
      (present : Bool)
  | migrateEnd (persisted : Bool)
  | destroy (r : Ref)
  | reset (i : ZoneId) (res : ResetRes)
  | finish (i : ZoneId)
deriving DecidableEq, Repr

namespace LevelFs

def setFile (s : LevelFs) (r : Ref) (f : LevelFile) : LevelFs :=
  { s with files := Function.update s.files r f }

/-- The calls of `ZoneFile::ClearExtents`. -/
def clearCalls (s : LevelFs) (es : List LevelExtent) : List LevelCall :=
  if s.dynamic then es.map fun e ↦ ⟨e.zone, e.level, toInt (-e.length)⟩ else []

/-- The calls of `ZoneFile::SetLevel`. -/
def setLevelCalls (level : Int) (es : List LevelExtent) : List LevelCall :=
  es.flatMap fun e ↦ [⟨e.zone, e.level, toInt (-e.length)⟩, ⟨e.zone, level, toInt e.length⟩]

/-- The call of `ZoneFile::PushExtent`. -/
def pushCalls (f : LevelFile) : List LevelCall :=
  match f.activeZone with
  | none => []
  | some i =>
      if f.fileSize - f.extentFilepos = 0 then []
      else [⟨i, f.level, toInt (f.pushed i).length⟩]

/-- `ClearExtents` on the counters of the zones. -/
def clear (zbd : Zbd) (es : List LevelExtent) : Zbd := zbd.clearExtents (es.map (·.toZoneExtent))

/-- Extents are pushed and counted in their zones. -/
def push (s : LevelFs) (r : Ref) (f : LevelFile) (es : List LevelExtent) : LevelFs :=
  { s.setFile r { f with extents := f.extents ++ es } with
    zbd := s.zbd.countExtents (es.map (·.toZoneExtent)) }

/-- The write pointer and the capacity of a zone after a write. -/
def advance (zbd : Zbd) (i : ZoneId) (n : Nat) : Zbd :=
  zbd.setZone i
    { zbd.zones i with wp := (zbd.zones i).wp + n, capacity := (zbd.zones i).capacity - n }

/-- `ZoneFile::PushExtent`, without the call. -/
def pushExtent (s : LevelFs) (r : Ref) : LevelFs :=
  let f := s.files r
  match f.activeZone with
  | none => s
  | some i =>
      if f.fileSize - f.extentFilepos = 0 then s
      else s.push r { f with extentStart := (s.zbd.zones i).wp, extentFilepos := f.fileSize }
        [f.pushed i]

/-- What `ZonedBlockDevice::AllocateIOZoneNoLock` leaves behind when it returns zone `i` for a
file: a placement policy may have moved the file to a deeper level, and an empty zone takes
the level of the file. -/
def allocated (s : LevelFs) (r : Ref) (i : ZoneId) (empty : Bool) (level : Int) : LevelFs :=
  { s.setFile r { s.files r with level := level } with
    labels := if empty then Function.update s.labels i { s.labels i with level := level }
      else s.labels }

/-- `ZoneFile::AllocateNewZone`. -/
def allocateNewZone (s : LevelFs) (r : Ref) (i : ZoneId) (empty : Bool) (level : Int) : LevelFs :=
  let s := s.allocated r i empty level
  s.setFile r { s.files r with
    activeZone := some i
    extentStart := (s.zbd.zones i).wp
    extentFilepos := (s.files r).fileSize }

/-- The rest of a turn of `BufferedAppend` (`header` is 0) or `SparseAppend`, when `wr_size`
bytes fit into the zone and are written. -/
def appendChunk (s : LevelFs) (r : Ref) (i : ZoneId) (header wr_size : Nat) : LevelFs :=
  let f := s.files r
  let extent_length := sub32 wr_size header
  let s := { s with zbd := advance s.zbd i (wr_size + padSize s.zbd.blockSize wr_size) }
  s.push r
    { f with extentStart := (s.zbd.zones i).wp, fileSize := f.fileSize + extent_length }
    [{ start := f.extentStart + header, length := extent_length, zone := i, level := f.level }]

/-- `ZoneFile::Recover`, where there is something to recover. -/
def recover (s : LevelFs) (r : Ref) (i : ZoneId) (es : List (Nat × Nat)) : LevelFs :=
  let f := s.files r
  let es := f.found i es
  s.push r
    { f with extentStart := NO_EXTENT, fileSize := ((f.extents ++ es).map (·.length)).sum } es

/-- `ZoneFile::MergeUpdate`, without the calls. -/
def mergeUpdate (s : LevelFs) (r update : Ref) (replace : Bool) : LevelFs :=
  let f := s.files r
  let u := s.files update
  let f := { f with fileSize := u.fileSize, extentStart := u.extentStart, isSparse := u.isSparse }
  let es := u.extents.map fun e ↦ { e with level := -1 }
  if replace then { s with zbd := clear s.zbd f.extents }.push r { f with extents := [] } es
  else s.push r f es

/-- One turn of the loop in `ZenFS::MigrateFileExtents` for the new extent at index `k`, which
`TakeMigrateZone` finds zone `i` for; `written` bytes of it get there, and the file is
still `present` afterwards. -/
def migrateExtent (s : LevelFs) (m : Migration) (k : Nat) (i : ZoneId) (empty : Bool)
    (level : Int) (written : Nat) (present : Bool) : LevelFs :=
  match m.extents[k]? with
  | none => s
  | some (e, _) =>
      let header := if (s.files m.file).isSparse then SPARSE_HEADER_SIZE else 0
      let e' : LevelExtent := { e with start := (s.zbd.zones i).wp + header, zone := i }
      let s := s.allocated m.file i empty level
      let s := { s with zbd := advance s.zbd i written }
      if present then
        { s with
          zbd := s.zbd.addUsed i e.length
          gc := some { m with extents := m.extents.set k (e', true) } }
      else s

/-- The old extents whose start is not that of the new extent. -/
def changed (old : List LevelExtent) (new : List (LevelExtent × Bool)) : List LevelExtent :=
  ((old.zip new).filter fun p ↦ decide (p.1.start ≠ p.2.1.start)).map Prod.fst

/-- The end of `MigrateFileExtents`, with `ZenFS::SyncFileExtents`. -/
def migrateEnd (s : LevelFs) (m : Migration) (persisted : Bool) : LevelFs :=
  let f := s.files m.file
  { s.setFile m.file { f with extents := m.extents.map Prod.fst, openForWr := false } with
    zbd := if persisted then clear s.zbd (changed f.extents m.extents) else s.zbd
    gc := none }

/-- `Zone::Reset` on the label as well. -/
def reset (s : LevelFs) (i : ZoneId) (res : ResetRes) : LevelFs :=
  match res with
  | .failed _ => { s with zbd := (s.zbd.reset i res).1 }
  | res =>
      { s with
        zbd := (s.zbd.reset i res).1
        labels := Function.update s.labels i (s.labels i).reset }

/-- What a function does, without its calls of `Zone::UpdateBytesOfLevel`. -/
def effect (s : LevelFs) : LevelAct → LevelFs
  | .newFile r => { s.setFile r {} with live := insert r s.live }
  | .openForWr r isSparse =>
      s.setFile r { s.files r with openForWr := true, isSparse := isSparse }
  | .decode r fileSize extentStart isSparse es =>
      s.push r
        { s.files r with fileSize := fileSize, extentStart := extentStart, isSparse := isSparse }
        (es.map fun e ↦ { toZoneExtent := e, level := -1 })
  | .mergeUpdate r update replace => s.mergeUpdate r update replace
  | .recover r i es => s.recover r i es
  | .allocate r i empty level => s.allocateNewZone r i empty level
  | .append r written ok =>
      match (s.files r).activeZone with
      | none => s
      | some i =>
          let f := s.files r
          { s.setFile r { f with fileSize := if ok then f.fileSize + written else f.fileSize } with
            zbd := advance s.zbd i written }
  | .pushExtent r => s.pushExtent r
  | .appendChunk r header wr_size =>
      match (s.files r).activeZone with
      | none => s
      | some i => s.appendChunk r i header wr_size
  | .closeActiveZone r => s.setFile r { s.files r with activeZone := none }
  | .closeWR r =>
      s.setFile r { s.files r with
        extentStart := NO_EXTENT, openForWr := false, activeZone := none }
  | .setLevel r level =>
      let f := s.files r
      s.setFile r { f with
        level := level, extents := f.extents.map fun e ↦ { e with level := level } }
  | .migrateBegin r =>
      { s.setFile r { s.files r with openForWr := true } with
        gc := some ⟨r, (s.files r).newExtentList⟩ }
  | .migrateExtent k i empty level written present =>
      match s.gc with
      | none => s
      | some m => s.migrateExtent m k i empty level written present
  | .migrateEnd persisted =>
      match s.gc with
      | none => s
      | some m => s.migrateEnd m persisted
  | .destroy r =>
      { s.setFile r { s.files r with extents := [] } with
        zbd := clear s.zbd (s.files r).extents
        live := s.live.erase r }
  | .reset i res => s.reset i res
  | .finish i => { s with zbd := s.zbd.finish i }

/-- The calls of `Zone::UpdateBytesOfLevel` that a function makes. -/
def calls (s : LevelFs) : LevelAct → List LevelCall
  | .mergeUpdate r _ replace => if replace then s.clearCalls (s.files r).extents else []
  | .pushExtent r => pushCalls (s.files r)
  | .setLevel r level => setLevelCalls level (s.files r).extents
  | .destroy r => s.clearCalls (s.files r).extents
  | _ => []

/-- Nobody is migrating the file. -/
def Settled (s : LevelFs) (r : Ref) : Prop := r ∈ s.live ∧ ∀ m ∈ s.gc, m.file ≠ r

/-- A file that its writer may write to. -/
def Writable (s : LevelFs) (r : Ref) : Prop := s.Settled r ∧ (s.files r).openForWr = true

/-- A level a placement policy may leave: only the level of a file that has one goes up. -/
def Deeper (f : LevelFile) (level : Int) : Prop := level = f.level ∨ (0 ≤ f.level ∧ f.level < level)

/-- When a function may run.  Files are given away by the lock for writing; a file is
destroyed by the last who holds it; an unused zone is reset, and `Zone::Reset` counts in
eight bits. -/
def Enabled (s : LevelFs) : LevelAct → Prop
  | .newFile r => r ∉ s.live
  | .openForWr r _ => s.Settled r ∧ (s.files r).openForWr = false
  | .decode r _ _ _ _ => s.Settled r
  | .mergeUpdate r update _ => s.Settled r ∧ update ∈ s.live ∧ update ≠ r
  | .recover r _ _ => s.Settled r
  | .allocate r i _ level =>
      s.Writable r ∧ (s.files r).activeZone = none ∧ s.zbd.eligible i = true ∧
        Deeper (s.files r) level
  | .append r written _ =>
      s.Writable r ∧ ∃ i ∈ (s.files r).activeZone, written ≤ (s.zbd.zones i).capacity
  | .pushExtent r => s.Writable r
  | .appendChunk r _ wr_size =>
      s.Writable r ∧ ∃ i ∈ (s.files r).activeZone,
        wr_size + padSize s.zbd.blockSize wr_size ≤ (s.zbd.zones i).capacity
  | .closeActiveZone r => s.Writable r
  | .closeWR r => s.Writable r
  | .setLevel r _ => r ∈ s.live
  | .migrateBegin r => r ∈ s.live ∧ s.gc = none ∧ (s.files r).openForWr = false
  | .migrateExtent k i _ level written _ =>
      ∃ m ∈ s.gc, k < m.extents.length ∧ s.zbd.eligible i = true ∧ Deeper (s.files m.file) level ∧
        written ≤ (s.zbd.zones i).capacity
  | .migrateEnd _ => s.gc.isSome
  | .destroy r => s.Settled r
  | .reset i _ => (s.zbd.zones i).usedCapacity = 0 ∧ (s.labels i).bytesOfLevel.length < 256
  | .finish _ => True

/-- The calls are carried out; one that goes outside of a vector is recorded, and one that
does not return leaves no state. -/
def count (s : LevelFs) (cs : List LevelCall) : Option LevelFs :=
  match LevelCall.updateAll s.dynamic s.labels cs with
  | .ok labels => some { s with labels := labels }
  | .error .outOfRange => some { s with fault := true }
  | .error .endless => none

instance (s : LevelFs) (r : Ref) : Decidable (s.Settled r) :=
  inferInstanceAs (Decidable (_ ∧ _))

instance (s : LevelFs) (r : Ref) : Decidable (s.Writable r) :=
  inferInstanceAs (Decidable (_ ∧ _))

instance (f : LevelFile) (level : Int) : Decidable (Deeper f level) :=
  inferInstanceAs (Decidable (_ ∨ _))

instance (s : LevelFs) (a : LevelAct) : Decidable (s.Enabled a) := by
  cases a <;> unfold Enabled <;> infer_instance

/-- One function runs. -/
def step (s : LevelFs) (a : LevelAct) : Option LevelFs :=
  if s.Enabled a then (s.effect a).count (s.calls a) else none

/-- A device that has just been mounted, with no file yet. -/
def init (zbd : Zbd) (dynamic : Bool) : LevelFs :=
  { dynamic := dynamic
    zbd := { zbd with zones := fun i ↦ { zbd.zones i with usedCapacity := 0 }, wrapped := false } }

/-- The calls of a function are admitted by the zones they are made on. -/
def Admits (s : LevelFs) (a : LevelAct) : Prop := LevelCall.Admitted s.dynamic s.labels (s.calls a)

instance (s : LevelFs) (a : LevelAct) : Decidable (s.Admits a) :=
  inferInstanceAs (Decidable (LevelCall.Admitted _ _ _))

/-- The extents have levels, and where labels move, each zone has one that the first of the
extents in it does not go beyond. -/
def ExtentsLabelled (s : LevelFs) (es : List LevelExtent) : Prop :=
  (∀ e ∈ es, 0 ≤ e.level) ∧
    (s.dynamic = true → ∀ e ∈ es, es.find? (fun e' ↦ e'.zone = e.zone) = some e →
      (s.labels e.zone).Reaches e.level)

/-- The files whose bytes are counted have a level, and so have their extents, none of which
is one recovered from the log; and where labels move, so have the zones. -/
def Labelled (s : LevelFs) : LevelAct → Prop
  | .pushExtent r =>
      ∀ i ∈ (s.files r).activeZone, (s.files r).fileSize - (s.files r).extentFilepos ≠ 0 →
        0 ≤ (s.files r).level ∧ (s.dynamic = true → (s.labels i).Reaches (s.files r).level)
  | .setLevel r level => (s.files r).extents ≠ [] → 0 ≤ level ∧
      s.ExtentsLabelled (s.files r).extents
  | .mergeUpdate r _ replace =>
      replace = true → s.dynamic = true → s.ExtentsLabelled (s.files r).extents
  | .destroy r => s.dynamic = true → s.ExtentsLabelled (s.files r).extents
  | _ => True

instance (s : LevelFs) (es : List LevelExtent) : Decidable (s.ExtentsLabelled es) :=
  inferInstanceAs (Decidable (_ ∧ _))

instance (s : LevelFs) (a : LevelAct) : Decidable (s.Labelled a) := by
  cases a <;> unfold Labelled <;> infer_instance

section Fields

variable {s t : LevelFs} {a : LevelAct} {cs : List LevelCall}

/-- Where the first call on each zone is one for the first extent in it. -/
theorem reaches_iff (es : List LevelExtent) (hfind : ∀ i, cs.find? (fun c ↦ c.zone = i) =
      (es.find? fun e ↦ e.zone = i).map fun e ↦ ⟨e.zone, e.level, toInt (-e.length)⟩) :
    (∀ i c, cs.find? (fun c ↦ c.zone = i) = some c → (s.labels i).Reaches c.level) ↔
      ∀ e ∈ es, es.find? (fun e' ↦ e'.zone = e.zone) = some e →
      (s.labels e.zone).Reaches e.level := by
  constructor
  · intro h e he hfirst
    exact h e.zone _ (by rw [hfind, hfirst]; rfl)
  · intro h i c hc
    rw [hfind, Option.map_eq_some_iff] at hc
    obtain ⟨e, he, rfl⟩ := hc
    have hi := List.find?_some he
    obtain rfl : e.zone = i := by simpa using hi
    exact h e (List.mem_of_find?_eq_some he) he

theorem find?_setLevelCalls (level : Int) (es : List LevelExtent) (i : ZoneId) :
    (setLevelCalls level es).find? (fun c ↦ c.zone = i) =
      (es.find? fun e ↦ e.zone = i).map fun e ↦ ⟨e.zone, e.level, toInt (-e.length)⟩ := by
  induction es with
  | nil => rfl
  | cons e es ih =>
      have hcons : setLevelCalls level (e :: es) =
          [⟨e.zone, e.level, toInt (-e.length)⟩, ⟨e.zone, level, toInt e.length⟩] ++ setLevelCalls
          level es := rfl
      rw [hcons, List.find?_append, ih]
      by_cases hi : e.zone = i
      · simp [hi]
      · simp [hi]

theorem level_setLevelCalls (level : Int) (es : List LevelExtent) :
    (∀ c ∈ setLevelCalls level es, 0 ≤ c.level) ↔ (es ≠ [] → 0 ≤ level) ∧
    ∀ e ∈ es, 0 ≤ e.level := by
  simp only [setLevelCalls, List.mem_flatMap, List.mem_cons, List.not_mem_nil, or_false]
  constructor
  · intro h
    refine ⟨fun hne ↦ ?_, fun e he ↦ h _ ⟨e, he, .inl rfl⟩⟩
    obtain ⟨e, he⟩ := List.exists_mem_of_ne_nil _ hne
    exact h _ ⟨e, he, .inr rfl⟩
  · rintro ⟨hlevel, hes⟩ c ⟨e, he, rfl | rfl⟩
    · exact hes e he
    · exact hlevel (List.ne_nil_of_mem he)

/-- The calls of a function are admitted exactly if what it counts is labelled. -/
theorem admits_iff_labelled (s : LevelFs) (a : LevelAct) : s.Admits a ↔ s.Labelled a := by
  have hnil : LevelCall.Admitted s.dynamic s.labels [] := LevelCall.admitted_nil
  have hclear : ∀ es, LevelCall.Admitted s.dynamic s.labels (s.clearCalls es) ↔
      (s.dynamic = true → s.ExtentsLabelled es) := by
    intro es
    unfold clearCalls
    cases hd : s.dynamic with
    | false => simp [LevelCall.admitted_nil]
    | true =>
        simp only [if_true, true_imp_iff, ← hd]
        rw [LevelCall.admitted_iff_find?, reaches_iff es fun i ↦ by rw [List.find?_map]; rfl]
        simp [ExtentsLabelled]
  unfold Admits calls Labelled
  cases a with
  | pushExtent r =>
      dsimp only
      unfold pushCalls
      cases hz : (s.files r).activeZone with
      | none => simp [LevelCall.admitted_nil]
      | some i =>
          dsimp only
          split
          · rename_i h0
            simp [LevelCall.admitted_nil, h0]
          · rename_i h0
            rw [LevelCall.admitted_iff_find?]
            simp [h0]
  | setLevel r level =>
      dsimp only
      rw [LevelCall.admitted_iff_find?, reaches_iff _ (find?_setLevelCalls level _),
        level_setLevelCalls, ExtentsLabelled]
      rcases eq_or_ne (s.files r).extents [] with hes | hes
      · simp [hes]
      · simp only [hes, ne_eq, not_false_eq_true, true_imp_iff, and_assoc]
  | mergeUpdate r update replace =>
      cases replace with
      | false => simp [LevelCall.admitted_nil]
      | true => simpa using hclear _
  | destroy r => exact hclear _
  | _ => exact iff_of_true hnil trivial

theorem count_eq_some (h : s.count cs = some t) :
    (LevelCall.Admitted s.dynamic s.labels cs ∧
      ∃ labels, LevelCall.updateAll s.dynamic s.labels cs = .ok labels ∧
        t = { s with labels := labels }) ∨
    (¬ LevelCall.Admitted s.dynamic s.labels cs ∧ t = { s with fault := true }) := by
  rcases LevelCall.updateAll_spec s.dynamic s.labels cs with he | ⟨he, hadm⟩ | ⟨⟨labels, he⟩, hadm⟩
  · simp [count, he] at h
  · simp only [count, he, Option.some.injEq] at h
    exact .inr ⟨hadm, h.symm⟩
  · simp only [count, he, Option.some.injEq] at h
    exact .inl ⟨hadm, labels, he, h.symm⟩

@[simp] theorem push_labels (s : LevelFs) (r : Ref) (f : LevelFile) (es : List LevelExtent) :
    (s.push r f es).labels = s.labels := rfl

/-- The setting and the record of faults are left alone by what the functions do. -/
theorem effect_fixed (s : LevelFs) (a : LevelAct) :
    (s.effect a).dynamic = s.dynamic ∧ (s.effect a).fault = s.fault := by
  cases a with
  | pushExtent r => unfold effect pushExtent; grind [push, setFile]
  | append r written ok => unfold effect; grind [setFile]
  | appendChunk r header wr_size => unfold effect; grind [appendChunk, push, setFile]
  | mergeUpdate r update replace => cases replace <;> exact ⟨rfl, rfl⟩
  | migrateExtent k i empty level written present =>
      unfold effect migrateExtent
      grind [allocated, setFile]
  | migrateEnd persisted => unfold effect; grind [migrateEnd, setFile]
  | reset i res => cases res <;> exact ⟨rfl, rfl⟩
  | _ => exact ⟨rfl, rfl⟩

/-- Where there are calls, they are all that happens to the labels. -/
theorem effect_labels (h : s.calls a ≠ []) : (s.effect a).labels = s.labels := by
  cases a with
  | mergeUpdate r update replace => cases replace <;> rfl
  | pushExtent r =>
      show (s.pushExtent r).labels = s.labels
      unfold pushExtent
      dsimp only
      split
      · rfl
      · split <;> rfl
  | setLevel r level => rfl
  | destroy r => rfl
  | _ => exact absurd rfl h

/-- A step is an effect and the calls that go with it, which are either all admitted, or
one of which goes outside of a vector. -/
theorem step_eq_some (h : step s a = some t) :
    s.Enabled a ∧
      ((s.Admits a ∧ ∃ labels, LevelCall.updateAll s.dynamic (s.effect a).labels (s.calls a) =
        .ok labels ∧
          t = { s.effect a with labels := labels }) ∨
        (¬ s.Admits a ∧ t = { s.effect a with fault := true })) := by
  unfold step at h
  split at h
  · rename_i hen
    refine ⟨hen, ?_⟩
    have hadm : LevelCall.Admitted (s.effect a).dynamic (s.effect a).labels (s.calls a) ↔
        s.Admits a := by
      rw [(effect_fixed s a).1, Admits]
      by_cases hc : s.calls a = []
      · simp only [hc, LevelCall.admitted_nil]
      · rw [effect_labels hc]
    rcases count_eq_some h with ⟨hok, labels, hl, ht⟩ | ⟨hok, ht⟩
    · rw [(effect_fixed s a).1] at hl
      exact .inl ⟨hadm.mp hok, labels, hl, ht⟩
    · exact .inr ⟨mt hadm.mpr hok, ht⟩
  · cases h

/-- A step goes outside of a vector exactly if its calls are not admitted. -/
theorem fault_step_iff (h : step s a = some t) (hs : s.fault = false) :
    t.fault = false ↔ s.Admits a := by
  obtain ⟨-, ⟨hadm, labels, -, rfl⟩ | ⟨hadm, rfl⟩⟩ := step_eq_some h
  · exact iff_of_true ((effect_fixed s a).2.trans hs) hadm
  · exact iff_of_false (by simp) hadm

end Fields

/-- A device with four empty zones. -/
def fourZones : Zbd where
  blockSize := 512
  zoneSize := 4096
  nrZones := 4
  zones := fun i ↦
    { start := 4096 * i
      maxCapacity := 4096
      capacity := 4096
      wp := 4096 * i
      usedCapacity := 0
      busy := false
      resetCount := 0
      finishCount := 0 }
  mem := fun _ ↦ 0

/-- A file of level 2 is written and synced, and then deleted. -/
def syncedRun : List LevelAct :=
  [.newFile 0, .openForWr 0 false, .setLevel 0 2, .allocate 0 0 true 2, .append 0 512 true,
    .pushExtent 0, .closeWR 0, .destroy 0]

/-- A write-ahead log, which has no level, is written and synced. -/
def walRun : List LevelAct :=
  [.newFile 0, .openForWr 0 false, .allocate 0 0 true (-1), .append 0 512 true, .pushExtent 0]

/-- The level bookkeeping stays within the vectors in every run in which only labelled files
and extents are counted; and the step that leaves this condition goes outside of a vector. -/
theorem fault_iff (zbd : Zbd) (dynamic : Bool) :
    (∀ s, Reach step Labelled (init zbd dynamic) s → s.fault = false) ∧
      ∀ s a t, Reach step (fun _ _ ↦ True) (init zbd dynamic) s → s.fault = false →
        step s a = some t → (t.fault = false ↔ s.Labelled a) := by
  constructor
  · intro s h
    refine h.invariant (I := fun s ↦ s.fault = false) rfl ?_
    intro t u a ht hok hu
    exact (fault_step_iff hu ht).mpr ((admits_iff_labelled t a).mpr hok)
  · intro s a t _ hs hstep
    rw [fault_step_iff hstep hs, admits_iff_labelled]

/-- A synced and deleted file keeps the condition; the sync of a write-ahead log does not. -/
theorem fault_iff_synced :
    (∃ s, Reach step Labelled (init fourZones true) s ∧ (s.labels 0).level = 2 ∧ s.fault = false) ∧
      ∃ s t, step s (.pushExtent 0) = some t ∧ ¬ s.Labelled (.pushExtent 0) ∧
      ¬ t.fault = false := by
  constructor
  · have hrun : ((runAll (fun s a ↦ if decide (s.Labelled a) then step s a else none)
        (init fourZones true) syncedRun).map fun s ↦ (s.labels 0).level) = some 2 := by decide
    obtain ⟨s, hs, hl⟩ := Option.map_eq_some_iff.mp hrun
    have hreach := Reach.of_decided hs
    exact ⟨s, hreach, hl, (fault_iff fourZones true).1 s hreach⟩
  · have hrun : ((runAll step (init fourZones true) (walRun.take 4)).map fun s ↦
        (s.fault, decide (s.Labelled (.pushExtent 0)), (step s (.pushExtent 0)).isSome)) =
          some (false, false, true) := by decide
    obtain ⟨s, hs, h⟩ := Option.map_eq_some_iff.mp hrun
    rw [Prod.mk.injEq, Prod.mk.injEq, decide_eq_false_iff_not, Option.isSome_iff_exists] at h
    obtain ⟨hf, hlab, t, ht⟩ := h
    have hreach : Reach step (fun _ _ ↦ True) (init fourZones true) s := .of_any hs
    exact ⟨s, t, ht, hlab, mt ((fault_iff fourZones true).2 s _ t hreach hf ht).mp hlab⟩

/-- The write-ahead log takes the bookkeeping out of a vector. -/
theorem exists_fault :
    ¬ ∀ zbd dynamic s, Reach step (fun _ _ ↦ True) (init zbd dynamic) s → s.fault = false := by
  intro h
  have hrun : ((runAll step (init fourZones true) walRun).map LevelFs.fault) = some true := by
    decide
  obtain ⟨s, hs, hf⟩ := Option.map_eq_some_iff.mp hrun
  exact absurd (h _ _ s (.of_any hs)) (by simp [hf])

end LevelFs

end ZenFs
