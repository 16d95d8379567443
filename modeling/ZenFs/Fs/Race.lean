import ZenFs.Fs.Catalog

/-!
# A writer against a metadata write of the same file

The append paths push extents without holding `files_mtx_`, while another
thread may be inside `SyncFileMetadataNoLock` or `WriteSnapshotLocked` for the
same file.  Both encode the file first and mark all its extents as synced
later.  The threads are modelled as a state machine whose steps are the single
accesses to the shared file, so that every interleaving is a list of steps.
-/

namespace ZenFs

/-- Where the thread that holds `files_mtx_` is in its metadata write.  `sync`
tells whether the write is a `SyncFileMetadataNoLock` of the file itself, which
marks the file once more behind the roll. -/
inductive MetaPc where
  | idle
  | encoded (update : FileRecord) (fits : Bool)
  | rolling (sync : Bool)
  | snapshotEncoded (snapshot : List FileRecord) (sync : Bool)
  | snapshotLogged (sync : Bool)
  | logged
deriving DecidableEq, Repr

/-- The file, the write pointer of its active zone, and the metadata thread.
`own` tells whether the metadata write is the writer's own `PersistMetadata`,
during which the writer does not move. -/
structure Racing where
  file : ZoneFile
  zone : ZoneId
  wp : Nat
  log : List Record
  pc : MetaPc
  own : Bool
deriving DecidableEq, Repr

/-- The steps of the two threads. -/
inductive RaceStep where
  | zoneAppend (n : Nat)
  | pushExtent (header length : Nat)
  | advanceStart
  | advanceSize (n : Nat)
  | otherRecord (r : Record)
  | rollForOther
  | encodeUpdate (own : Bool) (links : List Name) (now : Nat) (fits : Bool)
  | addRecord
  | encodeSnapshot (before after : List FileRecord)
  | addSnapshot
  | markSnapshot
  | mark
deriving DecidableEq, Repr

/-- The file a log record is about. -/
def Record.fileId? : Record → Option Nat
  | .fileUpdate fr => some fr.fileId
  | .fileReplace fr => some fr.fileId
  | .fileDeletion id _ => some id
  | _ => none

namespace Racing

/-- The writer waits for its own metadata write. -/
def writerRuns (σ : Racing) : Bool := !σ.own || σ.pc == .idle

/-- A step of one of the threads, if it can be taken. -/
def step (σ : Racing) : RaceStep → Option Racing
  -- the writer
  | .zoneAppend n => if σ.writerRuns then some { σ with wp := σ.wp + n } else none
  | .pushExtent header length =>
      if σ.writerRuns then
        some { σ with file :=
          { σ.file with
            extents := σ.file.extents ++ [⟨σ.file.extentStart + header, length, σ.zone⟩] } }
      else none
  | .advanceStart =>
      if σ.writerRuns then some { σ with file := { σ.file with extentStart := σ.wp } } else none
  | .advanceSize n =>
      if σ.writerRuns then
        some { σ with file := { σ.file with fileSize := σ.file.fileSize + n } }
      else none
  -- metadata writes on behalf of other files
  | .otherRecord r =>
      if σ.pc = .idle ∧ r.isUpdate = true ∧ r.fileId? ≠ some σ.file.fileId then
        some { σ with log := σ.log ++ [r] }
      else none
  | .rollForOther =>
      if σ.pc = .idle then some { σ with pc := .rolling false, own := false } else none
  -- `SyncFileMetadataNoLock`
  | .encodeUpdate own links now fits =>
      if σ.pc = .idle then
        let file := { σ.file with linkfiles := links, mTime := now }
        some { σ with file := file, pc := .encoded file.encodeUpdateTo fits, own := own }
      else none
  | .addRecord =>
      match σ.pc with
      | .encoded update true => some { σ with log := σ.log ++ [.fileUpdate update], pc := .logged }
      | .encoded _ false => some { σ with pc := .rolling true }
      | _ => none
  | .mark =>
      match σ.pc with
      | .logged => some { σ with file := σ.file.metadataSynced, pc := .idle }
      | _ => none
  -- `WriteSnapshotLocked`, with the other files around this one
  | .encodeSnapshot before after =>
      match σ.pc with
      | .rolling sync =>
          if before.all fun fr ↦ fr.fileId != σ.file.fileId then
            some { σ with pc :=
              .snapshotEncoded (before ++ σ.file.encodeSnapshotTo :: after) sync }
          else none
      | _ => none
  | .addSnapshot =>
      match σ.pc with
      | .snapshotEncoded frs sync =>
          some { σ with log := [.completeFilesSnapshot frs], pc := .snapshotLogged sync }
      | _ => none
  | .markSnapshot =>
      match σ.pc with
      | .snapshotLogged sync =>
          some { σ with file := σ.file.metadataSynced, pc := if sync then .logged else .idle }
      | _ => none

/-- A list of steps. -/
def run (σ : Racing) : List RaceStep → Option Racing
  | [] => some σ
  | st :: sts => (σ.step st).bind fun σ' ↦ σ'.run sts

/-- The extents that replaying the log gives the file. -/
def replayed (σ : Racing) : List (Nat × Nat) :=
  Catalog.extents (Catalog.replay (fun _ ↦ none) σ.log) σ.file.fileId

/-- The extents pushed so far, as a record holds them. -/
def pushed (σ : Racing) : List (Nat × Nat) := σ.file.extents.map fun e ↦ (e.start, e.length)

/-- A file whose extents are all in the log: one that has just been created, synced or
recovered. -/
structure Synced (σ : Racing) : Prop where
  pc : σ.pc = .idle
  nrSynced : σ.file.nrSyncedExtents = σ.file.extents.length
  replayed : σ.replayed = σ.pushed

/-- What is encoded for the log has not been marked as synced yet. -/
def encodedNotMarked (σ : Racing) : Bool :=
  match σ.pc with
  | .encoded _ true | .snapshotEncoded _ _ | .snapshotLogged _ | .logged => true
  | _ => false

/-- No extent is pushed between an encoding that reaches the log and the mark
behind it. -/
def quiet (σ : Racing) : RaceStep → Bool
  | .pushExtent _ _ => !σ.encodedNotMarked
  | _ => true

/-- All steps of a run are quiet. -/
def quietRun (σ : Racing) : List RaceStep → Bool
  | [] => true
  | st :: sts => σ.quiet st && ((σ.step st).map fun σ' ↦ σ'.quietRun sts).getD true

end Racing

/-- The record holds the extent for the file. -/
def Record.Holds (r : Record) (id : Nat) (e : Nat × Nat) : Prop :=
  match r with
  | .completeFilesSnapshot frs => ∃ fr ∈ frs, fr.fileId = id ∧ e ∈ fr.extents
  | .fileUpdate fr => fr.fileId = id ∧ e ∈ fr.extents
  | .fileReplace fr => fr.fileId = id ∧ e ∈ fr.extents
  | _ => False

namespace Catalog

variable {C : Catalog} {id : Nat}

theorem extents_update_self (C : Catalog) (id : Nat) (fr : Option FileRecord) :
    extents (Function.update C id fr) id = (fr.map FileRecord.extents).getD [] := by
  simp [extents]

theorem extents_update_of_ne {id' : Nat} (h : id ≠ id') (C : Catalog) (fr : Option FileRecord) :
    extents (Function.update C id' fr) id = extents C id := by
  simp [extents, h]

/-- An update adds its extents. -/
theorem extents_apply_update (C : Catalog) (fr : FileRecord) :
    (C.apply (.fileUpdate fr)).extents fr.fileId = C.extents fr.fileId ++ fr.extents :=
  extents_update_self C fr.fileId _

/-- The records of other files do not matter. -/
theorem extents_apply_of_ne {r : Record} (hr : r.isUpdate = true) (h : r.fileId? ≠ some id) :
    (C.apply r).extents id = C.extents id := by
  have hne : ∀ {id'}, r.fileId? = some id' → id ≠ id' := by
    rintro id' h' rfl
    exact h h'
  cases r with
  | fileUpdate fr => exact extents_update_of_ne (hne rfl) C _
  | fileReplace fr => exact extents_update_of_ne (hne rfl) C _
  | fileDeletion id' n => exact extents_update_of_ne (hne rfl) C _
  | superblock sb => cases hr
  | completeFilesSnapshot frs => cases hr
  | endRecord => cases hr

/-- A snapshot with the file in it gives its extents. -/
theorem extents_apply_snapshot {before after : List FileRecord} {fr : FileRecord}
    (h : ∀ fr' ∈ before, fr'.fileId ≠ fr.fileId) :
    (C.apply (.completeFilesSnapshot (before ++ fr :: after))).extents fr.fileId = fr.extents := by
  have hbefore : (before.find? fun fr' ↦ fr'.fileId == fr.fileId) = none := by
    rw [List.find?_eq_none]
    exact fun fr' h' ↦ by simpa using h fr' h'
  simp [extents, apply, hbefore]

/-- An extent behind a record was there before, or the record holds it. -/
theorem mem_extents_apply {r : Record} {e : Nat × Nat} (he : e ∈ (C.apply r).extents id) :
    e ∈ C.extents id ∨ r.Holds id e := by
  cases r with
  | superblock sb => exact .inl he
  | endRecord => exact .inl he
  | completeFilesSnapshot frs =>
      right
      cases hf : frs.find? fun fr ↦ fr.fileId == id with
      | none => simp [extents, apply, hf] at he
      | some fr =>
          refine ⟨fr, List.mem_of_find?_eq_some hf, by simpa using List.find?_some hf, ?_⟩
          simpa [extents, apply, hf] using he
  | fileUpdate fr =>
      by_cases hid : id = fr.fileId
      · subst hid
        rw [extents_apply_update, List.mem_append] at he
        exact he.imp_right fun he ↦ ⟨rfl, he⟩
      · exact .inl (by rwa [apply, extents_update_of_ne hid] at he)
  | fileReplace fr =>
      by_cases hid : id = fr.fileId
      · subst hid
        exact .inr ⟨rfl, by simpa [apply, extents_update_self] using he⟩
      · exact .inl (by rwa [apply, extents_update_of_ne hid] at he)
  | fileDeletion id' n =>
      left
      by_cases hid : id = id'
      · subst hid
        rw [apply, extents_update_self, unlink] at he
        rw [extents]
        cases hC : C id with
        | none => simp [hC] at he
        | some fr =>
            simp only [hC, Option.bind_some] at he
            split at he
            · simp at he
            · exact he
      · rwa [apply, extents_update_of_ne hid] at he

/-- Every extent of the catalog is in a record of the log. -/
theorem mem_extents_replay {rs : List Record} {e : Nat × Nat}
    (he : e ∈ extents (replay (fun _ ↦ none) rs) id) : ∃ r ∈ rs, r.Holds id e := by
  induction rs using List.reverseRecOn with
  | nil => simp [extents] at he
  | append_singleton rs r ih =>
      rw [replay_append, replay_cons, replay_nil] at he
      rcases mem_extents_apply he with he | hr
      · obtain ⟨r', hr', hh⟩ := ih he
        exact ⟨r', List.mem_append_left _ hr', hh⟩
      · exact ⟨r, by simp, hr⟩

end Catalog

/-! ## The invariant -/

namespace Racing

variable {σ σ' : Racing} {st : RaceStep}

/-- What replaying the log gives the file, at each point of a metadata write. -/
def Agrees (σ : Racing) : Prop :=
  match σ.pc with
  | .idle => σ.replayed = σ.pushed.take σ.file.nrSyncedExtents
  | .rolling _ => σ.replayed = σ.pushed.take σ.file.nrSyncedExtents
  | .encoded _ false => σ.replayed = σ.pushed.take σ.file.nrSyncedExtents
  | .encoded update true =>
      σ.replayed = σ.pushed.take σ.file.nrSyncedExtents ∧ update.fileId = σ.file.fileId ∧
        update.extents = σ.pushed.drop σ.file.nrSyncedExtents
  | .snapshotEncoded frs _ =>
      σ.replayed = σ.pushed.take σ.file.nrSyncedExtents ∧
        ∀ C : Catalog, (C.apply (.completeFilesSnapshot frs)).extents σ.file.fileId = σ.pushed
  | .snapshotLogged _ => σ.replayed = σ.pushed
  | .logged => σ.replayed = σ.pushed

/-- The invariant of the two threads. -/
structure Consistent (σ : Racing) : Prop where
  nrSynced_le : σ.file.nrSyncedExtents ≤ σ.file.extents.length
  agrees : σ.Agrees

theorem Synced.consistent (h : σ.Synced) : σ.Consistent where
  nrSynced_le := h.nrSynced.le
  agrees := by
    rw [Agrees, h.pc]
    exact h.replayed.trans (List.take_of_length_le (by simp [pushed, h.nrSynced])).symm

/-- A synced extent is in the log. -/
theorem Consistent.mem_replayed (h : σ.Consistent) {e : Nat × Nat}
    (he : e ∈ σ.pushed.take σ.file.nrSyncedExtents) : e ∈ σ.replayed := by
  have hall := List.mem_of_mem_take he
  have hag := h.agrees
  unfold Agrees at hag
  split at hag
  · rwa [hag]
  · rwa [hag]
  · rwa [hag]
  · rwa [hag.1]
  · rwa [hag.1]
  · rwa [hag]
  · rwa [hag]

/-- A step that leaves the extents, the marks and the metadata thread alone. -/
theorem Consistent.frame (h : σ.Consistent) (hid : σ'.file.fileId = σ.file.fileId)
    (he : σ'.file.extents = σ.file.extents)
    (hn : σ'.file.nrSyncedExtents = σ.file.nrSyncedExtents) (hl : σ'.log = σ.log)
    (hp : σ'.pc = σ.pc) : σ'.Consistent where
  nrSynced_le := by
    rw [hn, he]
    exact h.nrSynced_le
  agrees := by
    have hag := h.agrees
    unfold Agrees replayed pushed at hag ⊢
    rw [hp, hid, he, hn, hl]
    exact hag

/-- A push outside the window is not counted as synced. -/
theorem Consistent.pushExtent (h : σ.Consistent) (hq : σ.encodedNotMarked = false)
    (e : ZoneExtent) :
    Consistent { σ with file := { σ.file with extents := σ.file.extents ++ [e] } } where
  nrSynced_le := by
    have := h.nrSynced_le
    simp only [List.length_append]
    omega
  agrees := by
    have htake : (σ.pushed ++ [(e.start, e.length)]).take σ.file.nrSyncedExtents =
        σ.pushed.take σ.file.nrSyncedExtents :=
      List.take_append_of_le_length (by simpa [pushed] using h.nrSynced_le)
    have hag := h.agrees
    unfold Agrees replayed pushed at hag ⊢
    unfold encodedNotMarked at hq
    simp only [List.map_append, List.map_cons, List.map_nil]
    rw [pushed] at htake
    cases hpc : σ.pc with
    | idle => rw [hpc] at hag; exact hag.trans htake.symm
    | rolling sync => rw [hpc] at hag; exact hag.trans htake.symm
    | encoded update fits =>
        cases fits with
        | false => rw [hpc] at hag; exact hag.trans htake.symm
        | true => simp [hpc] at hq
    | snapshotEncoded frs sync => simp [hpc] at hq
    | snapshotLogged sync => simp [hpc] at hq
    | logged => simp [hpc] at hq

/-- Marking the file is right once the log has all its extents. -/
theorem Consistent.metadataSynced (h : σ.replayed = σ.pushed) {pc : MetaPc}
    (hpc : pc = .idle ∨ pc = .logged) :
    Consistent { σ with file := σ.file.metadataSynced, pc := pc } where
  nrSynced_le := le_rfl
  agrees := by
    have htake : σ.replayed = σ.pushed.take σ.file.extents.length := by
      rw [h, List.take_of_length_le (by simp [pushed])]
    rcases hpc with rfl | rfl
    · exact htake
    · exact h

/-- A quiet step keeps the threads consistent. -/
theorem Consistent.step (h : σ.Consistent) (hq : σ.quiet st = true) (hs : σ.step st = some σ') :
    σ'.Consistent := by
  cases st with
  | zoneAppend n =>
      obtain ⟨-, rfl⟩ : _ ∧ _ := by simpa [Racing.step] using hs
      exact h.frame rfl rfl rfl rfl rfl
  | advanceStart =>
      obtain ⟨-, rfl⟩ : _ ∧ _ := by simpa [Racing.step] using hs
      exact h.frame rfl rfl rfl rfl rfl
  | advanceSize n =>
      obtain ⟨-, rfl⟩ : _ ∧ _ := by simpa [Racing.step] using hs
      exact h.frame rfl rfl rfl rfl rfl
  | pushExtent header length =>
      obtain ⟨-, rfl⟩ : _ ∧ _ := by simpa [Racing.step] using hs
      exact h.pushExtent (by simpa [quiet] using hq) _
  | otherRecord r =>
      obtain ⟨⟨hpc, hr, hid⟩, rfl⟩ : _ ∧ _ := by simpa [Racing.step] using hs
      refine ⟨h.nrSynced_le, ?_⟩
      have hag := h.agrees
      unfold Agrees replayed at hag ⊢
      simp only [hpc, Catalog.replay_append, Catalog.replay_cons, Catalog.replay_nil] at hag ⊢
      rw [Catalog.extents_apply_of_ne hr hid]
      exact hag
  | rollForOther =>
      obtain ⟨hpc, rfl⟩ : _ ∧ _ := by simpa [Racing.step] using hs
      refine ⟨h.nrSynced_le, ?_⟩
      have hag := h.agrees
      rw [Agrees, hpc] at hag
      exact hag
  | encodeUpdate own links now fits =>
      obtain ⟨hpc, rfl⟩ : _ ∧ _ := by simpa [Racing.step] using hs
      refine ⟨h.nrSynced_le, ?_⟩
      have hag := h.agrees
      rw [Agrees, hpc] at hag
      cases fits with
      | false => exact hag
      | true =>
          refine ⟨hag, rfl, ?_⟩
          simp [ZoneFile.encodeUpdateTo, ZoneFile.encodeTo, pushed, List.map_drop]
  | addRecord =>
      have hag := h.agrees
      unfold Agrees at hag
      unfold Racing.step at hs
      cases hpc : σ.pc with
      | encoded update fits =>
          rw [hpc] at hag hs
          cases fits with
          | false =>
              obtain rfl := Option.some.inj hs
              exact ⟨h.nrSynced_le, hag⟩
          | true =>
              obtain rfl := Option.some.inj hs
              obtain ⟨hrep, hid, hext⟩ := hag
              refine ⟨h.nrSynced_le, ?_⟩
              show Catalog.extents _ _ = σ.pushed
              rw [Catalog.replay_append, Catalog.replay_cons, Catalog.replay_nil, ← hid,
                Catalog.extents_apply_update, hid, hext]
              have hrep' : Catalog.extents _ _ = _ := hrep
              rw [hrep', List.take_append_drop]
      | _ => simp [hpc] at hs
  | mark =>
      have hag := h.agrees
      unfold Agrees at hag
      unfold Racing.step at hs
      cases hpc : σ.pc with
      | logged =>
          rw [hpc] at hag hs
          obtain rfl := Option.some.inj hs
          exact Consistent.metadataSynced hag (.inl rfl)
      | _ => simp [hpc] at hs
  | encodeSnapshot before after =>
      have hag := h.agrees
      unfold Agrees at hag
      unfold Racing.step at hs
      cases hpc : σ.pc with
      | rolling sync =>
          rw [hpc] at hag hs
          obtain ⟨hb, rfl⟩ : _ ∧ _ := by simpa using hs
          refine ⟨h.nrSynced_le, hag, fun C ↦ ?_⟩
          have hext : (C.apply (.completeFilesSnapshot
              (before ++ σ.file.encodeSnapshotTo :: after))).extents
              σ.file.encodeSnapshotTo.fileId =
                σ.file.encodeSnapshotTo.extents :=
            Catalog.extents_apply_snapshot hb
          rw [show σ.file.encodeSnapshotTo.extents = σ.pushed by
            simp [ZoneFile.encodeSnapshotTo, ZoneFile.encodeTo, pushed]] at hext
          exact hext
      | _ => simp [hpc] at hs
  | addSnapshot =>
      have hag := h.agrees
      unfold Agrees at hag
      unfold Racing.step at hs
      cases hpc : σ.pc with
      | snapshotEncoded frs sync =>
          rw [hpc] at hag hs
          obtain rfl := Option.some.inj hs
          exact ⟨h.nrSynced_le, hag.2 (fun _ ↦ none)⟩
      | _ => simp [hpc] at hs
  | markSnapshot =>
      have hag := h.agrees
      unfold Agrees at hag
      unfold Racing.step at hs
      cases hpc : σ.pc with
      | snapshotLogged sync =>
          rw [hpc] at hag hs
          obtain rfl := Option.some.inj hs
          refine Consistent.metadataSynced hag ?_
          cases sync
          · exact .inl rfl
          · exact .inr rfl
      | _ => simp [hpc] at hs

/-- A quiet run keeps the threads consistent. -/
theorem Consistent.run (h : σ.Consistent) {sts : List RaceStep} (hq : σ.quietRun sts = true)
    (hr : σ.run sts = some σ') : σ'.Consistent := by
  induction sts generalizing σ with
  | nil =>
      obtain rfl := Option.some.inj hr
      exact h
  | cons st sts ih =>
      obtain ⟨σ₁, hs, hr'⟩ := Option.bind_eq_some_iff.mp hr
      simp only [quietRun, hs, Option.map_some, Option.getD_some, Bool.and_eq_true] at hq
      exact ih (h.step hq.1 hs) hq.2 hr'

/-- While no extent is pushed between an encoding of the file and the mark that
follows, every pushed extent is in a record of the log or still counted as not
synced, and behind the writer's own `PersistMetadata` the log gives back all of
them, once and in order. -/
theorem pushed_extents_kept {sts : List RaceStep} (h₀ : σ.Synced) (hq : σ.quietRun sts = true)
    (hr : σ.run sts = some σ') :
    (∀ i (hi : i < σ'.pushed.length), σ'.file.nrSyncedExtents ≤ i ∨
      ∃ r ∈ σ'.log, r.Holds σ'.file.fileId (σ'.pushed.get ⟨i, hi⟩)) ∧
    (∀ σ'', σ'.own = true → σ'.step .mark = some σ'' → σ''.replayed = σ''.pushed) := by
  have hc := h₀.consistent.run hq hr
  refine ⟨fun i hi ↦ ?_, fun σ'' _ hm ↦ ?_⟩
  · rcases Nat.lt_or_ge i σ'.file.nrSyncedExtents with hlt | hge
    · refine .inr (Catalog.mem_extents_replay (hc.mem_replayed ?_))
      rw [List.mem_take_iff_getElem]
      exact ⟨i, lt_min hlt hi, rfl⟩
    · exact .inl hge
  · have hag := hc.agrees
    unfold Agrees at hag
    unfold Racing.step at hm
    cases hpc : σ'.pc with
    | logged =>
        rw [hpc] at hag hm
        obtain rfl := Option.some.inj hm
        exact hag
    | _ => simp [hpc] at hm

/-- A file that has just been created, with its creation in the log. -/
def justCreated : Racing where
  file := { fileId := 1, linkfiles := ["a"], extentStart := 0 }
  zone := 0
  wp := 0
  log := [.completeFilesSnapshot [], .fileUpdate ⟨1, 0, 0, [], 0, 0, false, ["a"]⟩]
  pc := .idle
  own := false

theorem synced_justCreated : justCreated.Synced := ⟨rfl, rfl, rfl⟩

/-- A buffered append, a rename by another thread during the next append, and
the writer's own sync up to its mark. -/
def quietSteps : List RaceStep :=
  [.zoneAppend 8, .pushExtent 0 8, .advanceStart, .advanceSize 8,
    .encodeUpdate false ["b"] 0 true, .zoneAppend 8, .addRecord, .mark,
    .pushExtent 0 8, .advanceStart, .advanceSize 8, .encodeUpdate true ["b"] 0 true, .addRecord]

/-- The same steps, but the second extent is pushed before the rename has marked
the file. -/
def racySteps : List RaceStep :=
  [.zoneAppend 8, .pushExtent 0 8, .advanceStart, .advanceSize 8,
    .encodeUpdate false ["b"] 0 true, .zoneAppend 8, .addRecord, .pushExtent 0 8, .mark,
    .advanceStart, .advanceSize 8, .encodeUpdate true ["b"] 0 true, .addRecord]

/-- Where a run from the new file ends. -/
def after (sts : List RaceStep) : Racing := (justCreated.run sts).getD justCreated

theorem run_quietSteps : justCreated.run quietSteps = some (after quietSteps) := rfl

theorem run_racySteps : justCreated.run racySteps = some (after racySteps) := rfl

/-- Both extents are in the log once the sync has returned. -/
theorem pushed_extents_kept_quietSteps :
    Racing.replayed
      { after quietSteps with file := (after quietSteps).file.metadataSynced, pc := .idle } =
      [(0, 8), (8, 8)] :=
  (pushed_extents_kept synced_justCreated (by decide) run_quietSteps).2 _ rfl rfl

/-- The rename encodes the file, the writer pushes an extent, and the rename
marks it as synced: the writer's next sync does not write it to the log. -/
theorem pushed_extent_lost : ¬ ∀ (σ σ' : Racing) (sts : List RaceStep), σ.Synced →
    σ.run sts = some σ' →
    (∀ i (hi : i < σ'.pushed.length), σ'.file.nrSyncedExtents ≤ i ∨
      ∃ r ∈ σ'.log, r.Holds σ'.file.fileId (σ'.pushed.get ⟨i, hi⟩)) ∧
    (∀ σ'', σ'.own = true → σ'.step .mark = some σ'' → σ''.replayed = σ''.pushed) := by
  intro h
  have hlost : [(0, 8)] = [(0, 8), (8, 8)] :=
    (h justCreated _ racySteps synced_justCreated run_racySteps).2 _ rfl rfl
  cases hlost

end Racing

end ZenFs
