import ZenFs.Fs.Accounts
import ZenFs.Names.Mounted

/-!
# Names and links of a mounted filesystem

`Mount` replays some records and changes no name behind that.  If the records fit
together, names and links agree in every run on the filesystem.  The code writes logs
whose records do not: the creation of a file whose record makes the log roll is in no
log, and the next update of the file then brings it back with all its links but one name.
-/

namespace ZenFs

universe u

/-! ## The records that are replayed -/

section Replay

variable {G : Geometry} {rs rs' : List Record} {e : Option Status} {snap : Bool} {s s₁ s' : Store}

/-- Records without a snapshot are followed by those of the next zone. -/
theorem replay_append (h : replay rs none snap s = .notFound s₁) :
    replay (rs ++ rs') e snap s = replay rs' e false s₁ := by
  induction rs generalizing snap s with
  | nil =>
      cases snap with
      | false =>
          obtain rfl := RecoverRes.notFound.inj h
          rfl
      | true => cases h
  | cons r rs ih =>
      rw [replay] at h
      rw [List.cons_append, replay]
      split at h
      · cases h
      · exact ih h

/-- A recovery that does not fail replays records. -/
theorem exists_replay_of_recoverLoop {z : MediaZone} {wp : Nat} {res : RecoverRes} (fuel : Nat) :
    ∀ {pos : Nat} {snap : Bool} {s : Store}, recoverLoop G z wp fuel pos snap s = res →
      (∀ e, res ≠ .failed e) → ∃ rs, replay rs none snap s = res := by
  induction fuel with
  | zero => exact fun h hne ↦ absurd h.symm (hne _)
  | succ fuel ih =>
      intro pos snap s h hne
      unfold recoverLoop at h
      split at h
      · exact absurd h.symm (hne _)
      · exact ⟨[], h⟩
      · exact ⟨[], h⟩
      · rename_i r p _ _
        split at h
        · exact absurd h.symm (hne _)
        · rename_i s₁ hs₁
          obtain ⟨rs, hrs⟩ := ih h hne
          refine ⟨r :: rs, ?_⟩
          rw [replay, hs₁]
          exact hrs

theorem exists_replay_of_tryRecover {d : Media} {v : ValidZone} {vs : List ValidZone}
    (h : tryRecover G d vs s = .ok (v, s')) : ∃ rs, replay rs none false s = .ok s' := by
  induction vs generalizing s with
  | nil => cases h
  | cons v' vs ih =>
      unfold tryRecover at h
      split at h
      · rename_i s₁ heq
        cases h
        exact exists_replay_of_recoverLoop _ heq fun _ ↦ nofun
      · rename_i s₁ heq
        obtain ⟨rs, hrs⟩ := exists_replay_of_recoverLoop _ heq fun _ ↦ nofun
        obtain ⟨rs', hrs'⟩ := ih h
        exact ⟨rs ++ rs', (replay_append hrs).trans hrs'⟩
      · cases h

theorem exists_replay_of_mountRecover {d : Media} {nr : Nat} {v : ValidZone}
    (h : mountRecover G d nr s = .ok (v, s')) : ∃ rs, replay rs none false s = .ok s' := by
  unfold mountRecover at h
  split at h
  · cases h
  · split at h
    · cases h
    · cases h
    · exact exists_replay_of_tryRecover h

end Replay

/-! ## What `Mount` does behind the recovery -/

/-- Nothing of the namespace in the store has changed. -/
structure Store.SameNames (s s' : Store) : Prop where
  files : s'.files = s.files
  key : ∀ r, (s'.heap r).nameKey = (s.heap r).nameKey
  nextRef : s'.nextRef = s.nextRef
  nextFileId : s'.nextFileId = s.nextFileId

namespace Store.SameNames

variable {G : Geometry} {s s₁ s' : Store}

theorem refl (s : Store) : SameNames s s := ⟨rfl, fun _ ↦ rfl, rfl, rfl⟩

theorem trans (h : SameNames s s₁) (h' : SameNames s₁ s') : SameNames s s' :=
  ⟨h'.files.trans h.files, fun r ↦ (h'.key r).trans (h.key r), h'.nextRef.trans h.nextRef,
    h'.nextFileId.trans h.nextFileId⟩

theorem recoverFile {fuel : Nat} {r : Ref} {st : Status}
    (h : s.recoverFile fuel r = some (s', st)) : SameNames s s' := by
  obtain ⟨⟨d, f, st'⟩, hd, heq⟩ := Option.map_eq_some_iff.mp h
  obtain ⟨new, start, size, hf, -⟩ := Zbd.recover_spec hd
  have hkey : f.nameKey = (s.heap r).nameKey := by rw [hf]; rfl
  cases heq
  refine ⟨rfl, fun r' ↦ ?_, rfl, rfl⟩
  by_cases hr : r' = r
  · subst hr
    simpa [Store.setFile] using hkey
  · simp [Store.setFile, hr]

theorem repair {fuel : Nat} {rs : List Ref} {st : Status} (h : s.repair fuel rs = some (s', st)) :
    SameNames s s' := by
  induction rs generalizing s with
  | nil =>
      cases h
      exact .refl _
  | cons r rs ih =>
      unfold Store.repair at h
      split at h
      · rename_i s₁ heq
        exact (recoverFile heq).trans (ih h)
      · exact recoverFile h

theorem of_metaOnly {fs fs' : Fs} (h : Fs.MetaOnly fs fs') : SameNames fs.toStore fs'.toStore where
  files := h.files
  key r := (congrArg ZoneFile.nameKey (h.heap r) :)
  nextRef := h.nextRef
  nextFileId := h.nextFileId

theorem resetZone (fs : Fs) (i : ZoneId) : SameNames fs.toStore (fs.resetZone i).1.toStore := by
  unfold Fs.resetZone
  dsimp only
  split
  · exact ⟨rfl, fun _ ↦ rfl, rfl, rfl⟩
  · exact ⟨rfl, fun _ ↦ rfl, rfl, rfl⟩

theorem resetZones (fs : Fs) {is : List ZoneId} :
    SameNames fs.toStore (fs.resetZones is).1.toStore := by
  induction is generalizing fs with
  | nil => exact .refl _
  | cons i is ih =>
      unfold Fs.resetZones
      dsimp only
      split
      · exact ih fs
      · exact Fs.andThen_cases (P := fun x ↦ SameNames fs.toStore x.1.toStore)
          (fun _ ↦ resetZone fs i) fun _ ↦ (resetZone fs i).trans (ih _)

end Store.SameNames

namespace Names

variable {σ : Type u} {s s' : Names σ}

theorem SameNames.ofStore {t t' : Store} (h : t.SameNames t') (w : σ) :
    SameNames (Names.ofStore t w) (Names.ofStore t' w) where
  files_eq := h.files
  key_eq r := by
    unfold Names.ofStore
    rw [h.files]
    dsimp only
    split
    · exact h.key r
    · rfl
  nextRef_eq := h.nextRef
  nextFileId_eq := h.nextFileId

/-- What `Mount` hands over comes from records. -/
theorem mountedFrom_mount {G : Geometry} {fuel : Nat} {media : Media} {nr : Nat} {zbd : Zbd}
    {bufferSize : Nat} {env : Env} {fs : Fs}
    (hm : Fs.mount G fuel media nr zbd bufferSize env = some (.ok fs)) (w : σ) :
    ∃ rs, MountedFrom zbd rs (ofStore fs.toStore w) := by
  obtain ⟨v, store, s₁, hrec, hrep, -, rfl⟩ := Fs.exists_of_mount hm
  obtain ⟨rs, hrs⟩ := exists_replay_of_mountRecover hrec
  have hroll := Store.SameNames.of_metaOnly (Fs.metaOnly_rollMetaZoneLocked (G := G)
    (Fs.recovered G s₁ media nr v bufferSize env))
  exact ⟨rs, store, hrs,
    .ofStore (((Store.SameNames.repair hrep).trans hroll).trans (.resetZones _)) w⟩

/-! ## Runs -/

/-- The creation of the second file does not fit the log.  The snapshot of the new zone
does not have the file and the record is dropped, so the log has only what `LinkFile`
records: a new file with two links. -/
def linkedRun : List (Env × Fs.Op) :=
  [.openWritable "c" true false 0, .rename "c" "d", .rename "d" "c", .rename "c" "d",
    .rename "d" "c",
    .rename "c" "d", .openWritable "a" true false 1, .link "a" "b"].map (Fs.firstZoneEnv, ·)

/-- The second link of the file is no name, also behind a further call. -/
def missesName (fs : Fs) : Bool :=
  (step (World.ofOutcomes {}) (ofStore fs.toStore ()) (1, .openWritableFile "e" false false)).any
    fun s ↦ decide (s.files.lookup "b" = none ∧ "b" ∈ (s.heap 1).linkfiles)

end Names

end ZenFs
