import ZenFs.Names.Mounted

/-!
# The records of a namespace

The calls on names over a world that keeps the records it is given.  A call that
touches a file writes records of that file only, so a file that has left `files_`
is in no record of a later call, and neither is another file with its id.
-/

namespace ZenFs

/-- The files that a record holds. -/
def Record.files : Record → List FileRecord
  | .completeFilesSnapshot frs => frs
  | .fileUpdate fr => [fr]
  | .fileReplace fr => [fr]
  | _ => []

/-- The world with these outcomes, which keeps the records. -/
def World.recording (o : Outcomes) : World (List Record) where
  persistRecord recs rec := (recs ++ [rec], o.persistRecord rec)
  now _ := o.now
  auxDeleteFile recs fname := (recs, o.auxDeleteFile fname)
  auxRenameFile recs source_path dest_path := (recs, o.auxRenameFile source_path dest_path)
  auxLinkFile recs fname lname := (recs, o.auxLinkFile fname lname)
  auxGetChildren recs dir := (recs, o.auxGetChildren dir)
  auxIsDirectory recs path := (recs, o.auxIsDirectory path)
  auxDeleteDir recs dir := (recs, o.auxDeleteDir dir)
  resetUnusedIOZones recs := (recs, o.resetUnusedIOZones)

theorem World.Answers.recording_eq {o : Outcomes} {recs recs' : List Record}
    (h : (World.recording o).Answers recs recs') : recs' = recs := by
  cases h <;> rfl

namespace Names

/-- A namespace with the records of its calls. -/
abbrev Recorded : Type := Names (List Record)

variable {o : Outcomes} {s s₁ s' : Recorded} {n src dst : Name} {r : Ref} {id : Nat}

/-! ## What a step touches -/

/-- From `s` to `s'` the object `r` and its names have changed, and the records written
are about the file `id`. -/
structure Touched (r : Ref) (id : Nat) (s s' : Recorded) : Prop where
  other : ∀ r', r' ≠ r → (s'.heap r').nameKey = (s.heap r').nameKey
  refs : ∀ n r', s'.files.lookup n = some r' → r' = r ∨ ∃ m, s.files.lookup m = some r'
  nextRef : s'.nextRef = s.nextRef
  nextFileId : s'.nextFileId = s.nextFileId
  wrote : ∃ recs, s'.world = s.world ++ recs ∧ ∀ rec ∈ recs, ∀ fr ∈ rec.files, fr.fileId = id

namespace Touched

theorem trans (h₁ : Touched r id s s₁) (h₂ : Touched r id s₁ s') : Touched r id s s' where
  other r' hne := (h₂.other r' hne).trans (h₁.other r' hne)
  refs := by
    intro n r' hn
    rcases h₂.refs n r' hn with rfl | ⟨m, hm⟩
    · exact .inl rfl
    · exact h₁.refs m r' hm
  nextRef := h₂.nextRef.trans h₁.nextRef
  nextFileId := h₂.nextFileId.trans h₁.nextFileId
  wrote := by
    obtain ⟨recs₁, hw₁, hr₁⟩ := h₁.wrote
    obtain ⟨recs₂, hw₂, hr₂⟩ := h₂.wrote
    refine ⟨recs₁ ++ recs₂, by rw [hw₂, hw₁, List.append_assoc], ?_⟩
    intro rec hrec
    rcases List.mem_append.mp hrec with hrec | hrec
    · exact hr₁ rec hrec
    · exact hr₂ rec hrec

/-- The file and its names are replaced, with records about it. -/
theorem relinked {files : Files} {f : ZoneFile} {w : List Record}
    (hrefs : ∀ n r', files.lookup n = some r' → r' = r ∨ ∃ m, s.files.lookup m = some r')
    (hw : ∃ recs, w = s.world ++ recs ∧ ∀ rec ∈ recs, ∀ fr ∈ rec.files, fr.fileId = id) :
    Touched r id s (s.relinked files r f w) where
  other r' hne := by simp [Names.relinked, hne]
  refs := hrefs
  nextRef := rfl
  nextFileId := rfl
  wrote := hw

/-- The file is persisted. -/
theorem sync (o : Outcomes) (hd : (s.heap r).isDeleted = false) (hid : (s.heap r).fileId = id) :
    Touched r id s (s.syncFileMetadataNoLock (.recording o) r).1 := by
  obtain ⟨fr, hfr, -, -, hw, hsame⟩ := syncFileMetadataNoLock_spec (.recording o) hd
  refine ⟨fun r' _ ↦ hsame.key_eq r', ?_, hsame.nextRef_eq, hsame.nextFileId_eq,
    [.fileUpdate fr], hw, ?_⟩
  · intro n r' hn
    rw [hsame.files_eq] at hn
    exact .inr ⟨n, hn⟩
  · intro rec hrec fr' hfr'
    obtain rfl := List.mem_singleton.mp hrec
    obtain rfl := List.mem_singleton.mp hfr'
    exact hfr.trans hid

end Touched

theorem lookup_of_insertNew {files : Files} {m : Name} {r' : Ref}
    (h : (Files.insertNew files n r).lookup m = some r') : r' = r ∨ files.lookup m = some r' := by
  rw [Files.lookup_insertNew] at h
  split at h
  · exact .inl (Option.some.inj h).symm
  · exact .inr h

/-- The names after a name has been taken away and another one has been added. -/
theorem refs_moved (files : Files) (src dst : Name) (r : Ref) (n : Name) (r' : Ref)
    (h : (Files.insertNew (files.erase src) dst r).lookup n = some r') :
    r' = r ∨ ∃ m, files.lookup m = some r' :=
  (lookup_of_insertNew h).imp_right fun h ↦ ⟨n, Files.lookup_of_erase h⟩

theorem deleteFileNoLock_recording {f : ZoneFile} (o : Outcomes) (hn : s.files.lookup n = some r)
    (hf : (s.heap r).removeLinkName n = .ok f) :
    s.deleteFileNoLock (.recording o) n =
      if o.deletion n = .ok then
        (s.relinked (s.files.erase n) r (if f.linkfiles = [] then f.setDeleted else f)
          (s.world ++ [.fileDeletion f.fileId n]), .ok)
      else (s.relinked (Files.insertNew (s.files.erase n) n r) r (f.addLinkName n)
        (s.world ++ [.fileDeletion f.fileId n]), o.deletion n) :=
  deleteFileNoLock_eq hn hf rfl

theorem touched_deleteFileNoLock (o : Outcomes) (h : s.Ok) (hn : s.files.lookup n = some r) :
    Touched r (s.heap r).fileId s (s.deleteFileNoLock (.recording o) n).1 ∧
      ((s.deleteFileNoLock (.recording o) n).1.heap r).fileId = (s.heap r).fileId := by
  obtain ⟨f, hf, hid, -, -⟩ := ZoneFile.removeLinkName_eq_ok ((h.link_iff n r).mp hn)
  have hw : ∃ recs, s.world ++ [Record.fileDeletion f.fileId n] = s.world ++ recs ∧
      ∀ rec ∈ recs, ∀ fr ∈ rec.files, fr.fileId = (s.heap r).fileId :=
    ⟨_, rfl, by simp [Record.files]⟩
  rw [deleteFileNoLock_recording o hn hf]
  split
  · refine ⟨.relinked (fun m r' hm ↦ .inr ⟨m, Files.lookup_of_erase hm⟩) hw, ?_⟩
    rw [relinked_heap_self]
    split <;> exact hid
  · refine ⟨.relinked (refs_moved _ _ _ _) hw, ?_⟩
    rw [relinked_heap_self]
    exact hid

theorem touched_moveFile (o : Outcomes) (h : s.Ok) (hs : s.files.lookup src = some r) :
    Touched r (s.heap r).fileId s (s.moveFile (.recording o) r src dst).1 ∧
      ((s.moveFile (.recording o) r src dst).1.heap r).fileId = (s.heap r).fileId := by
  obtain ⟨f, hf, hid, hlinks, hdel⟩ :=
    @ZoneFile.renameLink_eq_ok (s.heap r) src dst ((h.link_iff src r).mp hs)
  obtain ⟨s₁, hs₁⟩ : ∃ s₁, s₁ = s.relinked (Files.insertNew (s.files.erase src) dst r)
      r f s.world :=
    ⟨_, rfl⟩
  have hself : s₁.heap r = f := by rw [hs₁, relinked_heap_self]
  have h₁ : Touched r (s.heap r).fileId s s₁ := by
    rw [hs₁]
    exact .relinked (refs_moved _ _ _ _) ⟨[], by simp, by simp⟩
  have hlive : (s₁.heap r).isDeleted = false := by
    rw [hself, hdel, h.not_deleted src r hs]
  have h₂ := h₁.trans (.sync o hlive (by rw [hself, hid]))
  obtain ⟨-, -, -, -, -, hsame⟩ := syncFileMetadataNoLock_spec (.recording o) hlive
  rcases hsync : s₁.syncFileMetadataNoLock (.recording o) r with ⟨s₂, st⟩
  rw [hsync] at h₂ hsame
  have hid₂ : (s₂.heap r).fileId = (s.heap r).fileId := by rw [hsame.fileId_eq, hself, hid]
  have hdst : dst ∈ (s₂.heap r).linkfiles := by
    rw [hsame.linkfiles_eq, hself, hlinks]
    simp
  obtain ⟨f₂, hf₂, hidf, -, -⟩ := @ZoneFile.renameLink_eq_ok (s₂.heap r) dst src hdst
  rw [moveFile_eq hf (hs₁ ▸ hsync) hf₂]
  split
  · exact ⟨h₂, hid₂⟩
  · refine ⟨h₂.trans (.relinked (refs_moved _ _ _ _) ⟨[], by simp, by simp⟩), ?_⟩
    rw [relinked_heap_self, hidf, hid₂]

theorem touched_linkFile (o : Outcomes) {l : Name} (h : s.Ok) (hn : s.files.lookup n = some r)
    (hl : s.files.lookup l = none) :
    Touched r (s.heap r).fileId s (s.linkFile (.recording o) n l).1 ∧
      ((s.linkFile (.recording o) n l).1.heap r).fileId = (s.heap r).fileId := by
  obtain ⟨s₁, hs₁⟩ : ∃ s₁, s₁ = s.relinked (s.files.insertNew l r) r
      ((s.heap r).addLinkName l) s.world :=
    ⟨_, rfl⟩
  have hself : s₁.heap r = (s.heap r).addLinkName l := by rw [hs₁, relinked_heap_self]
  have h₁ : Touched r (s.heap r).fileId s s₁ := by
    rw [hs₁]
    exact .relinked (fun m r' hm ↦ (lookup_of_insertNew hm).imp_right fun hm ↦ ⟨m, hm⟩)
      ⟨[], by simp, by simp⟩
  have hlive : (s₁.heap r).isDeleted = false := by
    rw [hself]
    exact h.not_deleted n r hn
  have h₂ := h₁.trans (.sync o hlive (by rw [hself]; rfl))
  obtain ⟨-, -, -, -, -, hsame⟩ := syncFileMetadataNoLock_spec (.recording o) hlive
  rcases hsync : s₁.syncFileMetadataNoLock (.recording o) r with ⟨s₂, st⟩
  rw [hsync] at h₂ hsame
  have hid₂ : (s₂.heap r).fileId = (s.heap r).fileId := by
    rw [hsame.fileId_eq, hself]
    rfl
  have hl₂ : l ∈ (s₂.heap r).linkfiles := by
    rw [hsame.linkfiles_eq, hself, ZoneFile.addLinkName]
    simp
  obtain ⟨f₂, hf₂, hidf, -, -⟩ := ZoneFile.removeLinkName_eq_ok hl₂
  rw [linkFile_eq hn hl (hs₁ ▸ hsync) hf₂]
  split
  · exact ⟨h₂, hid₂⟩
  · refine ⟨h₂.trans (.relinked (fun m r' hm ↦ .inr ⟨m, Files.lookup_of_erase hm⟩)
      ⟨[], by simp, by simp⟩), ?_⟩
    rw [relinked_heap_self, hidf, hid₂]

/-- A creation touches the new object, behind the state in which its number and its id
have been given out. -/
theorem touched_createFile (o : Outcomes) (s : Recorded) (n : Name) (direct : Bool) :
    ∃ s₁, (∀ r', r' ≠ s.nextRef → s₁.heap r' = s.heap r') ∧ s₁.files = s.files ∧
      s₁.world = s.world ∧ s₁.nextRef = s.nextRef + 1 ∧ s₁.nextFileId = s.nextFileId + 1 ∧
      Touched s.nextRef s.nextFileId s₁ (s.createFile (.recording o) n direct).1 ∧
      (((s.createFile (.recording o) n direct).1.heap s.nextRef).isDeleted = false) ∧
      ((∃ m, (s.createFile (.recording o) n direct).1.files.lookup m = some s.nextRef) →
        (∃ m, s.files.lookup m = some s.nextRef) ∨
          ((s.createFile (.recording o) n direct).1.heap s.nextRef).fileId = s.nextFileId) := by
  obtain ⟨s₁, hs₁⟩ : ∃ s₁, s₁ =
      { s.setFile s.nextRef (s.newZoneFile (.recording o) n direct) with
        nextRef := s.nextRef + 1
        nextFileId := s.nextFileId + 1 } := ⟨_, rfl⟩
  have hself : s₁.heap s.nextRef = s.newZoneFile (.recording o) n direct := by
    rw [hs₁]
    exact setFile_heap_self ..
  have hlive : (s₁.heap s.nextRef).isDeleted = false := by
    rw [hself]
    rfl
  have h₂ : Touched s.nextRef s.nextFileId s₁
      (s₁.syncFileMetadataNoLock (.recording o) s.nextRef).1 :=
    .sync o hlive (by rw [hself]; rfl)
  obtain ⟨-, -, -, -, -, hsame⟩ := syncFileMetadataNoLock_spec (.recording o) hlive
  rcases hsync : s₁.syncFileMetadataNoLock (.recording o) s.nextRef with ⟨s₂, st⟩
  rw [hsync] at h₂ hsame
  refine ⟨s₁, ?_, by rw [hs₁]; rfl, by rw [hs₁]; rfl, by rw [hs₁], by rw [hs₁], ?_⟩
  · intro r' hne
    rw [hs₁]
    exact setFile_heap_of_ne s _ hne
  rw [createFile_eq hs₁ hsync]
  split
  · refine ⟨h₂.trans ⟨fun _ _ ↦ rfl, ?_, rfl, rfl, [], by simp, by simp⟩, ?_, fun _ ↦ .inr ?_⟩
    · exact fun m r' hm ↦ (lookup_of_insertNew hm).imp_right fun hm ↦ ⟨m, hm⟩
    · exact (hsame.isDeleted_eq _).trans hlive
    · exact (hsame.fileId_eq _).trans (by rw [hself]; rfl)
  · refine ⟨h₂.trans ⟨?_, fun m r' hm ↦ .inr ⟨m, hm⟩, rfl, rfl, [], by simp [setFile], by simp⟩,
      ?_, ?_⟩
    · exact fun r' hne ↦ congrArg ZoneFile.nameKey (setFile_heap_of_ne _ _ hne)
    · simp only [setFile_heap_self]
      rfl
    · rintro ⟨m, hm⟩
      refine .inl ⟨m, ?_⟩
      rw [setFile_files, hsame.files_eq, hs₁] at hm
      exact hm

/-! ## Files that are gone -/

/-- No file in `files_` has the id, and no new one gets it. -/
def Unused (s : Recorded) (id : Nat) : Prop :=
  id < s.nextFileId ∧ ∀ n r, s.files.lookup n = some r → (s.heap r).fileId ≠ id

/-- The ids of deleted files are not used. -/
structure Apart (s : Recorded) : Prop where
  ok : s.Ok
  unused : ∀ r, (s.heap r).isDeleted = true → s.Unused (s.heap r).fileId

/-- The object is a file with names, or one that has been deleted. -/
def Known (s : Recorded) (r : Ref) : Prop :=
  r < s.nextRef ∧ ((s.heap r).isDeleted = true ∨ ∃ n, s.files.lookup n = some r)

/-- The calls behind `s` keep to the ids that were in use or are new, and write
records of such files only. -/
structure Since (s s' : Recorded) : Prop where
  apart : s'.Apart
  unused : ∀ id, s.Unused id → s'.Unused id
  known : ∀ r, s.Known r → s'.Known r
  wrote : ∃ recs, s'.world = s.world ++ recs ∧
    ∀ rec ∈ recs, ∀ fr ∈ rec.files, ¬s.Unused fr.fileId

/-- Records are written of files in `files_`, and nothing else is changed. -/
theorem Apart.since (h : s.Apart) (hs : SameNames s s') (hw : ∃ recs, s'.world = s.world ++ recs ∧
    ∀ rec ∈ recs, ∀ fr ∈ rec.files, ∃ n r, s.files.lookup n = some r ∧
    fr.fileId = (s.heap r).fileId) : Since s s' := by
  have hunused : ∀ id, s.Unused id → s'.Unused id := by
    rintro id ⟨hlt, hne⟩
    refine ⟨hs.nextFileId_eq ▸ hlt, fun n r hn ↦ ?_⟩
    rw [hs.files_eq] at hn
    rw [hs.fileId_eq]
    exact hne n r hn
  refine ⟨⟨hs.ok h.ok, fun r hd ↦ ?_⟩, hunused, ?_, ?_⟩
  · rw [hs.isDeleted_eq] at hd
    rw [hs.fileId_eq]
    exact hunused _ (h.unused r hd)
  · rintro r ⟨hlt, hr⟩
    refine ⟨hs.nextRef_eq ▸ hlt, ?_⟩
    rw [hs.isDeleted_eq, hs.files_eq]
    exact hr
  · obtain ⟨recs, hw, hrecs⟩ := hw
    refine ⟨recs, hw, fun rec hrec fr hfr hu ↦ ?_⟩
    obtain ⟨n, r, hn, hid⟩ := hrecs rec hrec fr hfr
    exact hu.2 n r hn hid.symm

/-- No file of a filesystem that has just been mounted is deleted. -/
theorem Mounted.apart (h : s.Mounted) : s.Apart := by
  refine ⟨h.ok, fun r hd ↦ ?_⟩
  by_cases hr : ∃ n, s.files.lookup n = some r
  · obtain ⟨n, hn⟩ := hr
    rw [h.ok.not_deleted n r hn] at hd
    cases hd
  · obtain ⟨zbd, rs, -, store, -, hsame⟩ := h
    have hdead : (ofStore store s.world).heap r = default := by
      refine if_neg (mt Files.refers_iff.mp ?_)
      rwa [hsame.files_eq] at hr
    rw [hsame.isDeleted_eq, hdead] at hd
    cases hd

theorem Since.refl (h : s.Apart) : Since s s := h.since (.refl s) ⟨[], by simp, by simp⟩

/-- An object that has not been touched. -/
theorem Ok.known_of_key (h : s.Ok) (h' : s'.Ok) (hk : (s'.heap r).nameKey = (s.heap r).nameKey)
    (hle : s.nextRef ≤ s'.nextRef) (hr : s.Known r) : s'.Known r := by
  simp only [ZoneFile.nameKey, Prod.mk.injEq] at hk
  obtain ⟨-, hlinks, hdel⟩ := hk
  refine ⟨hr.1.trans_le hle, hr.2.imp (fun hd ↦ hdel.trans hd) ?_⟩
  rintro ⟨n, hn⟩
  exact ⟨n, by rwa [h'.link_iff, hlinks, ← h.link_iff]⟩

/-- A step that touches a file in `files_`. -/
theorem Since.touched {t : Recorded} (h : Since t s) (hn : s.files.lookup n = some r)
    (ht : Touched r (s.heap r).fileId s s') (hid : (s'.heap r).fileId = (s.heap r).fileId)
    (hok : s'.Ok) (hkeep : (s'.heap r).isDeleted = true ∨ ∃ m, s'.files.lookup m = some r) :
    Since t s' := by
  have hs := h.apart
  have hids : ∀ r', (s'.heap r').fileId = (s.heap r').fileId := by
    intro r'
    by_cases hr : r' = r
    · rw [hr, hid]
    · exact congrArg Prod.fst (ht.other r' hr)
  have hrefs : ∀ m r', s'.files.lookup m = some r' → ∃ m', s.files.lookup m' = some r' := by
    intro m r' hm
    rcases ht.refs m r' hm with rfl | hm'
    · exact ⟨n, hn⟩
    · exact hm'
  have hunused : ∀ id, s.Unused id → s'.Unused id := by
    rintro id ⟨hlt, hne⟩
    refine ⟨ht.nextFileId ▸ hlt, fun m r' hm ↦ ?_⟩
    obtain ⟨m', hm'⟩ := hrefs m r' hm
    rw [hids]
    exact hne m' r' hm'
  refine ⟨⟨hok, fun r' hd ↦ ?_⟩, fun id hu ↦ hunused id (h.unused id hu), ?_, ?_⟩
  · by_cases hr : r' = r
    · -- the file itself has just been deleted
      subst hr
      refine ⟨?_, fun m r₁ hm heq ↦ ?_⟩
      · rw [hids, ht.nextFileId]
        exact hs.ok.id_lt n r' hn
      · obtain ⟨m', hm'⟩ := hrefs m r₁ hm
        rw [hids, hids] at heq
        obtain rfl := hs.ok.id_inj m' n r₁ r' hm' hn heq
        rw [hok.not_deleted m r₁ hm] at hd
        cases hd
    · have hd' : (s.heap r').isDeleted = true :=
        (congrArg (fun k ↦ k.2.2) (ht.other r' hr)).symm.trans hd
      rw [hids]
      exact hunused _ (hs.unused r' hd')
  · intro r' hr'
    by_cases hr : r' = r
    · rw [hr]
      exact ⟨ht.nextRef ▸ hs.ok.lt_nextRef n r hn, hkeep⟩
    · exact hs.ok.known_of_key hok (ht.other r' hr) ht.nextRef.ge (h.known r' hr')
  · obtain ⟨recs, hw, hrecs⟩ := h.wrote
    obtain ⟨recs', hw', hrecs'⟩ := ht.wrote
    refine ⟨recs ++ recs', by rw [hw', hw, List.append_assoc], fun rec hrec fr hfr hu ↦ ?_⟩
    rcases List.mem_append.mp hrec with hrec | hrec
    · exact hrecs rec hrec fr hfr hu
    · rw [hrecs' rec hrec fr hfr] at hu
      exact (h.unused _ hu).2 n r hn rfl

/-- A creation. -/
theorem Since.createFile {t : Recorded} (o : Outcomes) (h : Since t s)
    (hn : s.files.lookup n = none)
    (direct : Bool) : Since t (s.createFile (.recording o) n direct).1 := by
  have hs := h.apart
  obtain ⟨-, -, -, hok, -⟩ := hs.ok.createFile (.recording o) hn direct
  obtain ⟨s₁, hheap, hfiles, hworld, hnextRef, hnext, ht, hlive, hself⟩ :=
    touched_createFile o s n direct
  generalize (s.createFile (.recording o) n direct).1 = s' at hok ht hlive hself
  have hnext' : s'.nextFileId = s.nextFileId + 1 := ht.nextFileId.trans hnext
  have hkey : ∀ r', r' ≠ s.nextRef → (s'.heap r').nameKey = (s.heap r').nameKey :=
    fun r' hne ↦ (ht.other r' hne).trans (congrArg ZoneFile.nameKey (hheap r' hne))
  have hunused : ∀ id, s.Unused id → s'.Unused id := by
    rintro id ⟨hlt, hne⟩
    refine ⟨by omega, fun m r' hm ↦ ?_⟩
    by_cases hr : r' = s.nextRef
    · subst hr
      rcases hself ⟨m, hm⟩ with ⟨m', hm'⟩ | hid
      · exact absurd (hs.ok.lt_nextRef m' _ hm') (Nat.lt_irrefl _)
      · omega
    · rcases ht.refs m r' hm with hr' | ⟨m', hm'⟩
      · exact absurd hr' hr
      · rw [hfiles] at hm'
        rw [show (s'.heap r').fileId = (s.heap r').fileId from congrArg Prod.fst (hkey r' hr)]
        exact hne m' r' hm'
  refine ⟨⟨hok, fun r' hd ↦ ?_⟩, fun id hu ↦ hunused id (h.unused id hu), ?_, ?_⟩
  · have hr : r' ≠ s.nextRef := by
      rintro rfl
      rw [hlive] at hd
      cases hd
    have hd' : (s.heap r').isDeleted = true :=
      (congrArg (fun k ↦ k.2.2) (hkey r' hr)).symm.trans hd
    rw [show (s'.heap r').fileId = (s.heap r').fileId from congrArg Prod.fst (hkey r' hr)]
    exact hunused _ (hs.unused r' hd')
  · intro r' hr'
    have hr := h.known r' hr'
    have hle : s.nextRef ≤ s'.nextRef := (ht.nextRef.trans hnextRef).symm ▸ Nat.le_succ _
    exact hs.ok.known_of_key hok (hkey r' hr.1.ne) hle hr
  · obtain ⟨recs, hw, hrecs⟩ := h.wrote
    obtain ⟨recs', hw', hrecs'⟩ := ht.wrote
    refine ⟨recs ++ recs', by rw [hw', hworld, hw, List.append_assoc], fun rec hrec fr hfr hu ↦ ?_⟩
    rcases List.mem_append.mp hrec with hrec | hrec
    · exact hrecs rec hrec fr hfr hu
    · rw [hrecs' rec hrec fr hfr] at hu
      exact Nat.lt_irrefl _ (h.unused _ hu).1

theorem known_deleteFileNoLock (o : Outcomes) (h : s.Ok) (hn : s.files.lookup n = some r)
    (hok : (s.deleteFileNoLock (.recording o) n).1.Ok) :
    ((s.deleteFileNoLock (.recording o) n).1.heap r).isDeleted = true ∨
      ∃ m, (s.deleteFileNoLock (.recording o) n).1.files.lookup m = some r := by
  obtain ⟨f, hf, -, -, -⟩ := ZoneFile.removeLinkName_eq_ok ((h.link_iff n r).mp hn)
  rw [deleteFileNoLock_recording o hn hf] at hok ⊢
  split
  · rename_i hst
    rw [if_pos hst] at hok
    rw [relinked_heap_self]
    cases hl : f.linkfiles with
    | nil => exact .inl rfl
    | cons m ms =>
        refine .inr ⟨m, (hok.link_iff m r).mpr ?_⟩
        rw [relinked_heap_self]
        simp [hl]
  · exact .inr ⟨n, (lookup_reinsert hn n).trans hn⟩

/-- Every call on names keeps to it. -/
theorem Since.kept (o : Outcomes) (t : Recorded) : Kept (.recording o) (Since t) where
  ok h := h.apart.ok
  answers := by
    intro s w h hw
    rw [hw.recording_eq]
    exact h
  deleteFileNoLock := by
    intro s n r h hn
    obtain ⟨ht, hid⟩ := touched_deleteFileNoLock o h.apart.ok hn
    have hok := (h.apart.ok.deleteFileNoLock (.recording o) hn).1
    exact h.touched hn ht hid hok (known_deleteFileNoLock o h.apart.ok hn hok)
  createFile h hn direct := h.createFile o hn direct
  linkFile := by
    intro s n l r h hn hl
    obtain ⟨ht, hid⟩ := touched_linkFile o h.apart.ok hn hl
    obtain ⟨st, -, -, hok, hlook⟩ := h.apart.ok.linkFile (.recording o) hn hl
    refine h.touched hn ht hid hok (.inr ⟨n, ?_⟩)
    have hne : n ≠ l := by
      rintro rfl
      rw [hn] at hl
      cases hl
    simpa [hlook, hne] using hn
  moveFile := by
    intro s src dst r h hs hd
    obtain ⟨ht, hid⟩ := touched_moveFile o h.apart.ok hs
    obtain ⟨st, -, -, hok, hlook⟩ := h.apart.ok.moveFile (.recording o) hs hd
    refine h.touched hs ht hid hok (.inr ?_)
    by_cases hst : st = .ok
    · exact ⟨dst, by simp [hlook, hst]⟩
    · exact ⟨src, by simp [hlook, hst, hs]⟩

end Names

end ZenFs
