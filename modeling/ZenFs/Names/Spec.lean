import ZenFs.Names.Basic
import ZenFs.Fs.Catalog

/-!
# Names and links agree

`files_` and the link lists of the files are two representations of one
relation, updated separately by every operation and by every rollback.  Each
operation is given a specification in terms of `files_` alone; that the link
lists follow is part of the invariant `Names.Ok`.
-/

namespace ZenFs

universe u

/-- The part of a file that the namespace is about. -/
def ZoneFile.nameKey (f : ZoneFile) : Nat × List Name × Bool := (f.fileId, f.linkfiles, f.isDeleted)

namespace ZoneFile

variable {f : ZoneFile} {n src dest : Name}

theorem removeLinkName_eq_ok (h : n ∈ f.linkfiles) :
    ∃ f', f.removeLinkName n = .ok f' ∧ f'.fileId = f.fileId ∧
      f'.linkfiles = f.linkfiles.erase n ∧ f'.isDeleted = f.isDeleted :=
  ⟨_, if_pos h, rfl, rfl, rfl⟩

theorem renameLink_eq_ok (h : src ∈ f.linkfiles) :
    ∃ f', f.renameLink src dest = .ok f' ∧ f'.fileId = f.fileId ∧
      f'.linkfiles = f.linkfiles.erase src ++ [dest] ∧ f'.isDeleted = f.isDeleted :=
  ⟨_, if_pos h, rfl, rfl, rfl⟩

end ZoneFile

namespace Names

variable {σ : Type u} {W : World σ} {s s' : Names σ} {n m src dst : Name} {r : Ref}

/-- The invariant: a name maps to a file exactly if it is among the links of the
file, where it occurs once; files in `files_` have distinct ids below
`next_file_id_` and are not marked as deleted. -/
structure Ok (s : Names σ) : Prop where
  link_iff : ∀ n r, s.files.lookup n = some r ↔ n ∈ (s.heap r).linkfiles
  nodup : ∀ r, (s.heap r).linkfiles.Nodup
  id_inj : ∀ n n' r r', s.files.lookup n = some r → s.files.lookup n' = some r' →
    (s.heap r).fileId = (s.heap r').fileId → r = r'
  id_lt : ∀ n r, s.files.lookup n = some r → (s.heap r).fileId < s.nextFileId
  not_deleted : ∀ n r, s.files.lookup n = some r → (s.heap r).isDeleted = false
  lt_nextRef : ∀ n r, s.files.lookup n = some r → r < s.nextRef

/-- Nothing of the namespace has changed. -/
structure SameNames (s s' : Names σ) : Prop where
  files_eq : s'.files = s.files
  key_eq : ∀ r, (s'.heap r).nameKey = (s.heap r).nameKey
  nextRef_eq : s'.nextRef = s.nextRef
  nextFileId_eq : s'.nextFileId = s.nextFileId

namespace SameNames

theorem refl (s : Names σ) : SameNames s s := ⟨rfl, fun _ ↦ rfl, rfl, rfl⟩

theorem fileId_eq (h : SameNames s s') (r : Ref) : (s'.heap r).fileId = (s.heap r).fileId :=
  congrArg Prod.fst (h.key_eq r)

theorem linkfiles_eq (h : SameNames s s') (r : Ref) :
    (s'.heap r).linkfiles = (s.heap r).linkfiles :=
  congrArg (fun k ↦ k.2.1) (h.key_eq r)

theorem isDeleted_eq (h : SameNames s s') (r : Ref) :
    (s'.heap r).isDeleted = (s.heap r).isDeleted :=
  congrArg (fun k ↦ k.2.2) (h.key_eq r)

theorem setFile (h : SameNames s s') {f : ZoneFile} (hf : f.nameKey = (s.heap r).nameKey) :
    SameNames s (s'.setFile r f) where
  files_eq := h.files_eq
  key_eq := by
    intro r'
    by_cases hr : r' = r
    · subst hr
      simpa [Names.setFile] using hf
    · simpa [Names.setFile, hr] using h.key_eq r'
  nextRef_eq := h.nextRef_eq
  nextFileId_eq := h.nextFileId_eq

theorem ok (h : SameNames s s') (hs : s.Ok) : s'.Ok where
  link_iff := by
    intro n r
    rw [h.files_eq, h.linkfiles_eq]
    exact hs.link_iff n r
  nodup := fun r ↦ h.linkfiles_eq r ▸ hs.nodup r
  id_inj := by
    intro n n' r r' hn hn' hid
    rw [h.files_eq] at hn hn'
    rw [h.fileId_eq, h.fileId_eq] at hid
    exact hs.id_inj n n' r r' hn hn' hid
  id_lt := by
    intro n r hn
    rw [h.files_eq] at hn
    rw [h.fileId_eq, h.nextFileId_eq]
    exact hs.id_lt n r hn
  not_deleted := by
    intro n r hn
    rw [h.files_eq] at hn
    rw [h.isDeleted_eq]
    exact hs.not_deleted n r hn
  lt_nextRef := by
    intro n r hn
    rw [h.files_eq] at hn
    rw [h.nextRef_eq]
    exact hs.lt_nextRef n r hn

end SameNames

/-- The object `r` and the names that map to it have changed, and nothing else. -/
theorem Ok.update (h : s.Ok) (hr : r < s'.nextRef) (href : s.nextRef ≤ s'.nextRef)
    (hself : ∀ m, s'.files.lookup m = some r ↔ m ∈ (s'.heap r).linkfiles)
    (hother : ∀ m r', r' ≠ r → (s'.files.lookup m = some r' ↔ s.files.lookup m = some r'))
    (hheap : ∀ r', r' ≠ r → (s'.heap r').nameKey = (s.heap r').nameKey)
    (hnodup : (s'.heap r).linkfiles.Nodup)
    (hid : (s'.heap r).linkfiles ≠ [] → ∀ m r', r' ≠ r → s.files.lookup m = some r' →
      (s'.heap r).fileId ≠ (s.heap r').fileId)
    (hlt : (s'.heap r).linkfiles ≠ [] → (s'.heap r).fileId < s'.nextFileId)
    (hle : s.nextFileId ≤ s'.nextFileId)
    (hdel : (s'.heap r).linkfiles ≠ [] → (s'.heap r).isDeleted = false) : s'.Ok := by
  have hlinked : ∀ {m}, s'.files.lookup m = some r → (s'.heap r).linkfiles ≠ [] :=
    fun hm ↦ List.ne_nil_of_mem ((hself _).mp hm)
  have hkeys : ∀ r', r' ≠ r → (s'.heap r').fileId = (s.heap r').fileId ∧
      (s'.heap r').linkfiles = (s.heap r').linkfiles ∧
      (s'.heap r').isDeleted = (s.heap r').isDeleted := by
    intro r' hne
    have hk := hheap r' hne
    simp only [ZoneFile.nameKey, Prod.mk.injEq] at hk
    exact hk
  refine ⟨?_, ?_, ?_, ?_, ?_, ?_⟩
  · intro m r'
    by_cases hne : r' = r
    · subst hne
      exact hself m
    · rw [hother m r' hne, (hkeys r' hne).2.1]
      exact h.link_iff m r'
  · intro r'
    by_cases hne : r' = r
    · subst hne
      exact hnodup
    · rw [(hkeys r' hne).2.1]
      exact h.nodup r'
  · intro m m' r₁ r₂ h₁ h₂ hids
    by_cases hne₁ : r₁ = r <;> by_cases hne₂ : r₂ = r
    · rw [hne₁, hne₂]
    · subst hne₁
      rw [(hkeys r₂ hne₂).1] at hids
      exact absurd hids (hid (hlinked h₁) m' r₂ hne₂ ((hother m' r₂ hne₂).mp h₂))
    · subst hne₂
      rw [(hkeys r₁ hne₁).1] at hids
      exact absurd hids.symm (hid (hlinked h₂) m r₁ hne₁ ((hother m r₁ hne₁).mp h₁))
    · rw [(hkeys r₁ hne₁).1, (hkeys r₂ hne₂).1] at hids
      exact h.id_inj m m' r₁ r₂ ((hother m r₁ hne₁).mp h₁) ((hother m' r₂ hne₂).mp h₂) hids
  · intro m r' hm
    by_cases hne : r' = r
    · subst hne
      exact hlt (hlinked hm)
    · rw [(hkeys r' hne).1]
      exact (h.id_lt m r' ((hother m r' hne).mp hm)).trans_le hle
  · intro m r' hm
    by_cases hne : r' = r
    · subst hne
      exact hdel (hlinked hm)
    · rw [(hkeys r' hne).2.2]
      exact h.not_deleted m r' ((hother m r' hne).mp hm)
  · intro m r' hm
    by_cases hne : r' = r
    · subst hne
      exact hr
    · exact (h.lt_nextRef m r' ((hother m r' hne).mp hm)).trans_le href

/-- The state in which `files_` and the object `r` have been replaced. -/
def relinked (s : Names σ) (files : Files) (r : Ref) (f : ZoneFile) (w : σ) : Names σ :=
  { s with files := files, heap := Function.update s.heap r f, world := w }

/-- The links of a file in `files_` change together with the names that map to it. -/
theorem Ok.relinked (h : s.Ok) (hn : s.files.lookup n = some r) {files : Files}
    {f : ZoneFile} {w : σ} (hself : ∀ m, files.lookup m = some r ↔ m ∈ f.linkfiles)
    (hother : ∀ m r', r' ≠ r → (files.lookup m = some r' ↔ s.files.lookup m = some r'))
    (hnodup : f.linkfiles.Nodup) (hid : f.fileId = (s.heap r).fileId)
    (hdel : f.linkfiles ≠ [] → f.isDeleted = false) : (s.relinked files r f w).Ok := by
  have hr : (s.relinked files r f w).heap r = f := by simp [Names.relinked]
  refine h.update (h.lt_nextRef n r hn) le_rfl ?_ hother ?_ ?_ ?_ ?_ le_rfl ?_
  · rwa [hr]
  · intro r' hne
    simp [Names.relinked, hne]
  · rwa [hr]
  · intro _ m r' hne hm he
    exact hne (h.id_inj m n r' r hm hn (by rw [← he, hr, hid]))
  · intro _
    rw [hr, hid]
    exact h.id_lt n r hn
  · rwa [hr]

/-! ## One specification for each operation -/

theorem lookup_erase (files : Files) (n m : Name) :
    (files.erase n).lookup m = if m = n then none else files.lookup m := by
  by_cases h : m = n
  · subst h
    simp
  · simp [h]

theorem lookup_reinsert {files : Files} (h : files.lookup n = some r) (m : Name) :
    (Files.insertNew (files.erase n) n r).lookup m = files.lookup m := by
  rw [Files.lookup_insertNew, lookup_erase]
  by_cases hm : m = n
  · subst hm
    simp [h]
  · simp [hm]

@[simp] theorem setFile_files (s : Names σ) (r : Ref) (f : ZoneFile) :
    (s.setFile r f).files = s.files :=
  rfl

@[simp] theorem setFile_heap_self (s : Names σ) (r : Ref) (f : ZoneFile) :
    (s.setFile r f).heap r = f := by
  simp [setFile]

theorem setFile_heap_of_ne (s : Names σ) {r r' : Ref} (f : ZoneFile) (h : r' ≠ r) :
    (s.setFile r f).heap r' = s.heap r' := by
  simp [setFile, h]

/-- A file that is not deleted is persisted, with the links it has. -/
theorem syncFileMetadataNoLock_spec (W : World σ) (hd : (s.heap r).isDeleted = false) :
    ∃ fr, fr.fileId = (s.heap r).fileId ∧ fr.linkfiles = (s.heap r).linkfiles ∧
      (s.syncFileMetadataNoLock W r).2 = (W.persistRecord s.world (.fileUpdate fr)).2 ∧
      (s.syncFileMetadataNoLock W r).1.world = (W.persistRecord s.world (.fileUpdate fr)).1 ∧
      SameNames s (s.syncFileMetadataNoLock W r).1 := by
  set f := (s.heap r).setFileModificationTime (W.now s.world) with hf
  have hkey : SameNames s (s.setFile r f) := (SameNames.refl s).setFile rfl
  refine ⟨f.encodeUpdateTo, rfl, rfl, ?_⟩
  rw [syncFileMetadataNoLock, hd]
  simp only [Bool.false_eq_true, if_false, ← hf, setFile_heap_self]
  rcases hw : W.persistRecord s.world (.fileUpdate f.encodeUpdateTo) with ⟨w, st⟩
  have hcall : (s.setFile r f).persistRecord W (.fileUpdate f.encodeUpdateTo) =
      ({ s.setFile r f with world := w }, st) := by
    simp [persistRecord, call, setFile, hw]
  have hsame : SameNames s { s.setFile r f with world := w } :=
    ⟨hkey.files_eq, hkey.key_eq, hkey.nextRef_eq, hkey.nextFileId_eq⟩
  rw [hcall]
  cases st with
  | ok => exact ⟨rfl, rfl, hsame.setFile (hsame.key_eq r)⟩
  | _ => exact ⟨rfl, rfl, hsame⟩

@[simp] theorem relinked_heap_self (s : Names σ) (files : Files) (r : Ref) (f : ZoneFile) (w : σ) :
    (s.relinked files r f w).heap r = f := by
  simp [Names.relinked]

/-- What a deletion leaves behind, with the outcome of its persist. -/
theorem deleteFileNoLock_eq {f : ZoneFile} {w : σ} {st : Status} (hn : s.files.lookup n = some r)
    (hf : (s.heap r).removeLinkName n = .ok f)
    (hw : W.persistRecord s.world (.fileDeletion f.fileId n) = (w, st)) :
    s.deleteFileNoLock W n =
      if st = .ok then
        (s.relinked (s.files.erase n) r (if f.linkfiles = [] then f.setDeleted else f) w, .ok)
      else (s.relinked (Files.insertNew (s.files.erase n) n r) r (f.addLinkName n) w, st) := by
  have hcall : ({ s with files := s.files.erase n }.setFile r f).persistRecord W
      (.fileDeletion f.fileId n) = (s.relinked (s.files.erase n) r f w, st) := by
    simp [persistRecord, call, setFile, Names.relinked, hw]
  unfold Names.deleteFileNoLock
  simp only [hn, hf, hcall]
  cases st with
  | ok =>
      by_cases hnil : f.linkfiles = []
      · simp [hnil, setFile, Names.relinked]
      · simp [hnil]
  | _ => simp [setFile, Names.relinked]

/-- A deletion takes the name away if it can be persisted, and changes nothing
otherwise. -/
theorem Ok.deleteFileNoLock (W : World σ) (h : s.Ok) (hn : s.files.lookup n = some r) :
    (s.deleteFileNoLock W n).1.Ok ∧
      (s.deleteFileNoLock W n).2 =
        (W.persistRecord s.world (.fileDeletion (s.heap r).fileId n)).2 ∧
      (s.deleteFileNoLock W n).1.world =
        (W.persistRecord s.world (.fileDeletion (s.heap r).fileId n)).1 ∧
      ∀ m, (s.deleteFileNoLock W n).1.files.lookup m =
        if (s.deleteFileNoLock W n).2 = .ok ∧ m = n then none else s.files.lookup m := by
  obtain ⟨f, hf, hid, hlinks, hdel⟩ := ZoneFile.removeLinkName_eq_ok ((h.link_iff n r).mp hn)
  have hnodup : f.linkfiles.Nodup := hlinks ▸ (h.nodup r).erase n
  have hmem : ∀ m, m ∈ f.linkfiles ↔ m ≠ n ∧ s.files.lookup m = some r := by
    intro m
    rw [hlinks, (h.nodup r).mem_erase_iff, h.link_iff]
  have hlive : f.isDeleted = false := hdel.trans (h.not_deleted n r hn)
  rw [← hid]
  rcases hw : W.persistRecord s.world (.fileDeletion f.fileId n) with ⟨w, st⟩
  rw [deleteFileNoLock_eq hn hf hw]
  by_cases hst : st = .ok
  · rw [if_pos hst]
    refine ⟨h.relinked hn ?_ ?_ ?_ ?_ ?_, hst.symm, rfl,
      fun m ↦ by simp [Names.relinked, lookup_erase]⟩
    · intro m
      rw [lookup_erase, apply_ite ZoneFile.linkfiles]
      simp only [ZoneFile.setDeleted, ite_self, hmem]
      split <;> simp_all
    · intro m r' hne
      rw [lookup_erase]
      split
      · rename_i hm
        subst hm
        simp [hn, hne.symm]
      · exact Iff.rfl
    · rw [apply_ite ZoneFile.linkfiles]
      simpa only [ZoneFile.setDeleted, ite_self] using hnodup
    · rw [apply_ite ZoneFile.fileId]
      simpa only [ZoneFile.setDeleted, ite_self] using hid
    · split
      · rename_i hnil
        exact fun hne ↦ absurd hnil hne
      · exact fun _ ↦ hlive
  · rw [if_neg hst]
    have hlook := @lookup_reinsert n r s.files hn
    refine ⟨h.relinked hn ?_ ?_ ?_ hid fun _ ↦ hlive, rfl, rfl, fun m ↦ ?_⟩
    · intro m
      rw [hlook, ZoneFile.addLinkName, List.mem_append, hmem]
      by_cases hm : m = n
      · subst hm
        simp [hn]
      · simp [hm]
    · intro m r' _
      rw [hlook]
    · rw [ZoneFile.addLinkName]
      exact List.nodup_append'.mpr ⟨hnodup, by simp, by simp [hmem]⟩
    · rw [if_neg fun hm ↦ hst hm.1]
      exact hlook m

/-- The outcome of persisting a file whose last link is `n`. -/
def PersistsAs (W : World σ) (s : Names σ) (n : Name) (st : Status) : Prop :=
  ∃ fr, fr.linkfiles.getLast? = some n ∧ st = (W.persistRecord s.world (.fileUpdate fr)).2

theorem lookup_moved {files : Files} (hd : files.lookup dst = none) (m : Name) :
    (Files.insertNew (files.erase src) dst r).lookup m =
      if m = dst then some r else if m = src then none else files.lookup m := by
  have hdst : dst ∉ files := AList.lookup_eq_none.mp hd
  rw [Files.lookup_insertNew, lookup_erase]
  simp [hdst]

/-- A file gives up one of its names for a free one. -/
theorem Ok.moved (h : s.Ok) (hs : s.files.lookup src = some r) (hd : s.files.lookup dst = none)
    {f : ZoneFile} (hid : f.fileId = (s.heap r).fileId)
    (hlinks : f.linkfiles = (s.heap r).linkfiles.erase src ++ [dst])
    (hdel : f.isDeleted = (s.heap r).isDeleted) (w : σ) :
    (s.relinked (Files.insertNew (s.files.erase src) dst r) r f w).Ok := by
  refine h.relinked hs ?_ ?_ ?_ hid fun _ ↦ hdel.trans (h.not_deleted src r hs)
  · intro m
    rw [lookup_moved hd, hlinks, List.mem_append, (h.nodup r).mem_erase_iff, ← h.link_iff]
    by_cases h₁ : m = dst <;> by_cases h₂ : m = src <;> simp [h₁, h₂]
  · intro m r' hr'
    rw [lookup_moved hd]
    by_cases h₁ : m = dst
    · subst h₁
      simp [hd, hr'.symm]
    · by_cases h₂ : m = src
      · subst h₂
        simp [h₁, hs, hr'.symm]
      · simp [h₁, h₂]
  · rw [hlinks]
    refine List.nodup_append'.mpr ⟨(h.nodup r).erase src, by simp, ?_⟩
    simp [(h.nodup r).mem_erase_iff, ← h.link_iff, hd]

/-- What a rename leaves behind, with the outcome of its persist. -/
theorem moveFile_eq {f f₂ : ZoneFile} {s₂ : Names σ} {st : Status}
    (hf : (s.heap r).renameLink src dst = .ok f)
    (hsync : (s.relinked (Files.insertNew (s.files.erase src) dst r) r f
      s.world).syncFileMetadataNoLock W r = (s₂, st))
    (hf₂ : (s₂.heap r).renameLink dst src = .ok f₂) :
    s.moveFile W r src dst =
      if st = .ok then (s₂, .ok)
      else (s₂.relinked (Files.insertNew (s₂.files.erase dst) src r) r f₂ s₂.world, .ok) := by
  have hs₁ : { s with files := Files.insertNew (s.files.erase src) dst r }.setFile r f =
      s.relinked (Files.insertNew (s.files.erase src) dst r) r f s.world := rfl
  unfold Names.moveFile
  simp only [hf, hs₁, hsync]
  cases st with
  | ok => rfl
  | _ => simp [hf₂, setFile, Names.relinked]

/-- A rename to a free name moves the file if that can be persisted, and changes
nothing otherwise; it returns OK in both cases. -/
theorem Ok.moveFile (W : World σ) (h : s.Ok) (hs : s.files.lookup src = some r)
    (hd : s.files.lookup dst = none) :
    ∃ st, PersistsAs W s dst st ∧ (s.moveFile W r src dst).2 = .ok ∧ (s.moveFile W r src dst).1.Ok ∧
      ∀ m, (s.moveFile W r src dst).1.files.lookup m =
        if st = .ok then (if m = dst then some r else if m = src then none else s.files.lookup m)
        else s.files.lookup m := by
  obtain ⟨f, hf, hid, hlinks, hdel⟩ :=
    @ZoneFile.renameLink_eq_ok (s.heap r) src dst ((h.link_iff src r).mp hs)
  have hne : dst ≠ src := by
    rintro rfl
    rw [hs] at hd
    cases hd
  have hok₁ := h.moved hs hd hid hlinks hdel s.world
  set s₁ := s.relinked (Files.insertNew (s.files.erase src) dst r) r f s.world with hs₁
  have hlook₁ : ∀ m, s₁.files.lookup m =
      if m = dst then some r else if m = src then none else s.files.lookup m := lookup_moved hd
  obtain ⟨fr, -, hfr, hst, -, hsame⟩ :=
    syncFileMetadataNoLock_spec W (hok₁.not_deleted dst r (by simp [hlook₁]))
  rcases hsync : s₁.syncFileMetadataNoLock W r with ⟨s₂, st⟩
  rw [hsync] at hst hsame
  have hok₂ : s₂.Ok := hsame.ok hok₁
  have hdst₂ : s₂.files.lookup dst = some r := by
    rw [hsame.files_eq, hlook₁, if_pos rfl]
  have hsrc₂ : s₂.files.lookup src = none := by
    rw [hsame.files_eq, hlook₁, if_neg hne.symm, if_pos rfl]
  obtain ⟨f₂, hf₂, hid₂, hlinks₂, hdel₂⟩ :=
    @ZoneFile.renameLink_eq_ok (s₂.heap r) dst src ((hok₂.link_iff dst r).mp hdst₂)
  refine ⟨st, ⟨fr, ?_, hst⟩, ?_⟩
  · rw [hfr, hs₁, relinked_heap_self, hlinks]
    simp
  rw [moveFile_eq hf hsync hf₂]
  by_cases hok : st = .ok
  · rw [if_pos hok]
    refine ⟨rfl, hok₂, fun m ↦ ?_⟩
    rw [if_pos hok, hsame.files_eq, hlook₁]
  · rw [if_neg hok]
    refine ⟨rfl, hok₂.moved hdst₂ hsrc₂ hid₂ hlinks₂ hdel₂ _, fun m ↦ ?_⟩
    rw [if_neg hok]
    refine (lookup_moved hsrc₂ m).trans ?_
    rw [hsame.files_eq, hlook₁]
    by_cases h₁ : m = src
    · subst h₁
      simp [hs]
    · by_cases h₂ : m = dst
      · subst h₂
        simp [h₁, hd]
      · simp [h₁, h₂]

/-- A file that has lost the name cannot be renamed from it. -/
theorem Ok.moveFile_gone (W : World σ) (h : s.Ok) (hs : s.files.lookup src = none) :
    s.moveFile W r src dst = (s, .ioError "RenameLink: Failed to find the linked file") := by
  have hmem : src ∉ (s.heap r).linkfiles := by
    rw [← h.link_iff, hs]
    simp
  simp [Names.moveFile, ZoneFile.renameLink, hmem]

/-- What `OpenWritableFile` leaves behind, with the outcome of its persist. -/
theorem createFile_eq {direct : Bool} {s₁ s₂ : Names σ} {st : Status}
    (hs₁ : s₁ =
      { s.setFile s.nextRef (s.newZoneFile W n direct) with
        nextRef := s.nextRef + 1
        nextFileId := s.nextFileId + 1 })
    (hsync : s₁.syncFileMetadataNoLock W s.nextRef = (s₂, st)) :
    s.createFile W n direct =
      if st = .ok then ({ s₂ with files := s₂.files.insertNew n s.nextRef }, .ok)
      else (s₂.setFile s.nextRef default, st) := by
  unfold Names.createFile
  simp only [← hs₁, hsync]
  cases st with
  | ok => rfl
  | _ => simp

/-- A file is created if that can be persisted. -/
theorem Ok.createFile (W : World σ) (h : s.Ok) (hn : s.files.lookup n = none) (direct : Bool) :
    ∃ st, PersistsAs W s n st ∧ (s.createFile W n direct).2 = st ∧ (s.createFile W n direct).1.Ok ∧
      ∀ m, (s.createFile W n direct).1.files.lookup m =
        if st = .ok ∧ m = n then some s.nextRef else s.files.lookup m := by
  obtain ⟨s₁, hs₁⟩ : ∃ s₁, s₁ =
      { s.setFile s.nextRef (s.newZoneFile W n direct) with
        nextRef := s.nextRef + 1
        nextFileId := s.nextFileId + 1 } := ⟨_, rfl⟩
  have hself₁ : s₁.heap s.nextRef = s.newZoneFile W n direct := by
    rw [hs₁]
    exact setFile_heap_self ..
  have hworld₁ : s₁.world = s.world := by rw [hs₁]; rfl
  obtain ⟨fr, -, hfr, hst, -, hsame⟩ := @syncFileMetadataNoLock_spec _ s₁ s.nextRef W
    (by rw [hself₁]; rfl)
  rcases hsync : s₁.syncFileMetadataNoLock W s.nextRef with ⟨s₂, st⟩
  rw [hsync] at hst hsame
  have hn' : n ∉ s.files := AList.lookup_eq_none.mp hn
  have hfiles : s₂.files = s.files := by rw [hsame.files_eq, hs₁]; rfl
  have hlinks : (s₂.heap s.nextRef).linkfiles = [n] := by
    rw [hsame.linkfiles_eq, hself₁]
    rfl
  have hid : (s₂.heap s.nextRef).fileId = s.nextFileId := by
    rw [hsame.fileId_eq, hself₁]
    rfl
  have hnext : s₂.nextRef = s.nextRef + 1 := by rw [hsame.nextRef_eq, hs₁]
  have hnextId : s₂.nextFileId = s.nextFileId + 1 := by rw [hsame.nextFileId_eq, hs₁]
  have hheap : ∀ r', r' ≠ s.nextRef → (s₂.heap r').nameKey = (s.heap r').nameKey := by
    intro r' hne
    rw [hsame.key_eq, hs₁]
    exact congrArg ZoneFile.nameKey (setFile_heap_of_ne s _ hne)
  -- no name maps to the new object yet
  have hunused : ∀ m, s.files.lookup m ≠ some s.nextRef := fun m hm ↦
    (h.lt_nextRef m s.nextRef hm).false
  refine ⟨st, ⟨fr, by rw [hfr, hself₁]; rfl, hworld₁ ▸ hst⟩, ?_⟩
  rw [createFile_eq hs₁ hsync]
  by_cases hok : st = .ok
  · rw [if_pos hok]
    have hlook : ∀ m, (Files.insertNew s₂.files n s.nextRef).lookup m =
        if m = n then some s.nextRef else s.files.lookup m := by
      intro m
      rw [Files.lookup_insertNew, hfiles]
      simp [hn']
    refine ⟨hok.symm, ?_, fun m ↦ by simp [hlook, hok]⟩
    refine h.update (r := s.nextRef) (by simp [hnext]) (by simp [hnext]) ?_ ?_ hheap ?_ ?_ ?_
      (by simp [hnextId]) ?_
    · intro m
      rw [hlook, hlinks, List.mem_singleton]
      by_cases hm : m = n
      · simp [hm]
      · simp [hm, hunused]
    · intro m r' hne
      rw [hlook]
      by_cases hm : m = n
      · subst hm
        simp [hn, hne.symm]
      · simp [hm]
    · simp [hlinks]
    · intro _ m r' _ hm
      rw [hid]
      exact (h.id_lt m r' hm).ne'
    · intro _
      simp [hid, hnextId]
    · intro _
      rw [hsame.isDeleted_eq, hself₁]
      rfl
  · rw [if_neg hok]
    have hnil : ((s₂.setFile s.nextRef default).heap s.nextRef).linkfiles = [] := by
      rw [setFile_heap_self]
      rfl
    refine ⟨rfl, ?_, fun m ↦ by simp [hok, hfiles]⟩
    refine h.update (r := s.nextRef) (by simp [setFile, hnext]) (by simp [setFile, hnext]) ?_ ?_ ?_
      ?_ (absurd hnil) (absurd hnil) (by simp [setFile, hnextId]) (absurd hnil)
    · intro m
      rw [hnil]
      simp [hfiles, hunused]
    · intro m r' _
      simp [hfiles]
    · intro r' hne
      rw [setFile_heap_of_ne _ _ hne]
      exact hheap r' hne
    · rw [hnil]
      exact List.nodup_nil

/-- What `LinkFile` leaves behind, with the outcome of its persist. -/
theorem linkFile_eq {l : Name} {f₂ : ZoneFile} {s₂ : Names σ} {st : Status}
    (hn : s.files.lookup n = some r) (hl : s.files.lookup l = none)
    (hsync : (s.relinked (s.files.insertNew l r) r ((s.heap r).addLinkName l)
      s.world).syncFileMetadataNoLock W r = (s₂, st))
    (hf₂ : (s₂.heap r).removeLinkName l = .ok f₂) :
    s.linkFile W n l =
      if st = .ok then (s₂, .ok) else (s₂.relinked (s₂.files.erase l) r f₂ s₂.world, .ok) := by
  have hs₁ : { s with files := s.files.insertNew l r }.setFile r ((s.heap r).addLinkName l) =
      s.relinked (s.files.insertNew l r) r ((s.heap r).addLinkName l) s.world := rfl
  unfold Names.linkFile
  simp only [hl, hn, hs₁, hsync]
  cases st with
  | ok => rfl
  | _ => simp [hf₂, setFile, Names.relinked]

/-- A link is added if that can be persisted; `LinkFile` returns OK in both cases. -/
theorem Ok.linkFile (W : World σ) {l : Name} (h : s.Ok) (hn : s.files.lookup n = some r)
    (hl : s.files.lookup l = none) :
    ∃ st, PersistsAs W s l st ∧ (s.linkFile W n l).2 = .ok ∧ (s.linkFile W n l).1.Ok ∧
      ∀ m, (s.linkFile W n l).1.files.lookup m =
        if st = .ok ∧ m = l then some r else s.files.lookup m := by
  have hl' : l ∉ s.files := AList.lookup_eq_none.mp hl
  have hlook : ∀ m, (s.files.insertNew l r).lookup m = if m = l then some r
      else s.files.lookup m := by
    intro m
    rw [Files.lookup_insertNew]
    simp [hl']
  have hok₁ : (s.relinked (s.files.insertNew l r) r ((s.heap r).addLinkName l) s.world).Ok := by
    refine h.relinked hn ?_ ?_ ?_ rfl fun _ ↦ h.not_deleted n r hn
    · intro m
      rw [hlook, ZoneFile.addLinkName, List.mem_append, List.mem_singleton, ← h.link_iff]
      by_cases hm : m = l
      · simp [hm]
      · simp [hm]
    · intro m r' hne
      rw [hlook]
      by_cases hm : m = l
      · subst hm
        simp [hl, hne.symm]
      · simp [hm]
    · exact List.nodup_append'.mpr ⟨h.nodup r, by simp, by simp [← h.link_iff, hl]⟩
  set s₁ := s.relinked (s.files.insertNew l r) r ((s.heap r).addLinkName l) s.world with hs₁
  have hlook₁ : ∀ m, s₁.files.lookup m = if m = l then some r else s.files.lookup m := hlook
  obtain ⟨fr, -, hfr, hst, -, hsame⟩ :=
    syncFileMetadataNoLock_spec W (hok₁.not_deleted l r (by simp [hlook₁]))
  rcases hsync : s₁.syncFileMetadataNoLock W r with ⟨s₂, st⟩
  rw [hsync] at hst hsame
  have hok₂ : s₂.Ok := hsame.ok hok₁
  have hl₂ : s₂.files.lookup l = some r := by
    rw [hsame.files_eq, hlook₁, if_pos rfl]
  obtain ⟨f₂, hf₂, hid₂, hlinks₂, hdel₂⟩ :=
    ZoneFile.removeLinkName_eq_ok ((hok₂.link_iff l r).mp hl₂)
  refine ⟨st, ⟨fr, ?_, hst⟩, ?_⟩
  · rw [hfr, hs₁, relinked_heap_self, ZoneFile.addLinkName]
    simp
  rw [linkFile_eq hn hl hsync hf₂]
  by_cases hok : st = .ok
  · rw [if_pos hok]
    refine ⟨rfl, hok₂, fun m ↦ ?_⟩
    rw [hsame.files_eq, hlook₁]
    simp [hok]
  · rw [if_neg hok]
    refine ⟨rfl, hok₂.relinked hl₂ ?_ ?_ ?_ hid₂ ?_, fun m ↦ ?_⟩
    · intro m
      rw [lookup_erase, hlinks₂, (hok₂.nodup r).mem_erase_iff, ← hok₂.link_iff]
      split <;> simp_all
    · intro m r' hne
      rw [lookup_erase]
      by_cases hm : m = l
      · subst hm
        simp [hl₂, hne.symm]
      · simp [hm]
    · exact hlinks₂ ▸ (hok₂.nodup r).erase l
    · exact fun _ ↦ hdel₂.trans (hok₂.not_deleted l r hl₂)
    · rw [if_neg fun hm ↦ hok hm.1]
      refine (lookup_erase s₂.files l m).trans ?_
      rw [hsame.files_eq, hlook₁]
      by_cases hm : m = l
      · subst hm
        simp [hl]
      · simp [hm]

end Names

end ZenFs
