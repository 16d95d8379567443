import ZenFs.Names.Invariant

/-!
# The namespace of a mounted filesystem

What `Mount` rebuilds from a log whose records fit together satisfies the
namespace invariant, which every run on the mounted filesystem then keeps.
-/

namespace ZenFs

universe u

/-- The ids of files in `files_` are below `next_file_id_`, and none of them is
marked as deleted. -/
def Store.Numbered (s : Store) : Prop := ∀ n r, s.files.lookup n = some r →
  (s.heap r).fileId < s.nextFileId ∧ (s.heap r).isDeleted = false

theorem ZoneFile.decodeFrom_key {fr : FileRecord} {d d' : Zbd} {f : ZoneFile}
    (h : ZoneFile.decodeFrom fr d = .ok (f, d')) : f.fileId = fr.fileId ∧ f.isDeleted = false := by
  unfold ZoneFile.decodeFrom at h
  split at h
  · cases h
  · split at h
    · cases h
    · cases h
      exact ⟨rfl, rfl⟩

theorem ZoneFile.mergeUpdate_key {f update f' : ZoneFile} {replace : Bool} {d d' : Zbd}
    (h : f.mergeUpdate update replace d = .ok (f', d')) :
    f'.fileId = f.fileId ∧ f'.isDeleted = f.isDeleted := by
  unfold ZoneFile.mergeUpdate at h
  split at h
  · cases h
  · cases replace <;> cases h <;> exact ⟨rfl, rfl⟩

theorem Store.fileId_of_findId {s : Store} {id : Nat} {r : Ref} (h : s.findId id = some r) :
    (s.heap r).fileId = id := by
  obtain ⟨e, he, rfl⟩ := Option.map_eq_some_iff.mp h
  simpa using List.find?_some he

theorem Store.lt_raiseNextFileId (s : Store) (id : Nat) :
    id < (s.raiseNextFileId id).nextFileId := by
  rw [raiseNextFileId]
  dsimp only
  split <;> omega

theorem Store.le_raiseNextFileId (s : Store) (id : Nat) :
    s.nextFileId ≤ (s.raiseNextFileId id).nextFileId := by
  rw [raiseNextFileId]
  dsimp only
  split <;> omega

namespace Store.Numbered

variable {s s' : Store} {fr : FileRecord}

/-- The names of `t` map to files that were there before, or have the id that
`next_file_id_` is raised above. -/
theorem raised (h : s.Numbered) {t : Store} (id : Nat) (hid : t.nextFileId = s.nextFileId)
    (ht : ∀ n r, t.files.lookup n = some r →
      ((∃ m, s.files.lookup m = some r) ∧ t.heap r = s.heap r) ∨
        ((t.heap r).fileId = id ∧ (t.heap r).isDeleted = false)) :
        (t.raiseNextFileId id).Numbered := by
  intro n r hn
  rcases ht n r hn with ⟨⟨m, hm⟩, hr⟩ | ⟨hr, hd⟩
  · have hlt := (h m r hm).1.trans_le (hid ▸ le_raiseNextFileId t id)
    exact ⟨hr ▸ hlt, hr ▸ (h m r hm).2⟩
  · exact ⟨hr ▸ lt_raiseNextFileId t id, hd⟩

theorem release (h : s.Numbered) (r : Ref) : (s.release r).Numbered := by
  unfold Store.release
  split <;> exact h

theorem clearFiles (s : Store) : s.clearFiles.Numbered := by
  have hfold : ∀ (rs : List Ref) (s : Store), s.Numbered → (rs.foldl Store.release s).Numbered := by
    intro rs
    induction rs with
    | nil => exact fun _ hs ↦ hs
    | cons r rs ih => exact fun s hs ↦ ih _ (hs.release r)
  exact hfold _ _ fun n r hn ↦ by simp at hn

theorem decodeSnapshotFile (h : s.Numbered) (hok : s.decodeSnapshotFile fr = .ok s') :
    s'.Numbered := by
  unfold Store.decodeSnapshotFile at hok
  split at hok
  · cases hok
  · rename_i f d hdec
    cases hok
    refine release ?_ _
    refine h.raised fr.fileId ?_ fun n r hn ↦ ?_
    · rfl
    by_cases hr : r = s.nextRef
    · subst hr
      exact .inr (by simpa using ZoneFile.decodeFrom_key hdec)
    · refine .inl ⟨⟨n, ?_⟩, by simp [hr]⟩
      rw [Files.lookup_insertLinks] at hn
      split at hn
      · exact absurd (Option.some.inj hn).symm hr
      · exact hn

theorem decodeFileUpdateFrom {replace : Bool} (h : s.Numbered)
    (hok : s.decodeFileUpdateFrom fr replace = .ok s') : s'.Numbered := by
  unfold Store.decodeFileUpdateFrom at hok
  split at hok
  · cases hok
  · rename_i update d hdec
    split at hok
    · rename_i r hfind
      obtain ⟨m, hm⟩ := lookup_of_findId hfind
      split at hok
      · cases hok
      · rename_i files hfiles
        split at hok
        · cases hok
        · rename_i f d' hmerge
          obtain ⟨hid, hdel⟩ := ZoneFile.mergeUpdate_key hmerge
          cases hok
          refine release ?_ _
          refine h.raised fr.fileId ?_ fun n r' hn ↦ ?_
          · rfl
          by_cases hr : r' = r
          · subst hr
            refine .inr ⟨?_, ?_⟩
            · simpa [Store.setFile, hid] using fileId_of_findId hfind
            · simpa [Store.setFile, hdel] using (h m r' hm).2
          · refine .inl ⟨⟨n, ?_⟩, by simp [Store.setFile, hr]⟩
            rw [Store.setFile, Files.lookup_insertLinks] at hn
            split at hn
            · exact absurd (Option.some.inj hn).symm hr
            · exact Files.lookup_of_eraseLinks hfiles hn
    · split at hok
      · cases hok
      · rename_i fname _ _
        cases hok
        refine release ?_ _
        refine h.raised fr.fileId ?_ fun n r hn ↦ ?_
        · rfl
        by_cases hr : r = s.nextRef
        · subst hr
          exact .inr (by simpa using ZoneFile.decodeFrom_key hdec)
        · refine .inl ⟨⟨n, ?_⟩, by simp [hr]⟩
          rw [Files.lookup_insertNew] at hn
          split at hn
          · exact absurd (Option.some.inj hn).symm hr
          · exact hn

theorem decodeFileDeletionFrom {id : Nat} {n : Name} (h : s.Numbered)
    (hok : s.decodeFileDeletionFrom id n = .ok s') : s'.Numbered := by
  unfold Store.decodeFileDeletionFrom at hok
  split at hok
  · cases hok
  · rename_i r hn
    split at hok
    · cases hok
    · split at hok
      · cases hok
      · rename_i f hf
        cases hok
        refine release ?_ _
        intro m r' hm
        have hm' : s.files.lookup m = some r' := by
          have := Names.lookup_erase s.files n m ▸ hm
          split at this
          · cases this
          · exact this
        by_cases hr : r' = r
        · subst hr
          unfold ZoneFile.removeLinkName at hf
          split at hf
          · cases hf
            simpa [Store.setFile] using h m r' hm'
          · cases hf
        · simpa [Store.setFile, hr] using h m r' hm'

theorem kept : Kept Numbered where
  clearFiles := fun {s} _ ↦ clearFiles s
  snapshotFile := fun h hok ↦ h.decodeSnapshotFile hok
  fileUpdate := fun h hok ↦ h.decodeFileUpdateFrom hok
  fileDeletion := fun h hok ↦ h.decodeFileDeletionFrom hok

theorem replay {rs : List Record} {e : Option Status} {snap : Bool} (h : s.Numbered)
    (hok : ZenFs.replay rs e snap s = .ok s') : s'.Numbered := by
  induction rs generalizing s snap with
  | nil =>
      cases e with
      | some e => cases hok
      | none =>
          cases snap with
          | false => cases hok
          | true =>
              cases hok
              exact h
  | cons r rs ih =>
      unfold ZenFs.replay at hok
      split at hok
      · cases hok
      · rename_i s₁ hs₁
        exact ih (kept.applyRecord h hs₁) hok

end Store.Numbered

namespace Names

variable {σ : Type u} {s s' : Names σ}

/-- The namespace of a store; an object that no name maps to has been destroyed. -/
def ofStore (s : Store) (w : σ) : Names σ where
  files := s.files
  heap := fun r ↦ if s.files.refers r then s.heap r else default
  nextRef := s.nextRef
  nextFileId := s.nextFileId
  world := w

theorem ofStore_heap {s : Store} {r : Ref} (hr : s.files.refers r = true) (w : σ) :
    (ofStore s w).heap r = s.heap r := if_pos hr

/-- A namespace is what `RecoverFrom` makes of the records of a log; what `Mount` does
behind that is not about names. -/
def MountedFrom (zbd : Zbd) (rs : List Record) (s : Names σ) : Prop :=
  ∃ store, replay rs none false (Store.init zbd) = .ok store ∧ SameNames (ofStore store s.world) s

/-- A filesystem that has just been mounted from a log whose records fit together. -/
def Mounted (s : Names σ) : Prop :=
  ∃ (zbd : Zbd) (rs : List Record),
    Catalog.AcceptsAll zbd.getIOZone (fun _ ↦ none) rs ∧ MountedFrom zbd rs s

theorem represents_init (zbd : Zbd) :
    Represents zbd.getIOZone (Store.init zbd) fun _ ↦ none where
  getIOZone_eq := rfl
  lt_nextRef := by simp [Store.init]
  describes := by simp [Store.init]
  ref_eq := by simp [Store.init]
  fileId_eq := by simp
  sound := by simp
  lookup := by simp

/-- A store that represents a catalog has a consistent namespace. -/
theorem ok_ofStore {loc : Nat → Option ZoneId} {C : Catalog} {store : Store}
    (h : Represents loc store C) (hn : store.Numbered) (w : σ) : (ofStore store w).Ok := by
  have hheap : ∀ {n r}, store.files.lookup n = some r →
      (ofStore store w).heap r = store.heap r := by
    intro n r hr
    exact ofStore_heap (Files.refers_iff.mpr ⟨n, hr⟩) w
  have hlinks : ∀ r, (∃ n, store.files.lookup n = some r) →
      ∃ fr, C (store.heap r).fileId = some fr ∧ (store.heap r).linkfiles = fr.linkfiles ∧
        ∀ n, store.files.lookup n = some r ↔ n ∈ fr.linkfiles := by
    rintro r ⟨n, hr⟩
    obtain ⟨fr, hC, -, hd⟩ := h.describes n r hr
    obtain ⟨r', hfind, -, hiff⟩ := h.findId_eq_some hC
    obtain ⟨m, hm⟩ := Store.lookup_of_findId hfind
    obtain rfl := h.ref_eq n m r r' hr hm (Store.fileId_of_findId hfind).symm
    exact ⟨fr, hC, hd.linkfiles_eq, hiff⟩
  have hdead : ∀ {r}, (¬∃ n, store.files.lookup n = some r) →
      (ofStore store w).heap r = default := by
    intro r hr
    exact if_neg (mt Files.refers_iff.mp hr)
  refine ⟨?_, ?_, ?_, ?_, ?_, h.lt_nextRef⟩
  · intro n r
    by_cases hr : ∃ m, store.files.lookup m = some r
    · obtain ⟨fr, -, heq, hiff⟩ := hlinks r hr
      obtain ⟨m, hm⟩ := hr
      rw [hheap hm, heq]
      exact hiff n
    · rw [hdead hr]
      exact ⟨fun hn ↦ absurd ⟨n, hn⟩ hr, fun hn ↦ absurd hn List.not_mem_nil⟩
  · intro r
    by_cases hr : ∃ m, store.files.lookup m = some r
    · obtain ⟨fr, hC, heq, -⟩ := hlinks r hr
      obtain ⟨m, hm⟩ := hr
      rw [hheap hm, heq]
      exact (h.sound _ fr hC).nodup
    · rw [hdead hr]
      exact List.nodup_nil
  · intro n n' r r' hr hr' hid
    rw [hheap hr, hheap hr'] at hid
    exact h.ref_eq n n' r r' hr hr' hid
  · intro n r hr
    rw [hheap hr]
    exact (hn n r hr).1
  · intro n r hr
    rw [hheap hr]
    exact (hn n r hr).2

theorem Mounted.ok (h : s.Mounted) : s.Ok := by
  obtain ⟨zbd, rs, hacc, store, hreplay, hsame⟩ := h
  obtain ⟨store', hreplay', hrep⟩ := (represents_init zbd).replay hacc false
  rw [hreplay] at hreplay'
  obtain rfl : store = store' := by
    unfold RecoverRes.finish at hreplay'
    split at hreplay'
    · exact RecoverRes.ok.inj hreplay'
    · cases hreplay'
  have hnum : (Store.init zbd).Numbered := fun n r hn ↦ by simp [Store.init] at hn
  exact hsame.ok (ok_ofStore hrep (hnum.replay hreplay) s.world)

/-- The namespace of a filesystem that `MkFS` has just made. -/
def fresh (w : σ) : Names σ where
  files := ∅
  heap := fun _ ↦ default
  nextRef := 0
  nextFileId := 1
  world := w

theorem mounted_fresh (w : σ) : (fresh w).Mounted := by
  let zbd : Zbd := ⟨4096, 65536, 4, fun _ ↦ default, fun _ ↦ 0, false⟩
  refine ⟨zbd, [.completeFilesSnapshot []], ⟨⟨?_, ?_, ?_⟩, trivial⟩, Store.init zbd, rfl, ?_⟩
  · exact fun fr hfr ↦ absurd hfr List.not_mem_nil
  · exact fun fr hfr ↦ absurd hfr List.not_mem_nil
  · exact fun fr hfr ↦ absurd hfr List.not_mem_nil
  · exact ⟨rfl, fun _ ↦ rfl, rfl, rfl⟩

end Names

end ZenFs
