import ZenFs.Fs.Catalog
import ZenFs.Fs.Mount
import Mathlib.Algebra.BigOperators.Group.Finset.Basic
import Mathlib.Algebra.Order.BigOperators.Group.Finset

/-!
# Space accounting of the namespace

The space counter of a zone is kept by increments and decrements all over the
source.  `Accounted` says what it counts: the extents in the zone, over all live
objects.  This file shows that rebuilding the namespace from a log and repairing
it keep the counters exact, whatever the log contains.
-/

namespace ZenFs

/-- The bytes of a list of extents that lie in zone `i`. -/
def spaceIn (i : ZoneId) (es : List ZoneExtent) : Nat :=
  (es.map fun e ↦ if e.zone = i then e.length else 0).sum

@[simp] theorem spaceIn_nil (i : ZoneId) : spaceIn i [] = 0 := rfl

@[simp] theorem spaceIn_cons (i : ZoneId) (e : ZoneExtent) (es : List ZoneExtent) :
    spaceIn i (e :: es) = (if e.zone = i then e.length else 0) + spaceIn i es := by
  simp [spaceIn]

@[simp] theorem spaceIn_append (i : ZoneId) (es es' : List ZoneExtent) :
    spaceIn i (es ++ es') = spaceIn i es + spaceIn i es' := by
  simp [spaceIn]

theorem length_le_spaceIn {e : ZoneExtent} {es : List ZoneExtent} (h : e ∈ es) :
    e.length ≤ spaceIn e.zone es := by
  refine List.single_le_sum (by simp) _ (List.mem_map.mpr ⟨e, h, ?_⟩)
  simp

namespace Zbd

/-- What is counted in a zone. -/
def used (d : Zbd) (i : ZoneId) : Nat := (d.zones i).usedCapacity

@[simp] theorem addUsed_used (d : Zbd) (i : ZoneId) (n : Nat) (j : ZoneId) :
    (d.addUsed i n).used j = d.used j + if i = j then n else 0 := by
  simp [used, addUsed_zones, eq_comm]

theorem subUsed_used {d : Zbd} {i : ZoneId} {n : Nat} (h : n ≤ d.used i) (j : ZoneId) :
    (d.subUsed i n).used j = d.used j - if i = j then n else 0 := by
  simp [used, subUsed_zones d i n j h, eq_comm]

theorem subUsed_wrapped {d : Zbd} {i : ZoneId} {n : Nat} (h : n ≤ d.used i) :
    (d.subUsed i n).wrapped = d.wrapped := by
  simp [subUsed, used] at *
  omega

theorem countExtents_used (d : Zbd) (es : List ZoneExtent) (i : ZoneId) :
    (d.countExtents es).used i = d.used i + spaceIn i es := by
  induction es generalizing d with
  | nil => rfl
  | cons e es ih =>
      rw [countExtents, List.foldl_cons, ← countExtents, ih, addUsed_used, spaceIn_cons,
        Nat.add_assoc]

theorem countExtents_wrapped (d : Zbd) (es : List ZoneExtent) :
    (d.countExtents es).wrapped = d.wrapped := by
  induction es generalizing d with
  | nil => rfl
  | cons e es ih => rw [countExtents, List.foldl_cons, ← countExtents, ih, addUsed_wrapped]

theorem clearExtents_nrZones (d : Zbd) (es : List ZoneExtent) :
    (d.clearExtents es).nrZones = d.nrZones := by
  induction es generalizing d with
  | nil => rfl
  | cons e es ih => exact (ih _).trans (subUsed_nrZones ..)

/-- Giving back space that is counted leaves the rest. -/
theorem clearExtents_used {d : Zbd} {es : List ZoneExtent} (h : ∀ i, spaceIn i es ≤ d.used i) :
    (∀ i, (d.clearExtents es).used i = d.used i - spaceIn i es) ∧
      (d.clearExtents es).wrapped = d.wrapped := by
  induction es generalizing d with
  | nil => exact ⟨fun i ↦ rfl, rfl⟩
  | cons e es ih =>
      have he : e.length ≤ d.used e.zone := by
        have := h e.zone
        simp only [spaceIn_cons, if_true] at this
        omega
      have hes : ∀ i, spaceIn i es ≤ (d.subUsed e.zone e.length).used i := by
        intro i
        have := h i
        rw [spaceIn_cons] at this
        rw [subUsed_used he]
        omega
      obtain ⟨hu, hw⟩ := ih hes
      constructor
      · intro i
        have := hu i
        rw [subUsed_used he] at this
        rw [clearExtents, List.foldl_cons, ← clearExtents, this, spaceIn_cons, Nat.sub_sub]
      · rw [clearExtents, List.foldl_cons, ← clearExtents, hw, subUsed_wrapped he]

end Zbd

/-- Every counter is the sum of the extents of all live objects, no subtraction
has gone below zero, and what can be reached is live. -/
structure Accounted (s : Store) : Prop where
  used : ∀ i, s.zbd.used i = ∑ r ∈ s.live, spaceIn i (s.heap r).extents
  exact : s.zbd.wrapped = false
  named : ∀ n r, s.files.lookup n = some r → r ∈ s.live
  held : ∀ r, s.handles r ≠ [] → r ∈ s.live
  fresh : ∀ r ∈ s.live, r < s.nextRef

namespace Accounted

variable {s s' : Store} {r : Ref}

theorem init {zbd : Zbd} (hu : ∀ i, zbd.used i = 0) (hw : zbd.wrapped = false) :
    Accounted (Store.init zbd) where
  used := fun i ↦ by simpa [Store.init] using hu i
  exact := hw
  named := fun n r h ↦ by simp [Store.init] at h
  held := fun r h ↦ absurd rfl h
  fresh := fun r h ↦ by simp [Store.init] at h

/-- Nothing that is counted has changed. -/
theorem congr (h : Accounted s) (hu : ∀ i, s'.zbd.used i = s.zbd.used i)
    (hw : s'.zbd.wrapped = s.zbd.wrapped) (hl : s'.live = s.live)
    (he : ∀ r, (s'.heap r).extents = (s.heap r).extents) (hn : s.nextRef ≤ s'.nextRef)
    (hf : ∀ n r, s'.files.lookup n = some r → r ∈ s.live)
    (hh : ∀ r, s'.handles r ≠ [] → r ∈ s.live) : Accounted s' where
  used := fun i ↦ by simp only [hu, h.used, hl, he]
  exact := hw.trans h.exact
  named := fun n r hr ↦ hl ▸ hf n r hr
  held := fun r hr ↦ hl ▸ hh r hr
  fresh := fun r hr ↦ (h.fresh r (hl ▸ hr)).trans_le hn

theorem spaceIn_le (h : Accounted s) (hr : r ∈ s.live) (i : ZoneId) :
    spaceIn i (s.heap r).extents ≤ s.zbd.used i := by
  rw [h.used]
  exact Finset.single_le_sum (f := fun r ↦ spaceIn i (s.heap r).extents)
    (fun _ _ ↦ Nat.zero_le _) hr

/-- An object gets other extents, and the counters follow. -/
theorem setFile (h : Accounted s) (hr : r ∈ s.live) {d : Zbd} {f : ZoneFile}
    (hu : ∀ i, d.used i + spaceIn i (s.heap r).extents = s.zbd.used i + spaceIn i f.extents)
    (hw : d.wrapped = s.zbd.wrapped) : Accounted ({ s with zbd := d }.setFile r f) where
  used := by
    intro i
    have hsum : ∀ g : Ref → Nat, ∑ r' ∈ s.live, g r' = g r + ∑ r' ∈ s.live.erase r, g r' :=
      fun g ↦ (Finset.add_sum_erase _ _ hr).symm
    have hrest : ∑ r' ∈ s.live.erase r, spaceIn i ((Function.update s.heap r f) r').extents =
        ∑ r' ∈ s.live.erase r, spaceIn i (s.heap r').extents :=
      Finset.sum_congr rfl fun r' hr' ↦ by rw [Function.update_of_ne (Finset.ne_of_mem_erase hr')]
    have h₁ := h.used i
    have h₂ := hu i
    rw [hsum] at h₁
    show d.used i = _
    simp only [Store.setFile]
    rw [hsum, hrest, Function.update_self]
    omega
  exact := hw.trans h.exact
  named := h.named
  held := h.held
  fresh := h.fresh

/-- An object that is destroyed gives back what it has. -/
theorem destroy (h : Accounted s) (hr : r ∈ s.live) (hn : ∀ n, s.files.lookup n ≠ some r)
    (hh : s.handles r = []) : Accounted (s.destroy r) := by
  obtain ⟨hu, hw⟩ := Zbd.clearExtents_used (h.spaceIn_le hr)
  refine ⟨fun i ↦ ?_, hw.trans h.exact, fun n r' hr' ↦ ?_, fun r' hr' ↦ ?_, fun r' hr' ↦ ?_⟩
  · have h₁ := h.used i
    rw [← Finset.add_sum_erase _ _ hr] at h₁
    show (s.zbd.clearExtents _).used i = ∑ r' ∈ s.live.erase r, spaceIn i (s.heap r').extents
    rw [hu, h₁, Nat.add_sub_cancel_left]
  · refine Finset.mem_erase.mpr ⟨?_, h.named n r' hr'⟩
    rintro rfl
    exact hn n hr'
  · refine Finset.mem_erase.mpr ⟨?_, h.held r' hr'⟩
    rintro rfl
    exact hr' hh
  · exact h.fresh r' (Finset.mem_of_mem_erase hr')

theorem release (h : Accounted s) (hr : r ∈ s.live) : Accounted (s.release r) := by
  unfold Store.release
  split
  · exact h
  · rename_i hcond
    simp only [Bool.or_eq_true, not_or, Bool.not_eq_true, Bool.not_eq_false',
      List.isEmpty_iff] at hcond
    refine h.destroy hr (fun n hn ↦ ?_) hcond.2
    have := Files.refers_iff.mpr ⟨n, hn⟩
    rw [hcond.1] at this
    cases this

theorem raiseNextFileId (h : Accounted s) (id : Nat) : Accounted (s.raiseNextFileId id) :=
  h.congr (fun _ ↦ rfl) rfl rfl (fun _ ↦ rfl) le_rfl h.named h.held

theorem setFiles (h : Accounted s) {files : Files}
    (hf : ∀ n r, files.lookup n = some r → r ∈ s.live) : Accounted { s with files := files } :=
  h.congr (fun _ ↦ rfl) rfl rfl (fun _ ↦ rfl) le_rfl hf h.held

/-- A new object, whose extents have been counted. -/
theorem alloc (h : Accounted s) {f : ZoneFile} {d : Zbd}
    (hu : ∀ i, d.used i = s.zbd.used i + spaceIn i f.extents) (hw : d.wrapped = s.zbd.wrapped) :
    Accounted ({ s with zbd := d }.alloc f).2 where
  used := by
    intro i
    have hne : ∀ r' ∈ s.live, r' ≠ s.nextRef := fun r' hr' ↦ (h.fresh r' hr').ne
    have hnew : s.nextRef ∉ s.live := fun hmem ↦ hne _ hmem rfl
    have hrest : ∑ r' ∈ s.live, spaceIn i ((Function.update s.heap s.nextRef f) r').extents =
        ∑ r' ∈ s.live, spaceIn i (s.heap r').extents :=
      Finset.sum_congr rfl fun r' hr' ↦ by rw [Function.update_of_ne (hne r' hr')]
    show d.used i = _
    simp only [Store.alloc]
    rw [Finset.sum_insert hnew, hrest, Function.update_self, hu, h.used i, Nat.add_comm]
  exact := hw.trans h.exact
  named := fun n r' hr' ↦ Finset.mem_insert_of_mem (h.named n r' hr')
  held := fun r' hr' ↦ Finset.mem_insert_of_mem (h.held r' hr')
  fresh := by
    intro r' hr'
    rcases Finset.mem_insert.mp hr' with rfl | hr'
    · exact Nat.lt_succ_self _
    · exact (h.fresh r' hr').trans (Nat.lt_succ_self _)

end Accounted

/-! ## Replay -/

/-- What `RecoverFrom` leaves, unless it fails. -/
theorem Store.Kept.recoverLoop {I : Store → Prop} (hI : Store.Kept I) {G : Geometry}
    {z : MediaZone} {wp : Nat} (fuel : Nat) : ∀ {pos : Nat} {snap : Bool} {s s' : Store}, I s →
      (ZenFs.recoverLoop G z wp fuel pos snap s = .ok s' ∨
        ZenFs.recoverLoop G z wp fuel pos snap s = .notFound s') → I s' := by
  induction fuel with
  | zero =>
      intro pos snap s s' _ hok
      rcases hok with hok | hok <;> cases hok
  | succ fuel ih =>
      intro pos snap s s' h hok
      have hfin : ∀ {snap : Bool}, (RecoverRes.finish snap s = .ok s' ∨
          RecoverRes.finish snap s = .notFound s') → I s' := by
        intro snap hok
        cases snap with
        | false => rcases hok with hok | hok <;> cases hok; exact h
        | true => rcases hok with hok | hok <;> cases hok; exact h
      unfold ZenFs.recoverLoop at hok
      split at hok
      · rcases hok with hok | hok <;> cases hok
      · exact hfin hok
      · exact hfin hok
      · split at hok
        · rcases hok with hok | hok <;> cases hok
        · rename_i s₁ hs₁
          exact ih (hI.applyRecord h hs₁) hok

theorem ZoneFile.decodeFrom_eq_ok {fr : FileRecord} {d d' : Zbd} {f : ZoneFile}
    (h : ZoneFile.decodeFrom fr d = .ok (f, d')) : d' = d.countExtents f.extents := by
  unfold ZoneFile.decodeFrom at h
  split at h
  · cases h
  · split at h
    · cases h
    · cases h
      rfl

theorem ZoneFile.mergeUpdate_spec {f update f' : ZoneFile} {replace : Bool} {d d' : Zbd}
    (h : f.mergeUpdate update replace d = .ok (f', d')) :
    f'.extents = (if replace then [] else f.extents) ++ update.extents ∧
      d' = (if replace then d.clearExtents f.extents else d).countExtents update.extents := by
  unfold ZoneFile.mergeUpdate at h
  split at h
  · cases h
  · cases replace with
    | false =>
        cases h
        exact ⟨rfl, rfl⟩
    | true =>
        cases h
        exact ⟨rfl, rfl⟩

namespace Accounted

variable {s s' : Store} {r : Ref}

theorem decodeFileUpdateFrom (h : Accounted s) {fr : FileRecord} {replace : Bool}
    (hok : s.decodeFileUpdateFrom fr replace = .ok s') : Accounted s' := by
  unfold Store.decodeFileUpdateFrom at hok
  split at hok
  · cases hok
  · rename_i update d hdec
    obtain rfl := ZoneFile.decodeFrom_eq_ok hdec
    split at hok
    · rename_i r hfind
      obtain ⟨n, hn⟩ := Store.lookup_of_findId hfind
      have hr : r ∈ s.live := h.named n r hn
      split at hok
      · cases hok
      · rename_i files herase
        split at hok
        · cases hok
        · rename_i f d' hmerge
          obtain ⟨hext, rfl⟩ := ZoneFile.mergeUpdate_spec hmerge
          cases hok
          generalize hd : (if replace then (s.zbd.countExtents update.extents).clearExtents
            (s.heap r).extents else s.zbd.countExtents update.extents) = d₁
          have hd₁ : (∀ i, d₁.used i + spaceIn i (s.heap r).extents = s.zbd.used i +
              spaceIn i update.extents + spaceIn i (if replace then [] else (s.heap r).extents)) ∧
              d₁.wrapped = s.zbd.wrapped := by
            have hle : ∀ i, spaceIn i (s.heap r).extents ≤
                (s.zbd.countExtents update.extents).used i := fun i ↦ by
              rw [Zbd.countExtents_used]
              exact (h.spaceIn_le hr i).trans (Nat.le_add_right _ _)
            rw [← hd]
            cases replace with
            | false => exact ⟨fun i ↦ by simp [Zbd.countExtents_used], Zbd.countExtents_wrapped ..⟩
            | true =>
                obtain ⟨hu, hw⟩ := Zbd.clearExtents_used hle
                refine ⟨fun i ↦ ?_, hw.trans (Zbd.countExtents_wrapped ..)⟩
                have := hle i
                simp only [if_true, hu, spaceIn_nil]
                rw [Zbd.countExtents_used] at *
                omega
          have hcounted : ∀ i, spaceIn i update.extents ≤
              (d₁.countExtents update.extents).used i := by
            intro i
            rw [Zbd.countExtents_used]
            exact Nat.le_add_left _ _
          obtain ⟨hu, hw⟩ := Zbd.clearExtents_used hcounted
          have hset : Accounted ({ s with
              zbd := (d₁.countExtents update.extents).clearExtents update.extents }.setFile
                r f) := by
            refine h.setFile hr (fun i ↦ ?_) (hw.trans ((Zbd.countExtents_wrapped ..).trans hd₁.2))
            have := hd₁.1 i
            rw [hu, Zbd.countExtents_used, hext, spaceIn_append]
            omega
          have hnames : ∀ n r', (files.insertLinks f.linkfiles r).lookup n = some r' →
              r' ∈ s.live := by
            intro n r' hr'
            rw [Files.lookup_insertLinks] at hr'
            split at hr'
            · cases hr'
              exact hr
            · exact h.named n r' (Files.lookup_of_eraseLinks herase hr')
          exact ((hset.setFiles hnames).raiseNextFileId fr.fileId).release hr
    · split at hok
      · cases hok
      · rename_i fname _ _
        cases hok
        have ha := h.alloc (f := update) (Zbd.countExtents_used s.zbd update.extents)
          (Zbd.countExtents_wrapped ..)
        refine ((ha.setFiles fun n r' hr' ↦ ?_).raiseNextFileId fr.fileId).release
          (Finset.mem_insert_self _ _)
        rw [Files.lookup_insertNew] at hr'
        split at hr'
        · cases hr'
          exact Finset.mem_insert_self _ _
        · exact ha.named n r' hr'

theorem decodeSnapshotFile (h : Accounted s) {fr : FileRecord}
    (hok : s.decodeSnapshotFile fr = .ok s') : Accounted s' := by
  unfold Store.decodeSnapshotFile at hok
  split at hok
  · cases hok
  · rename_i f d hdec
    obtain rfl := ZoneFile.decodeFrom_eq_ok hdec
    cases hok
    have ha := h.alloc (f := f) (Zbd.countExtents_used s.zbd f.extents)
      (Zbd.countExtents_wrapped ..)
    refine ((ha.setFiles fun n r' hr' ↦ ?_).raiseNextFileId fr.fileId).release
      (Finset.mem_insert_self _ _)
    rw [Files.lookup_insertLinks] at hr'
    split at hr'
    · cases hr'
      exact Finset.mem_insert_self _ _
    · exact ha.named n r' hr'

theorem mem_live_release {r' : Ref} (hr : r' ∈ s.live) (hne : r' ≠ r) :
    r' ∈ (s.release r).live := by
  unfold Store.release
  split
  · exact hr
  · exact Finset.mem_erase.mpr ⟨hne, hr⟩

theorem clearFiles (h : Accounted s) : Accounted s.clearFiles := by
  have hmain : ∀ (rs : List Ref) (s : Store), rs.Nodup → Accounted s → (∀ r ∈ rs, r ∈ s.live) →
      Accounted (rs.foldl Store.release s) := by
    intro rs
    induction rs with
    | nil => exact fun s _ h _ ↦ h
    | cons r rs ih =>
        intro s hnd h hrs
        obtain ⟨hr, hnd⟩ := List.nodup_cons.mp hnd
        refine ih _ hnd (h.release (hrs r List.mem_cons_self)) fun r' hr' ↦ ?_
        refine mem_live_release (hrs r' (List.mem_cons_of_mem r hr')) ?_
        rintro rfl
        exact hr hr'
  refine hmain _ _ (List.nodup_dedup _) (h.setFiles fun n r hn ↦ ?_) fun r hr ↦ ?_
  · simp at hn
  · obtain ⟨e, he, rfl⟩ := List.mem_map.mp (List.mem_dedup.mp hr)
    exact h.named e.1 e.2 (AList.mem_lookup_iff.mpr he)

theorem setFile_same (h : Accounted s) {f : ZoneFile} (hf : f.extents = (s.heap r).extents) :
    Accounted (s.setFile r f) := by
  refine h.congr (fun _ ↦ rfl) rfl rfl (fun r' ↦ ?_) le_rfl h.named h.held
  by_cases hr : r' = r
  · subst hr
    simp [Store.setFile, hf]
  · simp [Store.setFile, hr]

theorem removeLinkName_extents {f f' : ZoneFile} {n : Name} (h : f.removeLinkName n = .ok f') :
    f'.extents = f.extents := by
  unfold ZoneFile.removeLinkName at h
  split at h
  · cases h
    rfl
  · cases h

theorem decodeFileDeletionFrom (h : Accounted s) {id : Nat} {n : Name}
    (hok : s.decodeFileDeletionFrom id n = .ok s') : Accounted s' := by
  unfold Store.decodeFileDeletionFrom at hok
  split at hok
  · cases hok
  · rename_i r hn
    split at hok
    · cases hok
    · split at hok
      · cases hok
      · rename_i f hf
        cases hok
        have hs : Accounted { s with files := s.files.erase n } :=
          h.setFiles fun m r' hr' ↦ h.named m r' (Files.lookup_of_erase hr')
        exact (hs.setFile_same (removeLinkName_extents hf)).release (h.named n r hn)

/-- Every record keeps the counters exact. -/
theorem kept : Store.Kept Accounted where
  clearFiles := clearFiles
  snapshotFile := fun h hok ↦ h.decodeSnapshotFile hok
  fileUpdate := fun h hok ↦ h.decodeFileUpdateFrom hok
  fileDeletion := fun h hok ↦ h.decodeFileDeletionFrom hok

end Accounted

end ZenFs
