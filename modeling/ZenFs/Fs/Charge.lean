import ZenFs.Fs.Run
import ZenFs.Fs.Space

/-!
# Space over whole runs

Every operation of a mounted filesystem keeps the space counters above what the
live objects have in each zone, whatever the device, the allocator and the
clock do: nothing is subtracted twice, and no zone is reset while a live file
has bytes in it.  The only operation that leaves space counted which no extent
has is a migration, if its record is not persisted or if the copy of an extent
ends up where the extent was.
-/

namespace ZenFs

/-- A reset of a zone in which a live file has bytes. -/
def Event.losesData : Event → Bool
  | .reset _ live => live
  | _ => false

theorem Event.losesData_of_isNote {e : Event} (h : e.isNote = true) : e.losesData = false := by
  cases e with
  | allocFailed => rfl
  | synced => rfl
  | _ => cases h

/-- Every counter is the sum of the extents of all live objects and of what has
leaked, no subtraction has gone below zero, and what can be reached is live. -/
structure Charged (leak : ZoneId → Nat) (s : Store) : Prop where
  used : ∀ i, s.zbd.used i = ∑ r ∈ s.live, spaceIn i (s.heap r).extents + leak i
  exact : s.zbd.wrapped = false
  named : ∀ n r, s.files.lookup n = some r → r ∈ s.live
  held : ∀ r, s.handles r ≠ [] → r ∈ s.live
  fresh : ∀ r ∈ s.live, r < s.nextRef

theorem Accounted.charged {s : Store} (h : Accounted s) : Charged (fun _ ↦ 0) s :=
  ⟨h.used, h.exact, h.named, h.held, h.fresh⟩

namespace Charged

variable {leak leak' : ZoneId → Nat} {s s' : Store} {r : Ref}

/-- Nothing that is counted has changed. -/
theorem congr (h : Charged leak s) (hu : ∀ i, s'.zbd.used i = s.zbd.used i)
    (hw : s'.zbd.wrapped = s.zbd.wrapped) (hl : s'.live = s.live)
    (he : ∀ r, (s'.heap r).extents = (s.heap r).extents) (hn : s.nextRef ≤ s'.nextRef)
    (hf : ∀ n r, s'.files.lookup n = some r → r ∈ s.live)
    (hh : ∀ r, s'.handles r ≠ [] → r ∈ s.live) : Charged leak s' where
  used := fun i ↦ by simp only [hu, h.used, hl, he]
  exact := hw.trans h.exact
  named := fun n r hr ↦ hl ▸ hf n r hr
  held := fun r hr ↦ hl ▸ hh r hr
  fresh := fun r hr ↦ (h.fresh r (hl ▸ hr)).trans_le hn

theorem spaceIn_le (h : Charged leak s) (hr : r ∈ s.live) (i : ZoneId) :
    spaceIn i (s.heap r).extents ≤ s.zbd.used i := by
  rw [h.used]
  exact (Finset.single_le_sum (f := fun r ↦ spaceIn i (s.heap r).extents)
    (fun _ _ ↦ Nat.zero_le _) hr).trans (Nat.le_add_right _ _)

/-- An object gets other extents, and the counters follow or leak. -/
theorem setFile (h : Charged leak s) (hr : r ∈ s.live) {d : Zbd} {f : ZoneFile}
    (hu : ∀ i, d.used i + spaceIn i (s.heap r).extents + leak i =
      s.zbd.used i + spaceIn i f.extents + leak' i)
    (hw : d.wrapped = s.zbd.wrapped) : Charged leak' ({ s with zbd := d }.setFile r f) where
  used := by
    intro i
    have hsum : ∀ g : Ref → Nat, ∑ r' ∈ s.live, g r' = g r + ∑ r' ∈ s.live.erase r, g r' :=
      fun g ↦ (Finset.add_sum_erase _ _ hr).symm
    have hrest : ∑ r' ∈ s.live.erase r, spaceIn i ((Function.update s.heap r f) r').extents =
        ∑ r' ∈ s.live.erase r, spaceIn i (s.heap r').extents :=
      Finset.sum_congr rfl fun r' hr' ↦ by rw [Function.update_of_ne (Finset.ne_of_mem_erase hr')]
    have h₁ := h.used i
    have h₂ := hu i
    rw [hsum] at h₁
    show d.used i = _
    simp only [Store.setFile]
    rw [hsum, hrest, Function.update_self]
    omega
  exact := hw.trans h.exact
  named := h.named
  held := h.held
  fresh := h.fresh

/-- An object that is destroyed gives back what it has. -/
theorem destroy (h : Charged leak s) (hr : r ∈ s.live) (hn : ∀ n, s.files.lookup n ≠ some r)
    (hh : s.handles r = []) : Charged leak (s.destroy r) := by
  obtain ⟨hu, hw⟩ := Zbd.clearExtents_used (h.spaceIn_le hr)
  refine ⟨fun i ↦ ?_, hw.trans h.exact, fun n r' hr' ↦ ?_, fun r' hr' ↦ ?_, fun r' hr' ↦ ?_⟩
  · have h₁ := h.used i
    rw [← Finset.add_sum_erase _ _ hr] at h₁
    show (s.zbd.clearExtents _).used i =
      ∑ r' ∈ s.live.erase r, spaceIn i (s.heap r').extents + leak i
    rw [hu, h₁]
    omega
  · refine Finset.mem_erase.mpr ⟨?_, h.named n r' hr'⟩
    rintro rfl
    exact hn n hr'
  · refine Finset.mem_erase.mpr ⟨?_, h.held r' hr'⟩
    rintro rfl
    exact hr' hh
  · exact h.fresh r' (Finset.mem_of_mem_erase hr')

theorem release_used (h : ∀ i, spaceIn i (s.heap r).extents ≤ s.zbd.used i) (i : ZoneId) :
    (s.release r).zbd.nrZones = s.zbd.nrZones ∧ (s.release r).zbd.used i ≤ s.zbd.used i := by
  unfold Store.release
  split
  · exact ⟨rfl, le_rfl⟩
  · exact ⟨Zbd.clearExtents_nrZones .., ((Zbd.clearExtents_used h).1 i).trans_le (Nat.sub_le ..)⟩

theorem release (h : Charged leak s) (hr : r ∈ s.live) : Charged leak (s.release r) := by
  unfold Store.release
  split
  · exact h
  · rename_i hcond
    simp only [Bool.or_eq_true, not_or, Bool.not_eq_true, Bool.not_eq_false',
      List.isEmpty_iff] at hcond
    refine h.destroy hr (fun n hn ↦ ?_) hcond.2
    have := Files.refers_iff.mpr ⟨n, hn⟩
    rw [hcond.1] at this
    cases this

end Charged

namespace Fs

variable {leak leak' : ZoneId → Nat} {fs fs' fs₁ fs₂ : Fs} {G : Geometry} {r : Ref}

/-- The resets that have lost data. -/
def lost (fs : Fs) : List Event := fs.hist.filter Event.losesData

theorem lost_withLog (fs : Fs) (log : MetaState) : (fs.withLog log).lost = fs.lost := by
  show List.filter _ (_ ++ _) = List.filter _ _
  rw [List.filter_append, List.append_right_eq_self, List.filter_eq_nil_iff]
  intro e he
  obtain ⟨c, -, rfl⟩ := List.mem_map.mp he
  exact Bool.false_ne_true

/-! ## What the space counters do not see -/

/-- Two states agree on all that space accounting looks at. -/
structure SameSpace (fs fs' : Fs) : Prop where
  used : ∀ i, fs'.zbd.used i = fs.zbd.used i
  wrapped : fs'.zbd.wrapped = fs.zbd.wrapped
  files : fs'.files = fs.files
  live : fs'.live = fs.live
  handles : fs'.handles = fs.handles
  nextRef : fs'.nextRef = fs.nextRef
  extents : ∀ r, (fs'.heap r).extents = (fs.heap r).extents
  writers : ∀ h, (fs'.writers h).map Writer.file = (fs.writers h).map Writer.file
  readers : fs'.readers = fs.readers
  nrZones : fs'.zbd.nrZones = fs.zbd.nrZones
  overflowed : fs'.overflowed = fs.overflowed
  lost : fs.overflowed = false → fs'.lost = fs.lost

namespace SameSpace

theorem refl (fs : Fs) : SameSpace fs fs :=
  ⟨fun _ ↦ rfl, rfl, rfl, rfl, rfl, rfl, fun _ ↦ rfl, fun _ ↦ rfl, rfl, rfl, rfl, fun _ ↦ rfl⟩

theorem trans (h₁ : SameSpace fs fs₁) (h₂ : SameSpace fs₁ fs₂) : SameSpace fs fs₂ :=
  ⟨fun i ↦ (h₂.used i).trans (h₁.used i), h₂.wrapped.trans h₁.wrapped, h₂.files.trans h₁.files,
    h₂.live.trans h₁.live, h₂.handles.trans h₁.handles, h₂.nextRef.trans h₁.nextRef,
    fun r ↦ (h₂.extents r).trans (h₁.extents r), fun h ↦ (h₂.writers h).trans (h₁.writers h),
    h₂.readers.trans h₁.readers, h₂.nrZones.trans h₁.nrZones, h₂.overflowed.trans h₁.overflowed,
    fun ho ↦ (h₂.lost (h₁.overflowed.trans ho)).trans (h₁.lost ho)⟩

theorem of_metaOnly (h : MetaOnly fs fs') (hl : fs.overflowed = false → fs'.lost = fs.lost) :
    SameSpace fs fs' where
  used := fun i ↦ by rw [h.zbd]
  wrapped := by rw [h.zbd]
  files := h.files
  live := h.live
  handles := h.handles
  nextRef := h.nextRef
  extents := fun r ↦ (congrArg ZoneFile.extents (h.heap r) :)
  writers := fun k ↦ by rw [h.writers]
  readers := h.readers
  nrZones := by rw [h.zbd]
  overflowed := h.overflowed
  lost := hl

theorem note (fs : Fs) {e : Event} (he : e.losesData = false := by rfl) :
    SameSpace fs (fs.note e) := by
  refine of_metaOnly (metaOnly_note fs e) fun _ ↦ ?_
  simp [Fs.lost, Fs.note, he]

theorem noteRolled (fs : Fs) (rec : Record) : SameSpace fs (fs.noteRolled G rec) := by
  unfold Fs.noteRolled
  split
  · exact .note fs
  · exact .refl fs

theorem zbd (fs : Fs) {d : Zbd} (hu : ∀ i, d.used i = fs.zbd.used i)
    (hw : d.wrapped = fs.zbd.wrapped) (hn : d.nrZones = fs.zbd.nrZones := by rfl) :
    SameSpace fs { fs with zbd := d } :=
  ⟨hu, hw, rfl, rfl, rfl, rfl, fun _ ↦ rfl, fun _ ↦ rfl, rfl, hn, rfl, fun _ ↦ rfl⟩

theorem env (fs : Fs) (env : Env) : SameSpace fs { fs with env := env } :=
  ⟨fun _ ↦ rfl, rfl, rfl, rfl, rfl, rfl, fun _ ↦ rfl, fun _ ↦ rfl, rfl, rfl, rfl, fun _ ↦ rfl⟩

theorem setFile (fs : Fs) (r : Ref) {f : ZoneFile}
    (hf : f.extents = (fs.heap r).extents := by rfl) : SameSpace fs (fs.setFile r f) := by
  refine ⟨fun _ ↦ rfl, rfl, rfl, rfl, rfl, rfl, fun r' ↦ ?_, fun _ ↦ rfl, rfl, rfl,
    rfl, fun _ ↦ rfl⟩
  by_cases hr : r' = r
  · subst hr
    simp [Fs.setFile, hf]
  · simp [Fs.setFile, hr]

theorem setWriter {h : Handle} {w w' : Writer} (hw : fs.writers h = some w)
    (hf : w'.file = w.file) : SameSpace fs (fs.setWriter h w') := by
  refine ⟨fun _ ↦ rfl, rfl, rfl, rfl, rfl, rfl, fun _ ↦ rfl, fun h' ↦ ?_, rfl, rfl,
    rfl, fun _ ↦ rfl⟩
  by_cases hh : h' = h
  · subst hh
    simp [Fs.setWriter, hw, hf]
  · simp [Fs.setWriter, hh]

theorem persistRecord (fs : Fs) (rec : Record) : SameSpace fs (fs.persistRecord G rec).1 := by
  have hlog := fs.lost_withLog
  refine of_metaOnly (metaOnly_persistRecord fs rec) fun _ ↦ ?_
  obtain ⟨log, -, -, -, ⟨-, h | h⟩ | ⟨-, h⟩⟩ := fs.persistRecord_cases (G := G) rec
  · rw [h, hlog]
  · rw [h]
    exact hlog log
  · rw [h, Fs.lost, Fs.note, List.filter_append]
    exact (List.append_nil _).trans (hlog log)

theorem syncFileMetadataNoLock (fs : Fs) (r : Ref) (replace : Bool) :
    SameSpace fs (fs.syncFileMetadataNoLock G r replace).1 := by
  unfold Fs.syncFileMetadataNoLock
  split
  · exact .refl fs
  · have hm : SameSpace fs
        (if replace then fs else fs.setFile r { fs.heap r with mTime := fs.env.now }) := by
      split
      · exact .refl fs
      · exact .setFile fs r
    simp only
    refine andThen_cases (P := fun x ↦ SameSpace fs x.1) (fun _ ↦ ?_) (fun _ ↦ ?_)
    · exact hm.trans (.persistRecord _ _)
    · exact (hm.trans (.persistRecord _ _)).trans
        (.of_metaOnly (metaOnly_markSynced _ _) fun _ ↦ rfl)

theorem persistMetadata (fs : Fs) (r : Ref) : SameSpace fs (fs.persistMetadata G r).1 :=
  .syncFileMetadataNoLock fs r false

theorem finishZones (fs : Fs) (is : List ZoneId) : SameSpace fs (fs.finishZones is) := by
  induction is generalizing fs with
  | nil => exact .refl fs
  | cons i is ih =>
      refine SameSpace.trans ?_ (ih _)
      dsimp only
      split
      · refine SameSpace.trans (.zbd fs (d := fs.zbd.finish i) (fun j ↦ ?_) rfl) (.note _)
        by_cases hj : j = i
        · subst hj
          simp [Zbd.used, Zbd.finish]
        · simp [Zbd.used, Zbd.finish, hj]
      · exact .refl fs

theorem setBusy (fs : Fs) (i : ZoneId) (b : Bool) :
    SameSpace fs { fs with zbd := fs.zbd.setBusy i b } := by
  refine .zbd fs (fun j ↦ ?_) rfl
  by_cases hj : j = i
  · subst hj
    simp [Zbd.used, Zbd.setBusy]
  · simp [Zbd.used, Zbd.setBusy, hj]

theorem appended (fs : Fs) (i : ZoneId) (data : List Byte) (env : Env) :
    SameSpace fs { fs with zbd := fs.zbd.appended i data, env := env } := by
  refine ⟨fun j ↦ ?_, rfl, rfl, rfl, rfl, rfl, fun _ ↦ rfl, fun _ ↦ rfl, rfl, rfl, rfl, fun _ ↦ rfl⟩
  simp only [Zbd.used, Zbd.appended_zones]
  split
  · rename_i hj
    rw [hj]
  · rfl

theorem wrote (fs : Fs) (i : ZoneId) (data : List Byte) {e : Event} (he : e.losesData = false) :
    SameSpace fs (fs.wrote i data e) := (SameSpace.appended fs i data _).trans (.note _ he)

theorem allocateNewZone (fs : Fs) (r : Ref) : SameSpace fs (fs.allocateNewZone G r).1 := by
  obtain ⟨ps, is, fs₁, h₁, h | ⟨i, fs₂, -, h₂, h⟩⟩ := fs.allocateNewZone_cases G r
  all_goals
    have hf : SameSpace fs fs₁ := by
      rw [h₁]
      exact (SameSpace.env fs _).trans (.finishZones _ _)
  · rw [h.1]
    exact hf.trans (.note _)
  · have hp : SameSpace fs fs₂.1 := by
      rw [h₂]
      exact ((hf.trans (.setBusy _ i true)).trans (.setFile _ r)).trans
        (.persistMetadata _ r)
    rcases h with h | h
    · rw [h.1]
      exact hp
    · rw [h.1]
      exact hp.trans (.note _)

theorem closeActiveZone (fs : Fs) (r : Ref) : SameSpace fs (fs.closeActiveZone r) := by
  unfold Fs.closeActiveZone
  split
  · exact .refl fs
  · exact (SameSpace.setBusy fs _ false).trans (.setFile _ r)

theorem closeFile (fs : Fs) (h : Handle) (r : Ref) : SameSpace fs (fs.closeFile G h r).1 := by
  have hm : SameSpace fs
      ((fs.setFile r { fs.heap r with extentStart := NO_EXTENT }).persistMetadata G r).1 :=
    (SameSpace.setFile fs r).trans (.persistMetadata _ r)
  have hc : SameSpace fs (fs.closeWR G r).1 := by
    unfold closeWR
    refine andThen_cases (P := fun x ↦ SameSpace fs x.1) (fun _ ↦ hm) (fun _ ↦ ?_)
    obtain ⟨env, h⟩ := closePartialZone_cases (Fs.setFile _ r _) r
    rw [h]
    exact ((hm.trans (.setFile _ r)).trans (.env _ _)).trans (.closeActiveZone _ r)
  unfold Fs.closeFile
  refine andThen_cases (P := fun x ↦ SameSpace fs x.1) (fun _ ↦ hc) (fun _ ↦ ?_)
  unfold withWriter
  split
  · exact hc
  · rename_i w hw
    exact hc.trans (.setWriter hw rfl)

end SameSpace

/-! ## Holding what is counted -/

/-- The counters are charged, what a handle is open on is held by it, and as long as
no counter has overflowed, none is as high as that and no reset has lost data. -/
structure Spending (leak : ZoneId → Nat) (fs : Fs) : Prop extends Charged leak fs.toStore where
  writer : ∀ h w, fs.writers h = some w → .writer h ∈ fs.handles w.file
  reader : ∀ k r, fs.readers k = some r → .reader k ∈ fs.handles r
  bounded : fs.overflowed = false → ∀ i < fs.zbd.nrZones, fs.zbd.used i < 2 ^ 64
  lost : fs.overflowed = false → fs.lost = []

namespace Spending

theorem live_of_mem (h : Spending leak fs) {t : Holder} (ht : t ∈ fs.handles r) : r ∈ fs.live :=
  h.held r (List.ne_nil_of_mem ht)

theorem live_of_openAt (h : Spending leak fs) {k : Handle} {w : Writer} (hw : OpenAt fs k w) :
    w.file ∈ fs.live := h.live_of_mem (h.writer k w hw.writer)

theorem congr (h : Spending leak fs) (hs : SameSpace fs fs') : Spending leak fs' where
  toCharged := h.toCharged.congr hs.used hs.wrapped hs.live hs.extents hs.nextRef.ge
    (by rw [hs.files]; exact h.named) (by rw [hs.handles]; exact h.held)
  writer := by
    intro k w hw
    have hk := hs.writers k
    rw [hw, Option.map_some] at hk
    obtain ⟨w', hw', hf⟩ := Option.map_eq_some_iff.mp hk.symm
    rw [hs.handles, ← hf]
    exact h.writer k w' hw'
  reader := by
    rw [hs.handles, hs.readers]
    exact h.reader
  bounded := by
    intro ho i hi
    rw [hs.used]
    exact h.bounded (hs.overflowed.symm.trans ho) i (hs.nrZones ▸ hi)
  lost := fun ho ↦
    have ho' := hs.overflowed.symm.trans ho
    (hs.lost ho').trans (h.lost ho')

theorem hold (h : Spending leak fs) (hr : r ∈ fs.live) (t : Holder) :
    Spending leak (fs.hold r t) where
  toCharged := by
    refine h.toCharged.congr (fun _ ↦ rfl) rfl rfl (fun _ ↦ rfl) le_rfl h.named fun r' hr' ↦ ?_
    by_cases he : r' = r
    · exact he ▸ hr
    · refine h.held r' ?_
      simpa [Fs.hold, he] using hr'
  writer := fun k w hw ↦ mem_hold_of_mem (h.writer k w hw)
  reader := fun k r' hk ↦ mem_hold_of_mem (h.reader k r' hk)
  bounded := h.bounded
  lost := h.lost

/-- A holder that no open handle stands for goes away. -/
theorem drop (h : Spending leak fs) {t : Holder} (ht : t ∈ fs.handles r)
    (hw : ∀ k w, fs.writers k = some w → t ≠ .writer k)
    (hk : ∀ k r', fs.readers k = some r' → t ≠ .reader k) : Spending leak (fs.drop r t) where
  toCharged := by
    have hr := h.live_of_mem ht
    refine Charged.release (r := r) ?_ hr
    refine h.toCharged.congr (fun _ ↦ rfl) rfl rfl (fun _ ↦ rfl) le_rfl h.named fun r' hr' ↦ ?_
    by_cases he : r' = r
    · exact he ▸ hr
    · refine h.held r' ?_
      simpa [he] using hr'
  writer := fun k w hkw ↦ mem_drop_of_ne (h.writer k w hkw) (hw k w hkw).symm
  reader := fun k r' hkr ↦ mem_drop_of_ne (h.reader k r' hkr) (hk k r' hkr).symm
  bounded := fun ho i hi ↦ by
    obtain ⟨hn, hu⟩ := Charged.release_used (s := { fs.toStore with
      handles := Function.update fs.handles r ((fs.handles r).erase t) })
      (h.spaceIn_le (h.live_of_mem ht)) i
    exact hu.trans_lt (h.bounded ho i (hn ▸ hi))
  lost := h.lost

theorem drop_localVar (h : Spending leak fs) {k : Nat} (ht : .localVar k ∈ fs.handles r) :
    Spending leak (fs.drop r (.localVar k)) :=
  h.drop ht (fun _ _ _ he ↦ Holder.noConfusion he) fun _ _ _ he ↦ Holder.noConfusion he

theorem setFiles (h : Spending leak fs) (files : Files)
    (hf : ∀ n r, files.lookup n = some r → r ∈ fs.live) :
    Spending leak { fs with files := files } where
  toCharged := h.toCharged.congr (fun _ ↦ rfl) rfl rfl (fun _ ↦ rfl) le_rfl hf h.held
  writer := h.writer
  reader := h.reader
  bounded := h.bounded
  lost := h.lost

/-- An object gets other extents, and the difference leaks. -/
theorem setFile (h : Spending leak fs) (hr : r ∈ fs.live) {f : ZoneFile}
    (hu : ∀ i, spaceIn i (fs.heap r).extents + leak i = spaceIn i f.extents + leak' i) :
    Spending leak' (fs.setFile r f) where
  toCharged := h.toCharged.setFile hr (fun i ↦ by rw [Nat.add_assoc, hu i, Nat.add_assoc]) rfl
  writer := h.writer
  reader := h.reader
  bounded := h.bounded
  lost := h.lost

/-- An extent is recorded. -/
theorem grow (h : Spending leak fs) (hr : r ∈ fs.live) {e : ZoneExtent} {f : ZoneFile}
    (hf : f.extents = (fs.heap r).extents ++ [e] := by rfl) :
    Spending leak ((fs.addUsed e.zone e.length).setFile r f) where
  toCharged := h.toCharged.setFile hr (fun i ↦ by
    rw [Zbd.addUsed_used, hf, spaceIn_append, spaceIn_cons, spaceIn_nil]
    omega) rfl
  writer := h.writer
  reader := h.reader
  bounded := fun ho i hi ↦ by
    obtain ⟨ho, hlt⟩ := Bool.or_eq_false_iff.mp ho
    show (fs.zbd.addUsed e.zone e.length).used i < 2 ^ 64
    rw [Zbd.addUsed_used]
    split
    · rename_i he
      exact he ▸ Nat.lt_of_not_le (of_decide_eq_false hlt)
    · exact h.bounded ho i hi
  lost := fun ho ↦ h.lost (Bool.or_eq_false_iff.mp ho).1

theorem pushExtent (h : Spending leak fs) (hr : r ∈ fs.live) : Spending leak (fs.pushExtent r) := by
  unfold Fs.pushExtent
  dsimp only
  split
  · exact h
  · split
    · exact h
    · rename_i i _ _
      exact h.grow hr
        (e := ⟨(fs.heap r).extentStart, (fs.heap r).fileSize - (fs.heap r).extentFilepos, i⟩)

theorem recordExtent (h : Spending leak fs) (hr : r ∈ fs.live) (i : ZoneId) (header length : Nat) :
    Spending leak (fs.recordExtent r i header length) :=
  h.grow hr (e := ⟨(fs.heap r).extentStart + header, length, i⟩)

theorem appendChunk (h : Spending leak fs) {k : Handle} {w : Writer} (hw : OpenAt fs k w)
    (i : ZoneId) (header left : Nat) : Spending leak (fs.appendChunk k w i header left).1 := by
  have hr := h.live_of_openAt hw
  obtain ⟨fs₁, data, len, h₁, -, -, ⟨n, -, -, h₂, -⟩ | ⟨-, h₂, -⟩⟩ :=
    fs.appendChunk_cases k w i header left
  all_goals
    have hs : SameSpace fs fs₁ := by
      rw [h₁]
      exact .setWriter hw.writer rfl
  · rw [h₂]
    exact h.congr (hs.trans (.wrote _ _ _ rfl))
  · rw [h₂]
    have hs' := hs.trans (.wrote fs₁ i data (e := .append i (fs.heap w.file).fileId data header
      (fs.heap w.file).fileSize len) rfl)
    exact (h.congr hs').recordExtent (hs'.live ▸ hr) i header len

theorem appendDirect (h : Spending leak fs) (r : Ref) (i : ZoneId) (data : List Byte) :
    Spending leak (fs.appendDirect r i data).1 := by
  rcases fs.appendDirect_cases r i data with ⟨n, -, -, h₁, -⟩ | ⟨-, h₁, -⟩
  · rw [h₁]
    exact h.congr (.wrote _ _ _ rfl)
  · rw [h₁]
    exact h.congr ((SameSpace.wrote _ _ _ rfl).trans (.setFile _ r))

/-! ### Names -/

theorem openWriter (h : Spending leak fs) (hr : r ∈ fs.live) (fname : Name) (direct : Bool)
    (k : Handle) : Spending leak (fs.openWriter r fname direct k) := by
  have h₁ := (h.hold hr (.writer k)).congr
    (.setFile _ r (f := { fs.heap r with openForWr := true }))
  refine ⟨h₁.toCharged, fun k' w hw ↦ ?_, h₁.reader, h₁.bounded, h₁.lost⟩
  by_cases hk : k' = k
  · subst hk
    obtain rfl : Fs.newWriter _ _ _ = w := by simpa [Fs.openWriter, setWriter] using hw
    exact mem_hold fs r (.writer k')
  · exact h₁.writer k' w (by simpa [Fs.openWriter, setWriter, hk] using hw)

theorem deleteFileNoLock (h : Spending leak fs) (fname : Name) :
    Spending leak (fs.deleteFileNoLock G fname).1 := by
  unfold Fs.deleteFileNoLock
  split
  · exact h
  · rename_i r hn
    have h₁ : Spending leak { fs.hold r (.localVar 0) with files := fs.files.erase fname } :=
      (h.hold (h.named fname r hn) (.localVar 0)).setFiles _ fun m r' hm ↦
        h.named m r' (Files.lookup_of_erase hm)
    have hmem : Holder.localVar 0 ∈ (fs.hold r (.localVar 0)).handles r := mem_hold ..
    dsimp only
    split
    · exact h₁.drop_localVar hmem
    · rename_i f hf
      have hfext : f.extents = (fs.heap r).extents := Accounted.removeLinkName_extents hf
      have hs := (SameSpace.setFile { fs.hold r (.localVar 0) with files := fs.files.erase fname } r
        hfext).trans (.persistRecord (G := G) _ (.fileDeletion f.fileId fname))
      split
      · rename_i fs₁ heq
        rw [heq] at hs
        split
        · exact (h₁.congr hs).drop_localVar (hs.handles ▸ hmem)
        · have hs' := hs.trans (.setFile fs₁ r (f := { fs₁.heap r with isDeleted := true }))
          exact (h₁.congr hs').drop_localVar (hs'.handles ▸ hmem)
      · rename_i fs₁ s hs₁ heq
        rw [heq] at hs
        have h₂ := (h₁.congr hs).setFiles (fs₁.files.insertNew fname r) fun m r' hm ↦ by
          rw [Files.lookup_insertNew] at hm
          split at hm
          · cases hm
            rw [hs.live]
            exact h.named fname r hn
          · exact (h₁.congr hs).named m r' hm
        refine (h₂.congr (.setFile _ r (f := (fs₁.heap r).addLinkName fname))).drop_localVar ?_
        show Holder.localVar 0 ∈ fs₁.handles r
        rw [hs.handles]
        exact hmem

theorem newFile (h : Spending leak fs) (fname : Name) (direct : Bool) :
    Spending leak (fs.newFile fname direct).2 := by
  have hne : ∀ r ∈ fs.live, r ≠ fs.nextRef := fun r hr ↦ (h.fresh r hr).ne
  have hnew : fs.nextRef ∉ fs.live := fun hmem ↦ hne _ hmem rfl
  refine ⟨⟨fun i ↦ ?_, h.exact, fun n r hr ↦ ?_, fun r hr ↦ ?_, fun r hr ↦ ?_⟩, fun k w hw ↦ ?_,
    fun k r hr ↦ ?_, h.bounded, h.lost⟩
  · have hrest : ∀ f, ∑ r ∈ fs.live, spaceIn i ((Function.update fs.heap fs.nextRef f) r).extents =
        ∑ r ∈ fs.live, spaceIn i (fs.heap r).extents := fun f ↦
      Finset.sum_congr rfl fun r hr ↦ by rw [Function.update_of_ne (hne r hr)]
    show fs.zbd.used i = _
    simp only [Fs.newFile]
    rw [Finset.sum_insert hnew, hrest, Function.update_self, h.used i, spaceIn_nil, Nat.zero_add]
  · exact Finset.mem_insert_of_mem (h.named n r hr)
  · by_cases he : r = fs.nextRef
    · exact he ▸ Finset.mem_insert_self ..
    · refine Finset.mem_insert_of_mem (h.held r ?_)
      simpa [Fs.newFile, he] using hr
  · rcases Finset.mem_insert.mp hr with rfl | hr
    · exact Nat.lt_succ_self _
    · exact (h.fresh r hr).trans (Nat.lt_succ_self _)
  · have hmem := h.writer k w hw
    simpa [Fs.newFile, hne _ (h.live_of_mem hmem)] using hmem
  · have hmem := h.reader k r hr
    simpa [Fs.newFile, hne _ (h.live_of_mem hmem)] using hmem

theorem insertNew (h : Spending leak fs) (hr : r ∈ fs.live) (n : Name) (files : Files)
    (hf : ∀ m r', files.lookup m = some r' → fs.files.lookup m = some r') :
    Spending leak { fs with files := files.insertNew n r } := by
  refine h.setFiles _ fun m r' hm ↦ ?_
  rw [Files.lookup_insertNew] at hm
  split at hm
  · cases hm
    exact hr
  · exact h.named m r' (hf m r' hm)

theorem createFile (h : Spending leak fs) (fname : Name) (direct : Bool) (k : Handle) :
    Spending leak (fs.createFile G fname direct k).1 := by
  unfold Fs.createFile
  dsimp only
  generalize hfs : (fs.newFile fname direct).2.noteRolled G _ = fs₁
  have h₁ : SameSpace (fs.newFile fname direct).2 fs₁ := hfs ▸ .noteRolled _ _
  have hmem : Holder.localVar 0 ∈ (fs.newFile fname direct).2.handles
      (fs.newFile fname direct).1 := by
    simp [Fs.newFile]
  have hs := h₁.trans (.syncFileMetadataNoLock (G := G) fs₁ (fs.newFile fname direct).1 false)
  have h₂ := (h.newFile fname direct).congr hs
  split
  · rename_i fs₂ heq
    rw [heq] at hs h₂
    rw [← hs.handles] at hmem
    have hlive := h₂.live_of_mem hmem
    have h₃ := (h₂.insertNew hlive fname _ fun _ _ hm ↦ hm).openWriter hlive fname direct k
    exact h₃.drop_localVar (mem_hold_of_mem hmem)
  · rename_i fs₂ s _ heq
    rw [heq] at hs h₂
    exact h₂.drop_localVar (hs.handles ▸ hmem)

theorem eraseName (h : Spending leak fs) (n : Name) :
    Spending leak { fs with files := fs.files.erase n } :=
  h.setFiles _ fun m r' hm ↦ h.named m r' (Files.lookup_of_erase hm)

theorem renameLinked (h : Spending leak fs) (hr : r ∈ fs.live) (source_path dest_path : Name) :
    Spending leak (fs.renameLinked G r source_path dest_path).1 := by
  have hrename : ∀ {f f' : ZoneFile} {src dst : Name}, f.renameLink src dst = .ok f' →
      f'.extents = f.extents := fun hf ↦ by
    unfold ZoneFile.renameLink at hf
    split at hf
    · cases hf
      rfl
    · cases hf
  unfold Fs.renameLinked
  split
  · exact h
  · rename_i f hf
    dsimp only
    have h₁ := h.insertNew hr dest_path (fs.files.erase source_path) fun _ _ ↦ Files.lookup_of_erase
    have hs := (SameSpace.setFile { fs with
      files := Files.insertNew (fs.files.erase source_path) dest_path r } r (hrename hf)).trans
        (.syncFileMetadataNoLock (G := G) _ r false)
    split
    · rename_i fs₁ heq
      rw [heq] at hs
      exact h₁.congr hs
    · rename_i fs₁ s hs₁ heq
      rw [heq] at hs
      have h₂ := h₁.congr hs
      split
      · exact h₂.eraseName dest_path
      · rename_i f' hf'
        exact (h₂.insertNew (hs.live ▸ hr) source_path (fs₁.files.erase dest_path)
          fun _ _ ↦ Files.lookup_of_erase).congr (.setFile _ r (hrename hf'))

theorem linkFile (h : Spending leak fs) (fname lname : Name) :
    Spending leak (fs.linkFile G fname lname).1 := by
  unfold Fs.linkFile
  split
  · exact h
  · split
    · exact h
    · rename_i r hn
      have h₁ := h.insertNew (h.named fname r hn) lname _ fun _ _ hm ↦ hm
      have hs := (SameSpace.setFile { fs with files := fs.files.insertNew lname r } r
        (f := (fs.heap r).addLinkName lname)).trans (.syncFileMetadataNoLock (G := G) _ r false)
      split
      · rename_i fs₁ heq
        rw [heq] at hs
        exact h₁.congr hs
      · rename_i fs₁ s hs₁ heq
        rw [heq] at hs
        have h₂ := h₁.congr hs
        split
        · exact h₂
        · rename_i f hf
          exact (h₂.eraseName lname).congr (.setFile _ r (Accounted.removeLinkName_extents hf))

/-! ### Handles -/

theorem openReader (h : Spending leak fs) (fname : Name) (k : Nat) :
    Spending leak (fs.openReader fname k).1 := by
  unfold Fs.openReader
  split
  · exact h
  · rename_i r hn
    have h₁ := h.hold (h.named fname r hn) (.reader k)
    refine ⟨h₁.toCharged, h₁.writer, fun k' r' hk ↦ ?_, h₁.bounded, h₁.lost⟩
    by_cases he : k' = k
    · subst he
      obtain rfl : r = r' := by simpa using hk
      exact mem_hold fs r (.reader k')
    · exact h₁.reader k' r' (by simpa [he, Fs.hold] using hk)

theorem closeReader (h : Spending leak fs) (k : Nat) : Spending leak (fs.closeReader k) := by
  unfold Fs.closeReader
  split
  · exact h
  · rename_i r hk
    have h₁ : Spending leak { fs with readers := Function.update fs.readers k none } := by
      refine ⟨h.toCharged, h.writer, fun k' r' hk' ↦ ?_, h.bounded, h.lost⟩
      by_cases he : k' = k
      · simp [he] at hk'
      · exact h.reader k' r' (by simpa [he] using hk')
    refine h₁.drop (h.reader k r hk) (fun _ _ _ he ↦ Holder.noConfusion he) ?_
    rintro k' r' hk' he
    obtain rfl := Holder.reader.inj he
    simp at hk'

theorem destroyWriter (h : Spending leak fs) {k : Handle} {w : Writer}
    (hw : fs.writers k = some w) :
    Spending leak ({ fs with writers := Function.update fs.writers k none }.drop w.file
      (.writer k)) := by
  have h₁ : Spending leak { fs with writers := Function.update fs.writers k none } := by
    refine ⟨h.toCharged, fun k' w' hk' ↦ ?_, h.reader, h.bounded, h.lost⟩
    by_cases he : k' = k
    · simp [he] at hk'
    · exact h.writer k' w' (by simpa [he] using hk')
  refine h₁.drop (h.writer k w hw) ?_ fun _ _ _ he ↦ Holder.noConfusion he
  rintro k' w' hk' he
  obtain rfl := Holder.writer.inj he
  simp at hk'

/-! ### Zones -/

/-- A zone without space in use has no bytes of a live file, so its reset loses none. -/
theorem resetZone (h : Spending leak fs) {i : ZoneId} (hi : i < fs.zbd.nrZones)
    (hu : (fs.zbd.zones i).stored.isUsed = false) : Spending leak (fs.resetZone i).1 := by
  have hlive : fs.overflowed = false → fs.holdsLive i = false := by
    intro ho
    have hzero : fs.zbd.used i = 0 := by
      rw [Zone.stored_eq (h.bounded ho i hi)] at hu
      simpa [Zone.isUsed, Zbd.used] using hu
    refine decide_eq_false ?_
    rintro ⟨r, hr, e, he, rfl, hpos⟩
    have hle := (length_le_spaceIn he).trans (h.spaceIn_le hr e.zone)
    omega
  have hs : SameSpace fs { fs with zbd := (fs.zbd.reset i (fs.env.resets i)).1 } := by
    refine .zbd fs (fun j ↦ ?_) ?_ (Zbd.reset_nrZones ..)
    · cases hres : fs.env.resets i with
      | failed erased => cases erased <;> rfl
      | _ =>
          by_cases hj : j = i
          · subst hj
            simp [Zbd.reset, Zbd.used]
          · simp [Zbd.reset, Zbd.used, hj]
    · cases hres : fs.env.resets i with
      | failed erased => cases erased <;> rfl
      | _ => rfl
  unfold Fs.resetZone
  dsimp only
  split
  · exact h.congr hs
  · refine h.congr (hs.trans (.of_metaOnly (metaOnly_note _ _) fun ho ↦ ?_))
    simp [Fs.lost, Fs.note, Event.losesData, hlive ho]

end Spending

/-! ## Migration -/

/-- The extents whose place another one has taken. -/
def moved (old_extents new_extents : List ZoneExtent) : List ZoneExtent :=
  ((old_extents.zip new_extents).filter fun p ↦ p.1.start ≠ p.2.start).map Prod.fst

theorem clearChanged_eq (d : Zbd) (old_extents new_extents : List ZoneExtent) :
    clearChanged d old_extents new_extents = d.clearExtents (moved old_extents new_extents) := by
  unfold clearChanged moved Zbd.clearExtents
  induction old_extents.zip new_extents generalizing d with
  | nil => rfl
  | cons p ps ih =>
      rw [List.foldl_cons, ih]
      by_cases hp : p.1.start = p.2.start
      · simp [hp]
      · simp [hp]

theorem moved_cons (e e' : ZoneExtent) (es es' : List ZoneExtent) :
    moved (e :: es) (e' :: es') = (if e.start = e'.start then [] else [e]) ++ moved es es' := by
  by_cases he : e.start = e'.start
  · simp [moved, he]
  · simp [moved, he]

/-- Space that is counted without an extent to show for it, and whether counting it
has made a counter overflow. -/
def charge (fs : Fs) (added : ZoneId → Nat) (ovf : Bool) : Fs :=
  { fs with
    zbd :=
      { fs.zbd with zones := fun i ↦
          { fs.zbd.zones i with usedCapacity := (fs.zbd.zones i).usedCapacity + added i } }
    overflowed := fs.overflowed || ovf }

theorem charge_used (fs : Fs) (added : ZoneId → Nat) (ovf : Bool) (i : ZoneId) :
    (fs.charge added ovf).zbd.used i = fs.zbd.used i + added i := rfl

/-- What is added does not make a counter overflow. -/
def Room (fs : Fs) (added : ZoneId → Nat) : Prop :=
  (∀ i < fs.zbd.nrZones, fs.zbd.used i < 2 ^ 64) →
    ∀ i < fs.zbd.nrZones, fs.zbd.used i + added i < 2 ^ 64

theorem Spending.charge (h : Spending leak fs) {added : ZoneId → Nat} {ovf : Bool}
    (hovf : ovf = false → fs.Room added) :
    Spending (fun i ↦ leak i + added i) (fs.charge added ovf) where
  used := fun i ↦ by
    rw [charge_used, h.used i, Nat.add_assoc]
    rfl
  exact := h.exact
  named := h.named
  held := h.held
  fresh := h.fresh
  writer := h.writer
  reader := h.reader
  bounded := fun ho ↦
    have ho := Bool.or_eq_false_iff.mp ho
    hovf ho.2 (h.bounded ho.1)
  lost := fun ho ↦ h.lost (Bool.or_eq_false_iff.mp ho).1

theorem SameSpace.charge_charge {added added₁ : ZoneId → Nat} {ovf ovf₁ : Bool}
    (h : SameSpace (fs.charge added ovf) fs₁) (h₁ : SameSpace (fs₁.charge added₁ ovf₁) fs₂) :
    SameSpace (fs.charge (fun i ↦ added i + added₁ i) (ovf || ovf₁)) fs₂ where
  used := fun i ↦ by
    rw [h₁.used, charge_used, h.used, charge_used, charge_used, Nat.add_assoc]
  wrapped := h₁.wrapped.trans h.wrapped
  files := h₁.files.trans h.files
  live := h₁.live.trans h.live
  handles := h₁.handles.trans h.handles
  nextRef := h₁.nextRef.trans h.nextRef
  extents := fun r ↦ (h₁.extents r).trans (h.extents r)
  writers := fun k ↦ (h₁.writers k).trans (h.writers k)
  readers := h₁.readers.trans h.readers
  nrZones := h₁.nrZones.trans h.nrZones
  overflowed := by
    refine h₁.overflowed.trans ((congrArg (· || ovf₁) h.overflowed).trans ?_)
    exact Bool.or_assoc ..
  lost := fun ho ↦ by
    rw [show (fs.charge _ _).overflowed = ((fs.charge added ovf).overflowed || ovf₁) from
      (Bool.or_assoc ..).symm, ← h.overflowed] at ho
    exact (h₁.lost ho).trans (h.lost (h.overflowed ▸ (Bool.or_eq_false_iff.mp ho).1))

/-- From `fs` to `fs'` no extent has been redirected to where it was. -/
def Displaces (fs fs' : Fs) : Prop := ∃ evs, fs'.hist = fs.hist ++ evs ∧ .redirectedInPlace ∉ evs

namespace Displaces

theorem refl (fs : Fs) : Displaces fs fs := ⟨[], (List.append_nil _).symm, List.not_mem_nil⟩

theorem of_notMem (h : fs.hist <+: fs'.hist) (hn : .redirectedInPlace ∉ fs'.hist) :
    Displaces fs fs' := by
  obtain ⟨evs, he⟩ := h
  exact ⟨evs, he.symm, fun hmem ↦ hn (he ▸ List.mem_append_right fs.hist hmem)⟩

theorem trans (h : Displaces fs fs₁) (h' : Displaces fs₁ fs₂) : Displaces fs fs₂ := by
  obtain ⟨evs, he, hn⟩ := h
  obtain ⟨evs', he', hn'⟩ := h'
  refine ⟨evs ++ evs', by rw [he', he, List.append_assoc], ?_⟩
  rw [List.mem_append, not_or]
  exact ⟨hn, hn'⟩

theorem finishZones (fs : Fs) (is : List ZoneId) : Displaces fs (fs.finishZones is) := by
  induction is generalizing fs with
  | nil => exact .refl fs
  | cons i is ih =>
      refine trans ?_ (ih _)
      dsimp only
      split
      · exact ⟨[.finish i], rfl, by simp⟩
      · exact .refl fs

/-- What holds of two stretches holds of each. -/
theorem split (h : Displaces fs fs₂) (h₁ : fs.hist <+: fs₁.hist) (h₂ : fs₁.hist <+: fs₂.hist) :
    Displaces fs fs₁ ∧ Displaces fs₁ fs₂ := by
  obtain ⟨evs, he, hn⟩ := h
  obtain ⟨evs₁, h₁⟩ := h₁
  obtain ⟨evs₂, h₂⟩ := h₂
  have heq : evs = evs₁ ++ evs₂ := by
    rw [← h₂, ← h₁, List.append_assoc] at he
    exact (List.append_cancel_left he).symm
  rw [heq, List.mem_append, not_or] at hn
  exact ⟨⟨evs₁, h₁.symm, hn.1⟩, ⟨evs₂, h₂.symm, hn.2⟩⟩

end Displaces

/-- What redirecting some extents does to the counters: the new extents are counted
on top of the old ones.  `stuck` is what was copied to where it had been. -/
structure Redirected (fs : Fs) (es : List ZoneExtent) (fs' : Fs) (es' : List ZoneExtent) :
    Prop where
  charged : ∃ (added stuck : ZoneId → Nat) (ovf : Bool), SameSpace (fs.charge added ovf) fs' ∧
    (ovf = false → fs.Room added) ∧
    (∀ i, spaceIn i es + added i = spaceIn i es' + spaceIn i (moved es es') + stuck i) ∧
    (Displaces fs fs' → ∀ i, stuck i = 0)

theorem SameSpace.uncharged (h : SameSpace fs fs') :
    SameSpace (fs.charge (fun _ ↦ 0) false) fs' where
  used := h.used
  wrapped := h.wrapped
  files := h.files
  live := h.live
  handles := h.handles
  nextRef := h.nextRef
  extents := h.extents
  writers := h.writers
  readers := h.readers
  nrZones := h.nrZones
  overflowed := h.overflowed.trans (Bool.or_false _).symm
  lost := fun ho ↦ h.lost ((Bool.or_false _).symm.trans ho)

theorem room_zero (fs : Fs) : fs.Room fun _ ↦ 0 := fun h i hi ↦ h i hi

/-- A zone is charged with an extent that is copied to it. -/
theorem SameSpace.addUsed (h : SameSpace fs fs₁) (i : ZoneId) (n : Nat) :
    SameSpace (fs.charge (fun j ↦ if i = j then n else 0) (decide (2 ^ 64 ≤ fs.zbd.used i + n)))
      (fs₁.addUsed i n) where
  used := fun j ↦ by rw [addUsed_zbd, Zbd.addUsed_used, h.used, charge_used]
  wrapped := h.wrapped
  files := h.files
  live := h.live
  handles := h.handles
  nextRef := h.nextRef
  extents := h.extents
  writers := h.writers
  readers := h.readers
  nrZones := h.nrZones
  overflowed := by
    have hu : (fs₁.zbd.zones i).usedCapacity = fs.zbd.used i := h.used i
    simp [Fs.addUsed, Fs.charge, h.overflowed, hu]
  lost := fun ho ↦ h.lost (Bool.or_eq_false_iff.mp ho).1

theorem room_addUsed (fs : Fs) (i : ZoneId) (n : Nat)
    (h : decide (2 ^ 64 ≤ fs.zbd.used i + n) = false) : fs.Room fun j ↦ if i = j then n else 0 := by
  intro hb j hj
  dsimp only
  split
  · rename_i hij
    exact hij ▸ Nat.lt_of_not_le (of_decide_eq_false h)
  · exact hb j hj

theorem migrateExtent_redirected (fs : Fs) (r : Ref) (exts : List (Nat × Nat)) (e : ZoneExtent) :
    Redirected fs [e] (fs.migrateExtent r exts e).1 [(fs.migrateExtent r exts e).2] := by
  have hstay : ∀ {fs' : Fs}, SameSpace fs fs' → Redirected fs [e] fs' [e] := fun hs ↦
    ⟨_, fun _ ↦ 0, _, hs.uncharged, fun _ ↦ fs.room_zero, fun i ↦ by simp [moved], fun _ _ ↦ rfl⟩
  obtain ⟨ps, is, fs₁, h₁, h | h | ⟨target, fs₂, fs₃, -, h₂, h₃, -, hsnd, hfst⟩⟩ :=
    fs.migrateExtent_cases r exts e
  all_goals
    have hs₁ : SameSpace fs fs₁ := by
      rw [h₁]
      exact (SameSpace.env fs _).trans (.finishZones _ _)
  · rw [h]
    exact hstay (.refl fs)
  · rw [h]
    exact hstay hs₁
  · have hs₃ : SameSpace fs fs₃ := by
      obtain ⟨env, evs, -, hcopy, rfl⟩ := h₃.eq
      subst h₂
      refine (hs₁.trans (.setBusy fs₁ target true)).trans ?_
      refine SameSpace.trans (.appended _ target (evs.flatMap Event.copied) env) ?_
      refine ⟨fun _ ↦ rfl, rfl, rfl, rfl, rfl, rfl, fun _ ↦ rfl, fun _ ↦ rfl, rfl, rfl,
        rfl, fun _ ↦ ?_⟩
      simp only [lost, List.filter_append, List.append_right_eq_self, List.filter_eq_nil_iff]
      intro ev hev
      obtain ⟨data, rfl⟩ := hcopy ev hev
      exact Bool.false_ne_true
    have hs := (hs₃.addUsed target e.length).trans (.setBusy _ target false)
    have hhist : fs.hist <+: fs₃.hist := by
      obtain ⟨env, evs, -, -, rfl⟩ := h₃.eq
      rw [h₂, h₁]
      exact (finishZones_hist { fs with env := { fs.env with picks := ps } } is).trans
        (List.prefix_append _ _)
    have hroom := fs.room_addUsed target e.length
    rw [hsnd, hfst]
    by_cases hstart : fs₁.migrateStart r target = e.start
    · rw [if_pos hstart]
      refine ⟨_, fun i ↦ spaceIn i [e], _, hs.trans (.note _ rfl), hroom, fun i ↦ ?_, fun hl ↦ ?_⟩
      · simp only [moved_cons, hstart, if_true, List.nil_append, spaceIn_cons, spaceIn_nil]
        simp [moved]
        omega
      · obtain ⟨-, evs, hevs, hn⟩ := hl.split hhist (List.prefix_append _ _)
        obtain rfl := List.append_cancel_left hevs
        exact absurd List.mem_cons_self hn
    · rw [if_neg hstart]
      refine ⟨_, fun _ ↦ 0, _, hs, hroom, fun i ↦ ?_, fun _ _ ↦ rfl⟩
      simp only [moved_cons, Ne.symm hstart, if_false, spaceIn_cons, spaceIn_nil, spaceIn_append]
      simp [moved]
      omega

/-- There is room for what is added in two steps, if there is in each. -/
theorem Room.add {added added₁ : ZoneId → Nat} {ovf : Bool} (h : fs.Room added)
    (hs : SameSpace (fs.charge added ovf) fs₁) (h₁ : fs₁.Room added₁) :
    fs.Room fun i ↦ added i + added₁ i := by
  intro hb i hi
  have hu : ∀ j, fs₁.zbd.used j = fs.zbd.used j + added j := hs.used
  have hn : fs₁.zbd.nrZones = fs.zbd.nrZones := hs.nrZones
  have := h₁ (fun j hj ↦ hu j ▸ h hb j (hn ▸ hj)) i (hn ▸ hi)
  rw [hu] at this
  simpa only [Nat.add_assoc] using this

theorem migrateAll_redirected (r : Ref) (exts : List (Nat × Nat)) (es : List ZoneExtent) (fs : Fs) :
    Redirected fs es (fs.migrateAll r exts es).1 (fs.migrateAll r exts es).2 := by
  induction es generalizing fs with
  | nil =>
      exact ⟨_, fun _ ↦ 0, _, (SameSpace.refl fs).uncharged, fun _ ↦ fs.room_zero, fun i ↦ rfl,
        fun _ _ ↦ rfl⟩
  | cons e es ih =>
      obtain ⟨added, stuck, ovf, hs, hroom, hspace, hl⟩ := migrateExtent_redirected fs r exts e
      obtain ⟨added₁, stuck₁, ovf₁, hs₁, hroom₁, hspace₁, hl₁⟩ := ih (fs.migrateExtent r exts e).1
      refine ⟨_, fun i ↦ stuck i + stuck₁ i, _, hs.charge_charge hs₁, fun ho ↦ ?_, fun i ↦ ?_,
        fun hlast i ↦ ?_⟩
      · obtain ⟨ho, ho₁⟩ := Bool.or_eq_false_iff.mp ho
        exact (hroom ho).add hs (hroom₁ ho₁)
      · have h₁ := hspace i
        have h₂ := hspace₁ i
        simp only [migrateAll, moved_cons, spaceIn_cons, spaceIn_nil, spaceIn_append] at *
        simp only [moved, List.zip_nil_left, List.filter_nil, List.map_nil, spaceIn_nil] at h₁
        simp only [moved] at *
        omega
      · obtain ⟨hd, hd₁⟩ := hlast.split (migrateExtent_hist fs r exts e)
          (migrateAll_hist r exts es (fs.migrateExtent r exts e).1)
        simp [hl hd i, hl₁ hd₁ i]

/-- A migration keeps the counters above the extents.  If it leaves something counted
for good, that can be seen in what has happened. -/
theorem Spending.migrateFileExtents (h : Spending leak fs) (fname : Name)
    (exts : List (Nat × Nat)) : ∃ leak', Spending leak' (fs.migrateFileExtents G fname exts).1 ∧
      (.persistFailed ∉ (fs.migrateFileExtents G fname exts).1.hist →
        Displaces fs (fs.migrateFileExtents G fname exts).1 → leak' = leak) := by
  obtain heq | ⟨r, fs₁, fs₂, es, fs₃, hn, -, h₁, h₂, h₃, heq⟩ :=
    fs.migrateFileExtents_cases G fname exts
  · rw [heq]
    exact ⟨leak, h, fun _ _ ↦ rfl⟩
  · have hr := h.named fname r hn
    have hmem : Holder.localVar 0 ∈ (fs.hold r (.localVar 0)).handles r := mem_hold ..
    have hs₁ : SameSpace (fs.hold r (.localVar 0)) fs₁ := by
      rw [h₁]
      exact .setFile _ r
    have hred := migrateAll_redirected r exts (fs.heap r).extents fs₁
    have hpre₂ := migrateAll_hist r exts (fs.heap r).extents fs₁
    rw [h₂] at hred hpre₂
    dsimp only at hred
    obtain ⟨added, stuck, ovf, hs₂, hroom, hspace, hstuck⟩ := hred
    have hs : SameSpace ((fs.hold r (.localVar 0)).charge added ovf) fs₂ := by
      refine SameSpace.trans ?_ hs₂
      subst h₁
      exact ⟨fun i ↦ rfl, rfl, rfl, rfl, rfl, rfl, hs₁.extents, fun _ ↦ rfl, rfl, rfl,
        rfl, fun _ ↦ rfl⟩
    have hroom' : ovf = false → (fs.hold r (.localVar 0)).Room added := by
      subst h₁
      exact hroom
    have hext : (fs₂.heap r).extents = (fs.heap r).extents := hs.extents r
    -- the new list is set, and the old extents whose place is taken are still counted
    have hset : Spending (fun i ↦ leak i + spaceIn i (moved (fs.heap r).extents es) + stuck i)
        (fs₂.setFile r { fs₂.heap r with extents := es }.metadataUnsynced) := by
      refine (((h.hold hr (.localVar 0)).charge hroom').congr hs).setFile (hs.live ▸ hr) fun i ↦ ?_
      have := hspace i
      rw [hext]
      show _ = spaceIn i es + _
      omega
    have hsync := SameSpace.syncFileMetadataNoLock (G := G)
      (fs₂.setFile r { fs₂.heap r with extents := es }.metadataUnsynced) r true
    have hend : ∀ {fs₄ : Fs} {leak' : ZoneId → Nat}, Spending leak' fs₄ →
        fs₄.handles = (fs.hold r (.localVar 0)).handles → Spending leak'
          ((fs₄.setFile r { fs₄.heap r with openForWr := false }).drop r (.localVar 0)) := by
      intro fs₄ leak' h₄ hh
      refine (h₄.congr (.setFile _ r)).drop_localVar ?_
      show Holder.localVar 0 ∈ fs₄.handles r
      rw [hh]
      exact hmem
    have hfail := syncFileMetadataNoLock_failed (G := G)
      (fs₂.setFile r { fs₂.heap r with extents := es }.metadataUnsynced) r true
    have hpre := (metaOnly_syncFileMetadataNoLock (G := G)
      (fs₂.setFile r { fs₂.heap r with extents := es }.metadataUnsynced) r true).hist
    rw [heq]
    show ∃ leak', Spending leak' ((fs₃.setFile r { fs₃.heap r with openForWr := false }).drop r
      (.localVar 0)) ∧ (.persistFailed ∉ fs₃.hist → Displaces fs fs₃ → leak' = leak)
    unfold syncFileExtents at h₃
    rw [hext] at h₃
    rcases hx : (fs₂.setFile r
      { fs₂.heap r with extents := es }.metadataUnsynced).syncFileMetadataNoLock G r true with
      ⟨fs₄, st⟩
    dsimp only at h₃
    rw [hx] at hsync hfail hpre h₃
    have h₄ := hset.congr hsync
    have hhand : fs₄.handles = (fs.hold r (.localVar 0)).handles := hsync.handles.trans hs.handles
    by_cases hok : st = .ok
    · rw [andThen_ok hok] at h₃
      have hcounted : ∀ i, spaceIn i (moved (fs.heap r).extents es) ≤ fs₄.zbd.used i := fun i ↦ by
        rw [h₄.used i]
        omega
      obtain ⟨hu, hw⟩ := Zbd.clearExtents_used hcounted
      subst h₃
      refine ⟨fun i ↦ leak i + stuck i, hend ?_ hhand, fun _ hd ↦ ?_⟩
      · rw [clearChanged_eq]
        refine ⟨⟨fun i ↦ ?_, hw.trans h₄.exact, h₄.named, h₄.held, h₄.fresh⟩, h₄.writer, h₄.reader,
          fun ho i hi ↦ ?_, h₄.lost⟩
        · have hused : fs₄.zbd.used i = ∑ r' ∈ fs₄.live, spaceIn i (fs₄.heap r').extents + _ :=
            h₄.used i
          show (fs₄.zbd.clearExtents _).used i =
            ∑ r' ∈ fs₄.live, spaceIn i (fs₄.heap r').extents + _
          rw [hu i]
          omega
        · have hlt := h₄.bounded ho i (Zbd.clearExtents_nrZones fs₄.zbd _ ▸ hi)
          exact ((hu i).trans_le (Nat.sub_le ..)).trans_lt hlt
      · have hd' : Displaces fs₁ fs₄ := by
          subst h₁
          exact hd
        obtain ⟨hd₁, -⟩ := hd'.split hpre₂ hpre
        funext i
        simp [hstuck hd₁ i]
    · rw [andThen_of_ne hok] at h₃
      subst h₃
      exact ⟨_, hend h₄ hhand, fun hp _ ↦ absurd (hfail hok) hp⟩

/-! ## Runs -/

/-- Every tick keeps the counters charged, and all but migrations leave nothing counted. -/
theorem Spending.tick {c : Conduct} (h : Spending leak fs) (ht : Tick G c fs fs') :
    ∃ leak', Spending leak' fs' ∧ (.persistFailed ∉ fs'.hist →
      (∀ fname exts, c.migrates fs fname exts → fs' = (fs.migrateFileExtents G fname exts).1 →
        Displaces fs fs') → leak' = leak) := by
  have hsame : ∀ {fs₁ : Fs} {p q : Prop}, Spending leak fs₁ → ∃ leak', Spending leak' fs₁ ∧
      (p → q → leak' = leak) := fun h₁ ↦ ⟨leak, h₁, fun _ _ ↦ rfl⟩
  cases ht with
  | migrateFileExtents hm =>
      obtain ⟨leak', h', hl⟩ := h.migrateFileExtents (G := G) _ _
      exact ⟨leak', h', fun hp hd ↦ hl hp (hd _ _ hm rfl)⟩
  | env => exact hsame (h.congr (.env _ _))
  | note he => exact hsame (h.congr (.note _ (Event.losesData_of_isNote he)))
  | appended hw data =>
      exact hsame ⟨h.toCharged, h.writer, h.reader, h.bounded, h.lost⟩
  | setWriter hw hk => exact hsame (h.congr (.setWriter hw (congrArg Prod.fst hk)))
  | openWriter hn hw hl direct => exact hsame (h.openWriter (h.named _ _ hn) _ direct _)
  | closeFile hw hp => exact hsame (h.congr (.closeFile _ _ _))
  | destroyWriter hw => exact hsame (h.destroyWriter hw)
  | openReader fname hk => exact hsame (h.openReader fname _)
  | closeReader k => exact hsame (h.closeReader k)
  | hold hn k => exact hsame (h.hold (h.named _ _ hn) _)
  | drop hr => exact hsame (h.drop_localVar hr)
  | persistMetadata hw => exact hsame (h.congr (.persistMetadata _ _))
  | setLifetime hw hint => exact hsame (h.congr (.setFile _ _))
  | pushExtent hw hb => exact hsame (h.pushExtent (h.live_of_openAt hw))
  | closeActiveZone hw hz hc hp => exact hsame (h.congr (.closeActiveZone _ _))
  | allocateNewZone hw hz => exact hsame (h.congr (.allocateNewZone _ _))
  | appendChunk hw hb hz hl hc => exact hsame (h.appendChunk hw _ _ _)
  | appendLast hw hb hz hl hok =>
      exact hsame ((h.appendChunk hw _ _ _).congr (.closeActiveZone _ _))
  | appendDirect hw hb hz hc hu => exact hsame (h.appendDirect _ _ _)
  | deleteFileNoLock fname => exact hsame (h.deleteFileNoLock fname)
  | createFile hn hw direct => exact hsame (h.createFile _ direct _)
  | renameLinked hr hd source_path => exact hsame (h.renameLinked (h.live_of_mem hr) source_path _)
  | linkFile fname lname => exact hsame (h.linkFile fname lname)
  | resetZone hi hb he hu => exact hsame (h.resetZone hi hu)

end Fs

end ZenFs
