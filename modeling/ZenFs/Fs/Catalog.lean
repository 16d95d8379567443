import ZenFs.Meta.Replay

/-!
# What a metadata log means

A catalog assigns to each file id the record that the log has built up for it,
and every log record changes the catalog in one obvious way.  `RecoverFrom`
works on objects, names and zone counters instead; the theorem of this file is
that it computes the catalog, for every log whose records fit together.
-/

namespace ZenFs

/-- The file records a log stands for, with all their extents, by file id. -/
abbrev Catalog := Nat → Option FileRecord

namespace Catalog

/-- The extents recorded for a file. -/
def extents (C : Catalog) (id : Nat) : List (Nat × Nat) := ((C id).map FileRecord.extents).getD []

/-- One link of a file is removed, and the file with its last link. -/
def unlink (C : Catalog) (id : Nat) (n : Name) : Option FileRecord :=
  (C id).bind fun fr ↦
    if fr.linkfiles.erase n = [] then none else some { fr with linkfiles := fr.linkfiles.erase n }

/-- What a record does to the catalog. -/
def apply (C : Catalog) : Record → Catalog
  | .completeFilesSnapshot frs => fun id ↦ frs.find? fun fr ↦ fr.fileId == id
  | .fileUpdate fr =>
      Function.update C fr.fileId (some { fr with extents := C.extents fr.fileId ++ fr.extents })
  | .fileReplace fr => Function.update C fr.fileId (some fr)
  | .fileDeletion id n => Function.update C id (C.unlink id n)
  | .superblock _ => C
  | .endRecord => C

/-- The catalog of a log. -/
def replay (C : Catalog) (rs : List Record) : Catalog := rs.foldl apply C

@[simp] theorem replay_nil (C : Catalog) : C.replay [] = C := rfl

@[simp] theorem replay_cons (C : Catalog) (r : Record) (rs : List Record) :
    C.replay (r :: rs) = (C.apply r).replay rs := rfl

@[simp] theorem replay_append (C : Catalog) (rs rs' : List Record) :
    C.replay (rs ++ rs') = (C.replay rs).replay rs' := by
  simp [replay]

/-- A file record that can be decoded on its own: it has names, no name twice,
and all its extents are in zones of the device. -/
structure Sound (loc : Nat → Option ZoneId) (fr : FileRecord) : Prop where
  links_ne_nil : fr.linkfiles ≠ []
  nodup : fr.linkfiles.Nodup
  named : "" ∉ fr.linkfiles
  located : ∀ e ∈ fr.extents, (loc e.1).isSome

/-- A record of a file fits the catalog: its names are not taken by other files,
and a new file has one name. -/
structure Admits (loc : Nat → Option ZoneId) (C : Catalog) (fr : FileRecord) : Prop
    extends Sound loc fr where
  free : ∀ id fr', id ≠ fr.fileId → C id = some fr' → ∀ n ∈ fr.linkfiles, n ∉ fr'.linkfiles
  single : C fr.fileId = none → ∃ n, fr.linkfiles = [n]

/-- The records of a snapshot fit together.  A file with several names is there
once for each of them. -/
structure Coherent (loc : Nat → Option ZoneId) (frs : List FileRecord) : Prop where
  sound : ∀ fr ∈ frs, Sound loc fr
  eq_of_id : ∀ fr ∈ frs, ∀ fr' ∈ frs, fr.fileId = fr'.fileId → fr = fr'
  disjoint : ∀ fr ∈ frs, ∀ fr' ∈ frs, fr.fileId ≠ fr'.fileId → ∀ n ∈ fr.linkfiles, n ∉ fr'.linkfiles

/-- A record that fits the catalog in front of it. -/
def Accepts (loc : Nat → Option ZoneId) (C : Catalog) : Record → Prop
  | .completeFilesSnapshot frs => Coherent loc frs
  | .fileUpdate fr => Admits loc C fr
  | .fileReplace fr => Admits loc C fr
  | .fileDeletion id n => ∃ fr, C id = some fr ∧ n ∈ fr.linkfiles
  | .superblock _ => False
  | .endRecord => True

/-- A log whose records fit together. -/
def AcceptsAll (loc : Nat → Option ZoneId) : Catalog → List Record → Prop
  | _, [] => True
  | C, r :: rs => Accepts loc C r ∧ AcceptsAll loc (C.apply r) rs

end Catalog

/-! ## Names -/

namespace Files

variable {fs : Files} {n m : Name} {r : Ref}

theorem lookup_insertNew :
    (fs.insertNew n r).lookup m = if m = n ∧ n ∉ fs then some r else fs.lookup m := by
  unfold insertNew
  by_cases hn : n ∈ fs
  · simp [hn]
  by_cases hm : m = n
  · subst hm
    simp [hn]
  · simp [hn, hm]

/-- All names that are free are taken by the new object. -/
theorem lookup_insertLinks (ns : List Name) :
    (fs.insertLinks ns r).lookup m = if m ∈ ns ∧ m ∉ fs then some r else fs.lookup m := by
  induction ns generalizing fs with
  | nil => simp [insertLinks]
  | cons n ns ih =>
      have hstep : fs.insertLinks (n :: ns) r = (fs.insertNew n r).insertLinks ns r := rfl
      have hmem : m ∈ fs.insertNew n r ↔ m = n ∨ m ∈ fs := by
        unfold insertNew
        split
        · exact ⟨.inr, fun h ↦ h.elim (fun he ↦ he ▸ ‹_›) id⟩
        · simp
      rw [hstep, ih, lookup_insertNew]
      by_cases hm : m = n
      · subst hm
        simp [hmem]
      · simp [hmem, hm]

/-- Where all names are taken, nothing is inserted. -/
theorem insertLinks_of_mem {ns : List Name} (h : ∀ n ∈ ns, n ∈ fs) : fs.insertLinks ns r = fs := by
  induction ns with
  | nil => rfl
  | cons n ns ih =>
      have hstep : fs.insertNew n r = fs := if_pos (h n (List.mem_cons_self ..))
      rw [insertLinks, List.foldl_cons, hstep]
      exact ih fun m hm ↦ h m (List.mem_cons_of_mem _ hm)

/-- Names that are all there can be erased. -/
theorem eraseLinks_eq_some {ns : List Name} (hd : ns.Nodup) (h : ∀ n ∈ ns, n ∈ fs) :
    ∃ fs', eraseLinks ns fs = some fs' ∧
      ∀ m, fs'.lookup m = if m ∈ ns then none else fs.lookup m := by
  induction ns generalizing fs with
  | nil => exact ⟨fs, rfl, by simp⟩
  | cons n ns ih =>
      obtain ⟨hn, hd'⟩ := List.nodup_cons.mp hd
      have hmem : ∀ m ∈ ns, m ∈ fs.erase n := by
        intro m hm
        refine AList.mem_erase.mpr ⟨?_, h m (List.mem_cons_of_mem _ hm)⟩
        rintro rfl
        exact hn hm
      obtain ⟨fs', he, hl⟩ := ih hd' hmem
      refine ⟨fs', by rw [eraseLinks, if_pos (h n (List.mem_cons_self ..)), he], fun m ↦ ?_⟩
      rw [hl]
      by_cases hm : m = n
      · subst hm
        simp [hn]
      · simp [hm]

theorem refers_iff : fs.refers r = true ↔ ∃ n, fs.lookup n = some r := by
  simp only [refers, List.any_eq_true, beq_iff_eq]
  constructor
  · rintro ⟨⟨n, r'⟩, he, rfl⟩
    exact ⟨n, AList.mem_lookup_iff.mpr he⟩
  · rintro ⟨n, hn⟩
    exact ⟨⟨n, r⟩, AList.mem_lookup_iff.mp hn, rfl⟩

/-- What is left when a name is erased was there before. -/
theorem lookup_of_erase {fs : Files} {n m : Name} {r : Ref} (h : (fs.erase m).lookup n = some r) :
    fs.lookup n = some r := by
  by_cases hm : n = m
  · subst hm
    simp at h
  · rwa [AList.lookup_erase_ne hm] at h

/-- So it is when links are erased. -/
theorem lookup_of_eraseLinks {ns : List Name} {fs fs' : Files} {n : Name} {r : Ref}
    (h : eraseLinks ns fs = some fs') (hr : fs'.lookup n = some r) : fs.lookup n = some r := by
  induction ns generalizing fs with
  | nil =>
      cases h
      exact hr
  | cons m ns ih =>
      unfold eraseLinks at h
      split at h
      · exact lookup_of_erase (ih h)
      · cases h

end Files

theorem Store.lookup_of_findId {s : Store} {id : Nat} {r : Ref} (h : s.findId id = some r) :
    ∃ n, s.files.lookup n = some r := by
  obtain ⟨e, he, rfl⟩ := Option.map_eq_some_iff.mp h
  exact ⟨e.1, AList.mem_lookup_iff.mpr (List.mem_of_find?_eq_some he)⟩

/-! ## Decoding -/

section Decode

variable {loc : Nat → Option ZoneId} {d : Zbd} {f : ZoneFile} {fr : FileRecord}

/-- The object `f` is what decoding the record `fr` gives. -/
structure Describes (loc : Nat → Option ZoneId) (f : ZoneFile) (fr : FileRecord) : Prop where
  record : f.encodeSnapshotTo = fr
  zones : ∀ e ∈ f.extents, loc e.start = some e.zone

theorem Zbd.getIOZone_countExtents (d : Zbd) (es : List ZoneExtent) :
    (d.countExtents es).getIOZone = d.getIOZone := by
  induction es generalizing d with
  | nil => rfl
  | cons e es ih =>
      have hstep : d.countExtents (e :: es) = (d.addUsed e.zone e.length).countExtents es := rfl
      rw [hstep, ih]
      funext offset
      simp

theorem Zbd.getIOZone_clearExtents (d : Zbd) (es : List ZoneExtent) :
    (d.clearExtents es).getIOZone = d.getIOZone := by
  induction es generalizing d with
  | nil => rfl
  | cons e es ih =>
      have hstep : d.clearExtents (e :: es) = (d.subUsed e.zone e.length).clearExtents es := rfl
      rw [hstep, ih]
      funext offset
      simp

/-- Extents in zones of the device are decoded one by one. -/
theorem Zbd.decodeExtents_eq_ok {es : List (Nat × Nat)} (h : ∀ e ∈ es, (d.getIOZone e.1).isSome) :
    ∃ es', d.decodeExtents es = .ok es' ∧ es'.map (fun e ↦ (e.start, e.length)) = es ∧
      ∀ e ∈ es', d.getIOZone e.start = some e.zone := by
  induction es with
  | nil => exact ⟨[], rfl, rfl, by simp⟩
  | cons e es ih =>
      obtain ⟨es', hd, hm, hz⟩ := ih fun e' h' ↦ h e' (List.mem_cons_of_mem _ h')
      obtain ⟨z, he⟩ := Option.isSome_iff_exists.mp (h e (List.mem_cons_self ..))
      refine ⟨⟨e.1, e.2, z⟩ :: es', by simp [Zbd.decodeExtents, he, hd], by simp [hm], ?_⟩
      intro e' h'
      rcases List.mem_cons.mp h' with rfl | h'
      · exact he
      · exact hz e' h'

/-- A sound record is decoded into an object that it describes. -/
theorem Catalog.Sound.decodeFrom (h : Catalog.Sound d.getIOZone fr) :
    ∃ f d', ZoneFile.decodeFrom fr d = .ok (f, d') ∧ Describes d.getIOZone f fr ∧
      d'.getIOZone = d.getIOZone := by
  obtain ⟨es, hd, hm, hz⟩ := Zbd.decodeExtents_eq_ok h.located
  refine ⟨⟨fr.fileId, fr.fileSize, fr.lifetime, es, fr.linkfiles, fr.mTime, fr.extentStart, 0,
    fr.isSparse, false, es.length, none, false⟩, d.countExtents es, ?_, ⟨?_, hz⟩,
    d.getIOZone_countExtents es⟩
  · rw [ZoneFile.decodeFrom, hd]
    exact if_neg h.named
  · simp [ZoneFile.encodeSnapshotTo, ZoneFile.encodeTo, hm]

namespace Describes

theorem fileId_eq (h : Describes loc f fr) : f.fileId = fr.fileId := by
  rw [← h.record]; rfl

theorem linkfiles_eq (h : Describes loc f fr) : f.linkfiles = fr.linkfiles := by
  rw [← h.record]; rfl

theorem extents_eq (h : Describes loc f fr) :
    f.extents.map (fun e ↦ (e.start, e.length)) = fr.extents := by
  rw [← h.record]
  simp [ZoneFile.encodeSnapshotTo, ZoneFile.encodeTo]

/-- Removing a link changes the links only. -/
theorem withLinks (h : Describes loc f fr) (ns : List Name) :
    Describes loc { f with linkfiles := ns } { fr with linkfiles := ns } where
  record := by
    rw [← h.record]
    rfl
  zones := h.zones

end Describes

/-- Merging an update adds its extents to the record, and merging a replacement
takes its place. -/
theorem ZoneFile.mergeUpdate_eq_ok {update : ZoneFile} {fr' : FileRecord} {replace : Bool}
    (hf : Describes loc f fr) (hu : Describes loc update fr') (hid : fr.fileId = fr'.fileId)
    (hd : d.getIOZone = loc) :
    ∃ f' d', f.mergeUpdate update replace d = .ok (f', d') ∧
      Describes loc f'
        { fr' with extents := (if replace then [] else fr.extents) ++ fr'.extents } ∧
      d'.getIOZone = loc := by
  have hne : ¬ f.fileId ≠ update.fileId := by
    rw [hf.fileId_eq, hu.fileId_eq]
    exact not_not.mpr hid
  refine ⟨_, _, by rw [ZoneFile.mergeUpdate, if_neg hne], ⟨?_, ?_⟩, ?_⟩
  · have hid' : f.fileId = fr'.fileId := hf.fileId_eq.trans hid
    have hup := hu.record
    cases replace <;>
      simp [ZoneFile.encodeSnapshotTo, ZoneFile.encodeTo, hf.extents_eq, ← hup, hid']
  · intro e he
    cases replace with
    | false =>
        rcases List.mem_append.mp he with he | he
        · exact hf.zones e he
        · exact hu.zones e he
    | true => exact hu.zones e (by simpa using he)
  · cases replace with
    | false => rw [Zbd.getIOZone_countExtents]; exact hd
    | true =>
        rw [Zbd.getIOZone_countExtents]
        exact (d.getIOZone_clearExtents f.extents).trans hd

end Decode

/-! ## The simulation -/

/-- The namespace of a store is the one the catalog describes. -/
structure Represents (loc : Nat → Option ZoneId) (s : Store) (C : Catalog) : Prop where
  getIOZone_eq : s.zbd.getIOZone = loc
  lt_nextRef : ∀ n r, s.files.lookup n = some r → r < s.nextRef
  describes : ∀ n r, s.files.lookup n = some r →
    ∃ fr, C (s.heap r).fileId = some fr ∧ n ∈ fr.linkfiles ∧ Describes loc (s.heap r) fr
  ref_eq : ∀ n n' r r', s.files.lookup n = some r → s.files.lookup n' = some r' →
    (s.heap r).fileId = (s.heap r').fileId → r = r'
  fileId_eq : ∀ id fr, C id = some fr → fr.fileId = id
  sound : ∀ id fr, C id = some fr → Catalog.Sound loc fr
  lookup : ∀ id fr, C id = some fr → ∀ n ∈ fr.linkfiles,
    ∃ r, s.files.lookup n = some r ∧ (s.heap r).fileId = id

namespace Represents

variable {loc : Nat → Option ZoneId} {s : Store} {C : Catalog} {fr : FileRecord}

/-- All names of a file map to one object, and its id leads to it. -/
theorem findId_eq_some (h : Represents loc s C) {id : Nat} (hC : C id = some fr) :
    ∃ r, s.findId id = some r ∧ Describes loc (s.heap r) fr ∧
      ∀ n, s.files.lookup n = some r ↔ n ∈ fr.linkfiles := by
  obtain ⟨n₀, hn₀⟩ := List.exists_mem_of_ne_nil _ (h.sound id fr hC).links_ne_nil
  obtain ⟨r₀, hr₀, hid₀⟩ := h.lookup id fr hC n₀ hn₀
  obtain ⟨⟨n, r⟩, he⟩ : ∃ e, s.files.entries.find? (fun e ↦ (s.heap e.2).fileId == id) =
      some e := by
    rw [← Option.isSome_iff_exists, List.find?_isSome]
    exact ⟨⟨n₀, r₀⟩, AList.mem_lookup_iff.mp hr₀, by simpa using hid₀⟩
  have hid : (s.heap r).fileId = id := by simpa using List.find?_some he
  have hn : s.files.lookup n = some r := AList.mem_lookup_iff.mpr (List.mem_of_find?_eq_some he)
  have hdesc : ∀ m, s.files.lookup m = some r →
      m ∈ fr.linkfiles ∧ Describes loc (s.heap r) fr := by
    intro m hm
    obtain ⟨fr', hfr', hmem, hd⟩ := h.describes m r hm
    rw [hid, hC, Option.some.injEq] at hfr'
    exact hfr' ▸ ⟨hmem, hd⟩
  refine ⟨r, by rw [Store.findId, he]; rfl, (hdesc n hn).2, fun m ↦ ⟨fun hm ↦ (hdesc m hm).1, ?_⟩⟩
  intro hm
  obtain ⟨r', hr', hid'⟩ := h.lookup id fr hC m hm
  rwa [h.ref_eq n m r r' hn hr' (hid.trans hid'.symm)]

theorem findId_eq_none (h : Represents loc s C) {id : Nat} (hC : C id = none) :
    s.findId id = none := by
  rw [Store.findId, Option.map_eq_none_iff, List.find?_eq_none]
  rintro ⟨n, r⟩ he
  obtain ⟨fr', hfr', -⟩ := h.describes n r (AList.mem_lookup_iff.mpr he)
  simp only [beq_iff_eq]
  rintro rfl
  rw [hC] at hfr'
  cases hfr'

/-- A name is taken exactly if some file of the catalog has it. -/
theorem mem_files_iff (h : Represents loc s C) {n : Name} :
    n ∈ s.files ↔ ∃ id fr, C id = some fr ∧ n ∈ fr.linkfiles := by
  rw [← AList.lookup_isSome, Option.isSome_iff_exists]
  constructor
  · rintro ⟨r, hr⟩
    obtain ⟨fr, hfr, hn, -⟩ := h.describes n r hr
    exact ⟨_, fr, hfr, hn⟩
  · rintro ⟨id, fr, hfr, hn⟩
    obtain ⟨r, hr, -⟩ := h.lookup id fr hfr n hn
    exact ⟨r, hr⟩

/-- Counters, object lifetimes and objects without a name are not part of the
namespace. -/
theorem congr {s' : Store} (h : Represents loc s C) (hf : s'.files = s.files)
    (hh : ∀ n r, s.files.lookup n = some r → s'.heap r = s.heap r)
    (hz : s'.zbd.getIOZone = loc) (hr : s.nextRef ≤ s'.nextRef) : Represents loc s' C where
  getIOZone_eq := hz
  lt_nextRef := fun n r hn ↦ (h.lt_nextRef n r (hf ▸ hn)).trans_le hr
  describes := by
    intro n r hn
    rw [hf] at hn
    rw [hh n r hn]
    exact h.describes n r hn
  ref_eq := by
    intro n n' r r' hn hn' he
    rw [hf] at hn hn'
    rw [hh n r hn, hh n' r' hn'] at he
    exact h.ref_eq n n' r r' hn hn' he
  fileId_eq := h.fileId_eq
  sound := h.sound
  lookup := by
    intro id fr hfr n hn
    obtain ⟨r, hr', hid⟩ := h.lookup id fr hfr n hn
    exact ⟨r, hf ▸ hr', by rw [hh n r hr', hid]⟩

theorem release (h : Represents loc s C) (r : Ref) : Represents loc (s.release r) C := by
  unfold Store.release
  split
  · exact h
  · exact h.congr rfl (fun _ _ _ ↦ rfl)
      ((s.zbd.getIOZone_clearExtents _).trans h.getIOZone_eq) le_rfl

theorem raiseNextFileId (h : Represents loc s C) (id : Nat) :
    Represents loc (s.raiseNextFileId id) C :=
  h.congr rfl (fun _ _ _ ↦ rfl) h.getIOZone_eq le_rfl

/-- The entry of one file changes: its names and its object, while everything
about the other files stays. -/
theorem set (h : Represents loc s C) {s' : Store} (r : Ref) (fr' : FileRecord)
    (hz : s'.zbd.getIOZone = loc) (hn : s.nextRef ≤ s'.nextRef) (hr : r < s'.nextRef)
    (hd : Describes loc (s'.heap r) fr') (hsound : Catalog.Sound loc fr')
    (hheap : ∀ r', r' ≠ r → s'.heap r' = s.heap r')
    (hnames : ∀ n, s'.files.lookup n = some r ↔ n ∈ fr'.linkfiles)
    (hothers : ∀ n r', r' ≠ r → (s'.files.lookup n = some r' ↔ s.files.lookup n = some r'))
    (hid : ∀ n r', r' ≠ r → s.files.lookup n = some r' → (s.heap r').fileId ≠ fr'.fileId)
    (hold : ∀ n, s.files.lookup n = some r → (s.heap r).fileId = fr'.fileId) :
    Represents loc s' (Function.update C fr'.fileId (some fr')) where
  getIOZone_eq := hz
  lt_nextRef := by
    intro n r' hr'
    by_cases he : r' = r
    · exact he ▸ hr
    · exact (h.lt_nextRef n r' ((hothers n r' he).mp hr')).trans_le hn
  describes := by
    intro n r' hr'
    by_cases he : r' = r
    · subst he
      refine ⟨fr', by rw [hd.fileId_eq, Function.update_self], (hnames n).mp hr', hd⟩
    · have hr'' := (hothers n r' he).mp hr'
      obtain ⟨fr, hfr, hmem, hdesc⟩ := h.describes n r' hr''
      rw [hheap r' he]
      exact ⟨fr, by rw [Function.update_of_ne (hid n r' he hr''), hfr], hmem, hdesc⟩
  ref_eq := by
    have hne : ∀ n r', r' ≠ r → s'.files.lookup n = some r' →
        (s'.heap r').fileId ≠ (s'.heap r).fileId := by
      intro n r' he hn'
      rw [hheap r' he, hd.fileId_eq]
      exact hid n r' he ((hothers n r' he).mp hn')
    intro n n' r₁ r₂ h₁ h₂ he
    by_cases e₁ : r₁ = r <;> by_cases e₂ : r₂ = r
    · rw [e₁, e₂]
    · subst e₁
      exact absurd he.symm (hne n' r₂ e₂ h₂)
    · subst e₂
      exact absurd he (hne n r₁ e₁ h₁)
    · rw [hheap r₁ e₁, hheap r₂ e₂] at he
      exact h.ref_eq n n' r₁ r₂ ((hothers n r₁ e₁).mp h₁) ((hothers n' r₂ e₂).mp h₂) he
  fileId_eq := by
    intro id fr hfr
    by_cases he : id = fr'.fileId
    · subst he
      rw [Function.update_self, Option.some.injEq] at hfr
      rw [hfr]
    · exact h.fileId_eq id fr (by rwa [Function.update_of_ne he] at hfr)
  sound := by
    intro id fr hfr
    by_cases he : id = fr'.fileId
    · subst he
      rw [Function.update_self, Option.some.injEq] at hfr
      exact hfr ▸ hsound
    · exact h.sound id fr (by rwa [Function.update_of_ne he] at hfr)
  lookup := by
    intro id fr hfr n hn
    by_cases he : id = fr'.fileId
    · subst he
      rw [Function.update_self, Option.some.injEq] at hfr
      subst hfr
      exact ⟨r, (hnames n).mpr hn, hd.fileId_eq⟩
    · rw [Function.update_of_ne he] at hfr
      obtain ⟨r', hr', hid'⟩ := h.lookup id fr hfr n hn
      have hne : r' ≠ r := by
        rintro rfl
        exact he (hid' ▸ hold n hr')
      exact ⟨r', (hothers n r' hne).mpr hr', by rw [hheap r' hne, hid']⟩

/-! ### One record -/

/-- The update of a file that is there. -/
theorem decodeFileUpdateFrom (h : Represents loc s C) {old : FileRecord} {replace : Bool}
    (hfr : Catalog.Admits loc C fr) (hold : C fr.fileId = some old) :
    ∃ s', s.decodeFileUpdateFrom fr replace = .ok s' ∧
      Represents loc s' (Function.update C fr.fileId
        (some { fr with extents := (if replace then [] else old.extents) ++ fr.extents })) := by
  obtain ⟨r, hfind, hdesc, hnames⟩ := h.findId_eq_some hold
  have hsound := h.sound _ _ hold
  have hidold : old.fileId = fr.fileId := h.fileId_eq _ _ hold
  obtain ⟨update, d, hdec, hupd, hd⟩ :=
    Catalog.Sound.decodeFrom (d := s.zbd) (h.getIOZone_eq.symm ▸ hfr.toSound)
  rw [h.getIOZone_eq] at hupd hd
  have hmem : ∀ n ∈ old.linkfiles, n ∈ s.files := by
    intro n hn
    rw [← AList.lookup_isSome, (hnames n).mpr hn]
    rfl
  obtain ⟨files, herase, hfiles⟩ := Files.eraseLinks_eq_some hsound.nodup hmem
  obtain ⟨f, d', hmerge, hdesc', hd'⟩ :=
    @ZoneFile.mergeUpdate_eq_ok _ _ _ _ _ _ replace hdesc hupd hidold hd
  have heq : s.decodeFileUpdateFrom fr replace =
      .ok ((({ s with zbd := d'.clearExtents update.extents
                      files := files.insertLinks f.linkfiles r }.setFile r f).raiseNextFileId
        fr.fileId).release r) := by
    rw [Store.decodeFileUpdateFrom, hdec]
    simp only [hfind, hdesc.linkfiles_eq, herase, hmerge]
  -- a name of the file, old or new, is not a name of another
  have hother : ∀ n r', r' ≠ r → s.files.lookup n = some r' →
      (s.heap r').fileId ≠ fr.fileId ∧ n ∉ old.linkfiles ∧ n ∉ fr.linkfiles := by
    intro n r' hne hr'
    have hn : n ∉ old.linkfiles := fun hn ↦ by
      rw [(hnames n).mpr hn, Option.some.injEq] at hr'
      exact hne hr'.symm
    obtain ⟨fr', hfr', hmem, -⟩ := h.describes n r' hr'
    have hid : (s.heap r').fileId ≠ fr.fileId := fun he ↦ by
      rw [he, hold, Option.some.injEq] at hfr'
      exact hn (hfr' ▸ hmem)
    exact ⟨hid, hn, fun hn' ↦ hfr.free _ fr' hid hfr' n hn' hmem⟩
  have hlook : ∀ n, (files.insertLinks f.linkfiles r).lookup n =
      if n ∈ fr.linkfiles then some r else if n ∈ old.linkfiles then none
      else s.files.lookup n := by
    intro n
    rw [Files.lookup_insertLinks, hdesc'.linkfiles_eq, hfiles]
    by_cases hn : n ∈ fr.linkfiles
    · have hfree : n ∉ files := by
        rw [← AList.lookup_eq_none, hfiles]
        split
        · rfl
        · rename_i ho
          cases hr' : s.files.lookup n with
          | none => rfl
          | some r' =>
              have hne : r' ≠ r := by
                rintro rfl
                exact ho ((hnames n).mp hr')
              exact absurd hn (hother n r' hne hr').2.2
      simp [hn, hfree]
    · simp [hn]
  refine ⟨_, heq, (Represents.raiseNextFileId ?_ fr.fileId).release r⟩
  refine h.set r { fr with extents := (if replace then [] else old.extents) ++ fr.extents }
    ?_ le_rfl ?_ ?_ ?_ ?_ ?_ ?_ (fun n r' hne hr' ↦ (hother n r' hne hr').1) ?_
  · exact (d'.getIOZone_clearExtents update.extents).trans hd'
  · obtain ⟨n₀, hn₀⟩ := List.exists_mem_of_ne_nil _ hsound.links_ne_nil
    exact h.lt_nextRef n₀ r ((hnames n₀).mpr hn₀)
  · simpa [Store.setFile] using hdesc'
  · refine ⟨hfr.links_ne_nil, hfr.nodup, hfr.named, fun e he ↦ ?_⟩
    rcases List.mem_append.mp he with he | he
    · cases replace with
      | false => exact hsound.located e he
      | true => cases he
    · exact hfr.located e he
  · intro r' hr'
    simp [Store.setFile, hr']
  · intro n
    rw [Store.setFile, hlook]
    split
    next hn => simp [hn]
    next hn =>
      split
      next => simp [hn]
      next ho => simp [hnames, hn, ho]
  · intro n r' hne
    rw [Store.setFile, hlook]
    constructor
    · intro hr'
      split at hr'
      · exact absurd (Option.some.inj hr').symm hne
      split at hr'
      · cases hr'
      · exact hr'
    · intro hr'
      obtain ⟨-, ho, hn⟩ := hother n r' hne hr'
      rwa [if_neg hn, if_neg ho]
  · intro n _
    rw [hdesc.fileId_eq]
    exact hidold

/-- A new object takes names that are free. -/
theorem alloc (h : Represents loc s C) {f : ZoneFile} {d : Zbd} (hd : Describes loc f fr)
    (hz : d.getIOZone = loc) (hsound : Catalog.Sound loc fr) (hC : C fr.fileId = none)
    (hfree : ∀ n ∈ fr.linkfiles, n ∉ s.files) :
    Represents loc { ({ s with zbd := d }.alloc f).2 with
        files := s.files.insertLinks f.linkfiles s.nextRef }
      (Function.update C fr.fileId (some fr)) := by
  have hlt : ∀ n r', s.files.lookup n = some r' → r' ≠ s.nextRef := fun n r' hr' ↦
    (h.lt_nextRef n r' hr').ne
  have hlook : ∀ n, (s.files.insertLinks f.linkfiles s.nextRef).lookup n =
      if n ∈ fr.linkfiles then some s.nextRef else s.files.lookup n := by
    intro n
    rw [Files.lookup_insertLinks, hd.linkfiles_eq]
    by_cases hn : n ∈ fr.linkfiles
    · simp [hn, hfree n hn]
    · simp [hn]
  refine h.set s.nextRef fr hz (Nat.le_succ _) (Nat.lt_succ_self _) ?_ hsound ?_ ?_ ?_ ?_ ?_
  · simpa [Store.alloc] using hd
  · intro r' hr'
    simp [Store.alloc, hr']
  · intro n
    rw [hlook]
    split
    next hn => simp [hn]
    next hn => exact ⟨fun hr ↦ absurd rfl (hlt n _ hr), fun hn' ↦ absurd hn' hn⟩
  · intro n r' hne
    rw [hlook]
    split
    next hn =>
      have hnone : s.files.lookup n = none := AList.lookup_eq_none.mpr (hfree n hn)
      simp [hnone, hne.symm]
    next => rfl
  · intro n r' _ hr' he
    obtain ⟨fr', hfr', -⟩ := h.describes n r' hr'
    rw [he, hC] at hfr'
    cases hfr'
  · intro n hr'
    exact absurd rfl (hlt n _ hr')

/-- The first record of a file. -/
theorem decodeFileUpdateFrom_new (h : Represents loc s C) {replace : Bool}
    (hfr : Catalog.Admits loc C fr) (hC : C fr.fileId = none) :
    ∃ s', s.decodeFileUpdateFrom fr replace = .ok s' ∧
      Represents loc s' (Function.update C fr.fileId (some fr)) := by
  obtain ⟨n, hn⟩ := hfr.single hC
  obtain ⟨update, d, hdec, hupd, hd⟩ :=
    Catalog.Sound.decodeFrom (d := s.zbd) (h.getIOZone_eq.symm ▸ hfr.toSound)
  rw [h.getIOZone_eq] at hupd hd
  have hlinks : update.linkfiles = [n] := hupd.linkfiles_eq.trans hn
  have heq : s.decodeFileUpdateFrom fr replace =
      .ok (({ ({ s with zbd := d }.alloc update).2 with
        files := s.files.insertLinks update.linkfiles s.nextRef }.raiseNextFileId fr.fileId).release
          s.nextRef) := by
    rw [Store.decodeFileUpdateFrom, hdec]
    simp only [h.findId_eq_none hC, hlinks]
    rfl
  refine ⟨_, heq, ((h.alloc hupd hd hfr.toSound hC fun n hn hmem ↦ ?_).raiseNextFileId
    fr.fileId).release s.nextRef⟩
  obtain ⟨id, fr', hfr', hn'⟩ := h.mem_files_iff.mp hmem
  have hid : id ≠ fr.fileId := by
    rintro rfl
    rw [hC] at hfr'
    cases hfr'
  exact hfr.free id fr' hid hfr' n hn hn'

/-- An object that no name leads to any more is gone from the catalog. -/
theorem unset (h : Represents loc s C) {s' : Store} {r : Ref} {id : Nat}
    (hz : s'.zbd.getIOZone = loc) (hn : s'.nextRef = s.nextRef)
    (hheap : ∀ r', r' ≠ r → s'.heap r' = s.heap r')
    (hgone : ∀ n, s'.files.lookup n ≠ some r)
    (hothers : ∀ n r', r' ≠ r → (s'.files.lookup n = some r' ↔ s.files.lookup n = some r'))
    (hid : ∀ n r', s.files.lookup n = some r' → ((s.heap r').fileId = id ↔ r' = r)) :
    Represents loc s' (Function.update C id none) := by
  have hne : ∀ n r', s'.files.lookup n = some r' →
      r' ≠ r ∧ s.files.lookup n = some r' ∧ (s.heap r').fileId ≠ id := by
    intro n r' hr'
    have hr : r' ≠ r := by
      rintro rfl
      exact hgone n hr'
    have hr'' := (hothers n r' hr).mp hr'
    exact ⟨hr, hr'', fun he ↦ hr ((hid n r' hr'').mp he)⟩
  have hC : ∀ id' fr, Function.update C id none id' = some fr → id' ≠ id ∧ C id' = some fr := by
    intro id' fr hfr
    by_cases he : id' = id
    · subst he
      simp at hfr
    · exact ⟨he, by rwa [Function.update_of_ne he] at hfr⟩
  exact
    { getIOZone_eq := hz
      lt_nextRef := fun n r' hr' ↦ hn ▸ h.lt_nextRef n r' (hne n r' hr').2.1
      describes := by
        intro n r' hr'
        obtain ⟨hr, hr'', hid'⟩ := hne n r' hr'
        rw [hheap r' hr, Function.update_of_ne hid']
        exact h.describes n r' hr''
      ref_eq := by
        intro n n' r₁ r₂ h₁ h₂ he
        obtain ⟨e₁, h₁', -⟩ := hne n r₁ h₁
        obtain ⟨e₂, h₂', -⟩ := hne n' r₂ h₂
        rw [hheap r₁ e₁, hheap r₂ e₂] at he
        exact h.ref_eq n n' r₁ r₂ h₁' h₂' he
      fileId_eq := fun id' fr hfr ↦ h.fileId_eq id' fr (hC id' fr hfr).2
      sound := fun id' fr hfr ↦ h.sound id' fr (hC id' fr hfr).2
      lookup := by
        intro id' fr hfr n hn'
        obtain ⟨hid', hfr'⟩ := hC id' fr hfr
        obtain ⟨r', hr', he⟩ := h.lookup id' fr hfr' n hn'
        have hr : r' ≠ r := fun hr ↦ hid' (he ▸ (hid n r' hr').mpr hr)
        exact ⟨r', (hothers n r' hr).mpr hr', by rw [hheap r' hr, he]⟩ }

/-- A name is deleted. -/
theorem decodeFileDeletionFrom (h : Represents loc s C) {id : Nat} {n : Name}
    (hC : C id = some fr) (hn : n ∈ fr.linkfiles) :
    ∃ s', s.decodeFileDeletionFrom id n = .ok s' ∧
      Represents loc s' (Function.update C id (C.unlink id n)) := by
  obtain ⟨r, -, hdesc, hnames⟩ := h.findId_eq_some hC
  have hid : (s.heap r).fileId = id := hdesc.fileId_eq.trans (h.fileId_eq _ _ hC)
  have hsound := h.sound _ _ hC
  have heq : s.decodeFileDeletionFrom id n =
      .ok (({ s with files := s.files.erase n }.setFile r
        { s.heap r with linkfiles := fr.linkfiles.erase n }).release r) := by
    simp [Store.decodeFileDeletionFrom, (hnames n).mpr hn, hid, ZoneFile.removeLinkName,
      hdesc.linkfiles_eq, hn]
  have hlook : ∀ m, (s.files.erase n).lookup m = if m = n then none else s.files.lookup m := by
    intro m
    by_cases hm : m = n
    · subst hm
      simp
    · simp [hm]
  have hrn : ∀ m r', s.files.lookup m = some r' → ((s.heap r').fileId = id ↔ r' = r) := by
    intro m r' hr'
    refine ⟨fun he ↦ ?_, fun he ↦ he ▸ hid⟩
    exact h.ref_eq m n r' r hr' ((hnames n).mpr hn) (he.trans hid.symm)
  have hothers : ∀ m r', r' ≠ r →
      ((s.files.erase n).lookup m = some r' ↔ s.files.lookup m = some r') := by
    intro m r' hr'
    rw [hlook]
    split
    next hm =>
      subst hm
      simp [(hnames m).mpr hn, Ne.symm hr']
    next => rfl
  have hmem : ∀ m, (s.files.erase n).lookup m = some r ↔ m ∈ fr.linkfiles.erase n := by
    intro m
    rw [hlook, hsound.nodup.mem_erase_iff, ← hnames]
    split
    next hm => simp [hm]
    next hm => simp [hm]
  refine ⟨_, heq, Represents.release ?_ r⟩
  by_cases hnil : fr.linkfiles.erase n = []
  · have hun : C.unlink id n = none := by
      rw [Catalog.unlink, hC]
      exact if_pos hnil
    rw [hun]
    refine h.unset h.getIOZone_eq rfl (fun r' hr' ↦ ?_) (fun m hm ↦ ?_) hothers hrn
    · simp [Store.setFile, hr']
    · have := (hmem m).mp hm
      simp [hnil] at this
  · have hun : C.unlink id n = some { fr with linkfiles := fr.linkfiles.erase n } := by
      rw [Catalog.unlink, hC]
      exact if_neg hnil
    have hfid : fr.fileId = id := h.fileId_eq _ _ hC
    rw [hun, ← hfid]
    refine h.set r { fr with linkfiles := fr.linkfiles.erase n } h.getIOZone_eq le_rfl
      (h.lt_nextRef n r ((hnames n).mpr hn)) ?_ ?_ ?_ hmem hothers ?_ ?_
    · simpa [Store.setFile] using hdesc.withLinks (fr.linkfiles.erase n)
    · exact ⟨hnil, hsound.nodup.erase n, fun he ↦ hsound.named (List.mem_of_mem_erase he),
        hsound.located⟩
    · intro r' hr'
      simp [Store.setFile, hr']
    · intro m r' hr' hm he
      exact hr' ((hrn m r' hm).mp (he.trans hfid))
    · intro _ _
      exact hdesc.fileId_eq

/-- One record of a snapshot.  The second copy of a file is dropped. -/
theorem decodeSnapshotFile (h : Represents loc s C) (hfr : Catalog.Sound loc fr)
    (hsame : ∀ fr', C fr.fileId = some fr' → fr' = fr)
    (hfree : C fr.fileId = none → ∀ n ∈ fr.linkfiles, n ∉ s.files) :
    ∃ s', s.decodeSnapshotFile fr = .ok s' ∧
      Represents loc s' (Function.update C fr.fileId (some fr)) := by
  obtain ⟨f, d, hdec, hdesc, hd⟩ :=
    Catalog.Sound.decodeFrom (d := s.zbd) (h.getIOZone_eq.symm ▸ hfr)
  rw [h.getIOZone_eq] at hdesc hd
  have heq : s.decodeSnapshotFile fr = .ok (({ ({ s with zbd := d }.alloc f).2 with
      files := s.files.insertLinks f.linkfiles s.nextRef }.raiseNextFileId fr.fileId).release
        s.nextRef) := by
    rw [Store.decodeSnapshotFile, hdec]
    rfl
  refine ⟨_, heq, Represents.release (Represents.raiseNextFileId ?_ _) _⟩
  cases hC : C fr.fileId with
  | none => exact h.alloc hdesc hd hfr hC (hfree hC)
  | some fr' =>
      obtain rfl := hsame fr' hC
      have hupd : Function.update C fr'.fileId (some fr') = C := by
        rw [← hC, Function.update_eq_self]
      obtain ⟨r, -, -, hnames⟩ := h.findId_eq_some hC
      -- all its names are taken, by the first copy
      have hfiles : s.files.insertLinks f.linkfiles s.nextRef = s.files := by
        refine Files.insertLinks_of_mem fun n hn ↦ ?_
        rw [hdesc.linkfiles_eq] at hn
        rw [← AList.lookup_isSome, (hnames n).mpr hn]
        rfl
      rw [hupd, hfiles]
      refine h.congr rfl (fun n r' hr' ↦ ?_) hd (Nat.le_succ _)
      exact Function.update_of_ne (h.lt_nextRef n r' hr').ne _ _

/-- A snapshot is decoded file by file. -/
theorem decodeSnapshotFrom {seen frs : List FileRecord}
    (h : Represents loc s fun id ↦ seen.find? fun fr ↦ fr.fileId == id)
    (hfrs : Catalog.Coherent loc (seen ++ frs)) :
    ∃ s', s.decodeSnapshotFrom frs = .ok s' ∧
      Represents loc s' fun id ↦ (seen ++ frs).find? fun fr ↦ fr.fileId == id := by
  induction frs generalizing s seen with
  | nil => exact ⟨s, rfl, by simpa using h⟩
  | cons fr frs ih =>
      have hmem : ∀ {id fr'}, (seen.find? fun fr ↦ fr.fileId == id) = some fr' →
          fr' ∈ seen ++ fr :: frs ∧ fr'.fileId = id := fun hf ↦
        ⟨List.mem_append_left _ (List.mem_of_find?_eq_some hf), by simpa using List.find?_some hf⟩
      have hfr : fr ∈ seen ++ fr :: frs := by simp
      obtain ⟨s₁, h₁, hrep⟩ := h.decodeSnapshotFile (hfrs.sound fr hfr)
        (fun fr' hf ↦ hfrs.eq_of_id fr' (hmem hf).1 fr hfr (hmem hf).2)
        (fun hnone n hn htaken ↦ by
          obtain ⟨id, fr', hf, hn'⟩ := h.mem_files_iff.mp htaken
          refine hfrs.disjoint fr hfr fr' (hmem hf).1 ?_ n hn hn'
          rw [(hmem hf).2]
          rintro rfl
          rw [hnone] at hf
          cases hf)
      have hcat : (Function.update (fun id ↦ seen.find? fun fr ↦ fr.fileId == id)
        fr.fileId (some fr)) =
          fun id ↦ (seen ++ [fr]).find? fun fr ↦ fr.fileId == id := by
        funext id
        rw [List.find?_append]
        by_cases hid : id = fr.fileId
        · subst hid
          rw [Function.update_self]
          cases hf : seen.find? fun fr' ↦ fr'.fileId == fr.fileId with
          | none => simp
          | some fr' =>
              rw [hfrs.eq_of_id fr' (hmem hf).1 fr hfr (hmem hf).2]
              rfl
        · rw [Function.update_of_ne hid]
          simp [Ne.symm hid]
      rw [hcat] at hrep
      obtain ⟨s', hs', hrep'⟩ := ih hrep (by simpa using hfrs)
      exact ⟨s', by rw [Store.decodeSnapshotFrom, h₁, ← hs'], by simpa using hrep'⟩

theorem clearFiles (h : Represents loc s C) : Represents loc s.clearFiles fun _ ↦ none := by
  have hempty : Represents loc { s with files := ∅ } fun _ ↦ none :=
    { getIOZone_eq := h.getIOZone_eq
      lt_nextRef := by simp
      describes := by simp
      ref_eq := by simp
      fileId_eq := by simp
      sound := by simp
      lookup := by simp }
  have hfold : ∀ (rs : List Ref) (s : Store), Represents loc s (fun _ ↦ none) →
      Represents loc (rs.foldl Store.release s) fun _ ↦ none := by
    intro rs
    induction rs with
    | nil => exact fun _ hs ↦ hs
    | cons r rs ih => exact fun s hs ↦ ih _ (hs.release r)
  exact hfold _ _ hempty

/-- `RecoverFrom` applies a record to the namespace as it is applied to the
catalog. -/
theorem applyRecord (h : Represents loc s C) {r : Record} (hr : C.Accepts loc r) :
    ∃ s', s.applyRecord r = .ok s' ∧ Represents loc s' (C.apply r) := by
  cases r with
  | superblock sb => exact absurd hr id
  | endRecord => exact ⟨s, rfl, h⟩
  | completeFilesSnapshot frs =>
      have hnone : Represents loc s.clearFiles
          fun id ↦ ([] : List FileRecord).find? fun fr ↦ fr.fileId == id := h.clearFiles
      exact decodeSnapshotFrom hnone hr
  | fileDeletion id n =>
      obtain ⟨fr, hC, hn⟩ := hr
      exact h.decodeFileDeletionFrom hC hn
  | fileUpdate fr =>
      rw [Store.applyRecord, Catalog.apply, Catalog.extents]
      cases hC : C fr.fileId with
      | none => exact h.decodeFileUpdateFrom_new hr hC
      | some old => exact h.decodeFileUpdateFrom hr hC
  | fileReplace fr =>
      rw [Store.applyRecord, Catalog.apply]
      cases hC : C fr.fileId with
      | none => exact h.decodeFileUpdateFrom_new hr hC
      | some old => exact h.decodeFileUpdateFrom hr hC

/-- A log that fits together is replayed to the end. -/
theorem replay (h : Represents loc s C) {rs : List Record} (hrs : C.AcceptsAll loc rs)
    (snap : Bool) : ∃ s', ZenFs.replay rs none snap s =
        RecoverRes.finish (snap || rs.any Record.isSnapshot) s' ∧
      Represents loc s' (C.replay rs) := by
  induction rs generalizing s C snap with
  | nil => exact ⟨s, by simp [ZenFs.replay], h⟩
  | cons r rs ih =>
      obtain ⟨hr, hrs⟩ := hrs
      obtain ⟨s₁, h₁, hrep⟩ := h.applyRecord hr
      obtain ⟨s', h', hrep'⟩ := ih hrep hrs (snap || r.isSnapshot)
      exact ⟨s', by rw [ZenFs.replay, h₁]; simpa [Bool.or_assoc] using h', hrep'⟩

end Represents

end ZenFs
