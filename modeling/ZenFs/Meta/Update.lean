import ZenFs.Meta.Snapshot
import Mathlib.Data.List.Chain

/-!
# Updates as they are written

An update has the extents that were appended since the last sync.  It is decoded into an
object of its own, merged into the file and destroyed.  This file says for which files the
updates of any number of syncs add up to the file, and with the file before it, when what is
decoded from the metadata is what was written.
-/

namespace ZenFs

namespace Codec

/-- An update is decoded, merged into the file it is for, and destroyed. -/
def mergeEncoded (v : Varint32) (dynamic : Bool) (update : List Byte) :
    ZoneFile × Zbd × (ZoneId → ZoneLabel) → Except Stop (ZoneFile × Zbd × (ZoneId → ZoneLabel))
  | (f, d, labels) =>
      match decodeFrom v update { fileId := 0 } d with
      | .error (e, u, d) => .error (.ofDestroyed e (clearDecoded dynamic u.extents d labels))
      | .ok (u, d) =>
          match f.mergeUpdate u false d with
          | .error e => .error (.ofDestroyed e (clearDecoded dynamic u.extents d labels))
          | .ok (f, d) =>
              ((clearDecoded dynamic u.extents d labels).mapError .fault).map fun p ↦ (f, p.1, p.2)

/-- `ZoneFile::EncodeUpdateTo`. -/
def encodeUpdateTo (v : Varint32) (f : ZoneFile) : List Byte := encodeTo v f f.nrSyncedExtents

/-- The update of a sync is merged. -/
def mergeSync (v : Varint32) (dynamic : Bool) (f : ZoneFile) :
    ZoneFile × Zbd × (ZoneId → ZoneLabel) → Except Stop (ZoneFile × Zbd × (ZoneId → ZoneLabel)) :=
  mergeEncoded v dynamic (encodeUpdateTo v f)

/-- A file that can be written and read back on the device. -/
structure Writable (v : Varint32) (d : Zbd) (f : ZoneFile) : Prop where
  fits : f.Fits
  named : "" ∉ f.linkfiles
  located : ∀ e ∈ f.extents, d.getIOZone e.start = some e.zone
  short : (encodeTo v f 0).length < 2 ^ 32

/-- The file `f'` is `f` at a later sync: extents were only appended since. -/
structure Grown (f f' : ZoneFile) : Prop where
  fileId : f'.fileId = f.fileId
  extents : f.extents <+: f'.extents
  nrSyncedExtents : f'.nrSyncedExtents = f.extents.length

/-- The updates of the syncs `fs` are merged into the file that was decoded at the sync before
them, which gives the same file and the same device as decoding the last of them in full. -/
def MergesToFull (v : Varint32) (f : ZoneFile) (fs : List ZoneFile) (d : Zbd) (dynamic : Bool)
    (labels : ZoneId → ZoneLabel) : Prop :=
  ∃ f₀ d₀ g d', decodeFrom v (encodeTo v f 0) { fileId := 0 } d = .ok (f₀, d₀) ∧
    Stream.actAll (mergeSync v dynamic) fs (f₀, d₀, labels) =
      .ok (g, d', labels) ∧
    decodeFrom v (encodeTo v (fs.getLastD f) 0) { fileId := 0 } d = .ok (g, d')

section Merge

variable {v : Varint32} {d : Zbd} {f f' : ZoneFile} {fs : List ZoneFile} {dynamic : Bool}
  {labels : ZoneId → ZoneLabel}

theorem length_encodeTo_le (f : ZoneFile) (k : Nat) :
    (encodeTo v f k).length ≤ (encodeTo v f 0).length := by
  have hdrop : ∀ p : ZoneExtent → List Byte,
      ((f.extents.drop k).flatMap p).length ≤ ((f.extents.drop 0).flatMap p).length := by
    intro p
    rw [List.drop_zero]
    conv_rhs => rw [← List.take_append_drop k f.extents, List.flatMap_append, List.length_append]
    exact Nat.le_add_left ..
  simp only [encodeTo, List.length_append]
  have := hdrop fun e ↦
    encodeFixed32 ZoneFileTag.kExtent ++ v.putLengthPrefixedSlice (encodeExtentTo e.start e.length)
  omega

theorem Writable.decodeFrom_full (hf : Writable v d f) :
    decodeFrom v (encodeTo v f 0) { fileId := 0 } d =
    .ok (f.restored 0, d.countExtents f.extents) :=
  decodeFrom_encodeTo hf.fits hf.short (decodeFrom_record hf.named hf.located 0)

/-- An update brings the decoded file to the next sync, and is destroyed. -/
theorem Grown.mergeSync_eq (h : Grown f f') (hf' : Writable v d f') :
    mergeSync v dynamic f' (f.restored 0, d.countExtents f.extents, labels) =
      ((clearDecoded dynamic (f'.extents.drop f.extents.length)
        ((d.countExtents f'.extents).countExtents (f'.extents.drop f.extents.length))
          labels).mapError .fault).map fun p ↦ (f'.restored 0, p.1, p.2) := by
  obtain ⟨new, hnew⟩ := h.extents
  have hdrop : f'.extents.drop f.extents.length = new := by rw [← hnew, List.drop_left' rfl]
  have hloc : (d.countExtents f.extents).getIOZone = d.getIOZone := d.getIOZone_countExtents _
  have hdec : decodeFrom v (encodeUpdateTo v f') { fileId := 0 } (d.countExtents f.extents) =
      .ok (f'.restored f.extents.length, (d.countExtents f.extents).countExtents new) := by
    rw [encodeUpdateTo, h.nrSyncedExtents, ← hdrop]
    refine decodeFrom_encodeTo hf'.fits ((length_encodeTo_le _ _).trans_lt hf'.short) ?_
    refine decodeFrom_record hf'.named ?_ f.extents.length
    rw [hloc]
    exact hf'.located
  have hmerge : (f.restored 0).mergeUpdate (f'.restored f.extents.length) false
      ((d.countExtents f.extents).countExtents new) =
        .ok (f'.restored 0, ((d.countExtents f.extents).countExtents new).countExtents new) := by
    have hid : ¬ (f.restored 0).fileId ≠ (f'.restored f.extents.length).fileId :=
      not_not_intro h.fileId.symm
    rw [ZoneFile.mergeUpdate, if_neg hid]
    simp only [ZoneFile.restored, List.drop_zero, hnew, hdrop, h.fileId,
      Bool.false_eq_true, if_false]
  have hcount : (d.countExtents f.extents).countExtents new = d.countExtents f'.extents := by
    rw [← Zbd.countExtents_append, hnew]
  rw [mergeSync, mergeEncoded, hdec]
  dsimp only
  rw [hmerge, hcount]
  dsimp only [ZoneFile.restored]
  rw [hdrop]

theorem Grown.drop_eq_nil_iff (h : Grown f f') :
    f'.extents.drop f.extents.length = [] ↔ f'.extents = f.extents := by
  obtain ⟨new, hnew⟩ := h.extents
  rw [← hnew, List.drop_left' rfl, List.append_right_eq_self]

theorem Grown.mergeSync_of_safe (h : Grown f f') (hf' : Writable v d f')
    (hsafe : dynamic = true → f'.extents = f.extents) :
    mergeSync v dynamic f' (f.restored 0, d.countExtents f.extents, labels) =
      .ok (f'.restored 0, d.countExtents f'.extents, labels) := by
  rw [h.mergeSync_eq hf', clearDecoded_of_safe fun hd ↦ h.drop_eq_nil_iff.mpr (hsafe hd),
    Zbd.clearExtents_countExtents]
  rfl

theorem Grown.mergeSync_of_faulty (h : Grown f f') (hf' : Writable v d f') (hd : dynamic = true)
    (hne : f'.extents ≠ f.extents) :
    mergeSync v dynamic f' (f.restored 0, d.countExtents f.extents, labels) =
      .error (.fault .outOfRange) := by
  rw [h.mergeSync_eq hf', clearDecoded_of_faulty hd (mt h.drop_eq_nil_iff.mp hne)]
  rfl

theorem extents_prefix_getLastD (hsync : List.IsChain Grown (f :: fs)) :
    f.extents <+: (fs.getLastD f).extents := by
  induction fs generalizing f with
  | nil => exact List.prefix_rfl
  | cons f' fs ih =>
      rw [List.isChain_cons_cons] at hsync
      rw [List.getLastD_cons]
      exact hsync.1.extents.trans (ih hsync.2)

/-- The updates of a run of syncs are merged up to the first one that has extents and cannot be
destroyed. -/
theorem mergeAll (hsync : List.IsChain Grown (f :: fs)) (hfs : ∀ g ∈ fs, Writable v d g) :
    ((dynamic = true → (fs.getLastD f).extents = f.extents) →
      Stream.actAll (mergeSync v dynamic) fs
          (f.restored 0, d.countExtents f.extents, labels) =
        .ok ((fs.getLastD f).restored 0, d.countExtents (fs.getLastD f).extents, labels)) ∧
    (dynamic = true → (fs.getLastD f).extents ≠ f.extents → ∀ p,
      Stream.actAll (mergeSync v dynamic) fs
        (f.restored 0, d.countExtents f.extents, labels) ≠ .ok p) := by
  induction fs generalizing f with
  | nil => exact ⟨fun _ ↦ rfl, fun _ h ↦ absurd rfl h⟩
  | cons f' fs ih =>
      obtain ⟨hgrown, hsync⟩ := List.isChain_cons_cons.mp hsync
      have hf' := hfs f' (List.mem_cons_self ..)
      obtain ⟨ih₁, ih₂⟩ := ih hsync fun g hg ↦ hfs g (List.mem_cons_of_mem _ hg)
      have hlast := extents_prefix_getLastD hsync
      rw [List.getLastD_cons]
      constructor
      · intro hsafe
        -- what is there at the end as at the start was there all the time
        have hsame : dynamic = true → f'.extents = f.extents := by
          intro hd
          rw [hsafe hd] at hlast
          exact hlast.eq_of_length_le hgrown.extents.length_le
        rw [Stream.actAll_cons_ok (hgrown.mergeSync_of_safe hf' hsame)]
        exact ih₁ fun hd ↦ (hsafe hd).trans (hsame hd).symm
      · intro hd hne p
        by_cases hsame : f'.extents = f.extents
        · rw [Stream.actAll_cons_ok (hgrown.mergeSync_of_safe hf' fun _ ↦ hsame)]
          exact ih₂ hd (by rwa [hsame]) p
        · rw [Stream.actAll_cons_error (hgrown.mergeSync_of_faulty hf' hd hsame)]
          intro hp
          cases hp

/-- When the updates of any number of syncs add up to the file. -/
theorem mergesToFull_iff (hsync : List.IsChain Grown (f :: fs))
    (hfs : ∀ g ∈ f :: fs, Writable v d g) :
    MergesToFull v f fs d dynamic labels ↔
    (dynamic = true → (fs.getLastD f).extents = f.extents) := by
  have hf := hfs f (List.mem_cons_self ..)
  have hlast : fs.getLastD f ∈ f :: fs := List.getLastD_mem_cons ..
  obtain ⟨hmerge, hstuck⟩ := mergeAll hsync fun g hg ↦ hfs g (List.mem_cons_of_mem _ hg)
  constructor
  · rintro ⟨f₀, d₀, g, d', hdec, hall, -⟩ hd
    rw [hf.decodeFrom_full] at hdec
    cases hdec
    by_contra hne
    exact hstuck hd hne _ hall
  · intro hsafe
    exact ⟨_, _, _, _, hf.decodeFrom_full, hmerge hsafe, (hfs _ hlast).decodeFrom_full⟩

end Merge

/-- A snapshot is read back as it was written exactly if no file has the last id and, where
labels move, no file with several names has extents; and the updates of any number of syncs
add up to the file exactly if, where labels move, none of them has extents. -/
theorem metadata_roundTrip_iff (v : Varint32) (dynamic : Bool) (labels : ZoneId → ZoneLabel)
    (s : Store) (hs : s.Encodable) (hlen : (encodeSnapshotTo v s).length < 2 ^ 32)
    (d : Zbd) (hd : d.getIOZone = s.zbd.getIOZone) (f : ZoneFile) (fs : List ZoneFile)
    (hsync : List.IsChain Grown (f :: fs)) (hfs : ∀ g ∈ f :: fs, Writable v d g) :
    (RoundTrips v s d dynamic labels ↔ Restorable s dynamic) ∧
      (MergesToFull v f fs d dynamic labels ↔
        (dynamic = true → (fs.getLastD f).extents = f.extents)) :=
  ⟨roundTrips_iff hs hlen hd, mergesToFull_iff hsync hfs⟩

/-- A device with two empty zones. -/
def twoZones : Zbd where
  blockSize := 512
  zoneSize := 4096
  nrZones := 2
  zones := fun i ↦
    { start := 4096 * i
      maxCapacity := 4096
      capacity := 4096
      wp := 4096 * i
      usedCapacity := 0
      busy := false
      resetCount := 0
      finishCount := 0 }
  mem := fun _ ↦ 0

/-- A file with two names, of which the first `n` extents of 512 bytes have been written. -/
def linkedFile (id n : Nat) : ZoneFile where
  fileId := id
  fileSize := 512 * n
  extents := (List.range n).map fun i ↦ ⟨512 * i, 512, 0⟩
  linkfiles := ["a", "b"]
  nrSyncedExtents := n - 1

/-- A namespace with nothing but a file with two names and one extent. -/
def twoNames (id : Nat) : Store :=
  { Store.init twoZones with
    files := ((∅ : Files).insert "b" 0).insert "a" 0
    heap := fun _ ↦ linkedFile id 1
    live := {0}
    nextRef := 1 }

theorem lookup_twoNames {id : Nat} {m : Name} {q : Ref} :
    (twoNames id).files.lookup m = some q ↔ m ∈ ["a", "b"] ∧ q = 0 := by
  by_cases ha : m = "a"
  · subst ha
    simp [twoNames, eq_comm]
  · by_cases hb : m = "b"
    · subst hb
      simp [twoNames, eq_comm, -AList.insert_empty]
    · simp [twoNames, ha, hb, -AList.insert_empty]

theorem fits_linkedFile {id n : Nat} (hid : id < 2 ^ 64) (hn : n ≤ 8) : (linkedFile id n).Fits where
  fileId := hid
  fileSize := show 512 * n < 2 ^ 64 by omega
  lifetime := show 0 < 2 ^ 32 by decide
  extents := by
    intro e he
    obtain ⟨i, hi, rfl⟩ := List.mem_map.mp he
    have := List.mem_range.mp hi
    exact ⟨show 512 * i < 2 ^ 64 by omega, show 512 < 2 ^ 64 by decide⟩
  mTime := show 0 < 2 ^ 64 by decide
  extentStart := show NO_EXTENT < 2 ^ 64 by decide
  linkfiles := show ∀ m ∈ ["a", "b"], ∀ c ∈ m.toList, c.toNat < 256 by simp

theorem located_linkedFile {id n : Nat} (hn : n ≤ 8) :
    ∀ e ∈ (linkedFile id n).extents, twoZones.getIOZone e.start = some e.zone := by
  intro e he
  obtain ⟨i, hi, rfl⟩ := List.mem_map.mp he
  have := List.mem_range.mp hi
  have hzone : decide (4096 * 0 ≤ 512 * i ∧ 512 * i < 4096 * 0 + 4096) = true :=
    decide_eq_true ⟨by omega, by omega⟩
  exact List.find?_cons_of_pos hzone

theorem length_linkedFile (id n : Nat) :
    (encodeTo .base128 (linkedFile id n) 0).length ≤ 76 + n * 25 := by
  have hextents : (((linkedFile id n).extents.drop 0).flatMap fun e ↦
      encodeFixed32 ZoneFileTag.kExtent ++
        Varint32.base128.putLengthPrefixedSlice (encodeExtentTo e.start e.length)).length ≤
      ((linkedFile id n).extents.drop 0).length * 25 := by
    refine Stream.length_flatMap_le fun e _ ↦ ?_
    have := Varint32.length_putLengthPrefixedSlice_le (encodeExtentTo e.start e.length)
    simp only [encodeExtentTo, List.length_append, length_encodeFixed64, length_encodeFixed32] at *
    omega
  have hlinks : ((linkedFile id n).linkfiles.flatMap fun m ↦
      encodeFixed32 ZoneFileTag.kLinkedFilename ++
        Varint32.base128.putLengthPrefixedSlice (nameBytes m)).length ≤
      (linkedFile id n).linkfiles.length * 10 := by
    refine Stream.length_flatMap_le fun m hm ↦ ?_
    have hone : ∀ m ∈ ["a", "b"], (nameBytes m).length = 1 := by simp [nameBytes]
    have := Varint32.length_putLengthPrefixedSlice_le (nameBytes m)
    rw [hone m hm] at this
    simp only [List.length_append, length_encodeFixed32] at *
    omega
  have hn : ((linkedFile id n).extents.drop 0).length = n := by simp [linkedFile]
  have hm : (linkedFile id n).linkfiles.length = 2 := rfl
  have hsparse : (linkedFile id n).isSparse = false := rfl
  rw [hn] at hextents
  rw [hm] at hlinks
  simp only [encodeTo, List.length_append, length_encodeFixed64, length_encodeFixed32, hsparse,
    Bool.false_eq_true, if_false, List.length_nil]
  omega

theorem length_twoNames (id : Nat) : (encodeSnapshotTo .base128 (twoNames id)).length < 2 ^ 32 := by
  have hfile := length_linkedFile id 1
  have hcopy := Varint32.length_putLengthPrefixedSlice_le (encodeTo .base128 (linkedFile id 1) 0)
  have hfiles : ((twoNames id).files.entries.flatMap fun e ↦
      Varint32.base128.putLengthPrefixedSlice
        (encodeTo .base128 ((twoNames id).heap e.2) 0)).length ≤ 2 * 106 := by
    refine Stream.length_flatMap_le fun e _ ↦ ?_
    show (Varint32.base128.putLengthPrefixedSlice (encodeTo .base128 (linkedFile id 1) 0)).length ≤
      106
    omega
  have hdata := Varint32.length_putLengthPrefixedSlice_le
    ((twoNames id).files.entries.flatMap fun e ↦
      Varint32.base128.putLengthPrefixedSlice (encodeTo .base128 ((twoNames id).heap e.2) 0))
  rw [encodeSnapshotTo, List.length_append, length_encodeFixed32]
  omega

theorem encodable_twoNames {id : Nat} (hid : id < 2 ^ 64) : (twoNames id).Encodable where
  links := by
    intro m q hm k
    rw [lookup_twoNames] at hm ⊢
    exact ⟨fun hk ↦ ⟨hk, hm.2⟩, And.left⟩
  nodup := fun _ _ _ ↦ show ["a", "b"].Nodup by decide
  named := by
    rw [← AList.lookup_eq_none, Option.eq_none_iff_forall_ne_some]
    intro q hq
    exact absurd (lookup_twoNames.mp hq).1 (by decide)
  located := fun _ _ _ ↦ located_linkedFile (by decide)
  fits := fun _ _ _ ↦ fits_linkedFile hid (by decide)

theorem grown_linkedFile : List.IsChain Grown [linkedFile 1 1, linkedFile 1 2] :=
  List.isChain_pair.mpr ⟨rfl, ⟨_, rfl⟩, rfl⟩

theorem writable_linkedFile :
    ∀ g ∈ [linkedFile 1 1, linkedFile 1 2], Writable .base128 twoZones g := by
  have hfile : ∀ {n}, n ≤ 8 → Writable .base128 twoZones (linkedFile 1 n) := by
    intro n hn
    have hshort := length_linkedFile 1 n
    exact ⟨fits_linkedFile (by decide) hn, show "" ∉ ["a", "b"] by decide,
      located_linkedFile hn, by omega⟩
  intro g hg
  rcases List.mem_pair.mp hg with rfl | rfl
  · exact hfile (by decide)
  · exact hfile (by decide)

/-- With labels that stay, the file with two names is read back, and so is what is written to it
later. -/
theorem metadata_roundTrip_twoNames :
    RoundTrips .base128 (twoNames 1) twoZones false (fun _ ↦ {}) ∧
      MergesToFull .base128 (linkedFile 1 1) [linkedFile 1 2] twoZones false fun _ ↦ {} := by
  have h := metadata_roundTrip_iff .base128 false (fun _ ↦ {}) (twoNames 1)
    (encodable_twoNames (by decide)) (length_twoNames _) twoZones rfl (linkedFile 1 1)
    [linkedFile 1 2] grown_linkedFile writable_linkedFile
  refine ⟨h.1.mpr fun _ _ _ ↦ ⟨show 1 + 1 < 2 ^ 64 by decide, ?_⟩, h.2.mpr ?_⟩
  · intro hd
    cases hd
  · intro hd
    cases hd

/-- With labels that move, neither is; and the last id there is is lost in any case. -/
theorem exists_lost_roundTrip :
    ((twoNames 1).Encodable ∧ ¬ RoundTrips .base128 (twoNames 1) twoZones true fun _ ↦ {}) ∧
      ((twoNames (2 ^ 64 - 1)).Encodable ∧
        ¬ RoundTrips .base128 (twoNames (2 ^ 64 - 1)) twoZones false fun _ ↦ {}) ∧
      ¬ MergesToFull .base128 (linkedFile 1 1) [linkedFile 1 2] twoZones true fun _ ↦ {} := by
  have hname : ∀ {id}, (twoNames id).files.lookup "a" = some 0 :=
    lookup_twoNames.mpr ⟨by decide, rfl⟩
  have hzones : ∀ id, twoZones.getIOZone = (twoNames id).zbd.getIOZone := fun _ ↦ rfl
  refine ⟨⟨encodable_twoNames (by decide), fun h ↦ ?_⟩,
    ⟨encodable_twoNames (by decide), fun h ↦ ?_⟩, fun h ↦ ?_⟩
  · have h := (roundTrips_iff (encodable_twoNames (by decide)) (length_twoNames _) (hzones 1)).mp h
    exact absurd ((h "a" 0 hname).2 rfl (show 2 ≤ 2 by decide))
      (show (linkedFile 1 1).extents ≠ [] by decide)
  · have h := (roundTrips_iff (encodable_twoNames (by decide)) (length_twoNames _) (hzones _)).mp h
    exact absurd (h "a" 0 hname).1 (show ¬ 2 ^ 64 - 1 + 1 < 2 ^ 64 by decide)
  · rw [mergesToFull_iff grown_linkedFile writable_linkedFile] at h
    exact absurd (h rfl) (show (linkedFile 1 2).extents ≠ (linkedFile 1 1).extents by decide)

end Codec

end ZenFs
