import ZenFs.Fs.Space
import ZenFs.Levels.Label
import ZenFs.Meta.Codec

/-!
# Snapshots as they are written

`ZenFS::EncodeSnapshotTo` writes every file once for each of its names, and
`ZenFS::DecodeSnapshotFrom` keeps the first copy and destroys the others.  This file says
for which namespaces a snapshot is read back as it was written.  The space counters are
numbers here, of which the source has the lowest 64 bits.
-/

namespace ZenFs

/-- The namespace in memory, with the labels of the zones, which move when an object is
destroyed if `dynamic_level_adjustment` is set. -/
structure LevelStore extends Store where
  dynamic : Bool
  labels : ZoneId → ZoneLabel

/-- Why decoding has no result: it fails with a status, or a label has gone wrong. -/
inductive Stop where
  | status (e : Status)
  | fault (e : Fault)
deriving DecidableEq, Repr

/-- How a failure with a status ends when the object has to be destroyed first. -/
def Stop.ofDestroyed {α : Type*} (e : Status) : Except Fault α → Stop
  | .error e' => .fault e'
  | .ok _ => .status e

/-- `ZoneFile::ClearExtents` on extents that were decoded or merged; they have no level. -/
def clearDecoded (dynamic : Bool) (es : List ZoneExtent) (d : Zbd) (labels : ZoneId → ZoneLabel) :
    Except Fault (Zbd × (ZoneId → ZoneLabel)) :=
  let calls : List LevelCall :=
    if dynamic then es.map fun e ↦ ⟨e.zone, -1, toInt (-e.length)⟩ else []
  (LevelCall.updateAll dynamic labels calls).map fun labels ↦ (d.clearExtents es, labels)

namespace LevelStore

/-- A filesystem without files. -/
def empty (d : Zbd) (dynamic : Bool) (labels : ZoneId → ZoneLabel) : LevelStore where
  toStore := Store.init d
  dynamic := dynamic
  labels := labels

/-- `ZoneFile::~ZoneFile`. -/
def destroy (s : LevelStore) (r : Ref) : Except Fault LevelStore :=
  (clearDecoded s.dynamic (s.heap r).extents s.zbd s.labels).map fun p ↦
    { s with zbd := p.1, labels := p.2, live := s.live.erase r }

/-- A local `shared_ptr` goes out of scope. -/
def release (s : LevelStore) (r : Ref) : Except Fault LevelStore :=
  if s.files.refers r || !(s.handles r).isEmpty then .ok s else s.destroy r

/-- `if (id >= next_file_id_) next_file_id_ = id + 1;` on unsigned 64-bit numbers. -/
def raiseNextFileId (s : LevelStore) (id : Nat) : LevelStore :=
  { s with nextFileId := if s.nextFileId ≤ id then (id + 1) % 2 ^ 64 else s.nextFileId }

/-- A decoded object takes those of its names that are free. -/
def insertFile (s : LevelStore) (f : ZoneFile) (d : Zbd) : LevelStore :=
  let t := ({ s.toStore with zbd := d }.alloc f).2
  { s with toStore := { t with files := t.files.insertLinks f.linkfiles s.nextRef } }

end LevelStore

namespace Codec

/-- `kCompleteFilesSnapshot`. -/
def kCompleteFilesSnapshot : UInt32 := 1

variable (v : Varint32)

/-- `ZenFS::EncodeSnapshotTo`. -/
def encodeSnapshotTo (s : Store) : List Byte :=
  encodeFixed32 kCompleteFilesSnapshot ++
    v.putLengthPrefixedSlice (s.files.entries.flatMap fun e ↦
      v.putLengthPrefixedSlice (encodeTo v (s.heap e.2) 0))

/-- The tag and the data of a record, as `ZenFS::RecoverFrom` takes it apart. -/
def recordData (record : List Byte) : Option (UInt32 × List Byte) :=
  match getFixed32 record with
  | none => none
  | some (tag, record) => (v.getLengthPrefixedSlice record).map fun p ↦ (tag, p.1)

/-- The body of the loop in `ZenFS::DecodeSnapshotFrom`. -/
def decodeSnapshotFile (slice : List Byte) (s : LevelStore) : Except Stop LevelStore :=
  match decodeFrom v slice { fileId := 0 } s.zbd with
  | .error (e, f, d) =>
      -- the object goes with the extents that were read into it
      .error (.ofDestroyed e (clearDecoded s.dynamic f.extents d s.labels))
  | .ok (f, d) =>
      (((s.insertFile f d).raiseNextFileId f.fileId).release s.nextRef).mapError .fault

/-- One turn of the loop in `ZenFS::DecodeSnapshotFrom`. -/
def nextFile (input : List Byte) (s : LevelStore) :
    Except Stop (Option (LevelStore × List Byte)) :=
  match v.getLengthPrefixedSlice input with
  | none => .ok none
  | some (slice, rest) => (decodeSnapshotFile v slice s).map fun s' ↦ some (s', rest)

/-- `ZenFS::DecodeSnapshotFrom`. -/
def decodeSnapshotFrom (input : List Byte) (s : LevelStore) :
    Except (Stop × LevelStore) LevelStore :=
  Stream.run (nextFile v) input s

end Codec

section Clear

variable {dynamic : Bool} {es : List ZoneExtent} {d : Zbd} {labels : ZoneId → ZoneLabel}

/-- Where labels move, no extent can be given back that was decoded: there is no level -1. -/
theorem clearDecoded_of_faulty (hd : dynamic = true) (hes : es ≠ []) :
    clearDecoded dynamic es d labels = .error .outOfRange := by
  subst hd
  obtain ⟨e, es, rfl⟩ := List.exists_cons_of_ne_nil hes
  have hadm : ¬ (labels e.zone).Admits true (-1) := fun h ↦ absurd h.1 (by decide)
  rw [clearDecoded, if_pos rfl, List.map_cons, LevelCall.updateAll,
    ZoneLabel.updateBytesOfLevel_of_not_admits hadm]
  rfl

theorem clearDecoded_of_safe (h : dynamic = true → es = []) :
    clearDecoded dynamic es d labels = .ok (d.clearExtents es, labels) := by
  cases dynamic with
  | false => rfl
  | true =>
      obtain rfl := h rfl
      rfl

theorem clearDecoded_zbd {p : Zbd × (ZoneId → ZoneLabel)}
    (h : clearDecoded dynamic es d labels = .ok p) : p.1 = d.clearExtents es := by
  rw [clearDecoded] at h
  generalize LevelCall.updateAll dynamic labels _ = res at h
  cases res with
  | error e => cases h
  | ok labels' =>
      cases h
      rfl

theorem Zbd.addUsed_comm (d : Zbd) (i j : ZoneId) (m n : Nat) :
    (d.addUsed i m).addUsed j n = (d.addUsed j n).addUsed i m := by
  have hzones : ((d.addUsed i m).addUsed j n).zones = ((d.addUsed j n).addUsed i m).zones := by
    funext k
    simp only [addUsed_zones, Nat.add_right_comm]
  exact congrArg (fun zones ↦ { d with zones := zones }) hzones

theorem Zbd.subUsed_addUsed (d : Zbd) (i : ZoneId) (n : Nat) : (d.addUsed i n).subUsed i n = d := by
  have hle : n ≤ ((d.addUsed i n).zones i).usedCapacity := by
    rw [addUsed_zones, if_pos rfl]
    exact Nat.le_add_left ..
  have hzones : ((d.addUsed i n).subUsed i n).zones = d.zones := by
    funext k
    simp only [subUsed_zones _ i n k hle, addUsed_zones, Nat.add_sub_cancel]
  have hwrapped : (d.wrapped || decide (((d.addUsed i n).zones i).usedCapacity < n)) =
      d.wrapped := by
    rw [decide_eq_false (Nat.not_lt.mpr hle), Bool.or_false]
  exact congrArg₂ (fun zones wrapped ↦ { d with zones := zones, wrapped := wrapped })
    hzones hwrapped

theorem Zbd.countExtents_addUsed (d : Zbd) (i : ZoneId) (n : Nat) (es : List ZoneExtent) :
    (d.addUsed i n).countExtents es = (d.countExtents es).addUsed i n := by
  induction es generalizing d with
  | nil => rfl
  | cons e es ih =>
      rw [countExtents, List.foldl_cons, ← countExtents, addUsed_comm, ih]
      rfl

theorem Zbd.countExtents_append (d : Zbd) (es es' : List ZoneExtent) :
    d.countExtents (es ++ es') = (d.countExtents es).countExtents es' := List.foldl_append

/-- Giving back what was counted last leaves the device as it was. -/
theorem Zbd.clearExtents_countExtents (d : Zbd) (es : List ZoneExtent) :
    (d.countExtents es).clearExtents es = d := by
  induction es with
  | nil => rfl
  | cons e es ih =>
      have hcount : d.countExtents (e :: es) = (d.countExtents es).addUsed e.zone e.length :=
        d.countExtents_addUsed e.zone e.length es
      rw [clearExtents, List.foldl_cons, ← clearExtents, hcount, subUsed_addUsed, ih]

end Clear

/-! ## Snapshots -/

/-- A namespace whose names and links agree, and whose files can be written: there are no
empty names, and the extents start in the zones they are in. -/
structure Store.Encodable (s : Store) : Prop where
  links : ∀ n r, s.files.lookup n = some r →
    ∀ m, m ∈ (s.heap r).linkfiles ↔ s.files.lookup m = some r
  nodup : ∀ n r, s.files.lookup n = some r → (s.heap r).linkfiles.Nodup
  named : "" ∉ s.files
  located : ∀ n r, s.files.lookup n = some r → ∀ e ∈ (s.heap r).extents,
    s.zbd.getIOZone e.start = some e.zone
  fits : ∀ n r, s.files.lookup n = some r → (s.heap r).Fits

/-- The objects of a namespace, each once for every name. -/
def Store.refs (s : Store) : List Ref := s.files.entries.map (·.2)

/-- A file has the persistent fields of another. -/
structure ZoneFile.SameRecord (f g : ZoneFile) : Prop where
  fileId : f.fileId = g.fileId
  fileSize : f.fileSize = g.fileSize
  lifetime : f.lifetime = g.lifetime
  extents : f.extents = g.extents
  mTime : f.mTime = g.mTime
  extentStart : f.extentStart = g.extentStart
  isSparse : f.isSparse = g.isSparse
  linkfiles : f.linkfiles = g.linkfiles

/-- `t` has the names and files of `s`, and its zones, which were those of `d`, count each
file once. -/
structure Restores (s : Store) (d : Zbd) (t : Store) : Prop where
  names : ∀ n, n ∈ t.files ↔ n ∈ s.files
  groups : ∀ n m r r' q q', s.files.lookup n = some r → s.files.lookup m = some r' →
    t.files.lookup n = some q → t.files.lookup m = some q' → (q = q' ↔ r = r')
  files : ∀ n r q, s.files.lookup n = some r → t.files.lookup n = some q →
    (t.heap q).SameRecord (s.heap r)
  used : ∀ i, t.zbd.used i = d.used i + ∑ r ∈ s.refs.toFinset, spaceIn i (s.heap r).extents
  nextFileId : ∀ n r, s.files.lookup n = some r → (s.heap r).fileId < t.nextFileId

namespace Codec

/-- The snapshot of `s` is decoded into an empty filesystem on `d`, which then has what was
written. -/
def RoundTrips (v : Varint32) (s : Store) (d : Zbd) (dynamic : Bool) (labels : ZoneId → ZoneLabel) :
    Prop :=
  ∃ data t, recordData v (encodeSnapshotTo v s) = some (kCompleteFilesSnapshot, data) ∧
    decodeSnapshotFrom v data (LevelStore.empty d dynamic labels) = .ok t ∧ Restores s d t.toStore

/-- No file has the last id there is, and where labels move, a file with several names has no
extents. -/
def Restorable (s : Store) (dynamic : Bool) : Prop :=
  ∀ n r, s.files.lookup n = some r → (s.heap r).fileId + 1 < 2 ^ 64 ∧
    (dynamic = true → 2 ≤ (s.heap r).linkfiles.length → (s.heap r).extents = [])

/-- How far decoding a snapshot has come: the objects in `seen` have been read, and `image`
tells where they are. -/
structure Partly (s : Store) (d : Zbd) (seen : Finset Ref) (image : Ref → Ref) (t : LevelStore) :
    Prop where
  getIOZone_eq : t.zbd.getIOZone = s.zbd.getIOZone
  used : ∀ i, t.zbd.used i = d.used i + ∑ r ∈ seen, spaceIn i (s.heap r).extents
  lookup : ∀ n, t.files.lookup n =
    (s.files.lookup n).bind fun r ↦ if r ∈ seen then some (image r) else none
  heap : ∀ r ∈ seen, t.heap (image r) = (s.heap r).restored 0
  injOn : Set.InjOn image seen
  lt_nextRef : ∀ r ∈ seen, image r < t.nextRef
  handles : ∀ r, t.handles r = []
  lt_nextFileId : (∀ r ∈ seen, (s.heap r).fileId + 1 < 2 ^ 64) →
    ∀ r ∈ seen, (s.heap r).fileId < t.nextFileId
  bounded : t.nextFileId < 2 ^ 64

section Step

variable {v : Varint32} {s : Store} {d : Zbd} {seen : Finset Ref} {image : Ref → Ref}
  {t : LevelStore} {n : Name} {r : Ref}

theorem partly_empty {dynamic : Bool} {labels : ZoneId → ZoneLabel}
    (hd : d.getIOZone = s.zbd.getIOZone) :
    Partly s d ∅ id (LevelStore.empty d dynamic labels) where
  getIOZone_eq := hd
  used := fun _ ↦ rfl
  lookup := by
    intro n
    cases s.files.lookup n <;> rfl
  heap := by simp
  injOn := by simp
  lt_nextRef := by simp
  handles := fun _ ↦ rfl
  lt_nextFileId := by simp
  bounded := show 1 < 2 ^ 64 by decide

/-- The file of a name is decoded as it is. -/
theorem Partly.decodeFrom_record (h : Partly s d seen image t) (hs : s.Encodable)
    (hn : s.files.lookup n = some r) :
    ZoneFile.decodeFrom (s.heap r).encodeSnapshotTo t.zbd =
      .ok ((s.heap r).restored 0, t.zbd.countExtents (s.heap r).extents) := by
  refine Codec.decodeFrom_record (fun hmem ↦ ?_) ?_ 0
  · exact hs.named (AList.lookup_isSome.mp (by rw [(hs.links n r hn "").mp hmem]; rfl))
  · rw [h.getIOZone_eq]
    exact hs.located n r hn

/-- Reading an id raises the next one above it, unless it is the last. -/
theorem lt_raiseNextFileId {id : Nat} (hid : id + 1 < 2 ^ 64) :
    id < (t.raiseNextFileId id).nextFileId ∧ t.nextFileId ≤ (t.raiseNextFileId id).nextFileId := by
  rw [LevelStore.raiseNextFileId]
  dsimp only
  split <;> omega

theorem raiseNextFileId_lt (ht : t.nextFileId < 2 ^ 64) (id : Nat) :
    (t.raiseNextFileId id).nextFileId < 2 ^ 64 := by
  rw [LevelStore.raiseNextFileId]
  dsimp only
  split <;> omega

/-- The filesystem behind a file of a snapshot, while the call still holds the object. -/
def inserted (t : LevelStore) (f : ZoneFile) : LevelStore :=
  (t.insertFile (f.restored 0) (t.zbd.countExtents f.extents)).raiseNextFileId f.fileId

/-- What the loop does with a copy of a file. -/
def decodeCopy (v : Varint32) (s : Store) (r : Ref) (t : LevelStore) : Except Stop LevelStore :=
  decodeSnapshotFile v (encodeTo v (s.heap r) 0) t

theorem Partly.decodeCopy_eq (h : Partly s d seen image t) (hs : s.Encodable)
    (hn : s.files.lookup n = some r) (hlen : (encodeTo v (s.heap r) 0).length < 2 ^ 32) :
    decodeCopy v s r t = ((inserted t (s.heap r)).release t.nextRef).mapError .fault := by
  rw [decodeCopy, decodeSnapshotFile,
    decodeFrom_encodeTo (hs.fits n r hn) hlen (h.decodeFrom_record hs hn)]
  rfl

/-- The first copy of a file is kept, under all its names. -/
theorem Partly.inserted_new (h : Partly s d seen image t) (hs : s.Encodable)
    (hn : s.files.lookup n = some r) (hr : r ∉ seen) :
    (inserted t (s.heap r)).release t.nextRef = .ok (inserted t (s.heap r)) ∧
      Partly s d (insert r seen) (Function.update image r t.nextRef) (inserted t (s.heap r)) := by
  have hfiles : ∀ m, (inserted t (s.heap r)).files.lookup m =
      if s.files.lookup m = some r then some t.nextRef else t.files.lookup m := by
    intro m
    have hfree : s.files.lookup m = some r → m ∉ t.files := by
      intro hm
      rw [← AList.lookup_eq_none, h.lookup, hm]
      exact if_neg hr
    have hlook : (inserted t (s.heap r)).files.lookup m =
        if m ∈ (s.heap r).linkfiles ∧ m ∉ t.files then some t.nextRef else t.files.lookup m :=
      Files.lookup_insertLinks _
    rw [hlook]
    refine if_congr ⟨fun hm ↦ (hs.links n r hn m).mp hm.1, fun hm ↦ ?_⟩ rfl rfl
    exact ⟨(hs.links n r hn m).mpr hm, hfree hm⟩
  have himage : ∀ q ∈ seen, Function.update image r t.nextRef q = image q := fun q hq ↦
    Function.update_of_ne (ne_of_mem_of_not_mem hq hr) _ _
  constructor
  · have hrefers : (inserted t (s.heap r)).files.refers t.nextRef = true :=
      Files.refers_iff.mpr ⟨n, by rw [hfiles, if_pos hn]⟩
    rw [LevelStore.release, hrefers, Bool.true_or]
    exact if_pos rfl
  · exact
      { getIOZone_eq := (Zbd.getIOZone_countExtents ..).trans h.getIOZone_eq
        used := by
          intro i
          have hused : (inserted t (s.heap r)).zbd.used i =
              t.zbd.used i + spaceIn i (s.heap r).extents := Zbd.countExtents_used ..
          rw [hused, h.used, Finset.sum_insert hr]
          omega
        lookup := by
          intro m
          rw [hfiles, h.lookup]
          cases hm : s.files.lookup m with
          | none => rfl
          | some q =>
              by_cases hq : q = r
              · subst hq
                simp
              · simp [hq]
        heap := by
          intro q hq
          rcases Finset.mem_insert.mp hq with rfl | hq
          · rw [Function.update_self]
            exact Function.update_self ..
          · rw [himage q hq, ← h.heap q hq]
            exact Function.update_of_ne (h.lt_nextRef q hq).ne _ _
        injOn := by
          rw [Finset.coe_insert, Set.injOn_insert hr]
          refine ⟨h.injOn.congr fun q hq ↦ (himage q hq).symm, ?_⟩
          rintro ⟨q, hq, he⟩
          rw [himage q hq, Function.update_self] at he
          exact (h.lt_nextRef q hq).ne he
        lt_nextRef := by
          intro q hq
          rcases Finset.mem_insert.mp hq with rfl | hq
          · rw [Function.update_self]
            exact Nat.lt_succ_self _
          · rw [himage q hq]
            exact (h.lt_nextRef q hq).trans (Nat.lt_succ_self _)
        handles := h.handles
        lt_nextFileId := by
          intro hids q hq
          have hraise := lt_raiseNextFileId (t := t) (hids r (Finset.mem_insert_self ..))
          rcases Finset.mem_insert.mp hq with rfl | hq
          · exact hraise.1
          · exact (h.lt_nextFileId (fun q hq ↦ hids q (Finset.mem_insert_of_mem hq)) q hq).trans_le
              hraise.2
        bounded := raiseNextFileId_lt h.bounded _ }

/-- A further copy of a file finds its names taken. -/
theorem Partly.inserted_files (h : Partly s d seen image t) (hs : s.Encodable)
    (hn : s.files.lookup n = some r) (hr : r ∈ seen) : (inserted t (s.heap r)).files = t.files := by
  refine Files.insertLinks_of_mem fun m hm ↦ ?_
  show m ∈ t.files
  rw [← AList.lookup_isSome, h.lookup, (hs.links n r hn m).mp hm, Option.bind_some, if_pos hr]
  rfl

theorem Partly.refers_nextRef (h : Partly s d seen image t) : t.files.refers t.nextRef = false := by
  rw [Bool.eq_false_iff]
  intro hrefers
  obtain ⟨m, hm⟩ := Files.refers_iff.mp hrefers
  rw [h.lookup] at hm
  obtain ⟨q, -, hq⟩ := Option.bind_eq_some_iff.mp hm
  split at hq
  · next hmem => exact (h.lt_nextRef q hmem).ne (Option.some.inj hq)
  · cases hq

/-- It is destroyed, and with it goes the space that was counted for it. -/
theorem Partly.release_old (h : Partly s d seen image t) (hs : s.Encodable)
    (hn : s.files.lookup n = some r) (hr : r ∈ seen) :
    (inserted t (s.heap r)).release t.nextRef =
      (clearDecoded t.dynamic (s.heap r).extents (t.zbd.countExtents (s.heap r).extents)
        t.labels).map fun p ↦ { inserted t (s.heap r) with
          zbd := p.1, labels := p.2, live := (inserted t (s.heap r)).live.erase t.nextRef } := by
  have hheap : (inserted t (s.heap r)).heap t.nextRef = (s.heap r).restored 0 :=
    Function.update_self ..
  have hhandles : (inserted t (s.heap r)).handles t.nextRef = [] := h.handles _
  have hrefers : (inserted t (s.heap r)).files.refers t.nextRef = false := by
    rw [h.inserted_files hs hn hr, h.refers_nextRef]
  rw [LevelStore.release, hrefers, hhandles]
  show (inserted t (s.heap r)).destroy t.nextRef = _
  rw [LevelStore.destroy, hheap]
  rfl

/-- A further copy that can be destroyed changes nothing but the next ids. -/
theorem Partly.inserted_old (h : Partly s d seen image t) (hs : s.Encodable)
    (hn : s.files.lookup n = some r) (hr : r ∈ seen)
    (hsafe : t.dynamic = true → (s.heap r).extents = []) :
    ∃ t', (inserted t (s.heap r)).release t.nextRef = .ok t' ∧ t'.dynamic = t.dynamic ∧
      Partly s d seen image t' := by
  rw [h.release_old hs hn hr, clearDecoded_of_safe hsafe, Zbd.clearExtents_countExtents]
  refine ⟨_, rfl, rfl, ?_⟩
  exact
    { getIOZone_eq := h.getIOZone_eq
      used := h.used
      lookup := by
        rw [h.inserted_files hs hn hr]
        exact h.lookup
      heap := by
        intro q hq
        rw [← h.heap q hq]
        exact Function.update_of_ne (h.lt_nextRef q hq).ne _ _
      injOn := h.injOn
      lt_nextRef := fun q hq ↦ (h.lt_nextRef q hq).trans (Nat.lt_succ_self _)
      handles := h.handles
      lt_nextFileId := fun hids q hq ↦
        (h.lt_nextFileId hids q hq).trans_le (lt_raiseNextFileId (hids r hr)).2
      bounded := raiseNextFileId_lt h.bounded _ }

/-- A copy of a file is decoded unless it has to be destroyed and cannot be. -/
theorem Partly.decodeCopy_spec (h : Partly s d seen image t) (hs : s.Encodable)
    (hn : s.files.lookup n = some r) (hlen : (encodeTo v (s.heap r) 0).length < 2 ^ 32) :
    (∀ t', decodeCopy v s r t = .ok t' → t'.dynamic = t.dynamic ∧
        ∃ image', Partly s d (insert r seen) image' t') ∧
      ((∃ t', decodeCopy v s r t = .ok t') ↔
        (r ∈ seen → t.dynamic = true → (s.heap r).extents = [])) := by
  rw [h.decodeCopy_eq hs hn hlen]
  by_cases hr : r ∈ seen
  · rw [Finset.insert_eq_of_mem hr]
    by_cases hsafe : t.dynamic = true → (s.heap r).extents = []
    · obtain ⟨t₁, ht₁, hd, h₁⟩ := h.inserted_old hs hn hr hsafe
      rw [ht₁]
      refine ⟨?_, iff_of_true ⟨t₁, rfl⟩ fun _ ↦ hsafe⟩
      intro t' ht'
      cases ht'
      exact ⟨hd, image, h₁⟩
    · obtain ⟨hd, hes⟩ := Classical.not_imp.mp hsafe
      rw [h.release_old hs hn hr, clearDecoded_of_faulty hd hes]
      refine ⟨?_, iff_of_false ?_ fun h ↦ hsafe (h hr)⟩
      · intro t' ht'
        cases ht'
      · rintro ⟨t', ht'⟩
        cases ht'
  · obtain ⟨hrelease, h₁⟩ := h.inserted_new hs hn hr
    rw [hrelease]
    refine ⟨?_, iff_of_true ⟨_, rfl⟩ fun hmem ↦ absurd hmem hr⟩
    intro t' ht'
    cases ht'
    exact ⟨rfl, _, h₁⟩

/-- Where labels move, there is no further copy of a file with extents: of the objects in
`seen` there is a copy already. -/
def Single (s : Store) (dynamic : Bool) (seen : Finset Ref) (rs : List Ref) : Prop :=
  dynamic = true → ∀ r ∈ rs, r ∈ seen ∨ 2 ≤ rs.count r → (s.heap r).extents = []

theorem single_cons {dynamic : Bool} {rs : List Ref} :
    Single s dynamic seen (r :: rs) ↔
      (r ∈ seen → dynamic = true → (s.heap r).extents = []) ∧
      Single s dynamic (insert r seen) rs := by
  constructor
  · intro h
    refine ⟨fun hr hd ↦ h hd r (List.mem_cons_self ..) (.inl hr), fun hd q hq hmany ↦ ?_⟩
    refine h hd q (List.mem_cons_of_mem _ hq) ?_
    rcases hmany with hmem | hcount
    · rcases Finset.mem_insert.mp hmem with rfl | hmem
      · refine .inr ?_
        rw [List.count_cons_self]
        exact Nat.succ_le_succ (List.count_pos_iff.mpr hq)
      · exact .inl hmem
    · exact .inr (hcount.trans List.count_le_count_cons)
  · rintro ⟨hr, h⟩ hd q hq hmany
    by_cases he : q = r
    · subst he
      rcases hmany with hmem | hcount
      · exact hr hmem hd
      · rw [List.count_cons_self] at hcount
        exact h hd q (List.count_pos_iff.mp (Nat.le_of_succ_le_succ hcount))
          (.inl (Finset.mem_insert_self ..))
    · rw [List.count_cons_of_ne (Ne.symm he)] at hmany
      exact h hd q (List.mem_of_ne_of_mem he hq) (hmany.imp_left Finset.mem_insert_of_mem)

/-- The files of a snapshot are decoded up to the first further copy of a file that cannot be
destroyed. -/
theorem Partly.copies (h : Partly s d seen image t) (hs : s.Encodable) {rs : List Ref}
    (hrs : ∀ r ∈ rs, (∃ n, s.files.lookup n = some r) ∧ (encodeTo v (s.heap r) 0).length < 2 ^ 32) :
    (∀ t', Stream.actAll (decodeCopy v s) rs t = .ok t' →
        ∃ image', Partly s d (seen ∪ rs.toFinset) image' t') ∧
      ((∃ t', Stream.actAll (decodeCopy v s) rs t = .ok t') ↔ Single s t.dynamic seen rs) := by
  induction rs generalizing seen image t with
  | nil =>
      refine ⟨fun t' ht' ↦ ⟨image, ?_⟩, iff_of_true ⟨t, rfl⟩ ?_⟩
      · cases ht'
        simpa using h
      · intro _ r hr
        cases hr
  | cons r rs ih =>
      obtain ⟨⟨n, hn⟩, hlen⟩ := hrs r (List.mem_cons_self ..)
      obtain ⟨hstep, hok⟩ := h.decodeCopy_spec hs hn hlen
      rw [single_cons, ← hok, List.toFinset_cons, Finset.union_insert, ← Finset.insert_union]
      cases hact : decodeCopy v s r t with
      | error e =>
          rw [Stream.actAll_cons_error hact]
          refine ⟨?_, iff_of_false ?_ ?_⟩
          · intro t' ht'
            cases ht'
          · rintro ⟨t', ht'⟩
            cases ht'
          · rintro ⟨⟨t', ht'⟩, -⟩
            cases ht'
      | ok t₁ =>
          obtain ⟨hd, image', h₁⟩ := hstep t₁ hact
          obtain ⟨ih₁, ih₂⟩ := ih h₁ fun q hq ↦ hrs q (List.mem_cons_of_mem r hq)
          rw [Stream.actAll_cons_ok hact, ih₂, hd]
          exact ⟨ih₁, fun h ↦ ⟨⟨t₁, rfl⟩, h⟩, And.right⟩

theorem shortens_nextFile : Stream.Shortens (nextFile v) := by
  intro input rest s s' h
  unfold nextFile at h
  split at h
  · cases h
  · next slice rest' hget =>
      cases hf : decodeSnapshotFile v slice s with
      | error e => rw [hf] at h; cases h
      | ok t =>
          rw [hf] at h
          cases h
          exact Varint32.length_of_getLengthPrefixedSlice hget

/-- An object that can be destroyed goes in the same way without labels. -/
theorem release_toStore {t' : LevelStore} (h : t.release r = .ok t') :
    t.toStore.release r = t'.toStore := by
  rw [LevelStore.release] at h
  rw [Store.release]
  split at h
  · next hkept =>
      cases h
      exact if_pos hkept
  · next hgone =>
      rw [LevelStore.destroy] at h
      cases hp : clearDecoded t.dynamic (t.heap r).extents t.zbd t.labels with
      | error e =>
          rw [hp] at h
          cases h
      | ok p =>
          rw [hp] at h
          cases h
          rw [if_neg hgone, Store.destroy, ← clearDecoded_zbd hp]

/-- A copy is decoded from its bytes as it is from its record. -/
theorem Partly.decodeCopy_toStore (h : Partly s d seen image t) (hs : s.Encodable)
    (hn : s.files.lookup n = some r) (hlen : (encodeTo v (s.heap r) 0).length < 2 ^ 32)
    (hid : (s.heap r).fileId + 1 < 2 ^ 64) {t' : LevelStore} (ht' : decodeCopy v s r t = .ok t') :
    t.toStore.decodeSnapshotFile (s.heap r).encodeSnapshotTo = .ok t'.toStore := by
  rw [h.decodeCopy_eq hs hn hlen] at ht'
  rw [Store.decodeSnapshotFile, h.decodeFrom_record hs hn]
  have hinserted : (inserted t (s.heap r)).toStore =
      { ({ t.toStore with zbd := t.zbd.countExtents (s.heap r).extents }.alloc
          ((s.heap r).restored 0)).2 with
        files := t.files.insertLinks (s.heap r).linkfiles t.nextRef }.raiseNextFileId
          (s.heap r).fileId := by
    rw [inserted, LevelStore.raiseNextFileId, Store.raiseNextFileId, Nat.mod_eq_of_lt hid]
    rfl
  cases hrel : (inserted t (s.heap r)).release t.nextRef with
  | error e =>
      rw [hrel] at ht'
      cases ht'
  | ok t₁ =>
      rw [hrel] at ht'
      cases ht'
      have hstore := release_toStore hrel
      rw [hinserted] at hstore
      exact congrArg Except.ok hstore

/-- A snapshot is decoded from its bytes as it is from its records. -/
theorem Partly.copies_toStore (h : Partly s d seen image t) (hs : s.Encodable) {rs : List Ref}
    (hrs : ∀ r ∈ rs, (∃ n, s.files.lookup n = some r) ∧ (encodeTo v (s.heap r) 0).length < 2 ^ 32)
    (hids : ∀ r ∈ rs, (s.heap r).fileId + 1 < 2 ^ 64) {t' : LevelStore}
    (ht' : Stream.actAll (decodeCopy v s) rs t = .ok t') :
    t.toStore.decodeSnapshotFrom (rs.map fun r ↦ (s.heap r).encodeSnapshotTo) = .ok t'.toStore := by
  induction rs generalizing seen image t with
  | nil =>
      cases ht'
      rfl
  | cons r rs ih =>
      obtain ⟨⟨n, hn⟩, hlen⟩ := hrs r (List.mem_cons_self ..)
      cases hact : decodeCopy v s r t with
      | error e =>
          rw [Stream.actAll_cons_error hact] at ht'
          cases ht'
      | ok t₁ =>
          obtain ⟨-, image', h₁⟩ := (h.decodeCopy_spec hs hn hlen).1 t₁ hact
          have hstep := h.decodeCopy_toStore hs hn hlen (hids r (List.mem_cons_self ..)) hact
          rw [Stream.actAll_cons_ok hact] at ht'
          rw [List.map_cons, Store.decodeSnapshotFrom, hstep]
          exact ih h₁ (fun q hq ↦ hrs q (List.mem_cons_of_mem r hq))
            (fun q hq ↦ hids q (List.mem_cons_of_mem r hq)) ht'

theorem mem_refs : r ∈ s.refs ↔ ∃ n, s.files.lookup n = some r := by
  rw [Store.refs, List.mem_map]
  constructor
  · rintro ⟨e, he, rfl⟩
    exact ⟨e.1, AList.mem_lookup_iff.mpr he⟩
  · rintro ⟨n, hn⟩
    exact ⟨⟨n, r⟩, AList.mem_lookup_iff.mp hn, rfl⟩

/-- A snapshot that is not too long is taken apart into the copies it consists of. -/
theorem recordData_encodeSnapshotTo (hlen : (encodeSnapshotTo v s).length < 2 ^ 32) :
    (∀ r ∈ s.refs, (encodeTo v (s.heap r) 0).length < 2 ^ 32) ∧
      ∃ data, recordData v (encodeSnapshotTo v s) = some (kCompleteFilesSnapshot, data) ∧
        ∀ t, decodeSnapshotFrom v data t = Stream.actAll (decodeCopy v s) s.refs t := by
  have hfiles :
    (s.files.entries.flatMap fun e ↦ v.putLengthPrefixedSlice (encodeTo v (s.heap e.2) 0)) =
      s.refs.flatMap fun r ↦ v.putLengthPrefixedSlice (encodeTo v (s.heap r) 0) := by
    rw [Store.refs, List.flatMap_map]
  have hdata : (s.refs.flatMap fun r ↦ v.putLengthPrefixedSlice (encodeTo v (s.heap r) 0)).length <
      2 ^ 32 := by
    refine lt_of_le_of_lt ?_ hlen
    rw [encodeSnapshotTo, hfiles, List.length_append]
    exact (v.length_le_putLengthPrefixedSlice _).trans (Nat.le_add_left ..)
  have hfile : ∀ r ∈ s.refs, (encodeTo v (s.heap r) 0).length < 2 ^ 32 := by
    intro r hr
    refine lt_of_le_of_lt ((v.length_le_putLengthPrefixedSlice _).trans ?_) hdata
    exact Stream.length_put_le (fun r ↦ v.putLengthPrefixedSlice (encodeTo v (s.heap r) 0)) hr
  refine ⟨hfile, s.refs.flatMap fun r ↦ v.putLengthPrefixedSlice (encodeTo v (s.heap r) 0),
    ?_, fun t ↦ ?_⟩
  · have hget := Varint32.getLengthPrefixedSlice_put (v := v) hdata []
    rw [List.append_nil] at hget
    rw [encodeSnapshotTo, hfiles, recordData, getFixed32_put]
    dsimp only
    rw [hget]
    rfl
  · refine shortens_nextFile.run_flatMap (fun r hr rest t ↦ ?_) (fun t ↦ ?_) t
    · rw [nextFile, Varint32.getLengthPrefixedSlice_put (hfile r hr)]
      rfl
    · have hnone : v.getLengthPrefixedSlice [] = none := by
        rw [Option.eq_none_iff_forall_ne_some]
        intro p hp
        exact absurd (Varint32.length_of_getLengthPrefixedSlice hp) (Nat.not_lt_zero _)
      rw [nextFile, hnone]

/-- A file is written once for each of its links. -/
theorem count_refs (hs : s.Encodable) (hn : s.files.lookup n = some r) :
    s.refs.count r = (s.heap r).linkfiles.length := by
  have hnames : ((s.files.entries.filter fun e ↦ e.2 == r).map (·.1)).Perm
      (s.heap r).linkfiles := by
    refine (List.perm_ext_iff_of_nodup ?_ (hs.nodup n r hn)).mpr fun m ↦ ?_
    · exact (List.filter_sublist.map _).nodup s.files.nodupKeys
    · rw [hs.links n r hn m, List.mem_map]
      constructor
      · rintro ⟨e, he, rfl⟩
        obtain ⟨hmem, hr⟩ := List.mem_filter.mp he
        rw [← eq_of_beq hr]
        exact AList.mem_lookup_iff.mpr hmem
      · intro hm
        exact ⟨⟨m, r⟩, List.mem_filter.mpr ⟨AList.mem_lookup_iff.mp hm, beq_self_eq_true r⟩, rfl⟩
  rw [← hnames.length_eq, List.length_map, Store.refs, List.count, List.countP_map,
    List.countP_eq_length_filter]
  rfl

/-- When all copies have been read, everything is there. -/
theorem Partly.restores (h : Partly s d s.refs.toFinset image t)
    (hids : ∀ r ∈ s.refs, (s.heap r).fileId + 1 < 2 ^ 64) : Restores s d t.toStore := by
  have hseen : ∀ {n r}, s.files.lookup n = some r → r ∈ s.refs.toFinset := fun hn ↦
    List.mem_toFinset.mpr (mem_refs.mpr ⟨_, hn⟩)
  have hlook : ∀ {n r}, s.files.lookup n = some r → t.files.lookup n = some (image r) := by
    intro n r hn
    rw [h.lookup, hn]
    exact if_pos (hseen hn)
  exact
    { names := by
        intro n
        rw [← AList.lookup_isSome, ← AList.lookup_isSome]
        cases hn : s.files.lookup n with
        | none => rw [h.lookup, hn]; rfl
        | some r => rw [hlook hn]; rfl
      groups := by
        intro n m r r' q q' hn hm hq hq'
        rw [hlook hn] at hq
        rw [hlook hm] at hq'
        cases hq
        cases hq'
        exact ⟨fun he ↦ h.injOn (hseen hn) (hseen hm) he, congrArg image⟩
      files := by
        intro n r q hn hq
        rw [hlook hn] at hq
        cases hq
        rw [h.heap r (hseen hn)]
        exact ⟨rfl, rfl, rfl, rfl, rfl, rfl, rfl, rfl⟩
      used := h.used
      nextFileId := by
        intro n r hn
        refine h.lt_nextFileId (fun q hq ↦ hids q (List.mem_toFinset.mp hq)) r (hseen hn) }

/-- When a snapshot is read back as it was written. -/
theorem roundTrips_iff {dynamic : Bool} {labels : ZoneId → ZoneLabel} (hs : s.Encodable)
    (hlen : (encodeSnapshotTo v s).length < 2 ^ 32) (hd : d.getIOZone = s.zbd.getIOZone) :
    RoundTrips v s d dynamic labels ↔ Restorable s dynamic := by
  obtain ⟨hfile, data, hdata, hdec⟩ := recordData_encodeSnapshotTo hlen
  have hrefs : ∀ r ∈ s.refs,
      (∃ n, s.files.lookup n = some r) ∧ (encodeTo v (s.heap r) 0).length < 2 ^ 32 := fun r hr ↦
    ⟨mem_refs.mp hr, hfile r hr⟩
  have hempty : Partly s d ∅ id (LevelStore.empty d dynamic labels) := partly_empty hd
  obtain ⟨hpartly, hok⟩ := hempty.copies hs hrefs
  rw [Finset.empty_union] at hpartly
  have hsingle : Single s dynamic ∅ s.refs ↔ ∀ n r, s.files.lookup n = some r → dynamic = true →
      2 ≤ (s.heap r).linkfiles.length → (s.heap r).extents = [] := by
    constructor
    · intro h n r hn hdyn hmany
      refine h hdyn r (mem_refs.mpr ⟨n, hn⟩) (.inr ?_)
      rwa [count_refs hs hn]
    · intro h hdyn r hr hmany
      obtain ⟨n, hn⟩ := mem_refs.mp hr
      rw [count_refs hs hn] at hmany
      exact h n r hn hdyn (hmany.resolve_left (Finset.notMem_empty r))
  constructor
  · rintro ⟨data', t, hdata', ht, hrest⟩
    rw [hdata, Option.some.injEq, Prod.mk.injEq] at hdata'
    rw [← hdata'.2, hdec] at ht
    obtain ⟨image, h⟩ := hpartly t ht
    intro n r hn
    refine ⟨?_, hsingle.mp (hok.mp ⟨t, ht⟩) n r hn⟩
    have hlt := hrest.nextFileId n r hn
    have hbound := h.bounded
    omega
  · intro h
    obtain ⟨t, ht⟩ := hok.mpr (hsingle.mpr fun n r hn ↦ (h n r hn).2)
    obtain ⟨image, hp⟩ := hpartly t ht
    refine ⟨data, t, hdata, by rw [hdec, ht], hp.restores fun r hr ↦ ?_⟩
    obtain ⟨n, hn⟩ := mem_refs.mp hr
    exact (h n r hn).1

/-- What is decoded from the bytes of a snapshot is what is decoded from its records. -/
theorem decodeSnapshotFrom_toStore {dynamic : Bool} {labels : ZoneId → ZoneLabel} {data : List Byte}
    (hs : s.Encodable) (hlen : (encodeSnapshotTo v s).length < 2 ^ 32)
    (hd : d.getIOZone = s.zbd.getIOZone) (hids : ∀ r ∈ s.refs, (s.heap r).fileId + 1 < 2 ^ 64)
    (hdata : recordData v (encodeSnapshotTo v s) = some (kCompleteFilesSnapshot, data))
    (ht : decodeSnapshotFrom v data (LevelStore.empty d dynamic labels) = .ok t) :
    (Store.init d).decodeSnapshotFrom (s.files.entries.map fun e ↦ (s.heap e.2).encodeSnapshotTo) =
      .ok t.toStore := by
  obtain ⟨hfile, data', hdata', hdec⟩ := recordData_encodeSnapshotTo hlen
  rw [hdata, Option.some.injEq, Prod.mk.injEq] at hdata'
  rw [hdata'.2, hdec] at ht
  have hempty : Partly s d ∅ id (LevelStore.empty d dynamic labels) := partly_empty hd
  have hstore := hempty.copies_toStore hs (fun r hr ↦ ⟨mem_refs.mp hr, hfile r hr⟩) hids ht
  rwa [Store.refs, List.map_map] at hstore

end Step

end Codec

end ZenFs
