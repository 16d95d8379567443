import ZenFs.Fs.Space
import ZenFs.Fs.Tick
import ZenFs.Meta.Crash

/-!
# Replacing the extents of a file

`MigrateFileExtents` charges the target zones while it copies the extents, and
`SyncFileExtents` then replaces the list, persists the file, and gives back the
space of the old extents.  When the file cannot be persisted it returns in the
middle: the new list stays, the old zones stay charged, and the log holds the
old list.  This file says after which migrations that does no harm.
-/

namespace ZenFs

/-! ## The log behind a write that failed -/

/-- Blocks behind a log that add no record to it: nothing, an end record, or a part of
a frame, which may have an end record behind it. -/
def NoRecord (G : Geometry) (t : List Frag) : Prop :=
  t = [] ∨ (∃ u, t = G.frame .endRecord ++ u) ∨
    ∃ r k u, k < G.physBlocks r ∧ (u = [] ∨ u = G.frame .endRecord) ∧ t = (G.frame r).take k ++ u

/-- The records of a zone are read, whatever the part of a frame behind them. -/
theorem MediaZone.Ok.reads_of_noRecord {G : Geometry} {z : MediaZone} {sb : Superblock}
    {rs : List Record} {t : List Frag} (hz : z.Ok G)
    (hb : z.blocks = G.frames (.superblock sb :: rs) ++ t) (ht : NoRecord G t)
    (hne : ∀ r ∈ rs, r ≠ .endRecord) :
    ∃ e, Reads G z (z.reportedWp G) (G.physBlocks (.superblock sb)) rs e := by
  have hclean : (t = [] ∨ ∃ u, t = G.frame .endRecord ++ u) →
      ∃ e, Reads G z (z.reportedWp G) (G.physBlocks (.superblock sb)) rs e := by
    intro h
    obtain ⟨e, he, -⟩ := hz.reads hb h hne
    exact ⟨e, he⟩
  rcases ht with ht | ht | ⟨r, k, u, hk, hu, ht⟩
  · exact hclean (.inl ht)
  · exact hclean (.inr ht)
  · rcases Nat.eq_zero_or_pos k with rfl | hk0
    · rw [List.take_zero, List.nil_append] at ht
      rcases hu with rfl | rfl
      · exact hclean (.inl ht)
      · exact hclean (.inr ⟨[], by simp [ht]⟩)
    -- an end record has one block, so the part of a frame is not of one
    have hu' : ∀ b ∈ u.head?, b.record ≠ r := by
      rcases hu with rfl | rfl
      · simp
      · obtain ⟨v, hv⟩ := G.frame_eq_cons .endRecord
        rw [hv]
        rintro b hb rfl
        obtain rfl := Option.mem_some_iff.mp hb
        rw [Geometry.physBlocks_endRecord] at hk
        omega
    have hl := hz.length_le
    have hn := congrArg List.length hb
    have hle := hz.length_le_reportedWp
    have htl : k ≤ t.length := by
      rw [ht, List.length_append, List.length_take, Geometry.length_frame]
      omega
    simp only [Geometry.frames_cons, List.length_append, Geometry.length_frame] at hn
    have hdrop : z.blocks.drop (G.physBlocks (.superblock sb)) = G.frames rs ++ t := by
      rw [hb, Geometry.frames_cons, List.append_assoc,
        List.drop_append_of_le_length (by simp), List.drop_of_length_le (by simp), List.nil_append]
    have hend : z.blocks.drop (G.physBlocks (.superblock sb) + (G.frames rs).length) = t := by
      rw [← List.drop_drop, hdrop, List.drop_append_of_le_length (Nat.le_refl _),
        List.drop_of_length_le (Nat.le_refl _), List.nil_append]
    obtain ⟨v, hv⟩ := G.frame_eq_cons r
    have hget : z.blocks[G.physBlocks (.superblock sb) + (G.frames rs).length]? = some ⟨r, 0⟩ := by
      have h0 : t[0]? = some ⟨r, 0⟩ := by
        rw [ht, List.getElem?_append_left (by simp; omega), hv, List.getElem?_take_of_lt hk0]
        rfl
      rw [← hend, List.getElem?_drop] at h0
      simpa using h0
    have hwp : G.physBlocks (.superblock sb) + (G.frames rs).length < z.reportedWp G := by omega
    obtain ⟨e, he⟩ := readRecord_torn hget (by
      rw [hend, ht]
      exact take_frame_ne hk hu') hwp
    refine ⟨some e, ?_⟩
    have hr : Reads G z (z.reportedWp G) (G.physBlocks (.superblock sb) + (G.frames rs).length) []
        (some e) := .bad he
    simpa using Reads.of_frames hne hdrop (by omega) (by omega) hr

namespace MetaState

variable {G : Geometry} {m : MetaState}

theorem addRecord_media_of_ne {i j : Nat} {r : Record} (res : WriteRes) (h : j ≠ i) :
    (m.addRecord G i r res).1.media j = m.media j := by
  unfold addRecord append
  split
  · rfl
  · cases res with
    | written => simp [Cmd.apply, h]
    | failedAfter n => simp [Cmd.apply, h]

/-- A record that is not acknowledged is not there in full. -/
theorem addRecord_blocks {i : Nat} {r : Record} {res : WriteRes}
    (hs : (m.addRecord G i r res).2 ≠ .ok) :
    ∃ k < G.physBlocks r, ((m.addRecord G i r res).1.media i).blocks =
      (m.media i).blocks ++ (G.frame r).take k := by
  have hp := G.physBlocks_pos r
  unfold addRecord append at hs ⊢
  split
  · exact ⟨0, hp, by simp⟩
  · rename_i hc
    rw [if_neg hc] at hs
    cases res with
    | written => exact absurd rfl hs
    | failedAfter n =>
        refine ⟨min n (G.physBlocks r - 1), by omega, ?_⟩
        simp [Cmd.apply]

/-- The old zone of a roll gets an end record or nothing. -/
theorem closeOldZone_blocks (old : Nat) (res : WriteRes) :
    ∃ t, (t = [] ∨ t = G.frame .endRecord) ∧
      ((m.closeOldZone G old res).media old).blocks = (m.media old).blocks ++ t := by
  have hadd : ∃ t, (t = [] ∨ t = G.frame .endRecord) ∧
      ((m.addRecord G old .endRecord res).1.media old).blocks = (m.media old).blocks ++ t := by
    by_cases hs : (m.addRecord G old .endRecord res).2 = .ok
    · refine ⟨_, .inr rfl, ?_⟩
      unfold addRecord append at hs ⊢
      split
      · simp_all
      · cases res with
        | written => simp [Cmd.apply]
        | failedAfter n => simp_all
    · obtain ⟨k, hk, hb⟩ := addRecord_blocks hs
      rw [Geometry.physBlocks_endRecord, Nat.lt_one_iff] at hk
      subst hk
      exact ⟨[], .inl rfl, by simpa using hb⟩
  unfold closeOldZone
  by_cases hc : 0 < (m.zones old).capacity
  · obtain ⟨t, ht, hb⟩ := hadd
    refine ⟨t, ht, ?_⟩
    simp only [hc, if_true]
    split
    · simpa [Cmd.apply] using hb
    · exact hb
  · exact ⟨[], .inl rfl, by simp [hc]⟩

/-- The zone of the old log behind a roll that failed. -/
theorem Ok.roll_failed_zone (h : m.Ok G) {snapshot : Record} {io : RollIo}
    (hs : (m.rollMetaZoneLocked G snapshot io).2 ≠ .ok) :
    (((m.rollMetaZoneLocked G snapshot io).1.media m.metaLog).Ok G) ∧
      ∃ t, (t = [] ∨ t = G.frame .endRecord) ∧
        ((m.rollMetaZoneLocked G snapshot io).1.media m.metaLog).blocks =
          (m.media m.metaLog).blocks ++ t := by
  obtain ⟨new, hf, hn, ho⟩ := h.freeMetaZone
  have hr := h.beginRoll hn ho io.endRecord
  have hzone : ((m.beginRoll G new io.endRecord).media m.metaLog).Ok G ∧
      ∃ t, (t = [] ∨ t = G.frame .endRecord) ∧
        ((m.beginRoll G new io.endRecord).media m.metaLog).blocks =
          (m.media m.metaLog).blocks ++ t := by
    refine ⟨(hr.zonesOk m.metaLog (hr.nr_eq ▸ h.metaLog_lt)).toOk, ?_⟩
    obtain ⟨t, ht, hb⟩ := closeOldZone_blocks (G := G)
      (m := { m.allocateMetaZone new with metaLog := new }) m.metaLog io.endRecord
    refine ⟨t, ht, hb.trans ?_⟩
    have hm : (m.allocateMetaZone new).media m.metaLog = m.media m.metaLog := by
      unfold allocateMetaZone
      split
      · rfl
      · simp [Cmd.apply, ho.symm]
    exact congrArg (fun z : MediaZone ↦ z.blocks ++ t) hm
  -- the superblock and the snapshot go to the new zone
  have hsame : (m.rollMetaZoneLocked G snapshot io).1.media m.metaLog =
      (m.beginRoll G new io.endRecord).media m.metaLog := by
    unfold rollMetaZoneLocked at hs ⊢
    rw [hf] at hs ⊢
    dsimp only at hs ⊢
    split
    · rename_i m₁ h₁
      rw [h₁] at hs
      have hm₁ : m₁.media m.metaLog = (m.beginRoll G new io.endRecord).media m.metaLog := by
        simpa [h₁] using addRecord_media_of_ne (G := G) (m := m.beginRoll G new io.endRecord)
          (r := m.superblock.encodeTo.2) io.superblock ho.symm
      dsimp only at hs ⊢
      split
      · rename_i m₂ h₂
        rw [h₂] at hs
        exact absurd rfl hs
      · rename_i m₂ s _ h₂
        have hm₂ : m₂.media m.metaLog = m₁.media m.metaLog := by
          simpa [h₂] using addRecord_media_of_ne (G := G) (m := m₁) (r := snapshot)
            io.snapshot ho.symm
        exact hm₂.trans hm₁
    · rename_i m₁ s _ h₁
      simpa [h₁] using addRecord_media_of_ne (G := G) (m := m.beginRoll G new io.endRecord)
        (r := m.superblock.encodeTo.2) io.superblock ho.symm
  rw [hsame]
  exact hzone

/-- After a `PersistRecord` that failed the zone of the log holds the records it held. -/
theorem Ok.reads_of_persist_failed (h : m.Ok G) {sb : Superblock} {rs : List Record} {t : List Frag}
    (hl : HasLog G (m.media m.metaLog) sb rs t) {r snapshot : Record} {res : WriteRes} {io : RollIo}
    (hs : (m.persistRecord G r snapshot res io).2 ≠ .ok) :
    ∃ e, Reads G ((m.persistRecord G r snapshot res io).1.media m.metaLog)
      (((m.persistRecord G r snapshot res io).1.media m.metaLog).reportedWp G)
      (G.physBlocks (.superblock sb)) rs e := by
  have hz := h.zonesOk m.metaLog h.metaLog_lt
  by_cases hc : (m.zones m.metaLog).capacity < G.physBlocks r
  · -- the log is full
    rw [persistRecord_noSpace hc] at hs ⊢
    obtain ⟨hok, u, hu, hb⟩ := h.roll_failed_zone hs
    refine hok.reads_of_noRecord (t := t ++ u) (by rw [hb, hl.blocks, List.append_assoc])
      ?_ hl.noEnd
    rcases hl.tail with rfl | ⟨v, rfl⟩
    · rcases hu with rfl | rfl
      · exact .inl rfl
      · exact .inr (.inl ⟨[], by simp⟩)
    · exact .inr (.inl ⟨v ++ u, List.append_assoc ..⟩)
  · have hc' : G.physBlocks r ≤ (m.zones m.metaLog).capacity := by omega
    cases res with
    | written =>
        rw [persistRecord_written hc'] at hs
        exact absurd rfl hs
    | failedAfter n =>
        have hp := G.physBlocks_pos r
        have hk : min n (G.physBlocks r - 1) < G.physBlocks r := by omega
        generalize hpart : (G.frame r).take (min n (G.physBlocks r - 1)) = part
        have hlen : part.length ≤ (m.zones m.metaLog).capacity := by
          rw [← hpart, List.length_take, Geometry.length_frame]
          omega
        have hok := h.wrote hlen
        have hblocks : ((m.wrote m.metaLog part).media m.metaLog).blocks =
            (m.media m.metaLog).blocks ++ part := by
          simp [Cmd.apply]
        have hno : ∀ u, (u = [] ∨ u = G.frame .endRecord) → NoRecord G (t ++ (part ++ u)) := by
          intro u hu
          rcases hl.tail with rfl | ⟨v, rfl⟩
          · exact .inr (.inr ⟨r, _, u, hk, hu, by rw [hpart, List.nil_append]⟩)
          · exact .inr (.inl ⟨_, List.append_assoc ..⟩)
        rw [persistRecord, addRecord_failedAfter hc', hpart] at hs ⊢
        dsimp only at hs ⊢
        split
        · -- the failure counts as a full log
          rename_i hsame
          rw [if_pos hsame] at hs
          obtain ⟨hz', u, hu, hb⟩ := hok.roll_failed_zone hs
          refine hz'.reads_of_noRecord (t := t ++ (part ++ u)) ?_ (hno u hu) hl.noEnd
          rw [wrote_metaLog] at hb
          rw [hb, hblocks, hl.blocks, List.append_assoc, List.append_assoc]
        · have hz' := (hok.zonesOk m.metaLog hok.metaLog_lt).toOk
          refine hz'.reads_of_noRecord (t := t ++ (part ++ [])) ?_ (hno [] (.inl rfl)) hl.noEnd
          rw [List.append_nil, ← List.append_assoc, ← hl.blocks]
          exact hblocks

end MetaState

/-- Replaying the records of a zone behind the superblock gives the file these extents. -/
def LogGives (G : Geometry) (z : MediaZone) (sb : Superblock) (s : Store) (fileId : Nat)
    (extents : List ZoneExtent) : Prop :=
  ∃ rs e s' r, Reads G z (z.reportedWp G) (G.physBlocks (.superblock sb)) rs e ∧
    replay rs none false s = .ok s' ∧ s'.findId fileId = some r ∧ (s'.heap r).extents = extents

/-- It gives one list of extents. -/
theorem LogGives.unique {G : Geometry} {z : MediaZone} {sb : Superblock} {s : Store} {fileId : Nat}
    {es es' : List ZoneExtent} (h : LogGives G z sb s fileId es)
    (h' : LogGives G z sb s fileId es') : es = es' := by
  obtain ⟨rs, e, s₁, r, hr, hs, hf, rfl⟩ := h
  obtain ⟨rs', e', s₁', r', hr', hs', hf', rfl⟩ := h'
  obtain ⟨rfl, -⟩ := hr.unique hr'
  obtain rfl : s₁ = s₁' := by simpa using hs.symm.trans hs'
  obtain rfl : r = r' := by simpa using hf.symm.trans hf'
  rfl

/-- A `PersistRecord` that failed leaves what the log gives. -/
theorem LogGives.persist_failed {G : Geometry} {m : MetaState} {s : Store} {fileId : Nat}
    {es : List ZoneExtent} {sb : Superblock} {rs : List Record} {t : List Frag} (hm : m.Ok G)
    (hl : HasLog G (m.media m.metaLog) sb rs t) {r snapshot : Record} {res : WriteRes} {io : RollIo}
    (hs : (m.persistRecord G r snapshot res io).2 ≠ .ok)
    (h : LogGives G (m.media m.metaLog) sb s fileId es) :
    LogGives G ((m.persistRecord G r snapshot res io).1.media m.metaLog) sb s fileId es := by
  obtain ⟨rs', e', s', r', hr', hs', hf, he⟩ := h
  obtain ⟨e₀, hr₀, -⟩ := hl.reads (hm.zonesOk m.metaLog hm.metaLog_lt).toOk
  obtain ⟨rfl, -⟩ := hr'.unique hr₀
  obtain ⟨e, hr⟩ := hm.reads_of_persist_failed hl hs
  exact ⟨_, e, s', r', hr, hs', hf, he⟩

namespace Fs

variable (G : Geometry)

/-! ## The calls -/

variable {G} in
/-- When the replacement fails the list has been replaced, and nothing else but the log
has changed. -/
theorem syncFileExtents_failed {fs : Fs} {r : Ref} {new_extents : List ZoneExtent}
    (hs : (fs.syncFileExtents G r new_extents).2 ≠ .ok) :
    ∃ rec snapshot res io, (fs.log.persistRecord G rec snapshot res io).2 ≠ .ok ∧
      (fs.syncFileExtents G r new_extents).1.toStore =
        fs.toStore.setFile r { fs.heap r with extents := new_extents }.metadataUnsynced ∧
      (fs.syncFileExtents G r new_extents).1.log =
        (fs.log.persistRecord G rec snapshot res io).1 := by
  unfold syncFileExtents at hs ⊢
  dsimp only at hs ⊢
  generalize hfs' : fs.setFile r { fs.heap r with extents := new_extents }.metadataUnsynced =
    fs' at hs ⊢
  have hne : (fs'.syncFileMetadataNoLock G r true).2 ≠ .ok := by
    intro h
    rw [andThen_ok h] at hs
    exact hs rfl
  rw [andThen_of_ne hne]
  unfold syncFileMetadataNoLock at hne ⊢
  split
  · rename_i hd
    rw [if_pos hd] at hne
    exact absurd rfl hne
  rename_i hd
  rw [if_neg hd] at hne
  simp only [if_true] at hne ⊢
  generalize (.fileReplace (fs'.heap r).encodeUpdateTo : Record) = rec at hne ⊢
  have hne' : (fs'.persistRecord G rec).2 ≠ .ok := by
    intro h
    rw [andThen_ok h] at hne
    exact hne rfl
  rw [andThen_of_ne hne']
  obtain ⟨log, s, hp, hst, ⟨rfl, -⟩ | ⟨hs', h₁⟩⟩ := fs'.persistRecord_cases (G := G) rec
  · exact absurd hst hne'
  · refine ⟨rec, fs'.encodeSnapshotTo, (fs'.env.metas.headD {}).record,
      (fs'.env.metas.headD {}).roll, ?_⟩
    have hlog : fs'.log = fs.log := by
      rw [← hfs']
      rfl
    rw [← hlog, hp, h₁]
    refine ⟨hs', ?_, rfl⟩
    rw [← hfs']
    rfl

/-! ## What a migration charges -/

/-- Two states have the same files, the same space counters and the same log. -/
structure SameBooks (fs fs' : Fs) : Prop where
  heap : fs'.heap = fs.heap
  live : fs'.live = fs.live
  log : fs'.log = fs.log
  used : ∀ i, fs'.zbd.used i = fs.zbd.used i

namespace SameBooks

variable {fs fs₁ fs₂ : Fs}

theorem refl (fs : Fs) : SameBooks fs fs := ⟨rfl, rfl, rfl, fun _ ↦ rfl⟩

theorem trans (h₁ : SameBooks fs fs₁) (h₂ : SameBooks fs₁ fs₂) : SameBooks fs fs₂ :=
  ⟨h₂.heap.trans h₁.heap, h₂.live.trans h₁.live, h₂.log.trans h₁.log,
    fun i ↦ (h₂.used i).trans (h₁.used i)⟩

theorem zbd {d : Zbd} (h : ∀ i, d.used i = fs.zbd.used i) : SameBooks fs { fs with zbd := d } :=
  ⟨rfl, rfl, rfl, h⟩

theorem setBusy_used (d : Zbd) {i : ZoneId} {b : Bool} (j : ZoneId) :
    (d.setBusy i b).used j = d.used j := by
  by_cases hj : j = i <;> simp [Zbd.used, Zbd.setBusy, Zbd.setZone, hj]

theorem setBusy (i : ZoneId) (b : Bool) : SameBooks fs { fs with zbd := fs.zbd.setBusy i b } :=
  .zbd (setBusy_used fs.zbd)

theorem finishZones (is : List ZoneId) : SameBooks fs (fs.finishZones is) := by
  induction is generalizing fs with
  | nil => exact refl fs
  | cons i is ih =>
      refine trans ?_ ih
      dsimp only
      split
      · refine ⟨rfl, rfl, rfl, fun j ↦ ?_⟩
        by_cases hj : j = i <;> simp [note, Zbd.used, Zbd.finish, Zbd.setZone, hj]
      · exact refl fs

theorem allocateIOZoneNoLock : SameBooks fs fs.allocateIOZoneNoLock.1 := by
  have henv : ∀ env, SameBooks fs { fs with env := env } := fun _ ↦ ⟨rfl, rfl, rfl, fun _ ↦ rfl⟩
  obtain ⟨ps, is, h | ⟨i, fs₁, h₁, -, h⟩⟩ := fs.allocateIOZoneNoLock_cases
  · rw [h]
    exact (henv _).trans (finishZones is)
  · rw [h]
    have hf : SameBooks fs fs₁ := by
      rw [h₁]
      exact (henv _).trans (finishZones is)
    exact hf.trans (setBusy i true)

theorem copied {target : ZoneId} {fileId : Nat} (h : Copied target fileId fs fs₁) :
    SameBooks fs fs₁ := by
  obtain ⟨env, evs, -, -, rfl⟩ := h.eq
  refine ⟨rfl, rfl, rfl, fun i ↦ ?_⟩
  simp only [Zbd.used, Zbd.appended_zones]
  split <;> simp_all

end SameBooks

/-- `TakeMigrateZone` gives a zone to an extent that is to be migrated. -/
def redirects (fs : Fs) (migrate_exts : List (Nat × Nat)) (ext : ZoneExtent) : Bool :=
  migrate_exts.contains (ext.start, ext.length) && fs.allocateIOZoneNoLock.2.isSome

/-- The extents that `MigrateFileExtents` redirects to another zone. -/
def redirected (r : Ref) (migrate_exts : List (Nat × Nat)) : List ZoneExtent → Fs → List ZoneExtent
  | [], _ => []
  | ext :: exts, fs =>
      (if fs.redirects migrate_exts ext then [ext] else []) ++
        redirected r migrate_exts exts (fs.migrateExtent r migrate_exts ext).1

/-- One extent: the target zone is charged with it. -/
theorem migrateExtent_books (fs : Fs) (r : Ref) (migrate_exts : List (Nat × Nat))
    (ext : ZoneExtent) : if fs.redirects migrate_exts ext then
      ∃ fs₁ start target, SameBooks fs fs₁ ∧
        SameBooks { fs₁ with zbd := fs₁.zbd.addUsed target ext.length }
          (fs.migrateExtent r migrate_exts ext).1 ∧
        (fs.migrateExtent r migrate_exts ext).2 = ⟨start, ext.length, target⟩
    else SameBooks fs (fs.migrateExtent r migrate_exts ext).1 ∧
      (fs.migrateExtent r migrate_exts ext).2 = ext := by
  have ha : SameBooks fs fs.allocateIOZoneNoLock.1 := .allocateIOZoneNoLock
  unfold migrateExtent redirects
  by_cases hm : (ext.start, ext.length) ∈ migrate_exts
  · rw [if_pos hm]
    rcases hx : fs.allocateIOZoneNoLock with ⟨fs₁, _ | target⟩
    · rw [hx] at ha
      simpa using ha
    · rw [hx] at ha
      simp only [List.contains_iff_mem.mpr hm, Bool.true_and, Option.isSome_some, if_true]
      refine ⟨_, _, _, ha.trans (.copied (fs₁.migrateCopy_copied r ext target)), ?_, rfl⟩
      have hrel : SameBooks { fs₁.migrateCopy r ext target with
            zbd := (fs₁.migrateCopy r ext target).zbd.addUsed target ext.length }
          (((fs₁.migrateCopy r ext target).addUsed target ext.length).releaseZone target) :=
        ⟨rfl, rfl, rfl, fun i ↦ SameBooks.setBusy_used _ i⟩
      split
      · exact ⟨hrel.heap, hrel.live, hrel.log, hrel.used⟩
      · exact hrel
  · simp [hm, SameBooks.refl]

/-- All extents: the counters follow the new list, but still hold what has been
redirected. -/
theorem migrateAll_books (r : Ref) (migrate_exts : List (Nat × Nat)) (exts : List ZoneExtent)
    (fs : Fs) : let (fs', exts') := migrateAll r migrate_exts exts fs
    fs'.heap = fs.heap ∧ fs'.live = fs.live ∧ fs'.log = fs.log ∧
      (∀ i, fs'.zbd.used i + spaceIn i exts =
        fs.zbd.used i + spaceIn i exts' + spaceIn i (redirected r migrate_exts exts fs)) ∧
      (redirected r migrate_exts exts fs = [] → exts' = exts) := by
  induction exts generalizing fs with
  | nil => exact ⟨rfl, rfl, rfl, fun _ ↦ rfl, fun _ ↦ rfl⟩
  | cons ext exts ih =>
      obtain ⟨hheap, hlive, hlog, hused, hnil⟩ := ih (fs.migrateExtent r migrate_exts ext).1
      have hb := fs.migrateExtent_books r migrate_exts ext
      simp only [migrateAll, redirected, spaceIn_cons, spaceIn_append]
      by_cases hr : fs.redirects migrate_exts ext = true
      · rw [if_pos hr] at hb
        obtain ⟨fs₁, start, target, h₁, h₂, hext⟩ := hb
        refine ⟨hheap.trans (h₂.heap.trans h₁.heap), hlive.trans (h₂.live.trans h₁.live),
          hlog.trans (h₂.log.trans h₁.log), fun i ↦ ?_, by simp [hr]⟩
        have hi := hused i
        have ht := h₂.used i
        rw [Zbd.addUsed_used, h₁.used] at ht
        rw [hext, if_pos hr]
        simp only [spaceIn_cons, spaceIn_nil]
        omega
      · rw [if_neg hr] at hb
        obtain ⟨h₁, hext⟩ := hb
        refine ⟨hheap.trans h₁.heap, hlive.trans h₁.live, hlog.trans h₁.log, fun i ↦ ?_, ?_⟩
        · have hi := hused i
          rw [h₁.used i] at hi
          rw [hext, if_neg hr, spaceIn_nil]
          omega
        · intro h
          rw [if_neg hr, List.nil_append] at h
          rw [hext, hnil h]

theorem redirected_sublist (r : Ref) (migrate_exts : List (Nat × Nat)) (exts : List ZoneExtent)
    (fs : Fs) : (redirected r migrate_exts exts fs).Sublist exts := by
  induction exts generalizing fs with
  | nil => exact .slnil
  | cons ext exts ih =>
      rw [redirected]
      split
      · exact (ih _).cons_cons ext
      · exact (ih _).cons ext

theorem spaceIn_redirected_le (r : Ref) (migrate_exts : List (Nat × Nat))
    (exts : List ZoneExtent) (fs : Fs)
    (i : ZoneId) : spaceIn i (redirected r migrate_exts exts fs) ≤ spaceIn i exts :=
  ((redirected_sublist r migrate_exts exts fs).map _).sum_le_sum fun _ _ ↦ Nat.zero_le _

/-! ## An allocator without zones -/

end Fs

namespace Zbd

/-- What `ApplyFinishThreshold` and `FinishCheapestIOZone` do to the zones. -/
def finishAll (d : Zbd) (is : List ZoneId) : Zbd :=
  is.foldl (fun d i ↦ if d.finishable i then d.finish i else d) d

/-- `AllocateIOZoneNoLock` is going to be called `n` times on these zones, and has no zone
each time: it picks none, or one that it cannot take. -/
def Denies : Nat → List Pick → Zbd → Prop
  | 0, _, _ => True
  | _ + 1, [], _ => True
  | n + 1, p :: ps, d =>
      (∀ i ∈ p.zone, (d.finishAll p.finished).stored.eligible i = false) ∧
        Denies n ps (d.finishAll p.finished)

instance Denies.decidable : (n : Nat) → (ps : List Pick) → (d : Zbd) → Decidable (Denies n ps d)
  | 0, _, _ => .isTrue trivial
  | _ + 1, [], _ => .isTrue trivial
  | n + 1, p :: ps, d =>
      have := Denies.decidable n ps (d.finishAll p.finished)
      inferInstanceAs (Decidable (_ ∧ _))

theorem denies_nil (n : Nat) (d : Zbd) : Denies n [] d := by
  cases n with
  | zero => trivial
  | succ n => trivial

end Zbd

namespace Fs

theorem finishZones_eq (fs : Fs) (is : List ZoneId) :
    (fs.finishZones is).zbd = fs.zbd.finishAll is ∧ (fs.finishZones is).env = fs.env := by
  induction is generalizing fs with
  | nil => exact ⟨rfl, rfl⟩
  | cons i is ih =>
      have hif : fs.finishZones (i :: is) = Fs.finishZones
          (if fs.zbd.finishable i then { fs with zbd := fs.zbd.finish i }.note (.finish i)
            else fs) is := rfl
      have hall : fs.zbd.finishAll (i :: is) =
          Zbd.finishAll (if fs.zbd.finishable i then fs.zbd.finish i else fs.zbd) is := rfl
      rw [hif, hall]
      split
      · exact ih _
      · exact ih fs

/-- One call of the allocator that has no zone. -/
theorem denies_succ_iff (fs : Fs) (n : Nat) :
    Zbd.Denies (n + 1) fs.env.picks fs.zbd ↔ fs.allocateIOZoneNoLock.2 = none ∧
      Zbd.Denies n fs.allocateIOZoneNoLock.1.env.picks fs.allocateIOZoneNoLock.1.zbd := by
  unfold allocateIOZoneNoLock
  split
  · rename_i hp
    rw [hp]
    exact ⟨fun _ ↦ ⟨rfl, Zbd.denies_nil n _⟩, fun _ ↦ trivial⟩
  · rename_i p ps hp
    rw [hp]
    obtain ⟨hz, he⟩ := finishZones_eq { fs with env := { fs.env with picks := ps } } p.finished
    dsimp only at hz he ⊢
    split
    · rename_i i hi
      by_cases hel : (fs.zbd.finishAll p.finished).stored.eligible i = true
      · simp [Zbd.Denies, hi, hz, hel]
      · simp [Zbd.Denies, hi, hz, he, hel]
    · rename_i hi
      simp [Zbd.Denies, hi, hz, he]

/-- The extents that `MigrateFileExtents` asks for a zone for. -/
def listed (migrate_exts : List (Nat × Nat)) (exts : List ZoneExtent) : List ZoneExtent :=
  exts.filter fun ext ↦ migrate_exts.contains (ext.start, ext.length)

/-- Nothing is redirected exactly if there is no zone for any listed extent. -/
theorem redirected_eq_nil_iff (r : Ref) (migrate_exts : List (Nat × Nat)) (exts : List ZoneExtent)
    (fs : Fs) : redirected r migrate_exts exts fs = [] ↔
      Zbd.Denies (listed migrate_exts exts).length fs.env.picks fs.zbd := by
  induction exts generalizing fs with
  | nil => exact ⟨fun _ ↦ trivial, fun _ ↦ rfl⟩
  | cons ext exts ih =>
      rw [redirected, List.append_eq_nil_iff, ih]
      by_cases hm : (ext.start, ext.length) ∈ migrate_exts
      · have hl : (listed migrate_exts (ext :: exts)).length =
            (listed migrate_exts exts).length + 1 := by
          simp [listed, hm]
        rw [hl]
        rw [denies_succ_iff]
        unfold redirects migrateExtent
        rw [if_pos hm, List.contains_iff_mem.mpr hm, Bool.true_and]
        rcases fs.allocateIOZoneNoLock with ⟨fs₁, _ | target⟩
        · simp
        · simp
      · have hl : listed migrate_exts (ext :: exts) = listed migrate_exts exts := by
          simp [listed, hm]
        rw [hl]
        simp [redirects, migrateExtent, hm]

/-! ## A replacement that failed -/

section Undone

variable {G}

/-- The counters count the extents of the live files, and the log in the given zone
gives the list that is in memory. -/
structure Undone (G : Geometry) (fs : Fs) (r : Ref) (log : Nat) (sb : Superblock) (s : Store) :
    Prop where
  used : ∀ i, (fs.zbd.stored.zones i).usedCapacity = ∑ r' ∈ fs.live, spaceIn i (fs.heap r').extents
  logged : LogGives G (fs.log.media log) sb s (fs.heap r).fileId (fs.heap r).extents

variable {fs fs₁ : Fs} {r : Ref} {migrate_exts : List (Nat × Nat)} {new_extents : List ZoneExtent}

/-- The sum over the live files when one of them gets another list. -/
theorem sum_spaceIn_setFile {s : Store} (hr : r ∈ s.live) (f : ZoneFile) (i : ZoneId) :
    ∑ r' ∈ s.live, spaceIn i ((s.setFile r f).heap r').extents + spaceIn i (s.heap r).extents =
      ∑ r' ∈ s.live, spaceIn i (s.heap r').extents + spaceIn i f.extents := by
  have hrest : ∑ r' ∈ s.live.erase r, spaceIn i ((s.setFile r f).heap r').extents =
      ∑ r' ∈ s.live.erase r, spaceIn i (s.heap r').extents := by
    refine Finset.sum_congr rfl fun r' hr' ↦ ?_
    simp [Store.setFile, Finset.ne_of_mem_erase hr']
  rw [← Finset.add_sum_erase _ _ hr, ← Finset.add_sum_erase _ _ hr, hrest]
  simp only [Store.setFile, Function.update_self]
  omega

/-- The counters are exact behind the failure if nothing has been redirected. -/
theorem used_of_failed_iff
    (hu : ∀ i, (fs.zbd.stored.zones i).usedCapacity =
      ∑ r' ∈ fs.live, spaceIn i (fs.heap r').extents)
    (hr : r ∈ fs.live) (hpos : ∀ ext ∈ (fs.heap r).extents, 0 < ext.length)
    (hm : migrateAll r migrate_exts (fs.heap r).extents fs = (fs₁, new_extents))
    (hf : (fs₁.syncFileExtents G r new_extents).2 ≠ .ok) :
    let fs₂ := (fs₁.syncFileExtents G r new_extents).1
    (∀ i, (fs₂.zbd.stored.zones i).usedCapacity =
      ∑ r' ∈ fs₂.live, spaceIn i (fs₂.heap r').extents) ↔
      redirected r migrate_exts (fs.heap r).extents fs = [] := by
  have hb := migrateAll_books r migrate_exts (fs.heap r).extents fs
  rw [hm] at hb
  obtain ⟨hheap, hlive, -, hused, hnil⟩ := hb
  obtain ⟨rec, snapshot, res, io, -, hst, -⟩ := syncFileExtents_failed hf
  simp only [hst]
  -- counter, sum and redirected extents of one zone
  have hi : ∀ i, fs₁.zbd.used i + ∑ r' ∈ fs.live, spaceIn i (fs.heap r').extents =
      ∑ r' ∈ fs₁.live, spaceIn i ((fs₁.toStore.setFile r
        { fs₁.heap r with extents := new_extents }.metadataUnsynced).heap r').extents +
      fs.zbd.used i + spaceIn i (redirected r migrate_exts (fs.heap r).extents fs) := by
    intro i
    have h₁ := sum_spaceIn_setFile (s := fs₁.toStore) (hlive ▸ hr)
      { fs₁.heap r with extents := new_extents }.metadataUnsynced i
    have h₂ := hused i
    rw [hheap, hlive] at h₁
    rw [hlive, hheap]
    simp only [ZoneFile.metadataUnsynced] at h₁ ⊢
    omega
  have hstored : ∀ {d : Zbd} {i : ZoneId}, (d.stored.zones i).usedCapacity = d.used i % 2 ^ 64 :=
    rfl
  simp only [hstored] at hu ⊢
  constructor
  · intro h
    by_contra hne
    obtain ⟨ext, hext⟩ := List.exists_mem_of_ne_nil _ hne
    have hle := length_le_spaceIn hext
    have hred := spaceIn_redirected_le r migrate_exts (fs.heap r).extents fs ext.zone
    have hsum : spaceIn ext.zone (fs.heap r).extents ≤ _ := Finset.single_le_sum
      (f := fun r' ↦ spaceIn ext.zone (fs.heap r').extents) (fun _ _ ↦ Nat.zero_le _) hr
    have hp := hpos ext ((redirected_sublist ..).subset hext)
    have hlt := Nat.mod_lt (fs.zbd.used ext.zone) (show 0 < 2 ^ 64 by decide)
    have h₀ := hu ext.zone
    have h₁ := h ext.zone
    have h₂ := hi ext.zone
    simp only [Store.setFile] at h₁ h₂
    -- what has been redirected is less than the counter can lose by overflowing
    omega
  · intro h i
    have h₀ := hu i
    have h₁ := hused i
    have h₂ := hi i
    rw [h, hnil h] at h₁
    rw [h, spaceIn_nil] at h₂
    simp only [Store.setFile] at h₂
    show fs₁.zbd.used i % 2 ^ 64 = _
    simp only [Store.setFile]
    rw [spaceIn_nil] at h₁
    omega

end Undone

/-! ### A file of one extent -/

/-- The device: the extent is at the start of the first of two zones. -/
def replaceZbd (used : Nat) : Zbd where
  blockSize := 4096
  zoneSize := 32768
  nrZones := 2
  zones := fun i ↦
    { (default : Zone) with
      start := i * 32768
      maxCapacity := 32768
      capacity := if i = 0 then 28672 else 32768
      wp := if i = 0 then 4096 else i * 32768
      usedCapacity := if i = 0 then used else 0 }
  mem := fun _ ↦ 0

/-- The file, which is being migrated. -/
def replaceFile : ZoneFile :=
  { (default : ZoneFile) with
    fileId := 1
    fileSize := 4096
    extents := [⟨0, 4096, 0⟩]
    linkfiles := ["a"]
    openForWr := true
    nrSyncedExtents := 1 }

/-- The metadata zones: the log is a snapshot with the file, which fills its zone. -/
def replaceMedia : Media := fun i ↦
  { maxCapacity := 3
    blocks :=
      if i = 0 then
        smallGeometry.frames [.superblock (mkfsSuperblock smallGeometry),
          .completeFilesSnapshot [replaceFile.encodeSnapshotTo]]
      else []
    finished := false }

/-- The filesystem.  The allocator is going to take the second zone, and the next roll is
going to fail in its snapshot. -/
def replaceFs : Fs where
  zbd := replaceZbd 4096
  files := Files.insertNew ∅ "a" 0
  heap := fun _ ↦ replaceFile
  live := {0}
  handles := fun _ ↦ [.localVar 0]
  nextRef := 1
  nextFileId := 2
  log := mountState smallGeometry replaceMedia 2 ⟨0, mkfsSuperblock smallGeometry, 1⟩
  writers := fun _ ↦ none
  readers := fun _ ↦ none
  bufferSize := 4096
  env :=
    { resets := fun _ ↦ .failed false
      picks := [{ zone := some 1 }]
      metas := [{ roll := { snapshot := .failedAfter 0 } }] }
  hist := []
  persisted := fun _ ↦ replaceFile.encodeSnapshotTo
  appended := fun _ ↦ []
  overflowed := false

/-- The same while another thread has the second zone. -/
def busyFs : Fs := { replaceFs with zbd := replaceFs.zbd.setBusy 1 true }

theorem replaceFs_used (i : ZoneId) : (replaceFs.zbd.stored.zones i).usedCapacity =
    ∑ r' ∈ replaceFs.live, spaceIn i (replaceFs.heap r').extents := by
  show (replaceZbd 4096).used i % 2 ^ 64 = ∑ r' ∈ {0}, spaceIn i replaceFile.extents
  rw [Finset.sum_singleton]
  by_cases hi : i = 0
  · simp [Zbd.used, replaceZbd, replaceFile, hi]
  · simp [Zbd.used, replaceZbd, replaceFile, hi, Ne.symm hi]

theorem busyFs_used (i : ZoneId) : (busyFs.zbd.stored.zones i).usedCapacity =
    ∑ r' ∈ busyFs.live, spaceIn i (busyFs.heap r').extents :=
  (congrArg (· % 2 ^ 64) (SameBooks.setBusy_used (replaceZbd 4096) i)).trans (replaceFs_used i)

theorem replaceFs_log : replaceFs.log.Ok smallGeometry :=
  .mountState (by decide) (by decide) fun i _ ↦ by
    by_cases hi : i = 0
    · subst hi
      exact ⟨by decide, by decide⟩
    · exact ⟨by simp [replaceMedia, hi], by simp [replaceMedia, smallGeometry]⟩

theorem replaceFs_hasLog : HasLog smallGeometry (replaceFs.log.media replaceFs.log.metaLog)
    (mkfsSuperblock smallGeometry) [.completeFilesSnapshot [replaceFile.encodeSnapshotTo]] [] where
  blocks := (List.append_nil _).symm
  tail := .inl rfl
  snapshot := ⟨_, _, rfl⟩
  noEnd := by simp
  compat := by decide

theorem replaceFs_logGives : LogGives smallGeometry (replaceFs.log.media replaceFs.log.metaLog)
    (mkfsSuperblock smallGeometry) (Store.init (replaceZbd 0)) 1 [⟨0, 4096, 0⟩] := by
  obtain ⟨e, he, -⟩ := replaceFs_hasLog.reads (replaceFs_log.zonesOk 0 (by decide)).toOk
  exact ⟨_, e, _, 0, he, rfl, rfl, rfl⟩

/-- What the migration of the extent hands to `SyncFileExtents`. -/
def migrated (fs : Fs) : Fs × List ZoneExtent := migrateAll 0 [(0, 4096)] (fs.heap 0).extents fs

theorem migrated_eq (fs : Fs) :
    migrateAll 0 [(0, 4096)] (fs.heap 0).extents fs = (fs.migrated.1, fs.migrated.2) := rfl

theorem replaceFs_fails :
    (syncFileExtents smallGeometry replaceFs.migrated.1 0 replaceFs.migrated.2).2 ≠ .ok := by
  decide +kernel

theorem busyFs_fails :
    (syncFileExtents smallGeometry busyFs.migrated.1 0 busyFs.migrated.2).2 ≠ .ok := by
  decide +kernel

end Fs

end ZenFs
