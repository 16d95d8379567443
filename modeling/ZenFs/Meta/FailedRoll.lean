import ZenFs.Meta.Crash

/-!
# After a failed roll

When a roll fails, `meta_log_` stays on the new zone and the old zone is
released.  The records acknowledged from then on go to a zone without a
snapshot, until another roll succeeds.  This module follows `PersistRecord`
from the failed roll on, and tells when a later `Mount` recovers the log of
everything that was acknowledged.
-/

namespace ZenFs

section

variable {G : Geometry} {m m' : MetaState} {frs : List FileRecord} {rs : List Record}
  {t : List Frag} {new : Nat} {fs gs : List Frag}

/-- A roll that has written `fs` to its new zone. -/
structure Writing (G : Geometry) (m : MetaState) (new : Nat) (m' : MetaState) (fs : List Frag) :
    Prop where
  nr_eq : m'.nr = m.nr
  metaLog_eq : m'.metaLog = new
  superblock_eq : m'.superblock = m.superblock.bump
  zonesOk : m'.ZonesOk G
  busy_iff : ∀ j < m.nr, (m'.zones j).busy = true ↔ j = m.metaLog ∨ j = new
  media_eq : m'.media = Function.update (m.beginRoll G new .written).media new
    (((m.beginRoll G new .written).media new).holding fs)
  capacity_eq : (m'.zones new).capacity = (m.media new).maxCapacity - fs.length
  length_le : fs.length ≤ (m.media new).maxCapacity

namespace Writing

theorem start (h : m.Ok G) (hn : new < m.nr) (ho : new ≠ m.metaLog) :
    Writing G m new (m.beginRoll G new .written) [] := by
  have hr := h.beginRoll hn ho .written
  exact
    { nr_eq := hr.nr_eq
      metaLog_eq := MetaState.beginRoll_metaLog _
      superblock_eq := MetaState.beginRoll_superblock _
      zonesOk := hr.zonesOk
      busy_iff := hr.busy_iff
      media_eq := by rw [← hr.blocks_new]; exact (Function.update_eq_self ..).symm
      capacity_eq := by simp [hr.capacity_new]
      length_le := by simp }

theorem wrote (h : Writing G m new m' fs)
    (hg : fs.length + gs.length ≤ (m.media new).maxCapacity) :
    Writing G m new (m'.wrote new gs) (fs ++ gs) where
  nr_eq := h.nr_eq
  metaLog_eq := h.metaLog_eq
  superblock_eq := h.superblock_eq
  zonesOk := h.zonesOk.wrote (by rw [h.capacity_eq]; omega)
  busy_iff := fun j hj ↦ by
    rw [← h.busy_iff j hj]
    by_cases hjn : j = new <;> simp [MetaState.wrote, hjn]
  media_eq := by simp [Cmd.apply, h.media_eq, MediaZone.holding]
  capacity_eq := by simp [MetaState.wrote, h.capacity_eq, Nat.sub_sub]
  length_le := by simpa using hg

/-- The old zone is released, and the new one stays the zone of the log. -/
theorem release (h : Writing G m new m' fs) (hm : m.Ok G) (hn : new < m.nr) (ho : new ≠ m.metaLog) :
    (m'.release m.metaLog).Ok G where
  nr_le := by rw [MetaState.release_nr, h.nr_eq]; exact hm.nr_le
  zonesOk := h.zonesOk.setBusy false
  metaLog_lt := by rwa [MetaState.release_metaLog, h.metaLog_eq, MetaState.release_nr, h.nr_eq]
  busy_iff := fun j hj ↦ by
    rw [MetaState.release_nr, h.nr_eq] at hj
    rw [MetaState.release_metaLog, h.metaLog_eq]
    by_cases hjo : j = m.metaLog
    · subst hjo
      simp [MetaState.release, ho.symm]
    · simp [MetaState.release, hjo, h.busy_iff j hj]

end Writing

/-- The number of blocks of the new log that a roll writes before it fails. -/
def failedBlocks (G : Geometry) (m : MetaState) (frs : List FileRecord) (new : Nat) (io : RollIo) :
    Nat :=
  if (m.media new).maxCapacity < sbBlocks G m then 0
  else match io.superblock with
    | .failedAfter k => min k (sbBlocks G m - 1)
    | .written =>
        if (m.media new).maxCapacity < (newLog G m frs).length then sbBlocks G m
        else match io.snapshot with
          | .failedAfter k => sbBlocks G m + min k (G.physBlocks (.completeFilesSnapshot frs) - 1)
          | .written => (newLog G m frs).length

/-- The state a failed roll leaves behind. -/
structure Failed (G : Geometry) (m : MetaState) (frs : List FileRecord) (new n : Nat)
    (m' : MetaState) : Prop where
  ok : m'.Ok G
  nr_eq : m'.nr = m.nr
  metaLog_eq : m'.metaLog = new
  superblock_eq : m'.superblock = m.superblock.bump
  media_eq : m'.media = rollImage G m frs (m.beginRoll G new .written).media new n
  le_cap : n ≤ (m.media new).maxCapacity
  lt_length : n < (newLog G m frs).length

theorem Writing.failed {n : Nat} (h : Writing G m new m' fs) (hm : m.Ok G) (hn : new < m.nr)
    (ho : new ≠ m.metaLog) (hfs : fs = (newLog G m frs).take n)
    (hlt : n < (newLog G m frs).length) : Failed G m frs new n (m'.release m.metaLog) where
  ok := h.release hm hn ho
  nr_eq := h.nr_eq
  metaLog_eq := h.metaLog_eq
  superblock_eq := h.superblock_eq
  media_eq := by rw [MetaState.release_media, h.media_eq, hfs, rollImage]
  le_cap := by
    have := h.length_le
    rwa [hfs, List.length_take, Nat.min_eq_left hlt.le] at this
  lt_length := hlt

theorem length_newLog (G : Geometry) (m : MetaState) (frs : List FileRecord) :
    (newLog G m frs).length = sbBlocks G m + G.physBlocks (.completeFilesSnapshot frs) := by
  simp [newLog]

/-- A roll that fails in the superblock or in the snapshot. -/
theorem MetaState.Ok.failedRoll {io : RollIo} {st : Status} (h : m.Ok G)
    (hf : m.freeMetaZone = some new) (hn : new < m.nr) (ho : new ≠ m.metaLog)
    (he : io.endRecord = .written)
    (hroll : m.rollMetaZoneLocked G (.completeFilesSnapshot frs) io = (m', st)) (hst : st ≠ .ok) :
    Failed G m frs new (failedBlocks G m frs new io) m' := by
  have hstart := Writing.start h hn ho
  have hp := G.physBlocks_pos (.superblock m.superblock.bump)
  have hps : sbBlocks G m = G.physBlocks (.superblock m.superblock.bump) := rfl
  have hq := G.physBlocks_pos (.completeFilesSnapshot frs)
  have hlen := length_newLog G m frs
  have hsb : (newLog G m frs).take (sbBlocks G m) = G.frame (.superblock m.superblock.bump) := by
    rw [newLog, List.take_append_of_le_length (by simp), List.take_of_length_le (by simp)]
  have hcap : ((m.beginRoll G new .written).zones new).capacity = (m.media new).maxCapacity := by
    simpa using hstart.capacity_eq
  simp only [MetaState.rollMetaZoneLocked, hf, he, Superblock.encodeTo] at hroll
  unfold failedBlocks
  by_cases h1 : (m.media new).maxCapacity < sbBlocks G m
  · -- the superblock does not fit
    rw [MetaState.addRecord_noSpace (hcap.trans_lt h1)] at hroll
    obtain ⟨rfl, rfl⟩ := Prod.mk.inj hroll
    rw [if_pos h1]
    exact hstart.failed h hn ho (by simp) (by omega)
  rw [if_neg h1]
  have h1' : sbBlocks G m ≤ ((m.beginRoll G new .written).zones new).capacity := by omega
  cases hio : io.superblock with
  | failedAfter k =>
      rw [hio, MetaState.addRecord_failedAfter h1'] at hroll
      obtain ⟨rfl, rfl⟩ := Prod.mk.inj hroll
      have hk : min k (sbBlocks G m - 1) < sbBlocks G m := by omega
      change Failed G m frs new (min k (sbBlocks G m - 1)) _
      refine (hstart.wrote ?_).failed h hn ho ?_ (by omega)
      · simp only [List.length_nil, List.length_take, Geometry.length_frame]
        omega
      · rw [List.nil_append, newLog, List.take_append_of_le_length (by simp)]
  | written =>
      have hw : Writing G m new ((m.beginRoll G new .written).wrote new
          (G.frame (.superblock m.superblock.bump)))
          ([] ++ G.frame (.superblock m.superblock.bump)) := hstart.wrote (by
        simp only [List.length_nil, Geometry.length_frame]
        omega)
      rw [List.nil_append] at hw
      have hcap' := hw.capacity_eq
      rw [Geometry.length_frame] at hcap'
      rw [hio, MetaState.addRecord_written h1'] at hroll
      simp only at hroll ⊢
      by_cases h2 : (m.media new).maxCapacity < (newLog G m frs).length
      · -- the snapshot does not fit
        rw [MetaState.addRecord_noSpace (by rw [hcap']; omega)] at hroll
        obtain ⟨rfl, rfl⟩ := Prod.mk.inj hroll
        rw [if_pos h2]
        exact hw.failed h hn ho hsb.symm (by omega)
      rw [if_neg h2]
      have h2' : G.physBlocks (.completeFilesSnapshot frs) ≤
          (((m.beginRoll G new .written).wrote new
            (G.frame (.superblock m.superblock.bump))).zones new).capacity := by
        rw [hcap']; omega
      cases hio' : io.snapshot with
      | failedAfter k =>
          rw [hio', MetaState.addRecord_failedAfter h2'] at hroll
          obtain ⟨rfl, rfl⟩ := Prod.mk.inj hroll
          change Failed G m frs new
            (sbBlocks G m + min k (G.physBlocks (.completeFilesSnapshot frs) - 1)) _
          refine (hw.wrote ?_).failed h hn ho ?_ (by omega)
          · simp only [List.length_take, Geometry.length_frame]
            omega
          · simp [newLog, List.take_append]
      | written =>
          rw [hio', MetaState.addRecord_written h2'] at hroll
          exact absurd (Prod.mk.inj hroll).2.symm hst

end

/-! ## Records acknowledged later -/

/-- A call of `PersistRecord`: the record, and what `files_` would be encoded to
if the call rolls. -/
structure Call where
  record : Record
  snapshot : List FileRecord
deriving DecidableEq, Repr

namespace Call

/-- The record fits behind the log. -/
def fits (G : Geometry) (m : MetaState) (c : Call) : Bool :=
  decide (G.physBlocks c.record ≤ (m.zones m.metaLog).capacity)

/-- The call. -/
def run (G : Geometry) (m : MetaState) (c : Call) : MetaState × Status :=
  m.persistRecord G c.record (.completeFilesSnapshot c.snapshot) .written {}

/-- The log of all that has been acknowledged once the call returns OK: a roll
replaces it by a snapshot. -/
def log (G : Geometry) (m : MetaState) (log : List Record) (c : Call) : List Record :=
  if c.fits G m then log ++ [c.record] else [.completeFilesSnapshot c.snapshot]

end Call

/-- Calls that all return OK: the state behind them, and the log of all that has
been acknowledged. -/
def persistAll (G : Geometry) :
    MetaState → List Record → List Call → Option (MetaState × List Record)
  | m, log, [] => some (m, log)
  | m, log, c :: cs =>
      match c.run G m with
      | (m', .ok) => persistAll G m' (c.log G m log) cs
      | _ => none

/-- One of the calls rolls. -/
def anyRoll (G : Geometry) : MetaState → List Call → Bool
  | _, [] => false
  | m, c :: cs => !c.fits G m || anyRoll G (c.run G m).1 cs

section Later

variable {G : Geometry} {m m' : MetaState} {frs : List FileRecord} {rs us log : List Record}
  {t : List Frag} {new n : Nat} {c : Call} {s s₁ s₂ : Store}

/-- A zone of the log behind which everything is in order: a successful roll has
put a snapshot there. -/
structure Live (G : Geometry) (m : MetaState) (log : List Record) : Prop where
  ok : m.Ok G
  settled : Settled G m.nr m.media m.metaLog m.superblock log []

/-- The state some calls after a failed roll: the records `us` have been appended
to what the roll has left of its new log. -/
structure AfterFail (G : Geometry) (m : MetaState) (frs : List FileRecord) (new n : Nat)
    (us : List Record) (m' : MetaState) : Prop where
  ok : m'.Ok G
  nr_eq : m'.nr = m.nr
  metaLog_eq : m'.metaLog = new
  superblock_eq : m'.superblock = m.superblock.bump
  media_eq : m'.media = Function.update (m.beginRoll G new .written).media new
    (((m.beginRoll G new .written).media new).holding ((newLog G m frs).take n ++ G.frames us))

theorem Failed.afterFail (h : Failed G m frs new n m') : AfterFail G m frs new n [] m' :=
  ⟨h.ok, h.nr_eq, h.metaLog_eq, h.superblock_eq, by simpa [rollImage] using h.media_eq⟩

/-- A call whose record fits appends it. -/
theorem Call.run_of_fits (h : c.fits G m = true) :
    c.run G m = (m.wrote m.metaLog (G.frame c.record), .ok) :=
  MetaState.persistRecord_written (by simpa [Call.fits] using h)

theorem Call.run_of_not_fits (h : c.fits G m = false) :
    c.run G m = m.rollMetaZoneLocked G (.completeFilesSnapshot c.snapshot) {} :=
  MetaState.persistRecord_noSpace (by simpa [Call.fits] using h)

theorem AfterFail.append (h : AfterFail G m frs new n us m') (hf : c.fits G m' = true) :
    AfterFail G m frs new n (us ++ [c.record]) (c.run G m').1 := by
  rw [Call.run_of_fits hf]
  refine ⟨h.ok.wrote (by simpa [Call.fits] using hf), h.nr_eq, h.metaLog_eq, h.superblock_eq, ?_⟩
  simp [Cmd.apply, h.media_eq, h.metaLog_eq, MediaZone.holding]

theorem Live.append (h : Live G m log) (hr : c.record.isUpdate = true) (hf : c.fits G m = true) :
    Live G (c.run G m).1 (log ++ [c.record]) := by
  rw [Call.run_of_fits hf]
  have hcap : G.physBlocks c.record ≤ (m.zones m.metaLog).capacity := by simpa [Call.fits] using hf
  have hok : (m.wrote m.metaLog (G.frame c.record)).Ok G := h.ok.wrote (by simpa using hcap)
  refine ⟨hok, h.settled.update_cur ?_ (h.settled.hasLog.append hr)⟩
  simpa [Cmd.apply] using (hok.zonesOk _ hok.metaLog_lt).toOk

/-- A roll succeeds only if superblock and snapshot fit. -/
theorem MetaState.Ok.fits_of_roll (h : m.Ok G) (hf : m.freeMetaZone = some new) (hn : new < m.nr)
    (ho : new ≠ m.metaLog)
    (hst : (m.rollMetaZoneLocked G (.completeFilesSnapshot frs) {}).2 = .ok) :
    (newLog G m frs).length ≤ (m.media new).maxCapacity := by
  have hr := h.beginRoll hn ho .written
  have hlen := length_newLog G m frs
  simp only [MetaState.rollMetaZoneLocked, hf, Superblock.encodeTo] at hst
  by_contra hgt
  by_cases h1 : (m.media new).maxCapacity < sbBlocks G m
  · rw [MetaState.addRecord_noSpace (by rwa [hr.capacity_new])] at hst
    cases hst
  · rw [MetaState.addRecord_written (by rw [hr.capacity_new]; exact Nat.not_lt.mp h1)] at hst
    simp only at hst
    rw [MetaState.addRecord_noSpace] at hst
    · cases hst
    · have hps : sbBlocks G m = G.physBlocks (.superblock m.superblock.bump) := rfl
      simp only [MetaState.wrote, MetaState.setZone_zones, Function.update_self, hr.capacity_new,
        Geometry.length_frame]
      omega

/-- A roll that succeeds puts everything in order, whatever the zone of the log
held before. -/
theorem MetaState.Ok.live_of_roll (h : m.Ok G) (hc : m.superblock.compatibleWith G = .ok)
    (hl : ∀ j < m.nr, j ≠ m.metaLog → Leftover G (m.superblock.sequence + 1) (m.media j))
    (hseq : m.superblock.sequence + 1 < 2 ^ 32)
    (hst : (m.rollMetaZoneLocked G (.completeFilesSnapshot frs) {}).2 = .ok) :
    Live G (m.rollMetaZoneLocked G (.completeFilesSnapshot frs) {}).1 [.completeFilesSnapshot frs] ∧
    (m.rollMetaZoneLocked G (.completeFilesSnapshot frs) {}).1.superblock = m.superblock.bump := by
  obtain ⟨new, hf, hn, ho⟩ := h.freeMetaZone
  have hfit : G.physBlocks (.superblock m.superblock.bump) +
      G.physBlocks (.completeFilesSnapshot frs) ≤ (m.media new).maxCapacity := by
    simpa [newLog] using h.fits_of_roll hf hn ho hst
  have hr := h.beginRoll hn ho .written
  have hok := h.rolled hn ho hfit
  have hsb : m.superblock.bump.sequence = m.superblock.sequence + 1 := Nat.mod_eq_of_lt hseq
  rw [h.rollMetaZoneLocked_eq hf hn ho hfit]
  have hnr : (m.rolled G new (.completeFilesSnapshot frs)).nr = m.nr := by
    simp [MetaState.rolled, hr.nr_eq]
  have hlog : (m.rolled G new (.completeFilesSnapshot frs)).metaLog = new := by
    simp [MetaState.rolled]
  have hsup : (m.rolled G new (.completeFilesSnapshot frs)).superblock = m.superblock.bump := by
    simp [MetaState.rolled]
  refine ⟨⟨hok, ?_⟩, hsup⟩
  simp only
  rw [hnr, hlog, hsup]
  refine
    { nr_le := h.nr_le
      lt := hn
      hasLog :=
        { blocks := ?_
          tail := .inl rfl
          snapshot := ⟨frs, [], rfl⟩
          noEnd := by simp
          compat := hc }
      ok := fun j hj ↦ (hok.zonesOk j (by rwa [hnr])).toOk
      others := fun j hj hjn ↦ ?_ }
  · simp [MetaState.rolled, Cmd.apply, ho, hr.blocks_new]
  · by_cases hjo : j = m.metaLog
    · subst hjo
      exact .empty _ (by simp [MetaState.rolled, Cmd.apply])
    · rw [hsb]
      simpa [MetaState.rolled, Cmd.apply, hjo, hjn, hr.media_eq j hjo hjn] using hl j hj hjo

theorem Live.roll (h : Live G m log) (hseq : m.superblock.sequence + 1 < 2 ^ 32)
    (hf : c.fits G m = false) (hst : (c.run G m).2 = .ok) :
    Live G (c.run G m).1 [.completeFilesSnapshot c.snapshot] ∧
    (c.run G m).1.superblock = m.superblock.bump := by
  rw [Call.run_of_not_fits hf] at hst ⊢
  exact h.ok.live_of_roll h.settled.hasLog.compat
    (fun j hj hjo ↦ (h.settled.others j hj hjo).mono (Nat.le_succ _)) hseq hst

/-- A roll that succeeds repairs what a failed one has left behind. -/
theorem AfterFail.roll (h : AfterFail G m frs new n us m') (hm : Running G m rs t) (hn : new < m.nr)
    (ho : new ≠ m.metaLog) (hseq : m.superblock.sequence + 2 < 2 ^ 32)
    (hf : c.fits G m' = false) (hst : (c.run G m').2 = .ok) :
    Live G (c.run G m').1 [.completeFilesSnapshot c.snapshot] ∧
    (c.run G m').1.superblock = m'.superblock.bump := by
  have hready := hm.rollReady hn ho
  obtain ⟨t', hset, -⟩ := hready.settled
  have hsb : m.superblock.bump.sequence = m.superblock.sequence + 1 :=
    Nat.mod_eq_of_lt (by omega)
  rw [Call.run_of_not_fits hf] at hst ⊢
  refine h.ok.live_of_roll (by rw [h.superblock_eq]; exact hset.hasLog.compat) (fun j hj hjn ↦ ?_)
    (by rw [h.superblock_eq, hsb]; omega) hst
  rw [h.nr_eq] at hj
  rw [h.metaLog_eq] at hjn
  rw [h.media_eq, Function.update_of_ne hjn, h.superblock_eq, hsb]
  by_cases hjo : j = m.metaLog
  · subst hjo
    exact hset.hasLog.older (by omega)
  · exact (hset.others j hj hjo).mono (by omega)

/-- Records alone do not make up for a missing snapshot. -/
theorem replay_ne_ok {e : Option Status} (hus : ∀ r ∈ us, r.isUpdate = true) :
    replay us e false s ≠ .ok s₁ := by
  induction us generalizing s with
  | nil => cases e <;> simp [replay, RecoverRes.finish]
  | cons r us ih =>
      rw [replay, Record.isSnapshot_of_isUpdate (hus r (List.mem_cons_self ..))]
      split
      · simp
      · exact ih fun r' h' ↦ hus r' (List.mem_cons_of_mem _ h')

theorem HasLog.replay_ne_notFound {z : MediaZone} {sb : Superblock} {e : Option Status}
    (h : HasLog G z sb rs t) : replay rs e false s ≠ .notFound s₁ := by
  obtain ⟨frs, rs', hrs⟩ := h.snapshot
  rw [hrs, replay]
  split
  · simp
  · exact ZenFs.replay_ne_notFound

namespace RollReady

variable {R : Prop} {d : Media} (h : RollReady G m rs R d new)

include h

/-- With records behind the new superblock and no snapshot, `Mount` recovers from
the old zone or not at all. -/
theorem recoversLog_of_records (hus : ∀ r ∈ us, r.isUpdate = true) {z : MediaZone} (hz : z.Ok G)
    (hb : z.blocks = G.frames (.superblock m.superblock.bump :: us))
    (hrec : RecoversLog G (Function.update d new z) m.nr log s) : log = rs := by
  obtain ⟨t, hset, -⟩ := h.settled
  obtain ⟨w, s', hmount, hreads, -⟩ := hrec
  set d' := Function.update d new z with hd'
  have hold : d' m.metaLog = d m.metaLog := Function.update_of_ne h.ne.symm ..
  have hnew : d' new = z := Function.update_self ..
  have hok : ∀ j < m.nr, (d' j).Ok G := fun j hj ↦ by
    by_cases hjn : j = new
    · rw [hjn, hnew]; exact hz
    · rw [hd', Function.update_of_ne hjn]; exact hset.ok j hj
  have hleft : ∀ j < m.nr, j ≠ new → j ≠ m.metaLog → Leftover G m.superblock.sequence (d' j) :=
    fun j hj hjn hjo ↦ by rw [hd', Function.update_of_ne hjn]; exact hset.others j hj hjo
  have hblocks : (d' m.metaLog).blocks = G.frame (.superblock m.superblock) ++
      (G.frames rs ++ t) := by
    rw [hold, hset.hasLog.blocks, Geometry.frames_cons, List.append_assoc]
  have hblocksNew : (d' new).blocks = G.frame (.superblock m.superblock.bump) ++ G.frames us := by
    rw [hnew, hb, Geometry.frames_cons]
  have hlog : HasLog G (d' m.metaLog) m.superblock rs t := hold ▸ hset.hasLog
  -- all zones can be scanned, so `Mount` tries them in turn
  have hfind : findSuperblocks G d' (List.range m.nr) =
      .ok ((List.range m.nr).filterMap (validZone G d')) := by
    refine findSuperblocks_eq fun j hj ↦ ?_
    have hj := List.mem_range.mp hj
    by_cases hjn : j = new
    · subst hjn
      exact .superblock ((hok j hj).readRecord_superblock hblocksNew) hset.hasLog.compat
    by_cases hjo : j = m.metaLog
    · subst hjo
      exact .superblock ((hok _ hj).readRecord_superblock hblocks) hset.hasLog.compat
    · exact (hleft j hj hjn hjo).scannable (hok j hj)
  have hvold := validZone_superblock (hok _ hset.lt) hblocks
  have hvnew := validZone_superblock (hok _ h.lt) hblocksNew
  have hvmem := (List.mem_insertionSort ValidZone.before).mpr
    (List.mem_filterMap.mpr ⟨m.metaLog, List.mem_range.mpr hset.lt, hvold⟩)
  have hpos : ∀ {i : Nat} {sb : Superblock} {u : List Frag}, i < m.nr →
      (d' i).blocks = G.frame (.superblock sb) ++ u →
      G.physBlocks (.superblock sb) ≤ (d' i).maxCapacity := by
    intro i sb u hi hbl
    have := (hok i hi).length_le
    rw [hbl, List.length_append, Geometry.length_frame] at this
    omega
  have htry : tryRecover G d' (((List.range m.nr).filterMap (validZone G d')).insertionSort
      ValidZone.before) s = .ok (w, s') := by
    have hne : (List.range m.nr).filterMap (validZone G d') ≠ [] := fun h0 ↦ by simp [h0] at hvmem
    simpa only [mountRecover, hfind, Nat.not_lt.mpr hset.nr_le, if_false] using hmount
  obtain ⟨e, hre, -⟩ := hlog.reads (hok _ hset.lt)
  obtain rfl := tryRecover_ok_eq hvmem (List.pairwise_insertionSort _ _)
    (fun u hu hne hbef s₀ s₀' ↦ by
      obtain ⟨j, hj, hju⟩ := List.mem_filterMap.mp ((List.mem_insertionSort _).mp hu)
      have hj := List.mem_range.mp hj
      by_cases hjn : j = new
      · subst hjn
        obtain rfl := Option.some.inj (hju.symm.trans hvnew)
        obtain ⟨e', hr', -⟩ :=
          (hok j hj).reads (t := []) (by rw [hnew, hb, List.append_nil]) (.inl rfl)
          fun r hr ↦ Record.ne_endRecord_of_isUpdate (hus r hr)
        rw [recoverFrom_eq_replay hr' (hpos hj hblocksNew)]
        exact replay_ne_ok hus
      have hjo : j ≠ m.metaLog := by
        rintro rfl
        exact hne (Option.some.inj (hju.symm.trans hvold))
      rw [(hleft j hj hjn hjo).recoverFrom_eq (hok j hj) hju ?_ s₀]
      · simp
      · obtain hbef | ⟨hbef, -⟩ := hbef
        · exact hbef.le
        · exact hbef.le)
    (fun s₀ s₀' ↦ by
      rw [recoverFrom_eq_replay hre (hpos hset.lt hblocks)]
      exact hlog.replay_ne_notFound)
    htry
  exact (hreads.unique hre).1

/-- Records behind what a failed roll has left of its log are not recovered. -/
theorem not_recoversLog_of_records {r : Record} (hs : replay rs none false s = .ok s₁)
    (hus : ∀ r' ∈ r :: us, r'.isUpdate = true) (hlt : n < (newLog G m frs).length)
    {z : MediaZone} (hz : z.Ok G) (hb : z.blocks = (newLog G m frs).take n ++ G.frames (r :: us)) :
    ¬ RecoversLog G (Function.update d new z) m.nr (rs ++ r :: us) s := by
  intro hrec
  have hlen := length_newLog G m frs
  have hps : sbBlocks G m = G.physBlocks (.superblock m.superblock.bump) := rfl
  have hwp := hz.length_le_reportedWp
  have hcap := hz.length_le
  have hl := congrArg List.length hb
  have hru := hus r (List.mem_cons_self ..)
  have hne : rs ++ r :: us ≠ rs := fun he ↦ by simpa using congrArg List.length he
  have hhead : ∀ r', r'.isUpdate = false → ∀ b ∈ (G.frames (r :: us)).head?, b.record ≠ r' := by
    obtain ⟨v, hv⟩ := G.frame_eq_cons r
    rintro r' hr' b hbm rfl
    simp only [Geometry.frames_cons, hv, List.cons_append, List.head?_cons, Option.mem_def,
      Option.some.injEq] at hbm
    subst hbm
    simp [hru] at hr'
  simp only [List.length_append, List.length_take, Nat.min_eq_left hlt.le] at hl
  rcases Nat.lt_or_ge n (sbBlocks G m) with hnp | hnp
  · rcases Nat.eq_zero_or_pos n with rfl | hn0
    · -- the zone starts with a record that is not a superblock
      obtain ⟨w, s', hmount, -⟩ := hrec
      obtain ⟨t, hset, -⟩ := h.settled
      have hp := G.physBlocks_pos r
      simp only [Geometry.frames_cons, List.length_append, Geometry.length_frame] at hl
      have hread : readRecord G z (z.reportedWp G) 0 = .ok (some r, 0 + G.physBlocks r) :=
        readRecord_frame (t := G.frames us) (by simpa using hb) (by omega) (by omega)
      simp only [mountRecover, Nat.not_lt.mpr hset.nr_le, if_false] at hmount
      split at hmount
      · cases hmount
      · cases hmount
      next hfind =>
        refine findSuperblocks_ne_ok (List.mem_range.mpr h.lt) (r := r)
          (by rw [Function.update_self]; exact hread) ?_ hfind
        rintro sb rfl
        cases hru
    · -- a torn superblock is passed over
      have htake : z.blocks = (G.frame (.superblock m.superblock.bump)).take n ++
          G.frames (r :: us) := by
        rw [hb, newLog, List.take_append_of_le_length (by simpa using hnp.le)]
      rw [h.recoversLog_iff_of_leftover hs hz (.unreadable
        (readRecord_torn_superblock htake hnp (hhead _ rfl) (by omega)))] at hrec
      exact hne hrec.1
  have htake : z.blocks = G.frame (.superblock m.superblock.bump) ++
      ((G.frame (.completeFilesSnapshot frs)).take (n - sbBlocks G m) ++ G.frames (r :: us)) := by
    rw [hb, newLog, List.take_append, List.take_of_length_le (by simpa using hnp),
      Geometry.length_frame, List.append_assoc]
  rcases Nat.eq_or_lt_of_le hnp with hnp | hnp
  · -- the new superblock, and the records behind it
    refine hne (h.recoversLog_of_records hus hz ?_ hrec)
    rw [htake, ← hnp]
    simp
  · -- a torn snapshot ends the mount
    obtain ⟨e, he⟩ : ∃ e, readRecord G z (z.reportedWp G) (sbBlocks G m) = .error e :=
      readRecord_snapshot_torn htake (by omega) (by omega) (hhead _ rfl) (by omega)
    exact h.not_recoversLog hz htake he _ hrec

end RollReady

/-- What `Mount` makes of the zone a failed roll has left behind, with the
records `us` acknowledged since. -/
theorem AfterFail.recoversLog_iff (h : AfterFail G m frs new n us m') (hm : Running G m rs t)
    (hn : new < m.nr) (ho : new ≠ m.metaLog) (hlt : n < (newLog G m frs).length)
    (hus : ∀ r ∈ us, r.isUpdate = true) (hs : replay rs none false s = .ok s₁) :
    RecoversLog G m'.media m'.nr (rs ++ us) s ↔ us = [] ∧ CrashSafe G m frs t new n := by
  have hready := hm.rollReady hn ho
  have hr := hm.ok.beginRoll hn ho .written
  have hz : (((m.beginRoll G new .written).media new).holding
      ((newLog G m frs).take n ++ G.frames us)).Ok G := by
    simpa [h.media_eq] using (h.ok.zonesOk new (by rwa [h.nr_eq])).toOk
  rw [h.nr_eq, h.media_eq]
  rcases us with _ | ⟨r, us⟩
  · have hcap : n ≤ ((m.beginRoll G new .written).media new).maxCapacity := by
      have := hz.length_le
      simp only [MediaZone.holding_blocks, Geometry.frames_nil, List.append_nil, List.length_take,
        MediaZone.holding_maxCapacity, Nat.min_eq_left hlt.le] at this
      exact this
    have := hready.recoversLog_iff hs
      (show n = _ → replay [.completeFilesSnapshot frs] none false s = .ok s from
        fun he ↦ absurd he hlt.ne) hlt.le hcap rs
    simp only [rollImage, EndsClean, hr.maxCapacity_eq] at this
    simp [this, CrashSafe, EndsClean, hlt.ne]
  · exact iff_of_false (hready.not_recoversLog_of_records hs hus hlt hz rfl) (by simp)

/-- Calls that are acknowledged keep the state in order. -/
theorem Live.persistAll {cs : List Call} (h : Live G m log)
    (hcs : ∀ c ∈ cs, c.record.isUpdate = true) (hseq : m.superblock.sequence + cs.length < 2 ^ 32)
    {log' : List Record} (hp : persistAll G m log cs = some (m', log')) : Live G m' log' := by
  induction cs generalizing m log with
  | nil =>
      obtain ⟨rfl, rfl⟩ := Prod.mk.inj (Option.some.inj hp)
      exact h
  | cons c cs ih =>
      have hcs' := fun c' h' ↦ hcs c' (List.mem_cons_of_mem _ h')
      simp only [List.length_cons] at hseq
      rw [ZenFs.persistAll] at hp
      split at hp
      next m₁ hrun =>
        have hok : (c.run G m).2 = .ok := by rw [hrun]
        have hm₁ : (c.run G m).1 = m₁ := by rw [hrun]
        cases hf : c.fits G m with
        | true =>
            have hl := h.append (hcs c (List.mem_cons_self ..)) hf
            rw [Call.log, hf, if_pos rfl] at hp
            refine ih (hm₁ ▸ hl) hcs' ?_ hp
            rw [← hm₁, Call.run_of_fits hf]
            exact Nat.lt_of_succ_lt (by simpa [Nat.add_assoc] using hseq)
        | false =>
            obtain ⟨hl, hsb⟩ := h.roll (by omega) hf hok
            simp only [Call.log, hf, Bool.false_eq_true, if_false] at hp
            refine ih (hm₁ ▸ hl) hcs' ?_ hp
            have hb : m.superblock.bump.sequence = m.superblock.sequence + 1 :=
              Nat.mod_eq_of_lt (by omega)
            rw [← hm₁, hsb, hb]
            omega
      next => cases hp

/-- The state after a failed roll and the calls `cs`, all of them acknowledged. -/
theorem AfterFail.persistAll {cs : List Call} (h : AfterFail G m frs new n us m')
    (hm : Running G m rs t) (hn : new < m.nr) (ho : new ≠ m.metaLog)
    (hcs : ∀ c ∈ cs, c.record.isUpdate = true)
    (hseq : m.superblock.sequence + 1 + cs.length < 2 ^ 32) {m₂ : MetaState} {log' : List Record}
    (hp : ZenFs.persistAll G m' (rs ++ us) cs = some (m₂, log')) :
    if anyRoll G m' cs then Live G m₂ log'
    else AfterFail G m frs new n (us ++ cs.map Call.record) m₂ ∧
      log' = rs ++ (us ++ cs.map Call.record) := by
  induction cs generalizing m' us with
  | nil =>
      obtain ⟨rfl, rfl⟩ := Prod.mk.inj (Option.some.inj hp)
      simpa [anyRoll] using h
  | cons c cs ih =>
      have hcs' := fun c' h' ↦ hcs c' (List.mem_cons_of_mem _ h')
      simp only [List.length_cons] at hseq
      rw [ZenFs.persistAll] at hp
      split at hp
      next m₁ hrun =>
        have hok : (c.run G m').2 = .ok := by rw [hrun]
        have hm₁ : (c.run G m').1 = m₁ := by rw [hrun]
        cases hf : c.fits G m' with
        | true =>
            have hl := h.append hf
            rw [Call.log, hf, if_pos rfl, List.append_assoc] at hp
            have := ih (hm₁ ▸ hl) hcs' (by omega) hp
            simpa [anyRoll, hf, hm₁] using this
        | false =>
            obtain ⟨hl, hsb⟩ := h.roll hm hn ho (by omega) hf hok
            simp only [Call.log, hf, Bool.false_eq_true, if_false] at hp
            have hb : m.superblock.bump.sequence = m.superblock.sequence + 1 :=
              Nat.mod_eq_of_lt (by omega)
            have hb' : m'.superblock.bump.sequence = m.superblock.sequence + 2 := by
              rw [h.superblock_eq, Superblock.bump, hb]
              exact Nat.mod_eq_of_lt (by omega)
            have := (hm₁ ▸ hl : Live G m₁ _).persistAll hcs' (by rw [← hm₁, hsb, hb']; omega) hp
            simpa [anyRoll, hf] using this
      next => cases hp

end Later

/-- The snapshot append fails before it has written a block. -/
def smallFailed : MetaState :=
  (smallState.rollMetaZoneLocked smallGeometry (.completeFilesSnapshot [smallFile])
    { snapshot := .failedAfter 0 }).1

theorem smallFailed_eq : smallState.rollMetaZoneLocked smallGeometry
    (.completeFilesSnapshot [smallFile]) { snapshot := .failedAfter 0 } =
    (smallFailed, .ioError "Zone append failed") := rfl

/-- The filesystem once the update of a file has been acknowledged. -/
def smallUpdated : MetaState :=
  { (Call.run smallGeometry smallState ⟨.fileUpdate smallFile, []⟩).1 with cmds := [] }

theorem running_smallUpdated :
    Running smallGeometry smallUpdated [.completeFilesSnapshot [], .fileUpdate smallFile] [] := by
  have hlive : Live smallGeometry smallState [.completeFilesSnapshot []] :=
    ⟨running_smallState.ok, running_smallState.settled⟩
  have h := hlive.append (c := ⟨.fileUpdate smallFile, []⟩) rfl (by decide)
  exact ⟨⟨h.ok.nr_le, h.ok.zonesOk, h.ok.metaLog_lt, h.ok.busy_iff⟩, h.settled, by decide, rfl⟩

theorem smallUpdated_freeMetaZone : smallUpdated.freeMetaZone = some 1 := rfl

/-- The snapshot append fails behind the update. -/
def updatedFailed : MetaState :=
  (smallUpdated.rollMetaZoneLocked smallGeometry (.completeFilesSnapshot [smallFile])
    { snapshot := .failedAfter 0 }).1

theorem updatedFailed_eq : smallUpdated.rollMetaZoneLocked smallGeometry
    (.completeFilesSnapshot [smallFile]) { snapshot := .failedAfter 0 } =
    (updatedFailed, .ioError "Zone append failed") := rfl

end ZenFs
