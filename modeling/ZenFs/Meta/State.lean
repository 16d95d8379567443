import ZenFs.Meta.Roll

/-!
# What a roll does to the metadata zones

The `Zone` objects in memory agree with the zones on the device (`ZoneOk`), and
every operation keeps them in agreement.  The second half computes a roll: the
state it writes the superblock from, and the states of its three outcomes.
-/

namespace ZenFs

/-- A zone on the device is within its bounds. -/
structure MediaZone.Ok (G : Geometry) (z : MediaZone) : Prop where
  length_le : z.blocks.length ≤ z.maxCapacity
  cap_le : z.maxCapacity ≤ G.zoneBlocks

/-- A `Zone` object agrees with the zone on the device. -/
structure ZoneOk (G : Geometry) (z : MediaZone) (o : MetaZone) : Prop extends z.Ok G where
  capacity_eq : o.capacity = if z.finished then 0 else z.maxCapacity - z.blocks.length
  fresh : o.wp = 0 → z.blocks = [] ∧ z.finished = false

namespace ZoneOk

variable {G : Geometry} {z : MediaZone} {o : MetaZone}

/-- `Zone::Zone` sets up an object that agrees with the device. -/
theorem ofOpen (h : z.Ok G) (b : Bool) : ZoneOk G z { MetaZone.open G z with busy := b } where
  toOk := h
  capacity_eq := by
    have := h.length_le
    by_cases hf : z.finished <;> by_cases hl : z.blocks.length = z.maxCapacity <;>
      simp [MetaZone.open, MediaZone.full, hf, hl]
  fresh := by
    have hp := G.zoneBlocks_pos
    intro hw
    by_cases hf : z.full
    · simp [MetaZone.open, MediaZone.reportedWp, hf] at hw
      omega
    · simp only [MetaZone.open, MediaZone.reportedWp, hf] at hw
      simp only [MediaZone.full, Bool.or_eq_true, not_or, Bool.not_eq_true] at hf
      exact ⟨List.length_eq_zero_iff.mp hw, hf.1⟩

theorem busy (h : ZoneOk G z o) (b : Bool) : ZoneOk G z { o with busy := b } where
  toOk := h.toOk
  capacity_eq := h.capacity_eq
  fresh := h.fresh

/-- Blocks that fit can be written. -/
theorem wrote (h : ZoneOk G z o) {fs : List Frag} (hf : fs.length ≤ o.capacity) :
    ZoneOk G { z with blocks := z.blocks ++ fs }
      { o with wp := o.wp + fs.length, capacity := o.capacity - fs.length } where
  length_le := by
    have := h.length_le
    have := h.capacity_eq
    simp only [List.length_append]
    split at this <;> omega
  cap_le := h.cap_le
  capacity_eq := by
    have hc := h.capacity_eq
    simp only [List.length_append]
    split at hc <;> simp_all
    omega
  fresh := by
    intro hw
    obtain ⟨ho, hn⟩ := Nat.add_eq_zero_iff.mp hw
    obtain ⟨hb, hz⟩ := h.fresh ho
    exact ⟨by simp [hb, List.length_eq_zero_iff.mp hn], hz⟩

theorem reset (h : z.Ok G) (o : MetaZone) :
    ZoneOk G { z with blocks := [], finished := false }
      { o with wp := 0, capacity := z.maxCapacity } where
  length_le := by simp
  cap_le := h.cap_le
  capacity_eq := by simp
  fresh := fun _ ↦ ⟨rfl, rfl⟩

theorem finish (h : z.Ok G) (o : MetaZone) :
    ZoneOk G { z with finished := true } { o with wp := G.zoneBlocks, capacity := 0 } where
  toOk := ⟨h.length_le, h.cap_le⟩
  capacity_eq := by simp
  fresh := fun hw ↦ absurd hw G.zoneBlocks_pos.ne'

/-- What fits in the capacity left fits behind what is there. -/
theorem fits (h : ZoneOk G z o) {n : Nat} (hn : n ≤ o.capacity) (h0 : 0 < n) :
    z.blocks.length + n ≤ z.maxCapacity ∧ z.finished = false := by
  have hc := h.capacity_eq
  have hl := h.length_le
  split at hc <;> simp_all
  omega

end ZoneOk

namespace MetaState

section Fields

variable (m : MetaState) (G : Geometry) (i : Nat) (z : MetaZone) (fs : List Frag) (c : Cmd)

@[simp] theorem emit_nr : (m.emit c).nr = m.nr := rfl
@[simp] theorem emit_media : (m.emit c).media = c.apply m.media := rfl
@[simp] theorem emit_zones : (m.emit c).zones = m.zones := rfl
@[simp] theorem emit_metaLog : (m.emit c).metaLog = m.metaLog := rfl
@[simp] theorem emit_superblock : (m.emit c).superblock = m.superblock := rfl
@[simp] theorem emit_cmds : (m.emit c).cmds = m.cmds ++ [c] := rfl

@[simp] theorem setZone_nr : (m.setZone i z).nr = m.nr := rfl
@[simp] theorem setZone_media : (m.setZone i z).media = m.media := rfl
@[simp] theorem setZone_zones : (m.setZone i z).zones = Function.update m.zones i z := rfl
@[simp] theorem setZone_metaLog : (m.setZone i z).metaLog = m.metaLog := rfl
@[simp] theorem setZone_superblock : (m.setZone i z).superblock = m.superblock := rfl
@[simp] theorem setZone_cmds : (m.setZone i z).cmds = m.cmds := rfl

@[simp] theorem wrote_nr : (m.wrote i fs).nr = m.nr := rfl
@[simp] theorem wrote_metaLog : (m.wrote i fs).metaLog = m.metaLog := rfl
@[simp] theorem wrote_superblock : (m.wrote i fs).superblock = m.superblock := rfl
@[simp] theorem wrote_cmds : (m.wrote i fs).cmds = m.cmds ++ [.append i fs] := rfl
@[simp] theorem wrote_media : (m.wrote i fs).media = Cmd.apply (.append i fs) m.media := rfl

@[simp] theorem reset_nr : (m.reset i).nr = m.nr := rfl
@[simp] theorem reset_metaLog : (m.reset i).metaLog = m.metaLog := rfl
@[simp] theorem reset_superblock : (m.reset i).superblock = m.superblock := rfl
@[simp] theorem reset_cmds : (m.reset i).cmds = m.cmds ++ [.reset i] := rfl
@[simp] theorem reset_media : (m.reset i).media = Cmd.apply (.reset i) m.media := rfl

@[simp] theorem finish_nr : (m.finish G i).nr = m.nr := rfl
@[simp] theorem finish_metaLog : (m.finish G i).metaLog = m.metaLog := rfl
@[simp] theorem finish_superblock : (m.finish G i).superblock = m.superblock := rfl
@[simp] theorem finish_cmds : (m.finish G i).cmds = m.cmds ++ [.finish i] := rfl
@[simp] theorem finish_media : (m.finish G i).media = Cmd.apply (.finish i) m.media := rfl

@[simp] theorem acquire_cmds : (m.acquire i).cmds = m.cmds := rfl
@[simp] theorem acquire_media : (m.acquire i).media = m.media := rfl
@[simp] theorem acquire_superblock : (m.acquire i).superblock = m.superblock := rfl

@[simp] theorem release_nr : (m.release i).nr = m.nr := rfl
@[simp] theorem release_metaLog : (m.release i).metaLog = m.metaLog := rfl
@[simp] theorem release_superblock : (m.release i).superblock = m.superblock := rfl
@[simp] theorem release_cmds : (m.release i).cmds = m.cmds := rfl
@[simp] theorem release_media : (m.release i).media = m.media := rfl

end Fields

/-- All zone objects agree with the device. -/
def ZonesOk (G : Geometry) (m : MetaState) : Prop := ∀ i < m.nr, ZoneOk G (m.media i) (m.zones i)

namespace ZonesOk

variable {G : Geometry} {m : MetaState} {i : Nat}

private theorem of_update {z : MediaZone} {o : MetaZone} {m' : MetaState} (h : m.ZonesOk G)
    (hn : m'.nr = m.nr) (hm : m'.media = Function.update m.media i z)
    (ho : m'.zones = Function.update m.zones i o) (hz : i < m.nr → ZoneOk G z o) :
    m'.ZonesOk G := by
  intro j hj
  rw [hn] at hj
  rw [hm, ho]
  by_cases hji : j = i
  · subst hji
    simpa using hz hj
  · simpa [hji] using h j hj

theorem setBusy (h : m.ZonesOk G) (b : Bool) :
    (m.setZone i { m.zones i with busy := b }).ZonesOk G :=
  h.of_update rfl (by simp) rfl fun hi ↦ (h i hi).busy b

theorem wrote (h : m.ZonesOk G) {fs : List Frag} (hf : fs.length ≤ (m.zones i).capacity) :
    (m.wrote i fs).ZonesOk G :=
  h.of_update rfl rfl rfl fun hi ↦ (h i hi).wrote hf

theorem reset (h : m.ZonesOk G) : (m.reset i).ZonesOk G :=
  h.of_update rfl rfl rfl fun hi ↦ ZoneOk.reset (h i hi).toOk _

theorem finish (h : m.ZonesOk G) : (m.finish G i).ZonesOk G :=
  h.of_update rfl rfl rfl fun hi ↦ ZoneOk.finish (h i hi).toOk _

end ZonesOk

/-- A running filesystem between two metadata operations: the zone objects agree
with the device, and the zone of `meta_log_` is the only busy one. -/
structure Ok (G : Geometry) (m : MetaState) : Prop where
  nr_le : 2 ≤ m.nr
  zonesOk : m.ZonesOk G
  metaLog_lt : m.metaLog < m.nr
  busy_iff : ∀ i < m.nr, (m.zones i).busy = true ↔ i = m.metaLog

/-- With two zones or more there is always one to roll to. -/
theorem Ok.freeMetaZone {G : Geometry} {m : MetaState} (h : m.Ok G) :
    ∃ new, m.freeMetaZone = some new ∧ new < m.nr ∧ new ≠ m.metaLog := by
  cases hf : m.freeMetaZone with
  | none =>
      rw [MetaState.freeMetaZone, List.find?_eq_none] at hf
      -- one of the first two zones is not the zone of the log
      have hall : ∀ i < m.nr, i = m.metaLog := fun i hi ↦
        (h.busy_iff i hi).mp (by simpa using hf i (List.mem_range.mpr hi))
      have := h.nr_le
      have h0 := hall 0 (by omega)
      have h1 := hall 1 (by omega)
      omega
  | some new =>
      have hm := List.mem_range.mp (List.mem_of_find?_eq_some hf)
      have hb := List.find?_some hf
      refine ⟨new, rfl, hm, fun he ↦ ?_⟩
      rw [(h.busy_iff new hm).mpr he] at hb
      exact Bool.noConfusion hb

/-! ## The roll -/

section Roll

variable {G : Geometry} {m : MetaState} {i new : Nat} {snapshot : Record} {io : RollIo}

/-- An append that fits and that the backend carries out. -/
theorem addRecord_written {r : Record} (h : G.physBlocks r ≤ (m.zones i).capacity) :
    m.addRecord G i r .written = (m.wrote i (G.frame r), .ok) := by
  simp [addRecord, append, Nat.not_lt.mpr h]

theorem addRecord_noSpace {r : Record} {res : WriteRes}
    (h : (m.zones i).capacity < G.physBlocks r) :
    m.addRecord G i r res = (m, .noSpace "Not enough capacity for append") := by
  simp [addRecord, append, h]

theorem addRecord_failedAfter {r : Record} {n : Nat} (h : G.physBlocks r ≤ (m.zones i).capacity) :
    m.addRecord G i r (.failedAfter n) =
      (m.wrote i ((G.frame r).take (min n (G.physBlocks r - 1))),
        .ioError "Zone append failed") := by
  simp [addRecord, append, Nat.not_lt.mpr h]

/-- A record that fits is appended to the log. -/
theorem persistRecord_written {r : Record}
    (h : G.physBlocks r ≤ (m.zones m.metaLog).capacity) :
    m.persistRecord G r snapshot .written io = (m.wrote m.metaLog (G.frame r), .ok) := by
  simp [persistRecord, addRecord_written h]

/-- A record that does not fit is replaced by a roll. -/
theorem persistRecord_noSpace {r : Record} {res : WriteRes}
    (h : (m.zones m.metaLog).capacity < G.physBlocks r) :
    m.persistRecord G r snapshot res io = m.rollMetaZoneLocked G snapshot io := by
  simp [persistRecord, addRecord_noSpace h]

/-- The state between `AllocateMetaZone` and the writes to the new zone, for a
roll from zone `old` to zone `new`. -/
structure Rolling (G : Geometry) (m m' : MetaState) (old new : Nat) : Prop where
  nr_eq : m'.nr = m.nr
  zonesOk : m'.ZonesOk G
  blocks_new : (m'.media new).blocks = []
  finished_new : (m'.media new).finished = false
  maxCapacity_eq : ∀ j, (m'.media j).maxCapacity = (m.media j).maxCapacity
  capacity_new : (m'.zones new).capacity = (m.media new).maxCapacity
  busy_iff : ∀ j < m.nr, (m'.zones j).busy = true ↔ j = old ∨ j = new
  media_eq : ∀ j, j ≠ old → j ≠ new → m'.media j = m.media j

/-- `AllocateMetaZone` leaves an empty, busy zone. -/
theorem Ok.allocate (h : m.Ok G) (hn : new < m.nr) :
    Rolling G m (m.allocateMetaZone new) m.metaLog new := by
  have hb : ∀ j < m.nr, (Function.update m.zones new { m.zones new with busy := true } j).busy
      = true ↔ j = m.metaLog ∨ j = new := by
    intro j hj
    by_cases hjn : j = new
    · simp [hjn]
    · simp [hjn, h.busy_iff j hj]
  by_cases hw : (m.zones new).wp = 0
  · have hz := h.zonesOk new hn
    obtain ⟨hbl, hfi⟩ := hz.fresh hw
    simp only [allocateMetaZone, hw, if_true]
    exact
      { nr_eq := rfl
        zonesOk := h.zonesOk.setBusy true
        blocks_new := hbl
        finished_new := hfi
        maxCapacity_eq := fun _ ↦ rfl
        capacity_new := by simp [acquire, hz.capacity_eq, hbl, hfi]
        busy_iff := hb
        media_eq := fun _ _ _ ↦ rfl }
  · simp only [allocateMetaZone, hw, if_false]
    refine
      { nr_eq := rfl
        zonesOk := (h.zonesOk.setBusy true).reset
        blocks_new := by simp [reset, acquire, Cmd.apply]
        finished_new := by simp [reset, acquire, Cmd.apply]
        maxCapacity_eq := fun j ↦ ?_
        capacity_new := by simp [reset, acquire]
        busy_iff := fun j hj ↦ ?_
        media_eq := fun j _ hj ↦ by simp [reset, acquire, Cmd.apply, hj] }
    · by_cases hj : j = new <;> simp [reset, acquire, Cmd.apply, hj]
    · rw [← hb j hj]
      by_cases hjn : j = new <;> simp [reset, acquire, hjn]

/-- Writing to the old zone leaves the new zone alone, and so does finishing it. -/
theorem Rolling.wrote {m' : MetaState} {old : Nat} (h : Rolling G m m' old new) (ho : new ≠ old)
    {fs : List Frag} (hf : fs.length ≤ (m'.zones old).capacity) :
    Rolling G m (m'.wrote old fs) old new where
  nr_eq := h.nr_eq
  zonesOk := h.zonesOk.wrote hf
  blocks_new := by simpa [MetaState.wrote, Cmd.apply, ho] using h.blocks_new
  finished_new := by simpa [MetaState.wrote, Cmd.apply, ho] using h.finished_new
  maxCapacity_eq := fun j ↦ by
    by_cases hj : j = old <;> simp [MetaState.wrote, Cmd.apply, hj, h.maxCapacity_eq]
  capacity_new := by simpa [MetaState.wrote, ho] using h.capacity_new
  busy_iff := fun j hj ↦ by
    rw [← h.busy_iff j hj]
    by_cases hjn : j = old <;> simp [MetaState.wrote, hjn]
  media_eq := fun j hj hn ↦ by simpa [MetaState.wrote, Cmd.apply, hj] using h.media_eq j hj hn

theorem Rolling.finish {m' : MetaState} {old : Nat} (h : Rolling G m m' old new) (ho : new ≠ old) :
    Rolling G m (m'.finish G old) old new where
  nr_eq := h.nr_eq
  zonesOk := h.zonesOk.finish
  blocks_new := by simpa [MetaState.finish, Cmd.apply, ho] using h.blocks_new
  finished_new := by simpa [MetaState.finish, Cmd.apply, ho] using h.finished_new
  maxCapacity_eq := fun j ↦ by
    by_cases hj : j = old <;> simp [MetaState.finish, Cmd.apply, hj, h.maxCapacity_eq]
  capacity_new := by simpa [MetaState.finish, ho] using h.capacity_new
  busy_iff := fun j hj ↦ by
    rw [← h.busy_iff j hj]
    by_cases hjn : j = old <;> simp [MetaState.finish, hjn]
  media_eq := fun j hj hn ↦ by simpa [MetaState.finish, Cmd.apply, hj] using h.media_eq j hj hn

/-- Closing the old zone writes the end record or nothing, and may finish it. -/
theorem closeOldZone_cases (G : Geometry) (m : MetaState) (old : Nat) (res : WriteRes) :
    m.closeOldZone G old res = m ∨
    ∃ fs, fs.length ≤ (m.zones old).capacity ∧
      (m.closeOldZone G old res = m.wrote old fs ∨
        m.closeOldZone G old res = (m.wrote old fs).finish G old) := by
  unfold closeOldZone
  by_cases hc : 0 < (m.zones old).capacity
  · refine .inr ?_
    simp only [hc, if_true]
    have h1 : G.physBlocks .endRecord ≤ (m.zones old).capacity := by
      rw [Geometry.physBlocks_endRecord]
      exact hc
    cases res with
    | written =>
        rw [addRecord_written h1]
        refine ⟨G.frame .endRecord, by rwa [Geometry.length_frame], ?_⟩
        split
        · exact .inr rfl
        · exact .inl rfl
    | failedAfter n =>
        rw [addRecord_failedAfter h1]
        refine ⟨(G.frame .endRecord).take (min n (G.physBlocks .endRecord - 1)), by simp, ?_⟩
        split
        · exact .inr rfl
        · exact .inl rfl
  · simp [hc]

@[simp] theorem closeOldZone_superblock (old : Nat) (res : WriteRes) :
    (m.closeOldZone G old res).superblock = m.superblock := by
  obtain h | ⟨fs, -, h | h⟩ := closeOldZone_cases G m old res <;> rw [h] <;> rfl

@[simp] theorem closeOldZone_metaLog (old : Nat) (res : WriteRes) :
    (m.closeOldZone G old res).metaLog = m.metaLog := by
  obtain h | ⟨fs, -, h | h⟩ := closeOldZone_cases G m old res <;> rw [h] <;> rfl

@[simp] theorem allocateMetaZone_superblock : (m.allocateMetaZone i).superblock = m.superblock := by
  unfold allocateMetaZone; split <;> rfl

@[simp] theorem beginRoll_superblock (res : WriteRes) :
    (m.beginRoll G new res).superblock = m.superblock.bump := by
  simp [beginRoll, Superblock.encodeTo]

@[simp] theorem beginRoll_metaLog (res : WriteRes) : (m.beginRoll G new res).metaLog = new := by
  simp [beginRoll]

/-- The state a roll writes the new superblock from. -/
theorem Ok.beginRoll (h : m.Ok G) (hn : new < m.nr) (ho : new ≠ m.metaLog) (res : WriteRes) :
    Rolling G m (m.beginRoll G new res) m.metaLog new := by
  have ha := h.allocate hn
  have hm : Rolling G m { m.allocateMetaZone new with metaLog := new } m.metaLog new :=
    ⟨ha.1, ha.2, ha.3, ha.4, ha.5, ha.6, ha.7, ha.8⟩
  have hc : Rolling G m ({ m.allocateMetaZone new with metaLog := new }.closeOldZone G m.metaLog
      res) m.metaLog new := by
    obtain hc | ⟨fs, hf, hc | hc⟩ := closeOldZone_cases G
      { m.allocateMetaZone new with metaLog := new } m.metaLog res <;> rw [hc]
    · exact hm
    · exact hm.wrote ho hf
    · exact (hm.wrote ho hf).finish ho
  exact ⟨hc.1, hc.2, hc.3, hc.4, hc.5, hc.6, hc.7, hc.8⟩

/-- The commands of a roll up to the writes to the new zone. -/
theorem beginRoll_cmds (ho : new ≠ m.metaLog) :
    (m.beginRoll G new .written).cmds = m.cmds ++
      ((if (m.zones new).wp = 0 then [] else [.reset new]) ++
        if (m.zones m.metaLog).capacity = 0 then []
        else .append m.metaLog (G.frame .endRecord) ::
          if (m.zones m.metaLog).capacity = 1 then [] else [.finish m.metaLog]) := by
  have hz : (m.allocateMetaZone new).zones m.metaLog = m.zones m.metaLog := by
    unfold allocateMetaZone
    split <;> simp [acquire, reset, ho.symm]
  have ha : (m.allocateMetaZone new).cmds = m.cmds ++
      if (m.zones new).wp = 0 then [] else [.reset new] := by
    unfold allocateMetaZone
    split <;> simp
  rw [← List.append_assoc, ← ha]
  simp only [beginRoll, closeOldZone, hz]
  by_cases h0 : (m.zones m.metaLog).capacity = 0
  · simp [h0, hz]
  · have h1 : G.physBlocks .endRecord ≤
        ({ m.allocateMetaZone new with metaLog := new }.zones m.metaLog).capacity := by
      simp only [Geometry.physBlocks_endRecord, hz]
      omega
    simp only [addRecord_written h1, Nat.pos_iff_ne_zero, h0, ne_eq, not_false_eq_true, if_true,
      if_false, wrote, setZone_zones, Function.update_self, Geometry.length_frame,
      Geometry.physBlocks_endRecord, hz, Nat.sub_eq_zero_iff_le]
    by_cases h2 : (m.zones m.metaLog).capacity = 1
    · simp [h2]
    · have : ¬ (m.zones m.metaLog).capacity ≤ 1 := by omega
      simp [h2, this]

/-- The device is what the commands issued so far have made of `d`. -/
def Traced (d : Media) (m : MetaState) : Prop := m.media = applyAll m.cmds d

theorem Traced.emit {d : Media} (h : Traced d m) (c : Cmd) : Traced d (m.emit c) := by
  simp only [Traced, emit_media, emit_cmds, applyAll_append, applyAll_cons, applyAll_nil]
  rw [h]

theorem Traced.beginRoll {d : Media} (h : Traced d m) (res : WriteRes) :
    Traced d (m.beginRoll G new res) := by
  have ha : Traced d { m.allocateMetaZone new with metaLog := new } := by
    unfold allocateMetaZone
    split
    · exact h
    · exact h.emit (.reset new)
  obtain hc | ⟨fs, -, hc | hc⟩ := closeOldZone_cases G
    { m.allocateMetaZone new with metaLog := new } m.metaLog res <;>
    simp only [MetaState.beginRoll, hc]
  · exact ha
  · exact ha.emit (.append m.metaLog fs)
  · exact (ha.emit (.append m.metaLog fs)).emit (.finish m.metaLog)

/-- The state after a roll in which everything was written. -/
def rolled (G : Geometry) (m : MetaState) (new : Nat) (snapshot : Record) : MetaState :=
  let m₁ := (m.beginRoll G new .written).wrote new (G.frame (.superblock m.superblock.bump))
  ((m₁.wrote new (G.frame snapshot)).reset m.metaLog).release m.metaLog

/-- A roll succeeds when superblock and snapshot fit in the new zone. -/
theorem Ok.rollMetaZoneLocked_eq (h : m.Ok G) (hf : m.freeMetaZone = some new) (hn : new < m.nr)
    (ho : new ≠ m.metaLog)
    (hfit : G.physBlocks (.superblock m.superblock.bump) + G.physBlocks snapshot ≤
      (m.media new).maxCapacity) :
    m.rollMetaZoneLocked G snapshot {} = (m.rolled G new snapshot, .ok) := by
  have hr := h.beginRoll hn ho .written
  have h1 : G.physBlocks (.superblock m.superblock.bump) ≤
      ((m.beginRoll G new .written).zones new).capacity := by
    rw [hr.capacity_new]; omega
  have h2 : G.physBlocks snapshot ≤ (((m.beginRoll G new .written).wrote new
      (G.frame (.superblock m.superblock.bump))).zones new).capacity := by
    simp only [wrote, setZone_zones, Function.update_self, Geometry.length_frame, hr.capacity_new]
    omega
  simp [rollMetaZoneLocked, hf, Superblock.encodeTo, addRecord_written h1, addRecord_written h2,
    rolled]

/-- After a roll the new zone is the zone of the log, and the old one is free. -/
theorem Ok.rolled (h : m.Ok G) (hn : new < m.nr) (ho : new ≠ m.metaLog)
    (hfit : G.physBlocks (.superblock m.superblock.bump) + G.physBlocks snapshot ≤
      (m.media new).maxCapacity) :
    (m.rolled G new snapshot).Ok G := by
  have hr := h.beginRoll hn ho .written
  have hnr : (m.rolled G new snapshot).nr = m.nr := by simp [MetaState.rolled, hr.nr_eq]
  have hlog : (m.rolled G new snapshot).metaLog = new := by simp [MetaState.rolled]
  refine ⟨by rw [hnr]; exact h.nr_le, ?_, ?_, fun j hj ↦ ?_⟩
  · refine (((hr.zonesOk.wrote ?_).wrote ?_).reset).setBusy false
    · rw [hr.capacity_new, Geometry.length_frame]; omega
    · simp only [wrote, setZone_zones, Function.update_self, Geometry.length_frame,
        hr.capacity_new]
      omega
  · rwa [hlog, hnr]
  · rw [hnr] at hj
    rw [hlog]
    have hb := hr.busy_iff j hj
    have hbn := hr.busy_iff new hn
    simp only [MetaState.rolled, wrote, reset, release, setZone_zones, emit_zones]
    by_cases hjo : j = m.metaLog
    · subst hjo
      simp [ho.symm]
    · by_cases hjn : j = new
      · subst hjn
        simp [hjo, hbn]
      · simp [hjo, hjn, hb]

/-- Mounting sets up a state in which the recovered zone is the only busy one. -/
theorem Ok.mountState {d : Media} {nr : Nat} {v : ValidZone} (hnr : 2 ≤ nr) (hv : v.zone < nr)
    (hd : ∀ i < nr, (d i).Ok G) : (ZenFs.mountState G d nr v).Ok G where
  nr_le := hnr
  zonesOk := fun i hi ↦ ZoneOk.ofOpen (hd i hi) _
  metaLog_lt := hv
  busy_iff := fun i _ ↦ by simp [ZenFs.mountState]

/-- An append to the log keeps the state. -/
theorem Ok.wrote {fs : List Frag} (h : m.Ok G) (hf : fs.length ≤ (m.zones m.metaLog).capacity) :
    (m.wrote m.metaLog fs).Ok G where
  nr_le := h.nr_le
  zonesOk := h.zonesOk.wrote hf
  metaLog_lt := h.metaLog_lt
  busy_iff := fun i hi ↦ by
    simp only [MetaState.wrote_metaLog]
    rw [← h.busy_iff i hi]
    by_cases hil : i = m.metaLog <;> simp [MetaState.wrote, hil]

end Roll

end MetaState

end ZenFs
