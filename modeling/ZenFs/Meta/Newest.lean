import ZenFs.Meta.Mount
import ZenFs.Lib.Throughout

/-!
# The newest metadata zone

Runs of mounts, metadata rolls and crashes.  The device is followed command by
command, together with the zone that received the last complete snapshot and
the number of superblocks written.  As long as every roll finds room for its
superblock and snapshot, that zone is the one `Mount` recovers from, wherever
the run is cut.
-/

namespace ZenFs

/-- The metadata zones, the zone that received the last complete snapshot, and
the number of superblocks written so far. -/
structure Dev where
  media : Media
  newest : Option Nat
  written : Nat

namespace Dev

/-- A device command.  Each append holds the whole frame of one record. -/
def exec (d : Dev) : Cmd → Dev
  | .append i fs =>
      { media := Cmd.apply (.append i fs) d.media
        newest := match fs.head? with
          | some ⟨.completeFilesSnapshot _, _⟩ => some i
          | _ => d.newest
        written := match fs.head? with
          | some ⟨.superblock _, _⟩ => d.written + 1
          | _ => d.written }
  | c => { d with media := c.apply d.media }

/-- A list of device commands. -/
def execAll (d : Dev) (cs : List Cmd) : Dev := cs.foldl exec d

theorem written_le_exec (d : Dev) (c : Cmd) : d.written ≤ (d.exec c).written := by
  cases c with
  | append i fs => simp only [exec]; split <;> simp
  | _ => exact Nat.le_refl _

theorem written_le_execAll (d : Dev) (cs : List Cmd) : d.written ≤ (d.execAll cs).written := by
  induction cs generalizing d with
  | nil => exact Nat.le_refl _
  | cons c cs ih => exact (d.written_le_exec c).trans (ih (d.exec c))

@[simp] theorem exec_media (d : Dev) (c : Cmd) : (d.exec c).media = c.apply d.media := by
  cases c <;> rfl

@[simp] theorem execAll_append (d : Dev) (cs cs' : List Cmd) :
    d.execAll (cs ++ cs') = (d.execAll cs).execAll cs' := by
  simp [execAll]

@[simp] theorem execAll_singleton (d : Dev) (c : Cmd) : d.execAll [c] = d.exec c := rfl

section Frame

variable (G : Geometry) (d : Dev) (i : Nat) (r : Record)

theorem exec_frame_newest : (d.exec (.append i (G.frame r))).newest =
    if r.isSnapshot then some i else d.newest := by
  obtain ⟨t, ht⟩ := G.frame_eq_cons r
  cases r <;> simp [exec, ht, Record.isSnapshot]

theorem exec_superblock_written (sb : Superblock) :
    (d.exec (.append i (G.frame (.superblock sb)))).written = d.written + 1 := by
  obtain ⟨t, ht⟩ := G.frame_eq_cons (.superblock sb)
  simp [exec, ht]

end Frame

end Dev

/-- `Mount` recovers from zone `z`: its result is the replay of the log of that
zone. -/
def MountsFrom (G : Geometry) (d : Media) (nr : Nat) (z : Nat) : Prop :=
  ∃ sb rs t, (d z).blocks = G.frames (.superblock sb :: rs) ++ t ∧
    ∀ s, match replay rs none false s with
      | .ok s' => ∃ pos, mountRecover G d nr s = .ok (⟨z, sb, pos⟩, s')
      | .failed e => mountRecover G d nr s = .error e
      | .notFound _ => False

/-- The zone of the last complete snapshot still holds one, under a sequence
number above that of every other zone with a snapshot, and `Mount` recovers from
it. -/
def NewestWins (G : Geometry) (nr : Nat) (d : Dev) : Prop :=
  ∃ z seq, d.newest = some z ∧ z < nr ∧ HoldsSnapshot G (d.media z) seq ∧
    (∀ j < nr, j ≠ z → ∀ seq', HoldsSnapshot G (d.media j) seq' → seq' < seq) ∧
    MountsFrom G d.media nr z

/-! ## Runs -/

/-- A device, and the filesystem running on it if there is one. -/
structure Sys where
  dev : Dev
  proc : Option MetaState

/-- Records fit in a zone, and fill it exactly only if its capacity is the zone
size. -/
def Fits (G : Geometry) (z : MediaZone) (rs : List Record) : Prop :=
  (G.frames rs).length ≤ z.maxCapacity ∧
    ((G.frames rs).length = z.maxCapacity → z.maxCapacity = G.zoneBlocks)

instance (G : Geometry) (z : MediaZone) (rs : List Record) : Decidable (Fits G z rs) :=
  inferInstanceAs (Decidable (_ ∧ _))

/-- What an operation may ask of the state it starts from. -/
structure Cond where
  roll : MetaState → Record → Prop
  persist : MetaState → Record → Prop

/-- The metadata operations that a filesystem performs, with the state behind
them and whether the filesystem runs on. -/
inductive Runs (G : Geometry) (C : Cond) (nr : Nat) (y : Sys) : MetaState → Bool → Prop
  /-- `Mount` for writing: recover, and roll. -/
  | mount {s s' : Store} {v : ValidZone} {m : MetaState} {st : Status} (frs : List FileRecord)
      (off : y.proc = none) (hv : mountRecover G y.dev.media nr s = .ok (v, s'))
      (hc : C.roll (mountState G y.dev.media nr v) (.completeFilesSnapshot frs))
      (h : (mountState G y.dev.media nr v).rollMetaZoneLocked G (.completeFilesSnapshot frs) {} =
        (m, st)) : Runs G C nr y m st.isOk
  /-- `PersistRecord`, which may roll. -/
  | persist {m m' : MetaState} {st : Status} (r : Record) (frs : List FileRecord)
      (on : y.proc = some m) (hr : r.isUpdate = true) (hp : C.persist m r)
      (hc : (m.zones m.metaLog).capacity < G.physBlocks r → C.roll m (.completeFilesSnapshot frs))
      (h : { m with cmds := [] }.persistRecord G r (.completeFilesSnapshot frs) .written {} =
        (m', st)) : Runs G C nr y m' true

/-- An operation completes, or the system crashes after some of its commands. -/
inductive Sys.Step (G : Geometry) (C : Cond) (nr : Nat) (y : Sys) : Sys → Prop
  | done {m : MetaState} {alive : Bool} (h : Runs G C nr y m alive) :
      Sys.Step G C nr y ⟨y.dev.execAll m.cmds, if alive then some m else none⟩
  | crash {m : MetaState} {alive : Bool} (h : Runs G C nr y m alive) (k : Nat) :
      Sys.Step G C nr y ⟨y.dev.execAll (m.cmds.take k), none⟩
  | powerOff : Sys.Step G C nr y ⟨y.dev, none⟩

/-- The device behind `MkFS`. -/
def mkfs (G : Geometry) (caps : Nat → Nat) : Dev := ⟨mkfsMedia G caps, some 0, 1⟩

/-- The systems reached from `MkFS`. -/
inductive Sys.Reachable (G : Geometry) (C : Cond) (nr : Nat) (caps : Nat → Nat) : Sys → Prop
  | mkfs : Sys.Reachable G C nr caps ⟨ZenFs.mkfs G caps, none⟩
  | step {y y' : Sys} (h : Sys.Reachable G C nr caps y) (hs : Sys.Step G C nr y y') :
      Sys.Reachable G C nr caps y'

/-- Every superblock and snapshot written by a roll fits in the zone that
`AllocateMetaZone` picks, and no append ends exactly at the capacity of a zone
that is smaller than the zone size. -/
def roomy (G : Geometry) : Cond where
  roll m snapshot := ∀ i, m.freeMetaZone = some i →
    Fits G (m.media i) [.superblock m.superblock.bump, snapshot]
  persist m r := (m.media m.metaLog).blocks.length + G.physBlocks r =
      (m.media m.metaLog).maxCapacity → (m.media m.metaLog).maxCapacity = G.zoneBlocks

/-! ## The invariant -/

section Invariant

variable {G : Geometry} {nr : Nat} {d : Dev} {m : MetaState} {cur new : Nat} {sb : Superblock}
  {rs : List Record} {t : List Frag} {c : Cmd}

/-- A settled device whose log is the newest, and can be read. -/
structure Good (G : Geometry) (nr : Nat) (d : Dev) (cur : Nat) (sb : Superblock)
    (rs : List Record) (t : List Frag) : Prop extends Settled G nr d.media cur sb rs t where
  newest : d.newest = some cur
  seq_le : sb.sequence ≤ d.written
  readable : Readable G (d.media cur) t

/-- As long as the sequence numbers have not wrapped around, the device is good. -/
def Sound (G : Geometry) (nr : Nat) (d : Dev) : Prop :=
  d.written < 2 ^ 32 → ∃ cur sb rs t, Good G nr d cur sb rs t

/-- The newest metadata wins on a good device. -/
theorem Good.newestWins (h : Good G nr d cur sb rs t) : NewestWins G nr d := by
  obtain ⟨frs, rs', hrs⟩ := h.hasLog.snapshot
  refine ⟨cur, sb.sequence, h.newest, h.lt, ?_, fun j hj hjc seq hs ↦
    (h.others j hj hjc).lt (h.ok j hj) hs, ?_⟩
  · exact ⟨sb, rs, t, h.hasLog.blocks, rfl, .completeFilesSnapshot frs, by simp [hrs], rfl⟩
  · obtain ⟨e, he, hm⟩ := h.mountRecover_eq
    refine ⟨sb, rs, t, h.hasLog.blocks, fun s ↦ ?_⟩
    rw [he.mp h.readable] at hm
    cases hres : replay rs none false s with
    | ok s' => exact ⟨_, by rw [hm, hres]; rfl⟩
    | failed e => rw [hm, hres]; rfl
    | notFound s' =>
        rw [hrs, replay] at hres
        split at hres
        · cases hres
        · exact replay_ne_notFound hres

namespace Good

variable {j : Nat} {sb' : Superblock} {frs : List FileRecord} {r : Record}

/-- Another zone is reset. -/
theorem reset_other (h : Good G nr d cur sb rs t) (hj : j < nr) (hjc : j ≠ cur) :
    Good G nr (d.exec (.reset j)) cur sb rs t where
  toSettled := h.toSettled.reset_other hj hjc
  newest := h.newest
  seq_le := h.seq_le
  readable := by simpa [Cmd.apply, hjc.symm] using h.readable

/-- An end record is appended to the log. -/
theorem append_end (h : Good G nr d cur sb rs t)
    (hl : (d.media cur).blocks.length + 1 ≤ (d.media cur).maxCapacity) :
    Good G nr (d.exec (.append cur (G.frame .endRecord))) cur sb rs (t ++ G.frame .endRecord) where
  toSettled := h.toSettled.append_end hl
  newest := by rw [Dev.exec_frame_newest]; exact h.newest
  seq_le := h.seq_le.trans (d.written_le_exec _)
  readable := by
    obtain ⟨u, hu⟩ := G.frame_eq_cons .endRecord
    exact .inl (by simp [hu])

/-- The zone of a log with an end record is finished. -/
theorem finish (h : Good G nr d cur sb rs t) (ht : t ≠ []) :
    Good G nr (d.exec (.finish cur)) cur sb rs t where
  toSettled := h.toSettled.finish
  newest := h.newest
  seq_le := h.seq_le
  readable := .inl ht

/-- A superblock is written to an empty zone, with room behind it. -/
theorem append_superblock (h : Good G nr d cur sb rs t) (hj : j < nr) (hjc : j ≠ cur)
    (hb : (d.media j).blocks = []) (hf : (d.media j).finished = false)
    (hc : sb'.compatibleWith G = .ok)
    (hl : G.physBlocks (.superblock sb') < (d.media j).maxCapacity) :
    Good G nr (d.exec (.append j (G.frame (.superblock sb')))) cur sb rs t where
  toSettled := h.update_other hjc ⟨by simp [hb, hl.le], (h.ok j hj).cap_le⟩
    (.halfRolled sb' (by simp [hb]) hc (reportedWp_eq hf fun he ↦ by simp [hb] at he; omega))
  newest := by rw [Dev.exec_frame_newest]; exact h.newest
  seq_le := h.seq_le.trans (d.written_le_exec _)
  readable := by simpa [Cmd.apply, hjc.symm] using h.readable

/-- A snapshot behind the superblock makes the zone the newest. -/
theorem append_snapshot (h : Good G nr d cur sb rs t) (hj : j < nr) (hjc : j ≠ cur)
    (hb : (d.media j).blocks = G.frame (.superblock sb')) (hf : (d.media j).finished = false)
    (hc : sb'.compatibleWith G = .ok) (hs : sb.sequence < sb'.sequence)
    (hw : sb'.sequence ≤ d.written)
    (hfit : Fits G (d.media j) [.superblock sb', .completeFilesSnapshot frs]) :
    Good G nr (d.exec (.append j (G.frame (.completeFilesSnapshot frs)))) j sb'
      [.completeFilesSnapshot frs] [] where
  toSettled := by
    obtain ⟨hle, -⟩ := hfit
    refine h.update_new hjc hj ⟨by simpa [hb] using hle, (h.ok j hj).cap_le⟩
      ⟨by simp [hb], .inl rfl, ⟨frs, [], rfl⟩, by simp, hc⟩ hs
  newest := by rw [Dev.exec_frame_newest]; rfl
  seq_le := hw.trans (d.written_le_exec _)
  readable := by
    refine .inr (reportedWp_eq (by simpa [Cmd.apply] using hf) fun he ↦ ?_)
    simp only [Dev.exec_media, Cmd.apply, Function.update_self, hb] at he ⊢
    exact hfit.2 (by simpa using he)

/-- A record is appended to an open log. -/
theorem append_record (h : Good G nr d cur sb rs []) (hr : r.isUpdate = true)
    (hf : (d.media cur).finished = false)
    (hl : (d.media cur).blocks.length + G.physBlocks r ≤ (d.media cur).maxCapacity)
    (he : (d.media cur).blocks.length + G.physBlocks r = (d.media cur).maxCapacity →
      (d.media cur).maxCapacity = G.zoneBlocks) :
    Good G nr (d.exec (.append cur (G.frame r))) cur sb (rs ++ [r]) [] where
  toSettled := h.update_cur ⟨by simpa using hl, (h.ok cur h.lt).cap_le⟩ (h.hasLog.append hr)
  newest := by
    rw [Dev.exec_frame_newest]
    cases r <;> first | exact h.newest | exact Bool.noConfusion hr
  seq_le := h.seq_le.trans (d.written_le_exec _)
  readable := by
    refine .inr (reportedWp_eq (by simpa [Cmd.apply] using hf) fun he' ↦ ?_)
    simp only [Dev.exec_media, Cmd.apply, Function.update_self, List.length_append,
      Geometry.length_frame] at he' ⊢
    exact he he'

end Good

/-- The device was sound after every command that `m` has issued since it was
`d`, and is good now. -/
structure Along (G : Geometry) (nr : Nat) (d : Dev) (m : MetaState) (cur : Nat)
    (sb : Superblock) (rs : List Record) (t : List Frag) : Prop where
  through : Throughout Dev.exec (Sound G nr) d m.cmds
  media_eq : m.media = (d.execAll m.cmds).media
  good : Good G nr (d.execAll m.cmds) cur sb rs t

namespace Along

variable {rs' : List Record} {t' : List Frag} {sb' : Superblock} {cur' : Nat}

/-- One more command. -/
theorem emit (h : Along G nr d m cur sb rs t)
    (hg : Good G nr ((d.execAll m.cmds).exec c) cur' sb' rs' t') :
    Along G nr d (m.emit c) cur' sb' rs' t' where
  through := h.through.snoc fun _ ↦ ⟨_, _, _, _, hg⟩
  media_eq := by simp [h.media_eq]
  good := by simpa using hg

/-- Only commands and device matter. -/
theorem congr {m' : MetaState} (h : Along G nr d m cur sb rs t) (hc : m'.cmds = m.cmds)
    (hm : m'.media = m.media) : Along G nr d m' cur sb rs t where
  through := hc ▸ h.through
  media_eq := by rw [hm, hc, h.media_eq]
  good := hc ▸ h.good

theorem wrote {i : Nat} {fs : List Frag} (h : Along G nr d m cur sb rs t)
    (hg : Good G nr ((d.execAll m.cmds).exec (.append i fs)) cur' sb' rs' t') :
    Along G nr d (m.wrote i fs) cur' sb' rs' t' :=
  (h.emit hg).congr rfl rfl

/-- `AllocateMetaZone`. -/
theorem allocate (h : Along G nr d m cur sb rs t) (hn : new < nr) (ho : new ≠ cur) :
    Along G nr d (m.allocateMetaZone new) cur sb rs t := by
  unfold MetaState.allocateMetaZone
  split
  · exact h.congr rfl rfl
  · exact (h.emit (h.good.reset_other hn ho)).congr rfl rfl

/-- The end record and the finish of the old zone. -/
theorem closeOldZone (h : Along G nr d m cur sb rs t) (hm : m.ZonesOk G) (hc : cur < m.nr) :
    ∃ t', Along G nr d (m.closeOldZone G cur .written) cur sb rs t' := by
  unfold MetaState.closeOldZone
  by_cases hcap : 0 < (m.zones cur).capacity
  · obtain ⟨hfit, -⟩ := (hm cur hc).fits (n := 1) hcap Nat.one_pos
    have h1 : G.physBlocks .endRecord ≤ (m.zones cur).capacity := by
      rw [Geometry.physBlocks_endRecord]
      exact hcap
    rw [h.media_eq] at hfit
    have hw := h.wrote (h.good.append_end hfit)
    simp only [hcap, if_true, MetaState.addRecord_written h1]
    split
    · refine ⟨_, (hw.emit (hw.good.finish ?_)).congr rfl rfl⟩
      obtain ⟨u, hu⟩ := G.frame_eq_cons .endRecord
      simp [hu]
    · exact ⟨_, hw⟩
  · simp only [hcap, if_false]
    exact ⟨t, h⟩

/-- A roll up to the writes to the new zone. -/
theorem beginRoll (h : Along G nr d m m.metaLog sb rs t) (hm : m.Ok G) (hnr : m.nr = nr)
    (hn : new < nr) (ho : new ≠ m.metaLog) :
    ∃ t', Along G nr d (m.beginRoll G new .written) m.metaLog sb rs t' := by
  have hr := hm.allocate (hnr ▸ hn)
  have ha : Along G nr d { m.allocateMetaZone new with metaLog := new } m.metaLog sb rs t :=
    (h.allocate hn ho).congr rfl rfl
  obtain ⟨t', hc⟩ := ha.closeOldZone hr.zonesOk (hr.nr_eq.symm ▸ hm.metaLog_lt)
  exact ⟨t', hc.congr rfl rfl⟩

/-- A roll that fits: the device is sound after each of its commands, and the
new zone is the newest at the end. -/
theorem rolled {frs : List FileRecord} (h : Along G nr d m m.metaLog m.superblock rs t)
    (hm : m.Ok G) (hnr : m.nr = nr) (hn : new < nr) (ho : new ≠ m.metaLog)
    (hfit : Fits G (m.media new) [.superblock m.superblock.bump, .completeFilesSnapshot frs]) :
    Throughout Dev.exec (Sound G nr) d (m.rolled G new (.completeFilesSnapshot frs)).cmds ∧
    ((d.execAll (m.rolled G new (.completeFilesSnapshot frs)).cmds).written < 2 ^ 32 →
      Along G nr d (m.rolled G new (.completeFilesSnapshot frs)) new m.superblock.bump
        [.completeFilesSnapshot frs] []) := by
  obtain ⟨t', hb⟩ := h.beginRoll hm hnr hn ho
  have hr := hm.beginRoll (hnr ▸ hn) ho .written
  set b := m.beginRoll G new .written
  have hcmds : (m.rolled G new (.completeFilesSnapshot frs)).cmds = b.cmds ++
      [.append new (G.frame (.superblock m.superblock.bump)),
        .append new (G.frame (.completeFilesSnapshot frs)), .reset m.metaLog] := by
    simp [MetaState.rolled, b]
  by_cases hw : (d.execAll b.cmds).written + 1 < 2 ^ 32
  · have hseq : m.superblock.bump.sequence = m.superblock.sequence + 1 := by
      have := hb.good.seq_le
      exact Nat.mod_eq_of_lt (by omega)
    have hmax := hr.maxCapacity_eq new
    have hbl := hr.blocks_new
    have hfi := hr.finished_new
    rw [hb.media_eq] at hmax hbl hfi
    have hc : m.superblock.bump.compatibleWith G = .ok := hb.good.hasLog.compat
    have h1 := hb.wrote (hb.good.append_superblock hn ho hbl hfi hc (by
      have := G.physBlocks_pos (.completeFilesSnapshot frs)
      have := hfit.1
      simp only [Geometry.frames_cons, Geometry.frames_nil, List.length_append,
        Geometry.length_frame, List.length_nil] at this
      omega))
    have h2 := h1.wrote (h1.good.append_snapshot hn ho
      (by simp [Cmd.apply, hbl]) (by simp [Cmd.apply, hfi]) hc (by omega)
      (by
        have := hb.good.seq_le
        simp only [MetaState.wrote_cmds, Dev.execAll_append, Dev.execAll_singleton,
          Dev.exec_superblock_written]
        omega)
      (by simpa [Fits, Cmd.apply, hmax] using hfit))
    have h3 : Along G nr d (m.rolled G new (.completeFilesSnapshot frs)) new m.superblock.bump
        [.completeFilesSnapshot frs] [] :=
      (h2.emit (h2.good.reset_other (hnr ▸ hm.metaLog_lt) ho.symm)).congr rfl rfl
    exact ⟨h3.through, fun _ ↦ h3⟩
  · -- the superblock is the last that can be written: nothing is claimed behind it
    have hover : ∀ cs, ¬ (((d.execAll b.cmds).exec
        (.append new (G.frame (.superblock m.superblock.bump)))).execAll cs).written < 2 ^ 32 := by
      intro cs hlt
      have := Dev.written_le_execAll ((d.execAll b.cmds).exec
        (.append new (G.frame (.superblock m.superblock.bump)))) cs
      rw [Dev.exec_superblock_written] at this
      omega
    rw [hcmds]
    refine ⟨Throughout.append_iff.mpr ⟨hb.through, Throughout.cons_iff.mpr
      ⟨hb.through.last, fun k hlt ↦ absurd hlt (hover _)⟩⟩, fun hlt ↦ ?_⟩
    rw [Dev.execAll_append] at hlt
    exact absurd hlt (hover _)

theorem start (hg : Good G nr d cur sb rs t) (hm : m.media = d.media) (hc : m.cmds = []) :
    Along G nr d m cur sb rs t where
  through := by rw [hc, Throughout.nil_iff]; exact fun _ ↦ ⟨_, _, _, _, hg⟩
  media_eq := by rw [hc, hm]; rfl
  good := by rw [hc]; exact hg

end Along

/-- A running filesystem whose log is the newest on the device. -/
structure Alive (G : Geometry) (nr : Nat) (d : Dev) (m : MetaState) : Prop where
  ok : m.Ok G
  nr_eq : m.nr = nr
  media_eq : m.media = d.media
  good : ∃ rs, Good G nr d m.metaLog m.superblock rs []

/-- The invariant of the runs. -/
structure Sys.Inv (G : Geometry) (nr : Nat) (y : Sys) : Prop where
  sound : Sound G nr y.dev
  alive : y.dev.written < 2 ^ 32 → ∀ m, y.proc = some m → Alive G nr y.dev m

/-- A roll that fits, seen from the device. -/
theorem Along.rollMetaZoneLocked {m' : MetaState} {st : Status} {frs : List FileRecord}
    (h : Along G nr d m m.metaLog m.superblock rs t) (hm : m.Ok G) (hnr : m.nr = nr)
    (hc : (roomy G).roll m (.completeFilesSnapshot frs))
    (he : m.rollMetaZoneLocked G (.completeFilesSnapshot frs) {} = (m', st)) :
    Throughout Dev.exec (Sound G nr) d m'.cmds ∧
    ((d.execAll m'.cmds).written < 2 ^ 32 → Alive G nr (d.execAll m'.cmds) m') := by
  obtain ⟨new, hf, hn, ho⟩ := hm.freeMetaZone
  have hfit := hc new hf
  have hle : G.physBlocks (.superblock m.superblock.bump) +
      G.physBlocks (.completeFilesSnapshot frs) ≤ (m.media new).maxCapacity := by
    simpa [Fits] using hfit.1
  rw [hm.rollMetaZoneLocked_eq hf hn ho hle] at he
  obtain ⟨rfl, rfl⟩ := Prod.mk.inj he
  obtain ⟨hthrough, halong⟩ := h.rolled hm hnr (hnr ▸ hn) ho hfit
  have hr := hm.beginRoll hn ho .written
  refine ⟨hthrough, fun hlt ↦ ⟨hm.rolled hn ho hle, ?_, (halong hlt).media_eq, ?_⟩⟩
  · simp [MetaState.rolled, hr.nr_eq, hnr]
  · exact ⟨[.completeFilesSnapshot frs], by simpa [MetaState.rolled] using (halong hlt).good⟩

/-- Every operation keeps the device sound after each of its commands. -/
theorem Runs.sound {y : Sys} {alive : Bool} (h : Runs G (roomy G) nr y m alive)
    (hy : y.Inv G nr) (hw : y.dev.written < 2 ^ 32) :
    Throughout Dev.exec (Sound G nr) y.dev m.cmds ∧
    ((y.dev.execAll m.cmds).written < 2 ^ 32 → Alive G nr (y.dev.execAll m.cmds) m) := by
  cases h with
  | @mount s s' v _ st frs off hv hc h =>
      obtain ⟨cur, sb, rs, t, hg⟩ := hy.sound hw
      obtain ⟨e, -, hmount⟩ := hg.mountRecover_eq
      rw [hmount] at hv
      cases hres : (replay rs e false s).toExcept with
      | error e' => simp [hres, Except.map] at hv
      | ok s'' =>
          rw [hres] at hv
          obtain ⟨rfl, rfl⟩ := Prod.mk.inj (Except.ok.inj hv)
          exact (Along.start hg rfl rfl).rollMetaZoneLocked
            (MetaState.Ok.mountState hg.nr_le hg.lt hg.ok) rfl hc h
  | @persist m₀ _ st r frs on hr hp hc h =>
      obtain ⟨hok, hnr, hmed, rs, hg⟩ := hy.alive hw m₀ on
      have hok' : MetaState.Ok G { m₀ with cmds := [] } := ⟨hok.1, hok.2, hok.3, hok.4⟩
      have hstart : Along G nr y.dev { m₀ with cmds := [] } m₀.metaLog m₀.superblock rs [] :=
        Along.start hg hmed rfl
      by_cases hcap : (m₀.zones m₀.metaLog).capacity < G.physBlocks r
      · -- no room: the record is replaced by a roll
        rw [MetaState.persistRecord_noSpace (m := { m₀ with cmds := [] }) hcap] at h
        exact hstart.rollMetaZoneLocked hok' hnr (hc hcap) h
      · have hcap := Nat.not_lt.mp hcap
        rw [MetaState.persistRecord_written (m := { m₀ with cmds := [] }) hcap] at h
        obtain ⟨rfl, rfl⟩ := Prod.mk.inj h
        obtain ⟨hle, hfin⟩ := (hok.zonesOk _ hok.metaLog_lt).fits hcap (G.physBlocks_pos r)
        have hp' : (m₀.media m₀.metaLog).blocks.length + G.physBlocks r =
          (m₀.media m₀.metaLog).maxCapacity → (m₀.media m₀.metaLog).maxCapacity = G.zoneBlocks := hp
        rw [hmed] at hle hfin hp'
        have ha := hstart.wrote (hg.append_record hr hfin hle hp')
        exact ⟨ha.through, fun _ ↦
          ⟨hok'.wrote (by simpa using hcap), hnr, ha.media_eq, rs ++ [r], ha.good⟩⟩

/-- Every step keeps the invariant. -/
theorem Sys.Step.inv {y y' : Sys} (h : Sys.Step G (roomy G) nr y y') (hy : y.Inv G nr) :
    y'.Inv G nr := by
  cases h with
  | @done m alive h =>
      refine ⟨fun hlt ↦ ?_, fun hlt m' hm' ↦ ?_⟩
      · exact (h.sound hy ((Dev.written_le_execAll _ _).trans_lt hlt)).1.last hlt
      · cases alive with
        | false => simp at hm'
        | true =>
            obtain rfl : m = m' := by simpa using hm'
            exact (h.sound hy ((Dev.written_le_execAll _ _).trans_lt hlt)).2 hlt
  | @crash m alive h k =>
      refine ⟨fun hlt ↦ ?_, fun _ _ hm' ↦ by simp at hm'⟩
      exact (h.sound hy ((Dev.written_le_execAll _ _).trans_lt hlt)).1 k hlt
  | powerOff => exact ⟨hy.sound, fun _ _ hm' ↦ by simp at hm'⟩

/-- `MkFS` leaves a device whose first zone is the newest. -/
theorem mkfs_good {caps : Nat → Nat} (hnr : 2 ≤ nr) (hcaps : ∀ i < nr, caps i ≤ G.zoneBlocks)
    (hfit : Fits G (mkfsMedia G caps 0)
      [.superblock (mkfsSuperblock G), .completeFilesSnapshot []]) :
    Good G nr (mkfs G caps) 0 (mkfsSuperblock G) [.completeFilesSnapshot []] [] where
  toSettled := settled_mkfs hnr hcaps hfit.1
  newest := rfl
  seq_le := Nat.le_refl _
  readable := .inr (reportedWp_eq rfl hfit.2)

/-- The newest metadata wins: over every run of mounts, rolls and crashes from
`MkFS` in which no roll runs out of space. -/
theorem newest_metadata_wins {caps : Nat → Nat} (hnr : 2 ≤ nr)
    (hcaps : ∀ i < nr, caps i ≤ G.zoneBlocks)
    (hfit : Fits G (mkfsMedia G caps 0)
      [.superblock (mkfsSuperblock G), .completeFilesSnapshot []])
    {y : Sys} (hy : Sys.Reachable G (roomy G) nr caps y) (hw : y.dev.written < 2 ^ 32) :
    NewestWins G nr y.dev := by
  have hinv : y.Inv G nr := by
    clear hw
    induction hy with
    | mkfs => exact ⟨fun _ ↦ ⟨_, _, _, _, mkfs_good hnr hcaps hfit⟩, fun _ _ hm ↦ by simp at hm⟩
    | step _ hs ih => exact hs.inv ih
  obtain ⟨cur, sb, rs, t, hg⟩ := hinv.sound hw
  exact hg.newestWins

end Invariant

/-! ## A roll that runs out of space -/

/-- Metadata zones of two blocks, which hold a superblock and an empty snapshot,
but no snapshot with a file in it. -/
def tinyGeometry : Geometry := { smallGeometry with zoneBlocks := 2, zoneBlocks_pos := by decide }

/-- Two of these zones behind `MkFS`, and the filesystem mounted on them. -/
def tinyMount : MetaState :=
  ((mountState tinyGeometry (mkfs tinyGeometry fun _ ↦ 2).media 2
    ⟨0, ⟨1, 4096, 2, 16⟩, 1⟩).rollMetaZoneLocked tinyGeometry (.completeFilesSnapshot []) {}).1

/-- A record is persisted while `files_` holds one file. -/
def tinyPersist (m : MetaState) : MetaState :=
  ({ m with cmds := [] }.persistRecord tinyGeometry (.fileDeletion 0 "a")
    (.completeFilesSnapshot [default]) .written {}).1

theorem tinyMount_eq :
    (mountState tinyGeometry (mkfs tinyGeometry fun _ ↦ 2).media 2
      ⟨0, ⟨1, 4096, 2, 16⟩, 1⟩).rollMetaZoneLocked tinyGeometry (.completeFilesSnapshot []) {} =
    (tinyMount, .ok) := rfl

theorem tinyPersist_eq (m : MetaState) :
    { m with cmds := [] }.persistRecord tinyGeometry (.fileDeletion 0 "a")
      (.completeFilesSnapshot [default]) .written {} =
    (tinyPersist m, ({ m with cmds := [] }.persistRecord tinyGeometry (.fileDeletion 0 "a")
      (.completeFilesSnapshot [default]) .written {}).2) := rfl

theorem newest_metadata_wins_mounted :
    NewestWins tinyGeometry 2 ((mkfs tinyGeometry fun _ ↦ 2).execAll tinyMount.cmds) := by
  have h0 : Sys.Reachable tinyGeometry (roomy tinyGeometry) 2 (fun _ ↦ 2)
      ⟨mkfs tinyGeometry fun _ ↦ 2, none⟩ := .mkfs
  have hfits : (roomy tinyGeometry).roll (mountState tinyGeometry
      (mkfs tinyGeometry fun _ ↦ 2).media 2 ⟨0, ⟨1, 4096, 2, 16⟩, 1⟩)
      (.completeFilesSnapshot []) := by
    intro i hi
    obtain rfl : 1 = i := Option.some.inj hi
    exact ⟨by decide, by decide⟩
  have h1 := h0.step
    (.done (.mount (s := Store.init ⟨4096, 8192, 0, fun _ ↦ default, fun _ ↦ 0, false⟩)
    [] rfl rfl hfits tinyMount_eq))
  exact newest_metadata_wins (by decide) (by decide) (by decide) h1 (by decide)

/-- No condition on the run. -/
def anyRun : Cond := ⟨fun _ _ ↦ True, fun _ _ ↦ True⟩

/-- The first record of a filesystem mounted on the tiny zones rolls, and the
snapshot does not fit behind the superblock.  The second goes to the zone
without a snapshot and fills it.  The third rolls to the zone that holds the
newest snapshot, and resets it. -/
theorem newest_snapshot_lost : ¬ ∀ (G : Geometry) (nr : Nat) (caps : Nat → Nat) (y : Sys), 2 ≤ nr →
    (∀ i < nr, caps i ≤ G.zoneBlocks) →
    Fits G (mkfsMedia G caps 0) [.superblock (mkfsSuperblock G), .completeFilesSnapshot []] →
    Sys.Reachable G anyRun nr caps y → y.dev.written < 2 ^ 32 → NewestWins G nr y.dev := by
  intro h
  have h0 : Sys.Reachable tinyGeometry anyRun 2 (fun _ ↦ 2) ⟨mkfs tinyGeometry fun _ ↦ 2, none⟩ :=
    .mkfs
  have h1 := h0.step
    (.done (.mount (s := Store.init ⟨4096, 8192, 0, fun _ ↦ default, fun _ ↦ 0, false⟩)
    [] rfl rfl trivial tinyMount_eq))
  have h2 := h1.step (.done (.persist (.fileDeletion 0 "a") [default] rfl rfl trivial
    (fun _ ↦ trivial) (tinyPersist_eq tinyMount)))
  have h3 := h2.step (.done (.persist (.fileDeletion 0 "a") [default] rfl rfl trivial
    (fun _ ↦ trivial) (tinyPersist_eq (tinyPersist tinyMount))))
  have h4 := h3.step (.done (.persist (.fileDeletion 0 "a") [default] rfl rfl trivial
    (fun _ ↦ trivial) (tinyPersist_eq (tinyPersist (tinyPersist tinyMount)))))
  obtain ⟨z, seq, hz, -, ⟨sb, rs, t, hb, -, r, hr, -⟩, -⟩ :=
    h _ _ _ _ (by decide) (by decide) (by decide) h4 (by decide)
  obtain rfl : 1 = z := Option.some.inj hz
  -- one block is left of it, the superblock of the last roll
  have hlen := (congrArg List.length hb.symm).trans (b := 1) rfl
  obtain ⟨a, b, rfl⟩ := List.append_of_mem hr
  have hp := tinyGeometry.physBlocks_pos (.superblock sb)
  have hq := tinyGeometry.physBlocks_pos r
  simp only [Geometry.frames_cons, Geometry.frames_append, List.length_append,
    Geometry.length_frame] at hlen
  omega

end ZenFs
