import ZenFs.Meta.Mount
import ZenFs.Lib.Throughout

/-!
# Crashes and failures inside a roll

A roll is cut short by a crash, at the granularity of single blocks, or by an
append that fails.  Either way the device is left with some number of blocks of
the new log (`RollImage`), and what `Mount` makes of it depends on that number:
it falls back to the old log up to the end of the superblock, recovers from the
new one once the snapshot is complete, and fails in between.
-/

namespace ZenFs

/-- `Mount` succeeds, and the log it recovers from holds exactly `log`. -/
def RecoversLog (G : Geometry) (d : Media) (nr : Nat) (log : List Record) (s : Store) : Prop :=
  ∃ v s', mountRecover G d nr s = .ok (v, s') ∧
    Reads G (d v.zone) ((d v.zone).reportedWp G) v.pos log none ∧ replay log none false s = .ok s'

section

variable {G : Geometry} {nr : Nat} {d : Media} {cur : Nat} {sb : Superblock} {rs : List Record}
  {t : List Frag} {s : Store}

/-- Reading a zone has one outcome. -/
theorem Reads.unique {z : MediaZone} {wp pos : Nat} {rs' : List Record} {e e' : Option Status}
    (h : Reads G z wp pos rs e) (h' : Reads G z wp pos rs' e') : rs = rs' ∧ e = e' := by
  induction h generalizing rs' e' with
  | eof h => cases h' <;> simp_all
  | ended h => cases h' <;> simp_all
  | bad h => cases h' <;> simp_all
  | cons h hr _ ih =>
      cases h' with
      | cons h'' _ t' =>
          rw [h] at h''
          obtain ⟨rfl, rfl⟩ : _ ∧ _ := by simpa using h''
          obtain ⟨rfl, rfl⟩ := ih t'
          exact ⟨rfl, rfl⟩
      | _ => simp_all

/-- A log that ends in an error is not recovered from. -/
theorem replay_some_ne_ok {e : Status} {snap : Bool} {s' : Store} :
    replay rs (some e) snap s ≠ .ok s' := by
  induction rs generalizing snap s with
  | nil => simp [replay]
  | cons r rs ih =>
      rw [replay]
      split
      · simp
      · exact ih

/-- What `Mount` recovers from a settled device. -/
theorem Settled.recoversLog_iff (h : Settled G nr d cur sb rs t) {s₁ : Store}
    (hs : replay rs none false s = .ok s₁) (log : List Record) :
    RecoversLog G d nr log s ↔ log = rs ∧ Readable G (d cur) t := by
  obtain ⟨e, he, hmount⟩ := h.mountRecover_eq
  obtain ⟨e', hreads, he'⟩ := h.hasLog.reads (h.ok cur h.lt)
  constructor
  · rintro ⟨v, s', hv, hlog, -⟩
    rw [hmount] at hv
    have hr : Readable G (d cur) t := by
      rw [he]
      cases e with
      | none => rfl
      | some e =>
          cases hres : replay rs (some e) false s with
          | ok s' => exact absurd hres replay_some_ne_ok
          | notFound s' => simp [hres, RecoverRes.toExcept, Except.map] at hv
          | failed e' => simp [hres, RecoverRes.toExcept, Except.map] at hv
    rw [he.mp hr, hs] at hv
    obtain ⟨rfl, rfl⟩ := Prod.mk.inj (Except.ok.inj hv)
    exact ⟨(hlog.unique hreads).1, hr⟩
  · rintro ⟨rfl, hr⟩
    rw [he.mp hr] at hmount
    rw [he'.mp hr] at hreads
    exact ⟨_, s₁, by rw [hmount, hs]; rfl, hreads, hs⟩

/-- A zone that is tried first and cannot be read behind its superblock ends the
mount. -/
theorem mountRecover_eq_error (hnr : 2 ≤ nr) (hlt : cur < nr)
    (hcur : (d cur).blocks = G.frame (.superblock sb) ++ t) (hc : sb.compatibleWith G = .ok)
    (hok : ∀ j < nr, (d j).Ok G) (hothers : ∀ j < nr, j ≠ cur → Leftover G sb.sequence (d j))
    {e : Status}
    (hr : readRecord G (d cur) ((d cur).reportedWp G) (G.physBlocks (.superblock sb)) = .error e) :
    mountRecover G d nr s = .error (.corruption "Metadata corruption") := by
  obtain ⟨ws, hmount⟩ := mountRecover_eq_tryRecover hnr hlt hcur hc hok hothers s
  have hpos : G.physBlocks (.superblock sb) ≤ (d cur).maxCapacity := by
    have := (hok cur hlt).length_le
    simp only [hcur, List.length_append, Geometry.length_frame] at this
    omega
  rw [hmount, tryRecover, recoverFrom_eq_replay (.bad hr) hpos]
  rfl

end

/-! ## The zone a roll writes to -/

section Image

variable {G : Geometry} {m : MetaState} {frs : List FileRecord} {rs : List Record}
  {d : Media} {new n : Nat} {R : Prop} {s s₁ s₂ : Store}

/-- The blocks that a roll writes to its new zone. -/
def newLog (G : Geometry) (m : MetaState) (frs : List FileRecord) : List Frag :=
  G.frame (.superblock m.superblock.bump) ++ G.frame (.completeFilesSnapshot frs)

/-- The first block behind the new superblock. -/
abbrev sbBlocks (G : Geometry) (m : MetaState) : Nat := G.physBlocks (.superblock m.superblock.bump)

/-- A device on which zone `new` is ready for the new log.  `R` tells whether
the old log can be read to its end. -/
structure RollReady (G : Geometry) (m : MetaState) (rs : List Record) (R : Prop) (d : Media)
    (new : Nat) : Prop where
  lt : new < m.nr
  ne : new ≠ m.metaLog
  settled : ∃ t, Settled G m.nr d m.metaLog m.superblock rs t ∧ (Readable G (d m.metaLog) t ↔ R)
  blocks : (d new).blocks = []
  finished : (d new).finished = false
  seq_lt : m.superblock.sequence < m.superblock.bump.sequence

/-- A zone with other blocks on it. -/
def MediaZone.holding (z : MediaZone) (bs : List Frag) : MediaZone :=
  ⟨z.maxCapacity, bs, z.finished⟩

section Fields

variable (z : MediaZone) (bs : List Frag)

@[simp] theorem MediaZone.holding_maxCapacity : (z.holding bs).maxCapacity = z.maxCapacity := rfl
@[simp] theorem MediaZone.holding_blocks : (z.holding bs).blocks = bs := rfl
@[simp] theorem MediaZone.holding_finished : (z.holding bs).finished = z.finished := rfl

end Fields

/-- The first `n` blocks of the new log have reached zone `new`. -/
def rollImage (G : Geometry) (m : MetaState) (frs : List FileRecord) (d : Media) (new n : Nat) :
    Media :=
  Function.update d new ((d new).holding ((newLog G m frs).take n))

/-- The blocks of zone `new` do not end at a capacity below the zone size. -/
def EndsClean (G : Geometry) (z : MediaZone) (n : Nat) : Prop :=
  n = z.maxCapacity → z.maxCapacity = G.zoneBlocks

instance (G : Geometry) (z : MediaZone) (n : Nat) : Decidable (EndsClean G z n) :=
  inferInstanceAs (Decidable (_ → _))

/-- A zone that was not finished can be read unless it ends at a capacity below
the zone size. -/
theorem readable_holding_iff {z : MediaZone} (hf : z.finished = false) (bs : List Frag) :
    Readable G (z.holding bs) [] ↔ EndsClean G z bs.length := by
  simp only [Readable, ne_eq, not_true_eq_false, false_or]
  refine ⟨fun hw he ↦ ?_, fun hc ↦ reportedWp_eq hf hc⟩
  simp only [MediaZone.holding_blocks] at hw
  rw [← he, ← hw]
  simp [MediaZone.reportedWp, MediaZone.full, ← he]

/-- A snapshot of which only the first blocks are there is not a record. -/
theorem readRecord_snapshot_torn {z : MediaZone} {r r' : Record} {k wp : Nat} {u : List Frag}
    (hz : z.blocks = G.frame r ++ ((G.frame r').take k ++ u)) (hk : 0 < k)
    (hk' : k < G.physBlocks r') (hu : ∀ b ∈ u.head?, b.record ≠ r') (hwp : G.physBlocks r < wp) :
    ∃ e, readRecord G z wp (G.physBlocks r) = .error e := by
  have hdrop : z.blocks.drop (G.physBlocks r) = (G.frame r').take k ++ u := by
    rw [hz, List.drop_append_of_le_length (by simp), List.drop_of_length_le (by simp),
      List.nil_append]
  obtain ⟨j, rfl⟩ := Nat.exists_eq_succ_of_ne_zero hk.ne'
  obtain ⟨v, hv⟩ := G.frame_eq_cons r'
  refine readRecord_torn (r := r') (k := 0) ?_ (hdrop ▸ take_frame_ne hk' hu) hwp
  have h0 : (z.blocks.drop (G.physBlocks r))[0]? = some ⟨r', 0⟩ := by rw [hdrop, hv]; rfl
  simpa using h0

namespace RollReady

variable (h : RollReady G m rs R d new)

include h

private theorem others : ∀ j < m.nr, j ≠ new →
    Leftover G m.superblock.bump.sequence (d j) := by
  intro j hj hjn
  obtain ⟨t, hs, -⟩ := h.settled
  by_cases hjo : j = m.metaLog
  · subst hjo
    exact hs.hasLog.older h.seq_lt
  · exact (hs.others j hj hjo).mono h.seq_lt.le

/-- A leftover in zone `new` does not get in the way of the old log. -/
theorem recoversLog_iff_of_leftover (hs : replay rs none false s = .ok s₁) {z : MediaZone}
    (hz : z.Ok G) (hl : Leftover G m.superblock.sequence z) (log : List Record) :
    RecoversLog G (Function.update d new z) m.nr log s ↔ log = rs ∧ R := by
  obtain ⟨t, hset, hR⟩ := h.settled
  rw [(hset.update_other h.ne hz hl).recoversLog_iff hs, Function.update_of_ne h.ne.symm, hR]

/-- A zone `new` that cannot be read behind the new superblock ends the mount. -/
theorem not_recoversLog {z : MediaZone} (hz : z.Ok G) {u : List Frag}
    (hb : z.blocks = G.frame (.superblock m.superblock.bump) ++ u) {e : Status}
    (hr : readRecord G z (z.reportedWp G) (sbBlocks G m) = .error e) (log : List Record) :
    ¬ RecoversLog G (Function.update d new z) m.nr log s := by
  rintro ⟨v, s', hv, -⟩
  obtain ⟨t, hset, -⟩ := h.settled
  have hcur : (Function.update d new z new).blocks =
      G.frame (.superblock m.superblock.bump) ++ u := by
    simpa using hb
  rw [mountRecover_eq_error hset.nr_le h.lt hcur hset.hasLog.compat
    (fun j hj ↦ ?_) (fun j hj hjn ↦ ?_)
    (show _ = Except.error e by simpa using hr)] at hv
  · cases hv
  · by_cases hjn : j = new
    · simpa [hjn] using hz
    · simpa [hjn] using hset.ok j hj
  · simpa [hjn] using h.others j hj hjn

/-- With all of the new log there, it takes over. -/
theorem settled_new (hcap : (newLog G m frs).length ≤ (d new).maxCapacity) :
    Settled G m.nr (rollImage G m frs d new (newLog G m frs).length) new m.superblock.bump
      [.completeFilesSnapshot frs] [] := by
  obtain ⟨t, hset, -⟩ := h.settled
  have hz : ((d new).holding (newLog G m frs)).Ok G := ⟨hcap, (hset.ok new h.lt).cap_le⟩
  rw [rollImage, List.take_length]
  exact hset.update_new h.ne h.lt hz
    ⟨by simp [newLog], .inl rfl, ⟨frs, [], rfl⟩, by simp, hset.hasLog.compat⟩ h.seq_lt

/-- What `Mount` recovers when the first `n` blocks of the new log are there. -/
theorem recoversLog_iff (hs : replay rs none false s = .ok s₁)
    (hs' : n = (newLog G m frs).length →
      replay [.completeFilesSnapshot frs] none false s = .ok s₂)
    (hn : n ≤ (newLog G m frs).length) (hcap : n ≤ (d new).maxCapacity) (log : List Record) :
    RecoversLog G (rollImage G m frs d new n) m.nr log s ↔
      (log = rs ∧ n ≤ sbBlocks G m ∧ R ∧ (n = sbBlocks G m → EndsClean G (d new) n)) ∨
      (log = [.completeFilesSnapshot frs] ∧ n = (newLog G m frs).length ∧
        EndsClean G (d new) n) := by
  obtain ⟨t, hset, -⟩ := h.settled
  have hok := hset.ok new h.lt
  have hq := G.physBlocks_pos (.completeFilesSnapshot frs)
  have hlen : (newLog G m frs).length = sbBlocks G m + G.physBlocks
      (.completeFilesSnapshot frs) := by
    simp [newLog]
  rw [hlen] at hn ⊢
  have hz : ((d new).holding ((newLog G m frs).take n)).Ok G :=
    ⟨by simpa [hlen] using Or.inl hcap, hok.cap_le⟩
  have hzl : ((newLog G m frs).take n).length = n := by
    rw [List.length_take, hlen]; omega
  have hfull := reportedWp_eq (G := G) (z := (d new).holding ((newLog G m frs).take n))
    h.finished
  simp only [MediaZone.holding_blocks, MediaZone.holding_maxCapacity, hzl] at hfull
  rcases Nat.lt_or_ge n (sbBlocks G m) with hnp | hnp
  · -- the superblock is cut short
    have htake : (newLog G m frs).take n = (G.frame (.superblock m.superblock.bump)).take
        n ++ [] := by
      rw [newLog, List.take_append_of_le_length (by simpa using hnp.le), List.append_nil]
    rw [rollImage, h.recoversLog_iff_of_leftover hs hz
      (.unreadable (readRecord_torn_superblock htake hnp (by simp) fun _ ↦ rfl))]
    simp only [hnp.le, hnp.ne, true_and, false_imp_iff, and_true, iff_self_or]
    omega
  have htake : (newLog G m frs).take n = G.frame (.superblock m.superblock.bump) ++
      (G.frame (.completeFilesSnapshot frs)).take (n - sbBlocks G m) := by
    rw [newLog, List.take_append, List.take_of_length_le (by simpa using hnp),
      Geometry.length_frame]
  rcases Nat.eq_or_lt_of_le hnp with hnp | hnp
  · -- the superblock alone
    subst hnp
    rw [Nat.sub_self, List.take_zero, List.append_nil] at htake
    by_cases hc : EndsClean G (d new) (sbBlocks G m)
    · rw [rollImage, h.recoversLog_iff_of_leftover hs hz
        (.halfRolled _ htake hset.hasLog.compat (by simpa [hzl] using hfull hc))]
      simp [hc]
      omega
    · -- it fills a zone whose write pointer is reported at the zone size
      obtain ⟨he, hne⟩ := Classical.not_imp.mp hc
      have hlt := lt_of_le_of_ne hok.cap_le hne
      have hr : readRecord G ((d new).holding ((newLog G m frs).take (sbBlocks G m)))
          (((d new).holding ((newLog G m frs).take (sbBlocks G m))).reportedWp G)
          (sbBlocks G m) = .error (.ioError "Read across zone") := by
        have hw : ¬ G.zoneBlocks ≤ sbBlocks G m := by omega
        simp [readRecord, MediaZone.reportedWp, MediaZone.full, hzl, ← he, hw]
      have := h.not_recoversLog (s := s) hz (u := []) (by simpa using htake) hr log
      refine iff_of_false this ?_
      rintro (⟨-, -, -, hx⟩ | ⟨-, hx, -⟩)
      · exact hc (hx rfl)
      · omega
  rcases Nat.eq_or_lt_of_le hn with hnq | hnq
  · -- the complete new log
    rw [← hlen] at hnq
    subst hnq
    rw [(h.settled_new hcap).recoversLog_iff (hs' rfl), rollImage, Function.update_self,
      readable_holding_iff h.finished, hzl]
    simp [Nat.not_le.mpr hnp, ← hlen]
  · -- the snapshot is cut short
    have hwp : sbBlocks G m < ((d new).holding ((newLog G m frs).take n)).reportedWp G := by
      have := hok.cap_le
      simp only [MediaZone.reportedWp, MediaZone.holding_blocks, hzl]
      split <;> omega
    obtain ⟨e, he⟩ := readRecord_snapshot_torn (z := (d new).holding ((newLog G m frs).take n))
      (u := []) (by simpa using htake) (by omega) (by omega) (by simp) hwp
    have := h.not_recoversLog (s := s) hz htake he log
    simp only [rollImage, this, false_iff]
    omega

end RollReady

end Image

/-! ## Crash points -/

/-- A command as the device carries it out: an append block by block. -/
def Cmd.blockwise : Cmd → List Cmd
  | .append i fs => fs.map fun f ↦ .append i [f]
  | c => [c]

/-- The first `k` single steps of a list of commands. -/
def cutAfter (k : Nat) (cs : List Cmd) : List Cmd := (cs.flatMap Cmd.blockwise).take k

/-- The number of single steps that write a block to zone `i`. -/
def blocksTo (i : Nat) (cs : List Cmd) : Nat :=
  cs.countP fun
    | .append j _ => j = i
    | _ => false

/-- Block by block or at once, an append writes the same. -/
theorem applyAll_blockwise (i : Nat) (fs : List Frag) (d : Media) :
    applyAll (fs.map fun f ↦ .append i [f]) d =
      Function.update d i ((d i).holding ((d i).blocks ++ fs)) := by
  induction fs generalizing d with
  | nil => simp [MediaZone.holding]
  | cons f fs ih =>
      rw [List.map_cons, applyAll_cons, ih]
      simp [Cmd.apply, MediaZone.holding]

theorem blocksTo_blockwise (i : Nat) (fs : List Frag) :
    blocksTo i (fs.map fun f ↦ .append i [f]) = fs.length := by
  simp [blocksTo, List.countP_map, List.countP_eq_length]

@[simp] theorem blocksTo_append (i : Nat) (cs cs' : List Cmd) :
    blocksTo i (cs ++ cs') = blocksTo i cs + blocksTo i cs' := by
  simp [blocksTo]

theorem applyAll_flatMap_blockwise (cs : List Cmd) (d : Media) :
    applyAll (cs.flatMap Cmd.blockwise) d = applyAll cs d := by
  induction cs generalizing d with
  | nil => rfl
  | cons c cs ih =>
      rw [List.flatMap_cons, applyAll_append, ih, applyAll_cons]
      cases c with
      | append i fs => rw [Cmd.blockwise, applyAll_blockwise]; rfl
      | _ => rfl

section Cut

variable {G : Geometry} {m : MetaState} {frs : List FileRecord} {rs : List Record} {t : List Frag}
  {d : Media} {new : Nat} {s s₁ s₂ : Store}

/-- A filesystem that is about to roll: its zone objects agree with the device,
the zone of `meta_log_` holds its log, and fewer than `2 ^ 32` superblocks have
been written. -/
structure Running (G : Geometry) (m : MetaState) (rs : List Record) (t : List Frag) : Prop where
  ok : m.Ok G
  settled : Settled G m.nr m.media m.metaLog m.superblock rs t
  seq_lt : m.superblock.sequence + 1 < 2 ^ 32
  cmds_eq : m.cmds = []

/-- Nothing has been written to zone `new`, and the old log is as readable as it
was. -/
structure Begun (G : Geometry) (m : MetaState) (rs : List Record) (R : Prop) (new : Nat)
    (done : List Cmd) : Prop where
  settled : ∃ t, Settled G m.nr (applyAll done m.media) m.metaLog m.superblock rs t ∧
    (Readable G (applyAll done m.media m.metaLog) t ↔ R)
  blocksTo_eq : blocksTo new done = 0

namespace Begun

variable {R : Prop} {done : List Cmd}

theorem reset (h : Begun G m rs R new done) (hn : new < m.nr) (ho : new ≠ m.metaLog) :
    Begun G m rs R new (done ++ [.reset new]) where
  settled := by
    obtain ⟨t, hs, hR⟩ := h.settled
    refine ⟨t, by simpa using hs.reset_other hn ho, ?_⟩
    simpa [Cmd.apply, ho.symm] using hR
  blocksTo_eq := by simpa [blocksTo] using h.blocksTo_eq

/-- The end record, and the finish behind it. -/
theorem close (h : Begun G m rs R new done) (hR : R) (ho : new ≠ m.metaLog)
    (hl : (applyAll done m.media m.metaLog).blocks.length + 1 ≤
      (applyAll done m.media m.metaLog).maxCapacity) :
    Begun G m rs R new (done ++ [.append m.metaLog (G.frame .endRecord)]) ∧
    Begun G m rs R new (done ++ [.append m.metaLog (G.frame .endRecord)] ++
      [.finish m.metaLog]) := by
  obtain ⟨t, hs, -⟩ := h.settled
  have hend := hs.append_end hl
  have hne : t ++ G.frame .endRecord ≠ [] := by
    obtain ⟨u, hu⟩ := G.frame_eq_cons .endRecord
    simp [hu]
  have hb := h.blocksTo_eq
  refine ⟨⟨⟨_, by simpa using hend, iff_of_true (.inl hne) hR⟩, ?_⟩,
    ⟨⟨_, by simpa using hend.finish, iff_of_true (.inl hne) hR⟩, ?_⟩⟩
  · simpa [blocksTo, ho.symm] using hb
  · simpa [blocksTo, ho.symm] using hb

end Begun

theorem Geometry.frame_endRecord (G : Geometry) : G.frame .endRecord = [⟨.endRecord, 0⟩] := by
  simp [Geometry.frame]

/-- A zone that the filesystem can still write to is readable. -/
theorem MetaState.ZonesOk.readable {i : Nat} (h : m.ZonesOk G) (hi : i < m.nr)
    (hc : (m.zones i).capacity ≠ 0) : Readable G (m.media i) t := by
  obtain ⟨hl, hf⟩ := (h i hi).fits (n := 1) (by omega) Nat.one_pos
  exact .inr (reportedWp_eq hf fun he ↦ by omega)

/-- Up to the writes to the new zone, a roll leaves the old log recoverable. -/
theorem Running.begun (h : Running G m rs t) (hn : new < m.nr) (ho : new ≠ m.metaLog) (k : Nat) :
    Begun G m rs (Readable G (m.media m.metaLog) t) new
      (cutAfter k (m.beginRoll G new .written).cmds) := by
  have h0 : Begun G m rs (Readable G (m.media m.metaLog) t) new [] :=
    ⟨⟨t, h.settled, Iff.rfl⟩, rfl⟩
  suffices hs : Throughout (fun l c ↦ l ++ [c])
      (Begun G m rs (Readable G (m.media m.metaLog) t) new) []
      ((m.beginRoll G new .written).cmds.flatMap Cmd.blockwise) by
    simpa [cutAfter] using Throughout.prefixes_iff.mp hs k
  rw [MetaState.beginRoll_cmds ho, h.cmds_eq, List.nil_append, List.flatMap_append,
    Throughout.append_iff]
  -- the new zone is reset unless it is empty
  have ha : Throughout (fun l c ↦ l ++ [c])
      (Begun G m rs (Readable G (m.media m.metaLog) t) new) []
      ((if (m.zones new).wp = 0 then [] else [Cmd.reset new]).flatMap Cmd.blockwise) := by
    split
    · exact Throughout.nil_iff.mpr h0
    · exact Throughout.cons_iff.mpr ⟨h0, Throughout.nil_iff.mpr (h0.reset hn ho)⟩
  -- and the old zone is closed if there is space left
  have hclose : ∀ done, Begun G m rs (Readable G (m.media m.metaLog) t) new done →
      applyAll done m.media m.metaLog = m.media m.metaLog →
      Throughout (fun l c ↦ l ++ [c]) (Begun G m rs (Readable G (m.media m.metaLog) t) new) done
        ((if (m.zones m.metaLog).capacity = 0 then []
          else Cmd.append m.metaLog (G.frame .endRecord) ::
            if (m.zones m.metaLog).capacity = 1 then []
            else [Cmd.finish m.metaLog]).flatMap Cmd.blockwise) := by
    intro done hd hold
    by_cases hc : (m.zones m.metaLog).capacity = 0
    · simpa [hc] using Throughout.nil_iff.mpr hd
    · obtain ⟨h1, h2⟩ := hd.close (h.ok.zonesOk.readable h.ok.metaLog_lt hc) ho (by
        rw [hold]
        exact ((h.ok.zonesOk _ h.ok.metaLog_lt).fits (n := 1) (by omega) Nat.one_pos).1)
      rw [G.frame_endRecord] at h1 h2
      by_cases hc' : (m.zones m.metaLog).capacity = 1
      · rw [if_neg hc, if_pos hc', List.flatMap_singleton, G.frame_endRecord]
        exact Throughout.cons_iff.mpr ⟨hd, Throughout.nil_iff.mpr h1⟩
      · rw [if_neg hc, if_neg hc', List.flatMap_cons, List.flatMap_singleton, G.frame_endRecord]
        exact Throughout.cons_iff.mpr
          ⟨hd, Throughout.cons_iff.mpr ⟨h1, Throughout.nil_iff.mpr h2⟩⟩
  refine ⟨ha, hclose _ ha.last ?_⟩
  split <;> simp [Cmd.blockwise, Cmd.apply, ho.symm]

/-- The device when the new log is about to be written. -/
theorem Running.rollReady (h : Running G m rs t) (hn : new < m.nr) (ho : new ≠ m.metaLog) :
    RollReady G m rs (Readable G (m.media m.metaLog) t) (m.beginRoll G new .written).media new := by
  have hr := h.ok.beginRoll hn ho .written
  have htr : (m.beginRoll G new .written).media =
      applyAll (m.beginRoll G new .written).cmds m.media :=
    MetaState.Traced.beginRoll (by rw [MetaState.Traced, h.cmds_eq]; rfl) _
  obtain ⟨⟨t', hs, hR⟩, -⟩ := h.begun hn ho
    ((m.beginRoll G new .written).cmds.flatMap Cmd.blockwise).length
  rw [cutAfter, List.take_length, applyAll_flatMap_blockwise, ← htr] at hs hR
  refine ⟨hn, ho, ⟨t', hs, hR⟩, hr.blocks_new, hr.finished_new, ?_⟩
  have hb : m.superblock.bump.sequence = m.superblock.sequence + 1 := Nat.mod_eq_of_lt h.seq_lt
  omega

/-- What `Mount` recovers, by the number `n` of blocks of the new log that have
reached zone `z`: the old log as long as there is no more than the superblock,
the snapshot once it is complete, nothing in between. -/
def RollOutcome (G : Geometry) (m : MetaState) (frs : List FileRecord) (rs : List Record)
    (R : Prop) (z : MediaZone) (n : Nat) (log : List Record) : Prop :=
  (log = rs ∧ n ≤ sbBlocks G m ∧ R ∧ (n = sbBlocks G m → EndsClean G z n)) ∨
  (log = [.completeFilesSnapshot frs] ∧ n = (newLog G m frs).length ∧ EndsClean G z n)

/-- The commands of a roll: up to the writes to the new zone, and behind that
what fits of the new log. -/
theorem MetaState.Ok.rollMetaZoneLocked_cmds (h : m.Ok G) (hf : m.freeMetaZone = some new)
    (hn : new < m.nr) (ho : new ≠ m.metaLog) :
    (m.rollMetaZoneLocked G (.completeFilesSnapshot frs) {}).1.cmds =
      (m.beginRoll G new .written).cmds ++
        if (m.media new).maxCapacity < sbBlocks G m then []
        else .append new (G.frame (.superblock m.superblock.bump)) ::
          if (m.media new).maxCapacity < (newLog G m frs).length then []
          else [.append new (G.frame (.completeFilesSnapshot frs)), .reset m.metaLog] := by
  have hr := h.beginRoll hn ho .written
  by_cases h1 : (m.media new).maxCapacity < sbBlocks G m
  · rw [if_pos h1, List.append_nil]
    rw [← hr.capacity_new] at h1
    simp [MetaState.rollMetaZoneLocked, hf, Superblock.encodeTo, addRecord_noSpace h1]
  have h1' : sbBlocks G m ≤ ((m.beginRoll G new .written).zones new).capacity := by
    rw [hr.capacity_new]; exact Nat.not_lt.mp h1
  have hcap : (((m.beginRoll G new .written).wrote new
      (G.frame (.superblock m.superblock.bump))).zones new).capacity =
      (m.media new).maxCapacity - sbBlocks G m := by
    simp [MetaState.wrote, hr.capacity_new]
  rw [if_neg h1]
  by_cases h2 : (m.media new).maxCapacity < (newLog G m frs).length
  · have h2' : (((m.beginRoll G new .written).wrote new
        (G.frame (.superblock m.superblock.bump))).zones new).capacity <
        G.physBlocks (.completeFilesSnapshot frs) := by
      rw [hcap]
      simp only [newLog, List.length_append, Geometry.length_frame] at h2
      simp only [sbBlocks] at h1 ⊢
      omega
    simp [MetaState.rollMetaZoneLocked, hf, Superblock.encodeTo, addRecord_written h1',
      addRecord_noSpace h2', h2]
  · rw [h.rollMetaZoneLocked_eq hf hn ho (by simpa [newLog] using h2)]
    simp [MetaState.rolled, h2]

/-- A cut leaves a prefix of the first commands, or all of them and a prefix of
the others. -/
theorem cutAfter_append (k : Nat) (cs cs' : List Cmd) :
    cutAfter k (cs ++ cs') = cutAfter k cs ∨
    ∃ j, cutAfter k (cs ++ cs') = cs.flatMap Cmd.blockwise ++ cutAfter j cs' := by
  simp only [cutAfter, List.flatMap_append, List.take_append]
  rcases Nat.le_total k (cs.flatMap Cmd.blockwise).length with hk | hk
  · exact .inl (by rw [Nat.sub_eq_zero_of_le hk, List.take_zero, List.append_nil])
  · exact .inr ⟨k - (cs.flatMap Cmd.blockwise).length, by rw [List.take_of_length_le hk]⟩

/-- The new log is written block by block. -/
theorem Running.applyAll_newLog (h : Running G m rs t) (hn : new < m.nr) (ho : new ≠ m.metaLog)
    (j : Nat) :
    applyAll ((m.beginRoll G new .written).cmds.flatMap Cmd.blockwise ++
        ((newLog G m frs).take j).map fun f ↦ .append new [f]) m.media =
      rollImage G m frs (m.beginRoll G new .written).media new j := by
  have htr : (m.beginRoll G new .written).media =
      applyAll (m.beginRoll G new .written).cmds m.media :=
    MetaState.Traced.beginRoll (by rw [MetaState.Traced, h.cmds_eq]; rfl) _
  rw [applyAll_append, applyAll_flatMap_blockwise, ← htr, applyAll_blockwise,
    (h.ok.beginRoll hn ho .written).blocks_new, List.nil_append, rollImage]

/-- What `Mount` recovers after a crash inside a roll. -/
theorem Running.recoversLog_cutAfter (h : Running G m rs t) (hf : m.freeMetaZone = some new)
    (hs : replay rs none false s = .ok s₁)
    (hs' : replay [.completeFilesSnapshot frs] none false s = .ok s₂) (k : Nat)
    (log : List Record) :
    RecoversLog G
      (applyAll (cutAfter k (m.rollMetaZoneLocked G (.completeFilesSnapshot frs) {}).1.cmds)
        m.media) m.nr log s ↔
      RollOutcome G m frs rs (Readable G (m.media m.metaLog) t) (m.media new)
        (blocksTo new (cutAfter k (m.rollMetaZoneLocked G (.completeFilesSnapshot frs) {}).1.cmds))
        log := by
  obtain ⟨new', hf', hn, ho⟩ := h.ok.freeMetaZone
  obtain rfl : new = new' := Option.some.inj (hf.symm.trans hf')
  have hp := G.physBlocks_pos (.superblock m.superblock.bump)
  have hready := h.rollReady hn ho
  have hr := h.ok.beginRoll hn ho .written
  have hb0 : blocksTo new ((m.beginRoll G new .written).cmds.flatMap Cmd.blockwise) = 0 := by
    have := (h.begun hn ho
      ((m.beginRoll G new .written).cmds.flatMap Cmd.blockwise).length).blocksTo_eq
    rwa [cutAfter, List.take_length] at this
  have hclean : ∀ n, EndsClean G ((m.beginRoll G new .written).media new) n ↔
      EndsClean G (m.media new) n := by
    simp [EndsClean, hr.maxCapacity_eq]
  -- the first `j` blocks of the new log, when they fit
  have hwrite : ∀ j ≤ (newLog G m frs).length, j ≤ (m.media new).maxCapacity →
      (RecoversLog G (applyAll ((m.beginRoll G new .written).cmds.flatMap Cmd.blockwise ++
        ((newLog G m frs).take j).map fun f ↦ .append new [f]) m.media) m.nr log s ↔
      RollOutcome G m frs rs (Readable G (m.media m.metaLog) t) (m.media new)
        (blocksTo new ((m.beginRoll G new .written).cmds.flatMap Cmd.blockwise ++
          ((newLog G m frs).take j).map fun f ↦ .append new [f])) log) := by
    intro j hj hc
    rw [h.applyAll_newLog hn ho, blocksTo_append, hb0, blocksTo_blockwise, Nat.zero_add,
      List.length_take, Nat.min_eq_left hj,
      hready.recoversLog_iff hs (fun _ ↦ hs') hj (by rwa [hr.maxCapacity_eq])]
    simp only [RollOutcome, hclean]
  rw [h.ok.rollMetaZoneLocked_cmds hf hn ho]
  obtain hcut | ⟨j, hcut⟩ := cutAfter_append k (m.beginRoll G new .written).cmds _
  · -- before anything has been written to the new zone
    rw [hcut]
    obtain ⟨⟨t', hset, hR⟩, hb⟩ := h.begun hn ho k
    rw [hset.recoversLog_iff hs, hR, hb]
    simp only [RollOutcome, Nat.zero_le, true_and, hp.ne, false_imp_iff, and_true, iff_self_or]
    rintro ⟨-, h0, -⟩
    simp only [newLog, List.length_append, Geometry.length_frame] at h0
    omega
  rw [hcut]
  by_cases h1 : (m.media new).maxCapacity < sbBlocks G m
  · -- not even the superblock fits
    simpa [h1, cutAfter] using hwrite 0 (Nat.zero_le _) (Nat.zero_le _)
  by_cases h2 : (m.media new).maxCapacity < (newLog G m frs).length
  · -- the superblock fits, the snapshot does not
    have htake : cutAfter j [.append new (G.frame (.superblock m.superblock.bump))] =
        ((newLog G m frs).take (min j (sbBlocks G m))).map fun f ↦ .append new [f] := by
      rw [cutAfter, List.flatMap_singleton, Cmd.blockwise, ← List.map_take, newLog,
        List.take_append_of_le_length (by simp), ← List.take_take,
        List.take_of_length_le (by simp : (G.frame _).length ≤ sbBlocks G m)]
    rw [if_neg h1, if_pos h2, htake]
    exact hwrite _ (by simp [newLog]) (by omega)
  have hall : cutAfter j [.append new (G.frame (.superblock m.superblock.bump)),
      .append new (G.frame (.completeFilesSnapshot frs)), .reset m.metaLog] =
      (((newLog G m frs).map fun f ↦ Cmd.append new [f]) ++ [Cmd.reset m.metaLog]).take j := by
    simp [cutAfter, Cmd.blockwise, newLog]
  rw [if_neg h1, if_neg h2, hall]
  rcases Nat.lt_or_ge (newLog G m frs).length j with hj | hj
  · -- the old zone has been reset
    have himg : applyAll _ m.media = rollImage G m frs _ new _ :=
      h.applyAll_newLog hn ho (newLog G m frs).length
    rw [List.take_length] at himg
    have hcap : (newLog G m frs).length ≤
        ((m.beginRoll G new .written).media new).maxCapacity := by
      rw [hr.maxCapacity_eq]; omega
    have hset := (hready.settled_new hcap).reset_other h.ok.metaLog_lt ho.symm
    have hq := G.physBlocks_pos (.completeFilesSnapshot frs)
    have hlt : ¬ (newLog G m frs).length ≤ sbBlocks G m := by
      simp only [newLog, List.length_append, Geometry.length_frame, sbBlocks]
      omega
    rw [List.take_of_length_le (by simp; omega), ← List.append_assoc, applyAll_append, himg,
      applyAll_cons, applyAll_nil, hset.recoversLog_iff hs', blocksTo_append, blocksTo_append, hb0,
      blocksTo_blockwise]
    simp only [Cmd.apply, rollImage, Function.update_of_ne ho, Function.update_self,
      List.take_length, readable_holding_iff hr.finished_new, hclean, RollOutcome]
    simp [blocksTo, hlt]
  · rw [List.take_append_of_le_length (by simpa using hj), ← List.map_take]
    exact hwrite j hj (by omega)

/-- The crash points of a roll from which `Mount` recovers: no more than the new
superblock has been written and the old log can be read, or the snapshot is
complete.  In both cases the blocks of the new zone must not end at a capacity
below the zone size. -/
def CrashSafe (G : Geometry) (m : MetaState) (frs : List FileRecord) (t : List Frag) (new n : Nat) :
    Prop :=
  (n ≤ sbBlocks G m ∧ Readable G (m.media m.metaLog) t ∧
    (n = sbBlocks G m → EndsClean G (m.media new) n)) ∨
  (n = (newLog G m frs).length ∧ EndsClean G (m.media new) n)

instance (G : Geometry) (m : MetaState) (frs : List FileRecord) (t : List Frag) (new n : Nat) :
    Decidable (CrashSafe G m frs t new n) :=
  inferInstanceAs (Decidable (_ ∨ _))

end Cut

/-- A filesystem on two zones of eight blocks behind `MkFS`, about to roll. -/
def smallState : MetaState :=
  mountState smallGeometry (mkfsMedia smallGeometry fun _ ↦ 8) 2
    ⟨0, mkfsSuperblock smallGeometry, 1⟩

/-- The namespace of a fresh `ZenFS` object on a device without IO zones. -/
def smallStore : Store := Store.init ⟨4096, 32768, 0, fun _ ↦ default, fun _ ↦ 0, false⟩

/-- The snapshot of one empty file. -/
def smallFile : FileRecord := { (default : FileRecord) with fileId := 1, linkfiles := ["a"] }

theorem running_smallState :
    Running smallGeometry smallState [.completeFilesSnapshot []] [] := by
  have hset : Settled smallGeometry 2 smallState.media 0 (mkfsSuperblock smallGeometry)
      [.completeFilesSnapshot []] [] :=
    settled_mkfs (by decide) (by decide) (by decide)
  exact ⟨.mountState (by decide) (by decide) hset.ok, hset, by decide, rfl⟩

theorem smallState_freeMetaZone : smallState.freeMetaZone = some 1 := rfl

end ZenFs
