import ZenFs.Meta.State

/-!
# Settled metadata zones, and what `Mount` makes of them

Between two device commands one zone holds the log the filesystem is recovered
from, and the other zones hold what earlier rolls and crashes have left behind
(`Settled`).  `Mount` passes over the leftovers and recovers from that log.
-/

namespace ZenFs

variable {G : Geometry} {nr : Nat} {d : Media} {cur : Nat} {sb : Superblock} {rs : List Record}
  {t : List Frag}

instance : Std.Total ValidZone.before := ⟨fun a b ↦ by unfold ValidZone.before; omega⟩

instance : IsTrans ValidZone ValidZone.before :=
  ⟨fun a b c hab hbc ↦ by unfold ValidZone.before at *; omega⟩

/-- A zone opened by a superblock with the given sequence number holds a
complete snapshot. -/
def HoldsSnapshot (G : Geometry) (z : MediaZone) (seq : Nat) : Prop :=
  ∃ sb rs t, z.blocks = G.frames (.superblock sb :: rs) ++ t ∧ sb.sequence = seq ∧
    ∃ r ∈ rs, r.isSnapshot = true

/-- What a zone other than that of the log may hold: nothing that can be read,
the superblock of an unfinished roll, or a log under a smaller sequence number. -/
inductive Leftover (G : Geometry) (seq : Nat) (z : MediaZone) : Prop
  | unreadable (h : ∀ r p, readRecord G z (z.reportedWp G) 0 ≠ .ok (some r, p))
  | halfRolled (sb : Superblock) (h : z.blocks = G.frame (.superblock sb))
      (hc : sb.compatibleWith G = .ok) (hw : z.reportedWp G = z.blocks.length)
  | older (sb : Superblock) (t : List Frag) (h : z.blocks = G.frame (.superblock sb) ++ t)
      (hc : sb.compatibleWith G = .ok) (hs : sb.sequence < seq)

/-- The log of zone `cur` is `rs`, opened by the superblock `sb` and a snapshot.
It is followed by `t`, which is empty or starts with an end record. -/
structure HasLog (G : Geometry) (z : MediaZone) (sb : Superblock) (rs : List Record)
    (t : List Frag) : Prop where
  blocks : z.blocks = G.frames (.superblock sb :: rs) ++ t
  tail : t = [] ∨ ∃ u, t = G.frame .endRecord ++ u
  snapshot : ∃ frs rs', rs = .completeFilesSnapshot frs :: rs'
  noEnd : ∀ r ∈ rs, r ≠ .endRecord
  compat : sb.compatibleWith G = .ok

/-- Zone `cur` holds the log, and the others what was left behind. -/
structure Settled (G : Geometry) (nr : Nat) (d : Media) (cur : Nat) (sb : Superblock)
    (rs : List Record) (t : List Frag) : Prop where
  nr_le : 2 ≤ nr
  lt : cur < nr
  hasLog : HasLog G (d cur) sb rs t
  ok : ∀ j < nr, (d j).Ok G
  others : ∀ j < nr, j ≠ cur → Leftover G sb.sequence (d j)

/-- The first block of a zone tells its superblock. -/
theorem superblock_eq_of_blocks {z : MediaZone} {sb' : Superblock} {t' : List Frag}
    (h : z.blocks = G.frame (.superblock sb) ++ t)
    (h' : z.blocks = G.frame (.superblock sb') ++ t') : sb = sb' := by
  obtain ⟨u, hu⟩ := G.frame_eq_cons (.superblock sb)
  obtain ⟨u', hu'⟩ := G.frame_eq_cons (.superblock sb')
  rw [h, hu, hu'] at h'
  simpa using (List.cons.inj h').1

/-- The write pointer reported is never before the end of the blocks. -/
theorem MediaZone.Ok.length_le_reportedWp {z : MediaZone} (hz : z.Ok G) :
    z.blocks.length ≤ z.reportedWp G := by
  unfold MediaZone.reportedWp
  split
  · exact hz.length_le.trans hz.cap_le
  · exact Nat.le_refl _

/-- A zone that starts with a superblock is found by `Mount`. -/
theorem MediaZone.Ok.readRecord_superblock {z : MediaZone} (hz : z.Ok G)
    (h : z.blocks = G.frame (.superblock sb) ++ t) :
    readRecord G z (z.reportedWp G) 0 =
    .ok (some (.superblock sb), G.physBlocks (.superblock sb)) := by
  have hl := hz.length_le
  have hp := G.physBlocks_pos (.superblock sb)
  have hn : z.blocks.length = G.physBlocks (.superblock sb) + t.length := by simp [h]
  have hr : readRecord G z (z.reportedWp G) 0 =
      .ok (some (.superblock sb), 0 + G.physBlocks (.superblock sb)) :=
    readRecord_frame (by simpa using h) (by have := hz.length_le_reportedWp; omega)
      (by omega)
  simpa using hr

/-- A superblock that is cut short is not a record, whatever follows it. -/
theorem readRecord_torn_superblock {z : MediaZone} {wp k : Nat} {u : List Frag}
    (h : z.blocks = (G.frame (.superblock sb)).take k ++ u) (hk : k < G.physBlocks (.superblock sb))
    (hu : ∀ b ∈ u.head?, b.record ≠ .superblock sb) (h0 : k = 0 → u = []) (r : Record) (p : Nat) :
    readRecord G z wp 0 ≠ .ok (some r, p) := by
  by_cases hw : wp ≤ 0
  · simp [readRecord_eof hw]
  rcases k with _ | k
  · simp only [List.take_zero, h0 rfl, List.append_nil] at h
    by_cases hc : z.maxCapacity ≤ 0 <;> simp [readRecord, hw, h, hc]
  · obtain ⟨v, hv⟩ := G.frame_eq_cons (.superblock sb)
    obtain ⟨e, he⟩ := readRecord_torn (r := .superblock sb) (k := 0) (by rw [h, hv]; rfl)
      (by rw [List.drop_zero, h]; exact take_frame_ne hk hu) (Nat.not_le.mp hw)
    simp [he]

/-- A leftover zone with a snapshot has a smaller sequence number. -/
theorem Leftover.lt {z : MediaZone} {seq seq' : Nat} (h : Leftover G seq z) (hz : z.Ok G)
    (hs : HoldsSnapshot G z seq') : seq' < seq := by
  obtain ⟨sb', rs', t', hb, rfl, r, hr, -⟩ := hs
  rw [Geometry.frames_cons, List.append_assoc] at hb
  cases h with
  | unreadable h => exact absurd (hz.readRecord_superblock hb) (h _ _)
  | halfRolled sb h _ _ =>
      -- the superblock fills all blocks, so there is no room for a snapshot
      have he := superblock_eq_of_blocks (t := []) (by simpa using h) hb
      subst he
      rw [h] at hb
      have hn := congrArg List.length hb
      have hpos := G.physBlocks_pos r
      have hle : G.physBlocks r ≤ (G.frames rs').length := by
        obtain ⟨a, b, rfl⟩ := List.append_of_mem hr
        simp only [Geometry.frames_append, Geometry.frames_cons, List.length_append,
          Geometry.length_frame]
        omega
      simp only [List.length_append, Geometry.length_frame] at hn
      omega
  | older sb t h _ hlt => exact (superblock_eq_of_blocks h hb) ▸ hlt

/-! ## Mounting a settled device -/

/-- What the superblock loop of `Mount` finds in zone `i`. -/
def validZone (G : Geometry) (d : Media) (i : Nat) : Option ValidZone :=
  match readRecord G (d i) ((d i).reportedWp G) 0 with
  | .ok (some (.superblock sb), p) => some ⟨i, sb, p⟩
  | _ => none

/-- A zone that does not end the mount: it cannot be read, it is empty, or it
has a compatible superblock. -/
inductive Scannable (G : Geometry) (z : MediaZone) : Prop
  | unreadable {e : Status} (h : readRecord G z (z.reportedWp G) 0 = .error e)
  | empty {p : Nat} (h : readRecord G z (z.reportedWp G) 0 = .ok (none, p))
  | superblock {sb : Superblock} {p : Nat}
      (h : readRecord G z (z.reportedWp G) 0 = .ok (some (.superblock sb), p))
      (hc : sb.compatibleWith G = .ok)

theorem findSuperblocks_eq {d : Media} {is : List Nat} (h : ∀ i ∈ is, Scannable G (d i)) :
    findSuperblocks G d is = .ok (is.filterMap (validZone G d)) := by
  induction is with
  | nil => rfl
  | cons i is ih =>
      have hi := h i (List.mem_cons_self ..)
      have ih := ih fun j hj ↦ h j (List.mem_cons_of_mem _ hj)
      cases hi with
      | unreadable h => simp [findSuperblocks, h, ih, validZone]
      | empty h => simp [findSuperblocks, h, ih, validZone]
      | superblock h hc => simp [findSuperblocks, h, hc, ih, validZone]

theorem validZone_superblock {i : Nat} (hz : (d i).Ok G)
    (h : (d i).blocks = G.frame (.superblock sb) ++ t) :
    validZone G d i = some ⟨i, sb, G.physBlocks (.superblock sb)⟩ := by
  simp [validZone, hz.readRecord_superblock h]

theorem Leftover.scannable {z : MediaZone} {seq : Nat} (hz : z.Ok G) (h : Leftover G seq z) :
    Scannable G z := by
  cases h with
  | unreadable h =>
      cases hr : readRecord G z (z.reportedWp G) 0 with
      | error e => exact .unreadable hr
      | ok rp =>
          obtain ⟨_ | r, p⟩ := rp
          · exact .empty hr
          · exact absurd hr (h r p)
  | halfRolled sb h hc _ =>
      exact .superblock (hz.readRecord_superblock (t := []) (by simpa using h)) hc
  | older sb t h hc _ => exact .superblock (hz.readRecord_superblock h) hc

/-- The log of a zone can be read to its end: there is an end record, or the
write pointer that is reported is the end of what was written. -/
def Readable (G : Geometry) (z : MediaZone) (t : List Frag) : Prop :=
  t ≠ [] ∨ z.reportedWp G = z.blocks.length

instance (G : Geometry) (z : MediaZone) (t : List Frag) : Decidable (Readable G z t) :=
  inferInstanceAs (Decidable (_ ∨ _))

/-- A zone that was not finished reports where its blocks end, unless they end
at a capacity below the zone size. -/
theorem reportedWp_eq {z : MediaZone} (hf : z.finished = false)
    (h : z.blocks.length = z.maxCapacity → z.maxCapacity = G.zoneBlocks) :
    z.reportedWp G = z.blocks.length := by
  by_cases he : z.blocks.length = z.maxCapacity
  · simp [MediaZone.reportedWp, MediaZone.full, he, h he]
  · simp [MediaZone.reportedWp, MediaZone.full, he, hf]

/-- What `RecoverFrom` reads behind a superblock. -/
theorem MediaZone.Ok.reads {z : MediaZone} (hz : z.Ok G)
    (hb : z.blocks = G.frames (.superblock sb :: rs) ++ t)
    (ht : t = [] ∨ ∃ u, t = G.frame .endRecord ++ u) (hne : ∀ r ∈ rs, r ≠ .endRecord) :
    ∃ e, Reads G z (z.reportedWp G) (G.physBlocks (.superblock sb)) rs e ∧
      (Readable G z t ↔ e = none) := by
  have hl := hz.length_le
  have hn := congrArg List.length hb
  simp only [Geometry.frames_cons, List.length_append, Geometry.length_frame] at hn
  have hle := hz.length_le_reportedWp
  have hdrop : z.blocks.drop (G.physBlocks (.superblock sb)) = G.frames rs ++ t := by
    rw [hb, Geometry.frames_cons, List.append_assoc,
      List.drop_append_of_le_length (by simp), List.drop_of_length_le (by simp), List.nil_append]
  have hend : z.blocks.drop (G.physBlocks (.superblock sb) + (G.frames rs).length) = t := by
    rw [← List.drop_drop, hdrop, List.drop_append_of_le_length (Nat.le_refl _),
      List.drop_of_length_le (Nat.le_refl _), List.nil_append]
  suffices hs : ∃ e, Reads G z (z.reportedWp G)
      (G.physBlocks (.superblock sb) + (G.frames rs).length) [] e ∧ (Readable G z t ↔ e = none) by
    obtain ⟨e, hr, he⟩ := hs
    refine ⟨e, ?_, he⟩
    simpa using Reads.of_frames hne hdrop (by omega) (by omega) hr
  obtain ht | ⟨u, hu⟩ := ht
  · -- the log is open: reading goes on to the reported write pointer
    subst ht
    simp only [List.length_nil, Nat.add_zero] at hn
    by_cases hw : z.reportedWp G = z.blocks.length
    · exact ⟨none, .eof (readRecord_eof (by omega)), by simp [Readable, hw]⟩
    · obtain ⟨e, he⟩ : ∃ e, readRecord G z (z.reportedWp G)
          (G.physBlocks (.superblock sb) + (G.frames rs).length) = .error e := by
        have hnone : z.blocks[G.physBlocks (.superblock sb) + (G.frames rs).length]? = none :=
          List.getElem?_eq_none (by omega)
        have hlt : ¬ z.reportedWp G ≤ G.physBlocks (.superblock sb) + (G.frames rs).length := by
          omega
        by_cases hc : z.maxCapacity ≤ G.physBlocks (.superblock sb) + (G.frames rs).length
        · exact ⟨.ioError "Read across zone", by simp [readRecord, hlt, hc]⟩
        · exact ⟨.ioError "Not a valid record", by simp [readRecord, hlt, hc, hnone]⟩
      exact ⟨some e, .bad he, by simp [Readable, hw]⟩
  · have htne : t ≠ [] := by
      obtain ⟨v, hv⟩ := G.frame_eq_cons .endRecord
      simp [hu, hv]
    have hp := G.physBlocks_pos .endRecord
    have ht : G.physBlocks .endRecord ≤ t.length := by simp [hu]
    refine ⟨none, .ended (readRecord_frame (t := u) (hend.trans hu) (by omega) (by omega)), ?_⟩
    simp [Readable, htne]

/-- What `RecoverFrom` reads of a log. -/
theorem HasLog.reads {z : MediaZone} (h : HasLog G z sb rs t) (hz : z.Ok G) :
    ∃ e, Reads G z (z.reportedWp G) (G.physBlocks (.superblock sb)) rs e ∧
      (Readable G z t ↔ e = none) :=
  hz.reads h.blocks h.tail h.noEnd

/-- The zones tried before `v` have no snapshot, so `Mount` gets to `v`. -/
theorem tryRecover_eq {vs : List ValidZone} {v : ValidZone} (hv : v ∈ vs)
    (hs : vs.Pairwise ValidZone.before)
    (h : ∀ w ∈ vs, w ≠ v → w.before v → ∀ s,
      recoverFrom G (d w.zone) ((d w.zone).reportedWp G) w.pos s = .notFound s) (s : Store) :
    ∃ ws, (∀ w ∈ ws, w ∈ vs ∧ v.before w) ∧ tryRecover G d vs s = tryRecover G d (v :: ws) s := by
  induction vs with
  | nil => simp at hv
  | cons w ws ih =>
      obtain ⟨hw, hws⟩ := List.pairwise_cons.mp hs
      by_cases hwv : w = v
      · subst hwv
        exact ⟨ws, fun u hu ↦ ⟨List.mem_cons_of_mem _ hu, hw u hu⟩, rfl⟩
      · have hv' : v ∈ ws := (List.mem_cons.mp hv).resolve_left (Ne.symm hwv)
        have hn := h w (List.mem_cons_self ..) hwv (hw v hv') s
        obtain ⟨us, hus, he⟩ := ih hv' hws fun u hu ↦ h u (List.mem_cons_of_mem _ hu)
        refine ⟨us, fun u hu ↦ ⟨List.mem_cons_of_mem _ (hus u hu).1, (hus u hu).2⟩, ?_⟩
        rw [← he]
        simp [tryRecover, hn]

/-- If no zone before `v` can be recovered from, and the mount does not go past
`v`, then it recovers from `v` or fails. -/
theorem tryRecover_ok_eq {vs : List ValidZone} {v w : ValidZone} {s s' : Store} (hv : v ∈ vs)
    (hs : vs.Pairwise ValidZone.before)
    (h : ∀ w ∈ vs, w ≠ v → w.before v → ∀ s s',
      recoverFrom G (d w.zone) ((d w.zone).reportedWp G) w.pos s ≠ .ok s')
    (hlast : ∀ s s', recoverFrom G (d v.zone) ((d v.zone).reportedWp G) v.pos s ≠ .notFound s')
    (hok : tryRecover G d vs s = .ok (w, s')) : w = v := by
  induction vs generalizing s with
  | nil => simp at hv
  | cons u us ih =>
      obtain ⟨hu, hus⟩ := List.pairwise_cons.mp hs
      rw [tryRecover] at hok
      split at hok
      next s₁ hrec =>
        obtain ⟨rfl, rfl⟩ := Prod.mk.inj (Except.ok.inj hok)
        by_contra huv
        have hv' : v ∈ us := (List.mem_cons.mp hv).resolve_left (Ne.symm huv)
        exact h u (List.mem_cons_self ..) huv (hu v hv') s s₁ hrec
      next s₁ hrec =>
        have huv : u ≠ v := by
          rintro rfl
          exact hlast s s₁ hrec
        have hv' : v ∈ us := (List.mem_cons.mp hv).resolve_left (Ne.symm huv)
        exact ih hv' hus (fun w hw ↦ h w (List.mem_cons_of_mem _ hw)) hok
      next => cases hok

/-- A zone whose first record is not a superblock ends the mount. -/
theorem findSuperblocks_ne_ok {is : List Nat} {i p : Nat} {r : Record} {vs : List ValidZone}
    (hi : i ∈ is) (hr : readRecord G (d i) ((d i).reportedWp G) 0 = .ok (some r, p))
    (hne : ∀ sb, r ≠ .superblock sb) : findSuperblocks G d is ≠ .ok vs := by
  induction is generalizing vs with
  | nil => simp at hi
  | cons j js ih =>
      rw [findSuperblocks]
      by_cases hij : i = j
      · subst hij
        rw [hr]
        cases r <;> simp_all
      · have hmem : i ∈ js := (List.mem_cons.mp hi).resolve_left hij
        split
        · exact ih hmem
        · exact ih hmem
        · split
          next h => exact absurd h (ih hmem)
          · simp
          · simp
        · simp

/-- A zone with nothing behind its superblock has no snapshot. -/
theorem recoverFrom_halfRolled {z : MediaZone} (h : z.blocks = G.frame (.superblock sb))
    (hw : z.reportedWp G = z.blocks.length) (hz : z.Ok G) (s : Store) :
    recoverFrom G z (z.reportedWp G) (G.physBlocks (.superblock sb)) s = .notFound s := by
  have hl := hz.length_le
  simp only [h, Geometry.length_frame] at hw hl
  rw [recoverFrom_eq_replay (.eof (readRecord_eof hw.le)) hl]
  rfl

/-- Once a snapshot has been replayed, `RecoverFrom` does not report that there
is none. -/
theorem replay_ne_notFound {e : Option Status} {s s' : Store} :
    replay rs e true s ≠ .notFound s' := by
  induction rs generalizing s with
  | nil => cases e <;> simp [replay, RecoverRes.finish]
  | cons r rs ih =>
      rw [replay]
      split
      · simp
      · exact ih

/-- A leftover zone that `Mount` tries before one with sequence number `seq` has
no snapshot. -/
theorem Leftover.recoverFrom_eq {j seq : Nat} {w : ValidZone} (h : Leftover G seq (d j))
    (hz : (d j).Ok G) (hw : validZone G d j = some w) (hs : seq ≤ w.sb.sequence) (s : Store) :
    recoverFrom G (d w.zone) ((d w.zone).reportedWp G) w.pos s = .notFound s := by
  cases h with
  | unreadable h =>
      unfold validZone at hw
      split at hw
      · exact absurd ‹_› (h _ _)
      · cases hw
  | halfRolled sb h _ hwp =>
      rw [validZone_superblock hz (t := []) (by simpa using h)] at hw
      obtain rfl := Option.some.inj hw
      exact recoverFrom_halfRolled h hwp hz s
  | older sb t h _ hlt =>
      rw [validZone_superblock hz h] at hw
      obtain rfl := Option.some.inj hw
      exact absurd hs (Nat.not_le.mpr hlt)

/-- The status that `Mount` goes on with. -/
def RecoverRes.toExcept : RecoverRes → Except Status Store
  | .ok s => .ok s
  | .notFound _ => .error (.notFound "No snapshot found")
  | .failed e => .error e

/-- The other zones being leftovers, `Mount` gets to the zone `cur`. -/
theorem mountRecover_eq_tryRecover (hnr : 2 ≤ nr) (hlt : cur < nr)
    (hcur : (d cur).blocks = G.frame (.superblock sb) ++ t) (hc : sb.compatibleWith G = .ok)
    (hok : ∀ j < nr, (d j).Ok G) (hothers : ∀ j < nr, j ≠ cur → Leftover G sb.sequence (d j))
    (s : Store) :
    ∃ ws, mountRecover G d nr s =
      tryRecover G d (⟨cur, sb, G.physBlocks (.superblock sb)⟩ :: ws) s := by
  have hvalid := validZone_superblock (hok cur hlt) hcur
  have hfind : findSuperblocks G d (List.range nr) =
      .ok ((List.range nr).filterMap (validZone G d)) := by
    refine findSuperblocks_eq fun j hj ↦ ?_
    have hj := List.mem_range.mp hj
    by_cases hjc : j = cur
    · subst hjc
      exact .superblock ((hok j hj).readRecord_superblock hcur) hc
    · exact (hothers j hj hjc).scannable (hok j hj)
  have hv : (⟨cur, sb, G.physBlocks (.superblock sb)⟩ : ValidZone) ∈
      ((List.range nr).filterMap (validZone G d)).insertionSort ValidZone.before :=
    (List.mem_insertionSort _).mpr
      (List.mem_filterMap.mpr ⟨cur, List.mem_range.mpr hlt, hvalid⟩)
  -- a zone tried before `cur` has no smaller sequence number
  obtain ⟨ws, -, htry⟩ := tryRecover_eq (G := G) (d := d) hv (List.pairwise_insertionSort _ _)
    (fun w hw hwv hb s ↦ by
      obtain ⟨j, hj, hjw⟩ := List.mem_filterMap.mp ((List.mem_insertionSort _).mp hw)
      have hj := List.mem_range.mp hj
      have hjc : j ≠ cur := by
        rintro rfl
        exact hwv (Option.some.inj (hjw.symm.trans hvalid))
      refine (hothers j hj hjc).recoverFrom_eq (hok j hj) hjw ?_ s
      obtain hb | ⟨hb, -⟩ := hb
      · exact hb.le
      · exact hb.le) s
  have hne : (List.range nr).filterMap (validZone G d) ≠ [] := fun h0 ↦ by simp [h0] at hv
  refine ⟨ws, ?_⟩
  rw [← htry]
  simp only [mountRecover, hfind, Nat.not_lt.mpr hnr, if_false]

/-- `Mount` recovers from the log of a settled device. -/
theorem Settled.mountRecover_eq (h : Settled G nr d cur sb rs t) :
    ∃ e, (Readable G (d cur) t ↔ e = none) ∧ ∀ s, mountRecover G d nr s =
      (replay rs e false s).toExcept.map (Prod.mk ⟨cur, sb, G.physBlocks (.superblock sb)⟩) := by
  have hcur : (d cur).blocks = G.frame (.superblock sb) ++ (G.frames rs ++ t) := by
    rw [h.hasLog.blocks, Geometry.frames_cons, List.append_assoc]
  obtain ⟨e, hreads, he⟩ := h.hasLog.reads (h.ok cur h.lt)
  refine ⟨e, he, fun s ↦ ?_⟩
  obtain ⟨ws, hmount⟩ :=
    mountRecover_eq_tryRecover h.nr_le h.lt hcur h.hasLog.compat h.ok h.others s
  have hpos : G.physBlocks (.superblock sb) ≤ (d cur).maxCapacity := by
    have := (h.ok cur h.lt).length_le
    simp only [hcur, List.length_append, Geometry.length_frame] at this
    omega
  rw [hmount, tryRecover, recoverFrom_eq_replay hreads hpos s]
  cases hres : replay rs e false s with
  | ok s' => rfl
  | failed e' => rfl
  | notFound s' =>
      obtain ⟨frs, rs', hrs⟩ := h.hasLog.snapshot
      rw [hrs, replay] at hres
      split at hres
      · cases hres
      · exact absurd hres replay_ne_notFound

/-! ## How a settled device changes -/

theorem Leftover.mono {z : MediaZone} {seq seq' : Nat} (h : Leftover G seq z) (hs : seq ≤ seq') :
    Leftover G seq' z := by
  cases h with
  | unreadable h => exact .unreadable h
  | halfRolled sb h hc hw => exact .halfRolled sb h hc hw
  | older sb t h hc hlt => exact .older sb t h hc (hlt.trans_le hs)

theorem Leftover.empty {z : MediaZone} (seq : Nat) (h : z.blocks = []) : Leftover G seq z :=
  .unreadable (readRecord_torn_superblock (k := 0) (u := [])
    (show z.blocks = (G.frame (.superblock default)).take 0 ++ [] by simpa using h)
    (G.physBlocks_pos _) (by simp) fun _ ↦ rfl)

theorem HasLog.older {z : MediaZone} (h : HasLog G z sb rs t) {seq : Nat} (hs : sb.sequence < seq) :
    Leftover G seq z :=
  .older sb (G.frames rs ++ t) (by rw [h.blocks, Geometry.frames_cons, List.append_assoc])
    h.compat hs

/-- A record is appended to an open log. -/
theorem HasLog.append {z : MediaZone} {r : Record} (h : HasLog G z sb rs [])
    (hr : r.isUpdate = true) :
    HasLog G { z with blocks := z.blocks ++ G.frame r } sb (rs ++ [r]) [] where
  blocks := by simp [h.blocks]
  tail := .inl rfl
  snapshot := by
    obtain ⟨frs, rs', hrs⟩ := h.snapshot
    exact ⟨frs, rs' ++ [r], by simp [hrs]⟩
  noEnd := by
    intro r' h'
    obtain h' | h' := List.mem_append.mp h'
    · exact h.noEnd r' h'
    · rw [List.mem_singleton.mp h']
      exact Record.ne_endRecord_of_isUpdate hr
  compat := h.compat

namespace Settled

variable {z : MediaZone} {j : Nat}

/-- A leftover is replaced by another. -/
theorem update_other (h : Settled G nr d cur sb rs t) (hj : j ≠ cur) (hz : z.Ok G)
    (hl : Leftover G sb.sequence z) : Settled G nr (Function.update d j z) cur sb rs t where
  nr_le := h.nr_le
  lt := h.lt
  hasLog := by simpa [hj.symm] using h.hasLog
  ok := fun i hi ↦ by
    by_cases hij : i = j
    · simpa [hij] using hz
    · simpa [hij] using h.ok i hi
  others := fun i hi hic ↦ by
    by_cases hij : i = j
    · simpa [hij] using hl
    · simpa [hij] using h.others i hi hic

/-- The log grows. -/
theorem update_cur {rs' : List Record} {t' : List Frag} (h : Settled G nr d cur sb rs t)
    (hz : z.Ok G) (hl : HasLog G z sb rs' t') :
    Settled G nr (Function.update d cur z) cur sb rs' t' where
  nr_le := h.nr_le
  lt := h.lt
  hasLog := by simpa using hl
  ok := fun i hi ↦ by
    by_cases hij : i = cur
    · simpa [hij] using hz
    · simpa [hij] using h.ok i hi
  others := fun i hi hic ↦ by simpa [hic] using h.others i hi hic

/-- A log under a larger sequence number takes over. -/
theorem update_new {sb' : Superblock} {rs' : List Record} {t' : List Frag}
    (h : Settled G nr d cur sb rs t) (hj : j ≠ cur) (hlt : j < nr) (hz : z.Ok G)
    (hl : HasLog G z sb' rs' t') (hs : sb.sequence < sb'.sequence) :
    Settled G nr (Function.update d j z) j sb' rs' t' where
  nr_le := h.nr_le
  lt := hlt
  hasLog := by simpa using hl
  ok := fun i hi ↦ by
    by_cases hij : i = j
    · simpa [hij] using hz
    · simpa [hij] using h.ok i hi
  others := fun i hi hij ↦ by
    by_cases hic : i = cur
    · subst hic
      simpa [hj.symm] using h.hasLog.older hs
    · simpa [hij] using (h.others i hi hic).mono hs.le

/-- Another zone is reset. -/
theorem reset_other (h : Settled G nr d cur sb rs t) (hj : j < nr) (hjc : j ≠ cur) :
    Settled G nr (Cmd.apply (.reset j) d) cur sb rs t :=
  h.update_other hjc ⟨by simp, (h.ok j hj).cap_le⟩ (.empty _ rfl)

/-- An end record is appended to the log. -/
theorem append_end (h : Settled G nr d cur sb rs t)
    (hl : (d cur).blocks.length + 1 ≤ (d cur).maxCapacity) :
    Settled G nr (Cmd.apply (.append cur (G.frame .endRecord)) d) cur sb rs
      (t ++ G.frame .endRecord) := by
  have ht : t ++ G.frame .endRecord = [] ∨ ∃ u, t ++ G.frame .endRecord =
      G.frame .endRecord ++ u := by
    obtain rfl | ⟨u, rfl⟩ := h.hasLog.tail
    · exact .inr ⟨[], by simp⟩
    · exact .inr ⟨u ++ G.frame .endRecord, by simp⟩
  exact h.update_cur ⟨by simpa using hl, (h.ok cur h.lt).cap_le⟩
    ⟨by simp [h.hasLog.blocks], ht, h.hasLog.snapshot, h.hasLog.noEnd, h.hasLog.compat⟩

/-- The zone of the log is finished. -/
theorem finish (h : Settled G nr d cur sb rs t) :
    Settled G nr (Cmd.apply (.finish cur) d) cur sb rs t :=
  h.update_cur ⟨(h.ok cur h.lt).length_le, (h.ok cur h.lt).cap_le⟩
    ⟨h.hasLog.blocks, h.hasLog.tail, h.hasLog.snapshot, h.hasLog.noEnd, h.hasLog.compat⟩

end Settled

/-! ## `MkFS` -/

/-- The superblock that `MkFS` writes. -/
def mkfsSuperblock (G : Geometry) : Superblock := ⟨1, G.blockSize, G.zoneBlocks, G.nrZones⟩

/-- `MkFS` on zones it has reset: the first holds a superblock and an empty
snapshot. -/
def mkfsMedia (G : Geometry) (caps : Nat → Nat) : Media := fun i ↦
  { maxCapacity := caps i
    blocks := if i = 0 then
        G.frames [.superblock (mkfsSuperblock G), .completeFilesSnapshot []]
      else []
    finished := false }

/-- `MkFS` leaves a settled device. -/
theorem settled_mkfs {caps : Nat → Nat} (hnr : 2 ≤ nr) (hcaps : ∀ i < nr, caps i ≤ G.zoneBlocks)
    (hfit : (G.frames [.superblock (mkfsSuperblock G), .completeFilesSnapshot []]).length ≤
      caps 0) :
    Settled G nr (mkfsMedia G caps) 0 (mkfsSuperblock G) [.completeFilesSnapshot []] [] where
  nr_le := hnr
  lt := by omega
  hasLog :=
    { blocks := by simp [mkfsMedia]
      tail := .inl rfl
      snapshot := ⟨[], [], rfl⟩
      noEnd := by simp
      compat := by simp [Superblock.compatibleWith, mkfsSuperblock] }
  ok := fun j hj ↦ by
    refine ⟨?_, hcaps j hj⟩
    by_cases h0 : j = 0
    · subst h0
      exact hfit
    · simp [mkfsMedia, h0]
  others := fun j _ h0 ↦ .empty _ (by simp [mkfsMedia, h0])

end ZenFs
