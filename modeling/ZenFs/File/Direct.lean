import ZenFs.File.Retry

/-!
# Direct appends

A direct append writes to the active zone and counts the bytes in `file_size_`.  They
get their extent later, when `PushExtent` is called: until then they are behind
`extent_start_` in the active zone, and no read finds them.
-/

namespace ZenFs

namespace ZoneFile

/-- A file that is written directly.  The bytes that are counted and have no extent are
in the active zone. -/
structure InPieces (f : ZoneFile) (d : Zbd) : Prop extends f.Placed d where
  closed : f.activeZone = none → f.fileSize = totalLength f.extents
  filepos : ∀ i, f.activeZone = some i → f.extentFilepos = totalLength f.extents ∧
    f.extentFilepos ≤ f.fileSize
  tail : ∀ i, f.activeZone = some i → f.extentFilepos < f.fileSize →
    d.Inside ⟨f.extentStart, f.fileSize - f.extentFilepos, i⟩

variable {f f' : ZoneFile} {d d' : Zbd} {i : ZoneId} {data : List Byte}

/-- Without bytes behind the last extent it does not matter where the next one starts. -/
theorem InPieces.setFile (h : f.InPieces d) (hsize : f.fileSize = totalLength f.extents)
    (hz : d.SameZones d') (hx : f'.extents = f.extents) (hsz : f'.fileSize = f.fileSize)
    (hfp : f'.extentFilepos = f.extentFilepos)
    (ha : f'.activeZone = f.activeZone ∨ f'.activeZone = none) : f'.InPieces d' where
  toPlaced := h.toPlaced.sameZones hz hx (by
    intro j hj
    rcases ha with ha | ha
    · exact h.active j (ha ▸ hj)
    · cases ha.symm.trans hj)
  closed _ := by rw [hsz, hx, hsize]
  filepos := by
    intro j hj
    rcases ha with ha | ha
    · rw [hfp, hx, hsz]
      exact h.filepos j (ha ▸ hj)
    · cases ha.symm.trans hj
  tail := by
    intro j hj hlt
    rcases ha with ha | ha
    · have := (h.filepos j (ha ▸ hj)).1
      omega
    · cases ha.symm.trans hj

/-- The file has no active zone, and `AllocateNewZone` makes `i` its active zone. -/
theorem InPieces.allocate (h : f.InPieces d) (hnone : f.activeZone = none)
    (he : d.eligible i = true) (hz : d.SameZones d') (hx : f'.extents = f.extents)
    (hsz : f'.fileSize = f.fileSize)
    (hfp : f'.extentFilepos = f.fileSize) (ha : f'.activeZone = some i) : f'.InPieces d' where
  toPlaced := h.toPlaced.sameZones hz hx (by
    intro j hj
    obtain rfl := Option.some.inj (ha.symm.trans hj)
    simp only [Zbd.eligible, Bool.and_eq_true, decide_eq_true_eq] at he
    exact he.1.1)
  closed hno := by cases hno.symm.trans ha
  filepos := by
    intro j _
    rw [hfp, hx, hsz]
    exact ⟨h.closed hnone, le_rfl⟩
  tail := by
    intro j _ hlt
    omega

/-- A first part of a write to the active zone arrives. -/
theorem InPieces.appended (h : f.InPieces d) (ha : f.activeZone = some i)
    (hd : data.length ≤ (d.zones i).capacity) : f.InPieces (d.appended i data) where
  toPlaced := h.toPlaced.appended (h.active i ha) hd
  closed := h.closed
  filepos := h.filepos
  tail j hj hlt := (h.tail j hj hlt).appended

end ZoneFile

namespace OpenFile

/-- The bytes behind the last extent. -/
def pending (s : OpenFile) : List Byte :=
  match s.file.activeZone with
  | none => []
  | some _ => s.zbd.mem.read s.file.extentStart (s.file.fileSize - s.file.extentFilepos)

/-- The bytes of the file, with an extent or without. -/
def written (s : OpenFile) : List Byte := s.stored ++ s.pending

section

variable {s : OpenFile} {i : ZoneId} {data : List Byte}

theorem pending_of_some (ha : s.file.activeZone = some i) :
    s.pending = s.zbd.mem.read s.file.extentStart (s.file.fileSize - s.file.extentFilepos) := by
  rw [pending, ha]

theorem pending_eq_nil (h : s.file.InPieces s.zbd)
    (hsize : s.file.fileSize = totalLength s.file.extents) : s.pending = [] := by
  cases ha : s.file.activeZone with
  | none => rw [pending, ha]
  | some i =>
      rw [pending_of_some ha, (h.filepos i ha).1, hsize, Nat.sub_self, Mem.read_zero]

/-! ## Extents and zones -/

/-- Behind `PushExtent` all bytes have an extent. -/
theorem pushExtent_spec (h : s.file.InPieces s.zbd) :
    SameWriter s s.pushExtent ∧ s.pushExtent.file.InPieces s.pushExtent.zbd ∧
      s.pushExtent.file.fileSize = totalLength s.pushExtent.file.extents ∧
      s.pushExtent.stored = s.written := by
  cases ha : s.file.activeZone with
  | none =>
      rw [pushExtent, ha]
      refine ⟨.refl s, h, h.closed ha, ?_⟩
      rw [written, pending_eq_nil h (h.closed ha), List.append_nil]
  | some i =>
      obtain ⟨hfp, hle⟩ := h.filepos i ha
      rw [pushExtent, ha]
      simp only
      split
      · rename_i h0
        have hsize : s.file.fileSize = totalLength s.file.extents := by omega
        refine ⟨.refl s, h, hsize, ?_⟩
        rw [written, pending_eq_nil h hsize, List.append_nil]
      · rename_i h0
        have hz := s.zbd.sameZones_addUsed i (s.file.fileSize - s.file.extentFilepos)
        have htail := h.tail i ha (by omega)
        have hsize : s.file.fileSize =
            totalLength (s.file.extents ++
              [⟨s.file.extentStart, s.file.fileSize - s.file.extentFilepos, i⟩]) := by
          simp only [totalLength_append, totalLength_cons, totalLength_nil]
          omega
        refine ⟨⟨rfl, rfl, rfl, rfl, rfl, rfl, rfl, rfl⟩,
          ⟨⟨hz.sane h.sane, ?_, ?_⟩, fun _ ↦ hsize, ?_, ?_⟩, hsize, ?_⟩
        · intro e he
          rcases List.mem_append.mp he with he | he
          · exact hz.inside (h.inside e he)
          · obtain rfl := List.mem_singleton.mp he
            exact hz.inside htail
        · intro j hj
          exact h.active j hj
        · intro j _
          exact ⟨hsize, le_rfl⟩
        · intro j _ hlt
          exact absurd hlt (lt_irrefl _)
        · show s.zbd.contents (s.file.extents ++ [_]) = s.stored ++ s.pending
          rw [pending_of_some ha, Zbd.contents_append, Zbd.contents_cons, Zbd.contents_nil,
            List.append_nil]
          rfl

theorem written_pushExtent (h : s.file.InPieces s.zbd) : s.pushExtent.written = s.written := by
  obtain ⟨-, hpush, hsize, hstored⟩ := pushExtent_spec h
  rw [written, pending_eq_nil hpush hsize, List.append_nil, hstored]

/-- The active zone is released behind `PushExtent`. -/
theorem closeActiveZone_spec (h : s.file.InPieces s.zbd)
    (hsize : s.file.fileSize = totalLength s.file.extents) :
    SameWriter s s.closeActiveZone.1 ∧ s.closeActiveZone.1.file.InPieces s.closeActiveZone.1.zbd ∧
      s.closeActiveZone.1.file.activeZone = none ∧ s.closeActiveZone.1.written = s.written := by
  obtain ⟨d, fl, hz, heq⟩ := s.closeActiveZone_cases
  rw [heq]
  refine ⟨⟨rfl, rfl, rfl, rfl, rfl, rfl, rfl, rfl⟩,
    h.setFile hsize hz rfl rfl rfl (.inr rfl), rfl, ?_⟩
  rw [written, written, pending_eq_nil h hsize]
  exact congrArg (· ++ []) (hz.contents _)

/-- The write pointer of the active zone is behind the last byte of the file. -/
def AtEnd (s : OpenFile) (i : ZoneId) : Prop :=
  s.file.activeZone = some i ∧
    (s.zbd.zones i).wp = s.file.extentStart + (s.file.fileSize - s.file.extentFilepos)

theorem allocateNewZone_spec (h : s.file.InPieces s.zbd) (hnone : s.file.activeZone = none) :
    SameWriter s s.allocateNewZone.1 ∧ s.allocateNewZone.1.file.InPieces s.allocateNewZone.1.zbd ∧
      s.allocateNewZone.1.written = s.written ∧
      (s.allocateNewZone.2 = .ok → ∃ i, s.allocateNewZone.1.AtEnd i) := by
  rcases s.allocateNewZone_cases with ⟨hst, fl, heq⟩ | ⟨i, fl, he, heq⟩
  · rw [heq]
    exact ⟨⟨rfl, rfl, rfl, rfl, rfl, rfl, rfl, rfl⟩, h, rfl, fun hok ↦ absurd hok hst⟩
  · rw [heq]
    have hz := s.zbd.sameZones_setBusy i true
    have hpieces : (s.setActiveZone i).file.InPieces (s.setActiveZone i).zbd :=
      h.allocate hnone he hz rfl rfl rfl rfl
    refine ⟨⟨rfl, rfl, rfl, rfl, rfl, rfl, rfl, rfl⟩, hpieces, ?_, fun _ ↦ ⟨i, rfl, ?_⟩⟩
    · show (s.setActiveZone i).written = s.written
      rw [written, written, pending_eq_nil h (h.closed hnone),
        pending_eq_nil hpieces (h.closed hnone)]
      rfl
    · show ((s.zbd.setBusy i true).zones i).wp = (s.zbd.zones i).wp +
        (s.file.fileSize - s.file.fileSize)
      rw [Nat.sub_self, Nat.add_zero, hz.wp]

/-! ## The loop -/

/-- A first part of the data is written, and all of it if the append succeeds. -/
structure Wrote (s : OpenFile) (data : List Byte) (r : OpenFile × Status) : Prop where
  same : SameWriter s r.1
  pieces : r.1.file.InPieces r.1.zbd
  written : ∃ k ≤ data.length, r.1.written = s.written ++ data.take k ∧
    (r.2 = .ok → k = data.length)

/-- A write to the active zone leaves the bytes of the file alone. -/
theorem written_appended (h : s.file.InPieces s.zbd) (ha : s.file.activeZone = some i)
    (hd : data.length ≤ (s.zbd.zones i).capacity) :
    (s.zbd.appended i data).contents s.file.extents = s.stored ∧
      (s.zbd.appended i data).mem.read s.file.extentStart (s.file.fileSize - s.file.extentFilepos) =
        s.pending := by
  have hi := h.active i ha
  refine ⟨h.sane.contents_appended hi hd h.inside, ?_⟩
  rw [pending_of_some ha]
  rcases Nat.lt_or_ge s.file.extentFilepos s.file.fileSize with hlt | hge
  · exact h.sane.read_appended hi hd (h.tail i ha hlt)
  · rw [Nat.sub_eq_zero_of_le hge, Mem.read_zero, Mem.read_zero]

/-- All of the data has arrived in the zone, and is counted. -/
theorem count_spec (h : s.file.InPieces s.zbd) (hend : s.AtEnd i)
    (hd : data.length ≤ (s.zbd.zones i).capacity) (fl : Faults) :
    let s' := { s with
      zbd := s.zbd.appended i data, faults := fl
      file := { s.file with fileSize := s.file.fileSize + data.length } }
    s'.file.InPieces s'.zbd ∧ s'.written = s.written ++ data ∧ s'.AtEnd i := by
  obtain ⟨ha, hwp⟩ := hend
  have hi := h.active i ha
  obtain ⟨hfp, hle⟩ := h.filepos i ha
  have hsane := h.sane.wp i hi
  have hzone : ((s.zbd.appended i data).zones i).wp = (s.zbd.zones i).wp + data.length := by
    rw [Zbd.appended_zones, if_pos rfl]
  have hstart : ((s.zbd.appended i data).zones i).start = (s.zbd.zones i).start := by
    rw [Zbd.appended_zones, if_pos rfl]
  obtain ⟨hstored, hpending⟩ := written_appended h ha hd
  have hplaced := h.toPlaced.appended hi hd
  refine ⟨⟨⟨hplaced.sane, hplaced.inside, hplaced.active⟩, ?_, ?_, ?_⟩, ?_, ha, ?_⟩
  · intro hno
    cases hno.symm.trans ha
  · intro j _
    exact ⟨hfp, hle.trans (Nat.le_add_right _ _)⟩
  · intro j hj hlt
    obtain rfl := Option.some.inj (ha.symm.trans hj)
    refine ⟨hi, ?_, ?_⟩
    · show ((s.zbd.appended i data).zones i).start ≤ s.file.extentStart
      rw [hstart]
      rcases Nat.lt_or_ge s.file.extentFilepos s.file.fileSize with hlt | hge
      · exact (h.tail i ha hlt).start
      · omega
    · show s.file.extentStart + (s.file.fileSize + data.length - s.file.extentFilepos) ≤
        ((s.zbd.appended i data).zones i).wp
      rw [hzone]
      omega
  · have hback := Mem.read_write s.zbd.mem (s.zbd.zones i).wp data
    rw [written, written, pending, ha]
    show (s.zbd.appended i data).contents s.file.extents ++ (s.zbd.appended i data).mem.read
      s.file.extentStart
      (s.file.fileSize + data.length - s.file.extentFilepos) = s.stored ++ s.pending ++ data
    rw [Nat.sub_add_comm hle, Mem.read_add, hstored, hpending, ← hwp, Zbd.appended_mem, hback,
      List.append_assoc]
  · show ((s.zbd.appended i data).zones i).wp =
      s.file.extentStart + (s.file.fileSize + data.length - s.file.extentFilepos)
    rw [hzone]
    omega

/-- A full zone is left for another one. -/
theorem nextZone_spec (h : s.file.InPieces s.zbd) (hend : s.AtEnd i) :
    let x := if (s.zbd.zones i).capacity = 0 then
    andThen s.pushExtent.closeActiveZone allocateNewZone
      else (s, .ok)
    SameWriter s x.1 ∧ x.1.file.InPieces x.1.zbd ∧ x.1.written = s.written ∧
      (x.2 = .ok → ∃ i, x.1.AtEnd i) := by
  simp only
  split
  · obtain ⟨hsame, hpush, hsize, -⟩ := pushExtent_spec h
    have hwritten := written_pushExtent h
    obtain ⟨hsame', hclose, hnone, hwritten'⟩ := closeActiveZone_spec hpush hsize
    refine andThen_induct (P := fun x ↦ SameWriter s x.1 ∧ x.1.file.InPieces x.1.zbd ∧
      x.1.written = s.written ∧ (x.2 = .ok → ∃ i, x.1.AtEnd i)) ?_ ?_
    · intro hst
      exact ⟨hsame.trans hsame', hclose, hwritten'.trans hwritten, fun hok ↦ absurd hok hst⟩
    · intro _
      obtain ⟨hsame'', halloc, hwritten'', hend'⟩ := allocateNewZone_spec hclose hnone
      exact ⟨(hsame.trans hsame').trans hsame'', halloc,
        hwritten''.trans (hwritten'.trans hwritten), hend'⟩
  · exact ⟨.refl s, h, rfl, fun _ ↦ ⟨i, hend⟩⟩

theorem Wrote.of_error {s' : OpenFile} {st : Status} (hst : st ≠ .ok) (same : SameWriter s s')
    (pieces : s'.file.InPieces s'.zbd) (hwritten : s'.written = s.written) :
    Wrote s data (s', st) where
  same := same
  pieces := pieces
  written := ⟨0, Nat.zero_le _, by simpa using hwritten, fun hok ↦ absurd hok hst⟩

/-- The rest of the data is written behind the first `n` bytes. -/
theorem Wrote.of_drop {s' : OpenFile} {n : Nat} {r : OpenFile × Status}
    (h : Wrote s' (data.drop n) r)
    (hn : n ≤ data.length) (same : SameWriter s s')
    (hwritten : s'.written = s.written ++ data.take n) : Wrote s data r where
  same := same.trans h.same
  pieces := h.pieces
  written := by
    obtain ⟨k, hk, hk', hok⟩ := h.written
    rw [List.length_drop] at hk hok
    refine ⟨n + k, by omega, ?_, fun hst ↦ by have := hok hst; omega⟩
    rw [hk', hwritten, List.take_add, List.append_assoc]

theorem appendLoop_wrote (fuel : Nat) :
    ∀ (s : OpenFile) (data : List Byte) (i : ZoneId), s.file.InPieces s.zbd → s.AtEnd i →
      Wrote s data (appendLoop fuel s data) := by
  induction fuel with
  | zero =>
      intro s data i h _
      exact Wrote.of_error (by simp) (.refl s) h rfl
  | succ fuel ih =>
      intro s data i h hend
      rw [appendLoop]
      split
      · rename_i hnil
        subst hnil
        exact ⟨.refl s, h, 0, le_rfl, by simp, fun _ ↦ rfl⟩
      · simp only [hend.1]
        obtain ⟨hsame, hpieces, hwritten, hend'⟩ := nextZone_spec h hend
        generalize (if (s.zbd.zones i).capacity = 0 then andThen s.pushExtent.closeActiveZone
          allocateNewZone else (s, .ok)) = x at hsame hpieces hwritten hend'
        obtain ⟨s₁, st₁⟩ := x
        refine andThen_induct (P := Wrote s data)
          (fun hst ↦ Wrote.of_error hst hsame hpieces hwritten) ?_
        intro hst
        obtain ⟨j, hj⟩ := hend' hst
        simp only at hsame hpieces hwritten hj
        simp only [hj.1]
        generalize hm : min data.length (s₁.zbd.zones j).capacity = m
        have hlen : (data.take m).length = m := by
          rw [List.length_take]
          omega
        obtain ⟨n, fl, hn, hcap, happ, hok⟩ := s₁.zoneAppend_cases j (data.take m)
        generalize s₁.zoneAppend j (data.take m) = y at happ hok
        obtain ⟨s₂, st₂⟩ := y
        simp only at happ hok
        subst happ
        refine andThen_induct (P := Wrote s data) ?_ ?_
        · -- the bytes that did arrive are not counted
          intro hst₂
          have hd : ((data.take m).take n).length ≤ (s₁.zbd.zones j).capacity := by
            rw [List.length_take]
            omega
          obtain ⟨hstored, hpending⟩ := written_appended hpieces hj.1 hd
          refine Wrote.of_error hst₂ (hsame.trans ⟨rfl, rfl, rfl, rfl, rfl, rfl, rfl, rfl⟩)
            (hpieces.appended hj.1 hd) ?_
          rw [← hwritten, written, written, ← hstored, ← hpending, pending, hj.1]
          rfl
        · intro hst₂
          obtain rfl : n = (data.take m).length := hok hst₂
          rw [List.take_length]
          have hcount := count_spec hpieces hj hcap fl
          rw [hlen] at hcount
          obtain ⟨hpieces', hwritten', hend''⟩ := hcount
          refine (ih _ (data.drop m) j hpieces' hend'').of_drop (by omega)
            (hsame.trans ⟨rfl, rfl, rfl, rfl, rfl, rfl, rfl, rfl⟩) ?_
          rw [hwritten', hwritten]

theorem appendDirect_wrote (h : s.file.InPieces s.zbd) (hlt : data.length < 2 ^ 32)
    (hend : data ≠ [] → ∀ i, s.file.activeZone = some i → s.AtEnd i) :
    Wrote s data (s.appendDirect data) := by
  have hmod : data.take (data.length % 2 ^ 32) = data := by
    rw [Nat.mod_eq_of_lt hlt, List.take_length]
  rw [appendDirect, hmod]
  cases ha : s.file.activeZone with
  | none =>
      obtain ⟨hsame, hpieces, hwritten, hend'⟩ := allocateNewZone_spec h ha
      refine andThen_induct (P := Wrote s data)
        (fun hst ↦ Wrote.of_error hst hsame hpieces hwritten) ?_
      intro hst
      obtain ⟨i, hi⟩ := hend' hst
      refine Wrote.of_drop (n := 0) (appendLoop_wrote _ _ data i hpieces hi)
        (Nat.zero_le _) hsame ?_
      rw [hwritten, List.take_zero, List.append_nil]
  | some i =>
      rcases eq_or_ne data [] with rfl | hne
      · exact ⟨.refl s, h, 0, le_rfl, by simp [appendLoop], fun _ ↦ rfl⟩
      · exact appendLoop_wrote _ s data i h (hend hne i ha)

end

end OpenFile

end ZenFs
