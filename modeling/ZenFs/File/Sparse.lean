import ZenFs.Fs.Mount
import ZenFs.Lib.Loop
import ZenFs.File.Retry

/-!
# Recovery of sparse extents

Where the segments lie that `RecoverSparseExtents` walks over, and when the walk comes
to an end between its bounds.
-/

namespace ZenFs

namespace SparseScan

variable {dev : Nat → Option (List Byte)} {block_sz stop : Nat} {i : ZoneId} {s s' t : SparseScan}

/-- The loop drops no extent. -/
theorem extents_prefix_of_head (h : Loop.Head (turn dev block_sz stop i) s t) :
    s.extents <+: t.extents := by
  refine h.invariant (I := fun t ↦ s.extents <+: t.extents) (List.prefix_refl _) ?_
  intro t t' ht hturn
  obtain ⟨-, buffer, -, -, rfl⟩ := turn_eq_inr.mp hturn
  exact ht.trans (List.prefix_append _ _)

theorem extents_prefix_of_run {fuel : Nat} {r : SparseScan × Status}
    (h : Loop.run (turn dev block_sz stop i) fuel s = some r) : s.extents <+: r.1.extents := by
  obtain ⟨t, ht, hr⟩ := Loop.exists_head h
  exact turn_eq_inl hr ▸ extents_prefix_of_head ht

/-! ## Segments -/

/-- Where a segment may lie if the segments in front of it are what their headers say:
its header is at `pos`. -/
inductive SegmentAt (dev : Nat → Option (List Byte)) (block_sz start stop : Nat) : Nat → Prop
  | start : SegmentAt dev block_sz start stop start
  | next {pos : Nat} {buffer : List Byte} (h : SegmentAt dev block_sz start stop pos)
      (hlt : pos < stop) (hdev : dev pos = some buffer) (h0 : decodeFixed64 buffer ≠ 0) :
      SegmentAt dev block_sz start stop
        (pos + (decodeFixed64 buffer + SPARSE_HEADER_SIZE +
          padSize block_sz (decodeFixed64 buffer + SPARSE_HEADER_SIZE)))

/-- No header promises more than there is in front of `stop`. -/
def SegmentsFit (dev : Nat → Option (List Byte)) (block_sz start stop : Nat) : Prop :=
  ∀ pos buffer, SegmentAt dev block_sz start stop pos → pos < stop → dev pos = some buffer →
    decodeFixed64 buffer ≠ 0 → pos + SPARSE_HEADER_SIZE + decodeFixed64 buffer ≤ stop

/-- The call returns, what it adds lies between `start` and `stop`, and the space it has
counted is not more than what is there. -/
def Robust (dev : Nat → Option (List Byte)) (block_sz stop : Nat) (i : ZoneId) (memory : Bool)
    (s : SparseScan) : Prop :=
  ∃ fuel s' st, recoverSparseExtents dev block_sz stop i memory fuel s = some (s', st) ∧
    (∃ added, s'.extents = s.extents ++ added ∧
      ∀ e ∈ added, s.next_extent_start ≤ e.start ∧ e.start + e.length ≤ stop) ∧
    s'.zone.usedCapacity ≤ s.zone.usedCapacity + (stop - s.next_extent_start)

section Word

variable {n : Nat}

theorem segmentStep_eq (hb : 0 < block_sz) (h : n + SPARSE_HEADER_SIZE < 2 ^ 64) :
    segmentStep block_sz n =
      n + SPARSE_HEADER_SIZE + padSize block_sz (n + SPARSE_HEADER_SIZE) := by
  rw [segmentStep, Nat.mod_eq_of_lt h, padSize, Nat.add_mul]
  have hlt := Nat.mod_lt (n + SPARSE_HEADER_SIZE) hb
  have hdiv := Nat.div_add_mod (n + SPARSE_HEADER_SIZE) block_sz
  rw [Nat.mul_comm] at hdiv
  split <;> omega

/-- An extent that lies in front of the end is where its header says, and the next header
is behind it. -/
theorem push_of_le (hb : SPARSE_HEADER_SIZE ≤ block_sz) (hend : stop + block_sz ≤ 2 ^ 64)
    (h : s.next_extent_start + SPARSE_HEADER_SIZE + n ≤ stop) :
    (s.push block_sz i n).next_extent_start =
        s.next_extent_start +
          (n + SPARSE_HEADER_SIZE + padSize block_sz (n + SPARSE_HEADER_SIZE)) ∧
      s.extent i n = ⟨s.next_extent_start + SPARSE_HEADER_SIZE, n, i⟩ := by
  have hpos : 0 < block_sz := Nat.lt_of_lt_of_le (by decide) hb
  have hpad := padSize_lt (n := n + SPARSE_HEADER_SIZE) hpos
  refine ⟨?_, ?_⟩
  · rw [push, segmentStep_eq hpos (by omega), Nat.mod_eq_of_lt (by omega)]
  · rw [extent, Nat.mod_eq_of_lt (by omega)]

theorem push_eq (hb : SPARSE_HEADER_SIZE ≤ block_sz) (hend : stop + block_sz ≤ 2 ^ 64)
    (h : s.next_extent_start + SPARSE_HEADER_SIZE + n ≤ stop) :
    s.push block_sz i n =
      { next_extent_start := s.next_extent_start +
          (n + SPARSE_HEADER_SIZE + padSize block_sz (n + SPARSE_HEADER_SIZE))
        extents := s.extents ++ [⟨s.next_extent_start + SPARSE_HEADER_SIZE, n, i⟩]
        zone := { s.zone with usedCapacity := s.zone.usedCapacity + n } } := by
  obtain ⟨hnext, hextent⟩ := push_of_le (i := i) hb hend h
  rw [← hnext, ← hextent]
  rfl

/-- The start of an extent in front of the end of the device never wraps around. -/
theorem extent_start (hb : SPARSE_HEADER_SIZE ≤ block_sz) (hend : stop + block_sz ≤ 2 ^ 64)
    (h : s.next_extent_start < stop) :
    (s.extent i n).start = s.next_extent_start + SPARSE_HEADER_SIZE :=
  Nat.mod_eq_of_lt (by omega)

end Word

section Fit

variable (hb : SPARSE_HEADER_SIZE ≤ block_sz) (hend : stop + block_sz ≤ 2 ^ 64)
include hb hend

/-! ## Segments that fit -/

/-- What holds at the head of the loop, entered in `s`, if all segments fit. -/
structure Within (dev : Nat → Option (List Byte)) (block_sz stop : Nat) (s t : SparseScan) :
    Prop where
  segment : SegmentAt dev block_sz s.next_extent_start stop t.next_extent_start
  le : s.next_extent_start ≤ t.next_extent_start
  added : ∃ added, t.extents = s.extents ++ added ∧
    ∀ e ∈ added, s.next_extent_start ≤ e.start ∧ e.start + e.length ≤ stop
  used : t.zone.usedCapacity ≤
    s.zone.usedCapacity + (min t.next_extent_start stop - s.next_extent_start)

theorem Within.turn (hfit : SegmentsFit dev block_sz s.next_extent_start stop)
    (h : Within dev block_sz stop s t) (ht : turn dev block_sz stop i t = .inr s') :
    Within dev block_sz stop s s' ∧ t.next_extent_start < s'.next_extent_start := by
  obtain ⟨hlt, buffer, hdev, h0, rfl⟩ := turn_eq_inr.mp ht
  have hle := hfit _ buffer h.segment hlt hdev h0
  obtain ⟨hnext, hextent⟩ := push_of_le (i := i) hb hend hle
  obtain ⟨added, hadded, hin⟩ := h.added
  have hused := h.used
  have hstart := h.le
  refine ⟨⟨?_, ?_, ?_, ?_⟩, ?_⟩
  · rw [hnext]
    exact h.segment.next hlt hdev h0
  · rw [hnext]
    omega
  · refine ⟨added ++ [t.extent i (decodeFixed64 buffer)], ?_, ?_⟩
    · rw [push, hadded, List.append_assoc]
    · intro e he
      rcases List.mem_append.mp he with he | he
      · exact hin e he
      · rw [List.mem_singleton.mp he, hextent]
        exact ⟨Nat.le_add_right_of_le hstart, hle⟩
  · have hpush : (t.push block_sz i (decodeFixed64 buffer)).zone.usedCapacity =
        t.zone.usedCapacity + decodeFixed64 buffer := rfl
    rw [hpush, hnext]
    omega
  · rw [hnext]
    omega

theorem SegmentsFit.robust (hfit : SegmentsFit dev block_sz s.next_extent_start stop) :
    Robust dev block_sz stop i true s := by
  have hs : Within dev block_sz stop s s :=
    ⟨.start, Nat.le_refl _, ⟨[], by simp, by simp⟩, Nat.le_add_right _ _⟩
  have hhead : ∀ t, Loop.Head (turn dev block_sz stop i) s t → Within dev block_sz stop s t :=
    fun t ht ↦ ht.invariant hs fun h hturn ↦ (h.turn hb hend hfit hturn).1
  have hmeasure : ∀ t, Loop.Head (turn dev block_sz stop i) s t →
      ∀ t', turn dev block_sz stop i t = .inr t' →
        stop - t'.next_extent_start < stop - t.next_extent_start := by
    intro t ht t' hturn
    have hlt := (turn_eq_inr.mp hturn).1
    have := ((hhead t ht).turn hb hend hfit hturn).2
    omega
  obtain ⟨fuel, ⟨t', st⟩, hrun⟩ :=
    Loop.exists_run (fun t : SparseScan ↦ stop - t.next_extent_start) hmeasure
  obtain ⟨t, ht, hr⟩ := Loop.exists_head hrun
  obtain rfl : t' = t := turn_eq_inl hr
  have hw := hhead _ ht
  have hused := hw.used
  exact ⟨fuel, t', st, hrun, hw.added, by omega⟩

/-! ## Segments that do not fit -/

/-- Where the call is robust, every extent that a turn records is in front of the end. -/
theorem Robust.le_stop (hrob : Robust dev block_sz stop i true s)
    (hhead : Loop.Head (turn dev block_sz stop i) s t) {buffer : List Byte}
    (hlt : t.next_extent_start < stop) (hdev : dev t.next_extent_start = some buffer)
    (h0 : decodeFixed64 buffer ≠ 0) :
    t.next_extent_start + SPARSE_HEADER_SIZE + decodeFixed64 buffer ≤ stop := by
  obtain ⟨fuel, r, st, hrun, ⟨added, hadded, hin⟩, -⟩ := hrob
  have hturn : turn dev block_sz stop i t = .inr (t.push block_sz i (decodeFixed64 buffer)) :=
    turn_eq_inr.mpr ⟨hlt, buffer, hdev, h0, rfl⟩
  obtain ⟨fuel', hrun'⟩ := (hhead.next hturn).run_eq hrun
  obtain ⟨before, hbefore⟩ := extents_prefix_of_head hhead
  have hprefix : s.extents ++ (before ++ [t.extent i (decodeFixed64 buffer)]) <+:
      s.extents ++ added := by
    rw [← hadded, ← List.append_assoc, hbefore]
    exact extents_prefix_of_run hrun'
  have hmem : t.extent i (decodeFixed64 buffer) ∈ added :=
    ((List.prefix_append_right_inj _).mp hprefix).subset (by simp)
  have hle := (hin _ hmem).2
  rw [extent_start hb hend hlt] at hle
  exact hle

theorem Robust.exists_head (hrob : Robust dev block_sz stop i true s) {pos : Nat}
    (h : SegmentAt dev block_sz s.next_extent_start stop pos) :
    ∃ t, Loop.Head (turn dev block_sz stop i) s t ∧ t.next_extent_start = pos := by
  induction h with
  | start => exact ⟨s, .start, rfl⟩
  | next _ hlt hdev h0 ih =>
      obtain ⟨t, hhead, rfl⟩ := ih
      have hle := hrob.le_stop hb hend hhead hlt hdev h0
      exact ⟨_, hhead.next (turn_eq_inr.mpr ⟨hlt, _, hdev, h0, rfl⟩),
        (push_of_le (i := i) hb hend hle).1⟩

theorem Robust.segmentsFit (hrob : Robust dev block_sz stop i true s) :
    SegmentsFit dev block_sz s.next_extent_start stop := by
  intro pos buffer hpos hlt hdev h0
  obtain ⟨t, hhead, rfl⟩ := hrob.exists_head hb hend hpos
  exact hrob.le_stop hb hend hhead hlt hdev h0

/-- Sparse recovery is robust exactly if no header that it gets to promises more than there
is in front of the end; or if it fails before it looks at one. -/
theorem robust_iff (memory : Bool) : Robust dev block_sz stop i memory s ↔
    (memory = true → SegmentsFit dev block_sz s.next_extent_start stop) := by
  refine ⟨?_, fun h ↦ ?_⟩
  · rintro h rfl
    exact h.segmentsFit hb hend
  · cases memory with
    | false => exact ⟨0, s, _, rfl, ⟨[], by simp, by simp⟩, Nat.le_add_right _ _⟩
    | true => exact (h rfl).robust hb hend

end Fit

/-- One header, and as much data behind it as it says. -/
theorem robust_iff_oneSegment :
    Robust (fun _ ↦ some (encodeFixed64 100)) 4096 4096 0 true ⟨0, [], default⟩ := by
  refine (robust_iff (by decide) (by decide) true).mpr fun _ pos buffer hpos hlt hdev h0 ↦ ?_
  obtain rfl : encodeFixed64 100 = buffer := Option.some.inj hdev
  cases hpos with
  | start => decide
  | next _ _ hdev' _ =>
      cases Option.some.inj hdev'
      have hlen : decodeFixed64 (encodeFixed64 100) = 100 := by decide
      have hstep : 100 + SPARSE_HEADER_SIZE + padSize 4096 (100 + SPARSE_HEADER_SIZE) = 4096 := by
        decide
      rw [hlen, hstep] at hlt
      omega

/-- A header of `2 ^ 64 - 8` wraps around together with its own size: the next header is
looked for at the same place, and the loop never ends. -/
theorem recoverSparseExtents_of_wrap {buffer : List Byte} (h64 : s.next_extent_start < 2 ^ 64)
    (hlt : s.next_extent_start < stop) (hdev : dev s.next_extent_start = some buffer)
    (hlen : decodeFixed64 buffer = 2 ^ 64 - SPARSE_HEADER_SIZE) (fuel : Nat) :
    recoverSparseExtents dev block_sz stop i true fuel s = none := by
  refine Loop.run_eq_none (I := fun t ↦ t.next_extent_start = s.next_extent_start) ?_ rfl fuel
  intro t ht
  refine ⟨_, turn_eq_inr.mpr ⟨ht ▸ hlt, buffer, ht ▸ hdev, by rw [hlen]; decide, rfl⟩, ?_⟩
  have hstep : segmentStep block_sz (2 ^ 64 - SPARSE_HEADER_SIZE) = 0 := by
    have hn : (2 ^ 64 - SPARSE_HEADER_SIZE + SPARSE_HEADER_SIZE) % 2 ^ 64 = 0 := by decide
    rw [segmentStep, hn]
    simp
  rw [push, hlen, hstep, Nat.add_zero, ht, Nat.mod_eq_of_lt h64]

/-- A segment of two and a half blocks of which the crash has left one, and a header that
makes the step zero. -/
theorem exists_not_robust :
    ¬ Robust (fun _ ↦ some (encodeFixed64 10000)) 4096 4096 0 true ⟨0, [], default⟩ ∧
      ∀ fuel, recoverSparseExtents (fun _ ↦ some (encodeFixed64 (2 ^ 64 - 8))) 4096 4096 0 true
        fuel ⟨0, [], default⟩ = none := by
  refine ⟨fun h ↦ ?_, recoverSparseExtents_of_wrap (by decide) (by decide) rfl (by decide)⟩
  have hle := h.segmentsFit (by decide) (by decide) 0 _ .start (by decide) rfl (by decide)
  revert hle
  decide

end SparseScan

end ZenFs
