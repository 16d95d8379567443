import ZenFs.Fs.Kept

/-!
# Migration and the layout

A migration copies extents behind the write pointers of free zones and then
exchanges the extent list of the file.  As long as every copy is whole, the new list
reads as the old one did.
-/

namespace ZenFs

namespace Zbd

variable {own : Option ZoneId} {d d' : Zbd} {e : ZoneExtent} {i : ZoneId} {a : Nat}
  {data : List Byte}

/-- The byte at `a` is in front of the write pointer of a zone. -/
def Front (d : Zbd) (a : Nat) : Prop := ∃ i, d.Inside ⟨a, 1, i⟩

theorem Inside.front (h : d.Inside e) {k : Nat} (hk : k < e.length) : d.Front (e.start + k) := by
  have := h.start
  have := h.stop
  refine ⟨e.zone, h.zone, ?_, ?_⟩
  · show (d.zones e.zone).start ≤ e.start + k
    omega
  · show e.start + k + 1 ≤ (d.zones e.zone).wp
    omega

theorem Advances.front (h : Advances own d d') (ha : d.Front a) :
    d'.Front a ∧ d'.mem a = d.mem a := by
  obtain ⟨i, hi⟩ := ha
  refine ⟨⟨i, h.inside hi⟩, ?_⟩
  simpa [Mem.read] using h.bytes _ hi

/-- A zone that was free when its owner took it. -/
theorem Advances.free (h : Advances (some i) d d') (hb : (d.zones i).busy = false) :
    Advances none d d' where
  blockSize := h.blockSize
  zoneSize := h.zoneSize
  nrZones := h.nrZones
  start := h.start
  wp := h.wp
  bytes := h.bytes
  others j _ hj := by
    refine h.others j (fun hij ↦ ?_) hj
    rw [← Option.some.inj hij, hb] at hj
    cases hj

/-- What is free and in front now was so before. -/
theorem Advances.of_behind (h : Advances none d d')
    (hi : (d'.zones i).busy = false ∧ (d'.zones i).wp ≤ a) :
    (d.zones i).busy = false ∧ (d.zones i).wp ≤ a := by
  refine ⟨?_, (h.wp i).trans hi.2⟩
  by_contra hb
  have := (h.others i (by simp) (Bool.eq_true_of_not_eq_false hb)).1
  rw [hi.1] at this
  cases this

theorem advances_finishZones (fs : Fs) (hs : fs.zbd.Sane) (hw : fs.zbd.Writable)
    (is : List ZoneId) :
    Advances none fs.zbd (fs.finishZones is).zbd ∧ (fs.finishZones is).zbd.Sane ∧
      (fs.finishZones is).zbd.Writable := by
  induction is generalizing fs with
  | nil => exact ⟨.refl _ _, hs, hw⟩
  | cons i is ih =>
      have hif : fs.finishZones (i :: is) = Fs.finishZones
          (if fs.zbd.finishable i then { fs with zbd := fs.zbd.finish i }.note (.finish i)
            else fs) is := rfl
      rw [hif]
      split
      · rename_i hf
        obtain ⟨hadv, hs', hw'⟩ := ih ({ fs with zbd := fs.zbd.finish i }.note (.finish i))
          (hs.finish i) (hw.finish hs hf)
        exact ⟨(Advances.finish hs hf).trans hadv, hs', hw'⟩
      · exact ih fs hs hw

end Zbd

namespace Fs

variable {zs : Nat} {fs fs₁ fs₂ fs' : Fs} {r : Ref} {i target : ZoneId} {G : Geometry}
  {e : ZoneExtent} {es es₁ es' : List ZoneExtent} {exts : List (Nat × Nat)}

/-! ## One copy -/

/-- What is in front of an extent and is copied with it. -/
def headerOf (fs : Fs) (r : Ref) : Nat := if (fs.heap r).isSparse then SPARSE_HEADER_SIZE else 0

/-- Nothing keeps the copy of the extent from being whole: no read or write fails, and
the zone has room.  `MigrateFileExtents` looks at none of this. -/
structure Movable (fs : Fs) (r : Ref) (e : ZoneExtent) (target : ZoneId) : Prop where
  block : fs.zbd.blockSize ∣ MIGRATE_STEP
  header : fs.headerOf r ≤ e.start
  start : e.start < 2 ^ 64
  aligned : (e.start - fs.headerOf r) % fs.zbd.blockSize = 0
  length : e.length + fs.headerOf r < 2 ^ 32
  room : e.length + fs.headerOf r + padSize fs.zbd.blockSize (e.length + fs.headerOf r) ≤
    (fs.zbd.zones target).capacity
  reads : fs.env.reads = []
  writes : ∀ calls ∈ fs.env.writes, .failed ∉ calls

instance : Decidable (Movable fs r e target) :=
  decidable_of_iff (fs.zbd.blockSize ∣ MIGRATE_STEP ∧ fs.headerOf r ≤ e.start ∧ e.start < 2 ^ 64 ∧
      (e.start - fs.headerOf r) % fs.zbd.blockSize = 0 ∧ e.length + fs.headerOf r < 2 ^ 32 ∧
      e.length + fs.headerOf r + padSize fs.zbd.blockSize (e.length + fs.headerOf r) ≤
        (fs.zbd.zones target).capacity ∧ fs.env.reads.isEmpty = true ∧ ∀ calls ∈ fs.env.writes,
        .failed ∉ calls)
    ⟨fun ⟨hb, hh, hs, ha, hl, hr, hre, hw⟩ ↦ ⟨hb, hh, hs, ha, hl, hr, List.isEmpty_iff.mp hre, hw⟩,
      fun h ↦ ⟨h.block, h.header, h.start, h.aligned, h.length, h.room,
        List.isEmpty_iff.mpr h.reads, h.writes⟩⟩

/-- The bytes behind `offset` have arrived in the zone. -/
structure Arrived (target : ZoneId) (offset length : Nat) (fs fs' : Fs) (data : List Byte) :
    Prop where
  zbd : fs'.zbd = fs.zbd.appended target data
  size : data.length = length + padSize fs.zbd.blockSize length
  bytes : ∀ k < length, fs.zbd.Front (offset + k) → data[k]? = some (fs.zbd.mem (offset + k))

theorem padSize_of_dvd {bs n : Nat} (h : bs ∣ n) :
    padSize bs n = 0 := if_pos (Nat.mod_eq_zero_of_dvd h)

theorem padSize_sub_of_dvd {bs n k : Nat} (h : bs ∣ k) (hk : k ≤ n) :
    padSize bs (n - k) = padSize bs n := by
  obtain ⟨m, rfl⟩ := Nat.exists_eq_add_of_le hk
  obtain ⟨c, rfl⟩ := h
  simp [padSize]

theorem migrateLoop_arrived (hblock : fs.zbd.blockSize ∣ MIGRATE_STEP) (hs : fs.zbd.Sane)
    (hi : target < fs.zbd.nrZones) (hreads : fs.env.reads = [])
    (hwrites : ∀ calls ∈ fs.env.writes, .failed ∉ calls)
    (fileId offset : Nat) {fuel length : Nat} (hfuel : length < fuel)
    (hroom : length + padSize fs.zbd.blockSize length ≤ (fs.zbd.zones target).capacity) :
    ∃ data, Arrived target offset length fs (fs.migrateLoop target fileId fuel offset length).1
      data := by
  induction fuel generalizing fs offset length with
  | zero => omega
  | succ fuel ih =>
      unfold migrateLoop
      split
      · rename_i hzero
        subst hzero
        exact ⟨[], by rw [Zbd.appended_nil], by simp [padSize], by simp⟩
      · rename_i hlen
        -- one step reads and writes the same bytes
        generalize hsz : min length MIGRATE_STEP = read_sz
        generalize hbytes : fs.zbd.mem.read offset
          (read_sz + padSize fs.zbd.blockSize read_sz) = bytes
        have hread : fs.readDevice offset (read_sz + padSize fs.zbd.blockSize read_sz) =
            ({ fs with env := { fs.env with reads := [] } }, some bytes) := by
          simp [readDevice, hreads, hbytes]
        have hblen : bytes.length = read_sz + padSize fs.zbd.blockSize read_sz := by
          rw [← hbytes, Mem.length_read]
        have hstep : MIGRATE_STEP ≠ 0 := by decide
        have hpos : 0 < read_sz := by omega
        have hrest : bytes.length +
          (length - read_sz + padSize fs.zbd.blockSize (length - read_sz)) =
            length + padSize fs.zbd.blockSize length := by
          rcases Nat.le_total length MIGRATE_STEP with hle | hle
          · have hrs : read_sz = length := by omega
            rw [hblen, hrs, Nat.sub_self]
            simp [padSize]
          · have hrs : read_sz = MIGRATE_STEP := by omega
            rw [hblen, hrs, padSize_of_dvd hblock, padSize_sub_of_dvd hblock hle]
            omega
        have hfit : bytes.length ≤ (fs.zbd.zones target).capacity := by omega
        have hcalls : .failed ∉ fs.env.writes.headD [] := by
          cases hw : fs.env.writes with
          | nil => simp
          | cons calls _ => exact hwrites calls (hw ▸ List.mem_cons_self)
        dsimp only
        rw [hread]
        dsimp only
        generalize hfs₁ : (zoneAppend _ target bytes _).1 = fs₁
        have hzbd : fs₁.zbd = fs.zbd.appended target bytes := by
          rw [← hfs₁]
          unfold zoneAppend
          exact congrArg Prod.fst (fs.zbd.append_of_notMem target hcalls hfit)
        have henv : fs₁.env = { fs.env with reads := [], writes := fs.env.writes.tail } := by
          rw [← hfs₁]
          rfl
        have hadv := Zbd.Advances.appended hs hi hfit
        have hcap : (fs₁.zbd.zones target).capacity = (fs.zbd.zones target).capacity -
            bytes.length := by
          rw [hzbd, Zbd.appended_zones, if_pos rfl]
        obtain ⟨data, ha⟩ := ih (show fs₁.zbd.blockSize ∣ MIGRATE_STEP from hzbd ▸ hblock)
          (hzbd ▸ hs.appended hi hfit) (hzbd ▸ hi)
          (by rw [henv])
          (by rw [henv]; exact fun calls hc ↦ hwrites calls (List.mem_of_mem_tail hc))
          (offset + bytes.length) (show length - read_sz < fuel by omega)
          (by rw [hcap, hzbd, Zbd.appended_blockSize]; omega)
        refine ⟨bytes ++ data, ?_, ?_, fun k hk hfront ↦ ?_⟩
        · rw [ha.zbd, hzbd, Zbd.appended_appended]
        · rw [List.length_append, ha.size, hzbd, Zbd.appended_blockSize, hrest]
        · rcases Nat.lt_or_ge k bytes.length with hkb | hkb
          · rw [List.getElem?_append_left hkb, ← hbytes, Mem.getElem?_read, ← hblen, if_pos hkb]
          · obtain ⟨hfront', hmem⟩ := hadv.front hfront
            have hat : offset + bytes.length + (k - bytes.length) = offset + k := by omega
            have hb := ha.bytes (k - bytes.length) (by omega) (by rw [hzbd, hat]; exact hfront')
            rw [List.getElem?_append_right hkb, hb, hzbd, hat, hmem]

/-- A whole copy reads as the extent does. -/
theorem migrateCopy_arrived (hs : fs.zbd.Sane) (hi : target < fs.zbd.nrZones) (he : fs.zbd.Inside e)
    (hm : Movable fs r e target) :
    ∃ data, (fs.migrateCopy r e target).zbd = fs.zbd.appended target data ∧
      data.length ≤ (fs.zbd.zones target).capacity ∧ fs.headerOf r + e.length ≤ data.length ∧
      (fs.zbd.appended target data).mem.read (fs.migrateStart r target) e.length =
        fs.zbd.mem.read e.start e.length := by
  have hcopy : fs.migrateCopy r e target =
      (fs.migrateLoop target (fs.heap r).fileId (e.length + fs.headerOf r + 1)
        (e.start - fs.headerOf r) (e.length + fs.headerOf r)).1 := by
    have hlen := hm.length
    have halign := hm.aligned
    have hhead := hm.header
    have hstart := hm.start
    unfold migrateCopy migrateData
    dsimp only
    unfold headerOf at hlen halign hhead ⊢
    split
    · rename_i hsp
      rw [if_pos hsp] at hlen halign hhead
      have hoff : (e.start + 2 ^ 64 - SPARSE_HEADER_SIZE) % 2 ^ 64 =
          e.start - SPARSE_HEADER_SIZE := by
        rw [Nat.sub_add_comm hhead, Nat.add_mod_right, Nat.mod_eq_of_lt (by omega)]
      rw [hoff, if_neg (not_not.mpr halign), Nat.mod_eq_of_lt hlen]
    · rename_i hsp
      rw [if_neg hsp] at hlen halign hhead
      rw [Nat.sub_zero] at halign
      rw [Nat.add_zero] at hlen
      rw [if_neg (not_not.mpr halign), Nat.mod_eq_of_lt hlen, Nat.add_zero, Nat.sub_zero]
      rfl
  obtain ⟨data, ha⟩ := migrateLoop_arrived hm.block hs hi hm.reads hm.writes (fs.heap r).fileId
    (e.start - fs.headerOf r) (Nat.lt_succ_self (e.length + fs.headerOf r)) hm.room
  rw [← hcopy] at ha
  have hsize := ha.size
  have hroom := hm.room
  refine ⟨data, ha.zbd, by omega, by omega, ?_⟩
  refine List.map_congr_left fun k hk ↦ ?_
  rw [List.mem_range] at hk
  have hat : e.start - fs.headerOf r + (fs.headerOf r + k) = e.start + k := by
    have := hm.header
    omega
  have hb := ha.bytes (fs.headerOf r + k) (by omega) (by rw [hat]; exact he.front hk)
  rw [hat] at hb
  show (fs.zbd.mem.write (fs.zbd.zones target).wp data) (fs.migrateStart r target + k) = _
  have hstart : fs.migrateStart r target + k - (fs.zbd.zones target).wp = fs.headerOf r + k := by
    unfold migrateStart headerOf
    omega
  have hle : (fs.zbd.zones target).wp ≤ fs.migrateStart r target + k := by
    unfold migrateStart
    omega
  rw [Mem.write, if_pos hle, hstart, List.getD_eq_getElem?_getD, hb, Option.getD_some]

/-! ## One extent -/

/-- Extents have been exchanged for others that read the same and lie in front of the
write pointers, behind what was there before. -/
structure Moves (zs : Nat) (fs : Fs) (es : List ZoneExtent) (fs' : Fs) (es' : List ZoneExtent) :
    Prop where
  safe : Safe zs fs fs'
  live : fs'.live = fs.live
  nextRef : fs'.nextRef = fs.nextRef
  heap : fs'.heap = fs.heap
  writers : fs'.writers = fs.writers
  displaces : Displaces fs fs'
  zbd : fs.zbd.Advances none fs'.zbd
  contents : fs'.zbd.contents es' = fs.zbd.contents es
  inside : ∀ e ∈ es', fs'.zbd.Inside e
  pos : ∀ e ∈ es', 0 < e.length
  apart : es'.Pairwise ZoneExtent.Apart
  fresh : ∀ e ∈ es', e ∈ es ∨ (fs.zbd.zones e.zone).busy = false ∧
    (fs.zbd.zones e.zone).wp ≤ e.start

namespace Moves

/-- An extent that stays where it is, while zones may be finished. -/
theorem stay (hs : Safe zs fs fs') (hl : fs'.live = fs.live) (hn : fs'.nextRef = fs.nextRef)
    (hh : fs'.heap = fs.heap) (hw : fs'.writers = fs.writers) (hhist : Displaces fs fs')
    (hd : fs.zbd.Advances none fs'.zbd) (he : fs.zbd.Inside e) (hp : 0 < e.length) :
    Moves zs fs [e] fs' [e] where
  safe := hs
  live := hl
  nextRef := hn
  heap := hh
  writers := hw
  displaces := hhist
  zbd := hd
  contents := hd.contents fun _ h ↦ List.mem_singleton.mp h ▸ he
  inside _ h := List.mem_singleton.mp h ▸ hd.inside he
  pos _ h := List.mem_singleton.mp h ▸ hp
  apart := List.pairwise_singleton _ _
  fresh _ he' := .inl he'

/-- The rest of the list is moved behind what the first extent has become. -/
theorem cons (h : Moves zs fs [e] fs₁ es) (h' : Moves zs fs₁ es₁ fs₂ es')
    (hf : ∀ r ∈ fs.live, r < fs.nextRef)
    (hin : ∀ e' ∈ es₁, fs.zbd.Inside e') (hap : ∀ e' ∈ es₁, e.Apart e') :
    Moves zs fs (e :: es₁) fs₂ (es ++ es') where
  safe := h.safe.trans h'.safe hf
  live := h'.live.trans h.live
  nextRef := h'.nextRef.trans h.nextRef
  heap := h'.heap.trans h.heap
  writers := h'.writers.trans h.writers
  displaces := h.displaces.trans h'.displaces
  zbd := h.zbd.trans h'.zbd
  contents := by
    rw [Zbd.contents_append, h'.contents, h'.zbd.contents h.inside, h.contents, h.zbd.contents hin]
    simp
  inside e' he' := by
    rcases List.mem_append.mp he' with he' | he'
    · exact h'.zbd.inside (h.inside e' he')
    · exact h'.inside e' he'
  pos e' he' := by
    rcases List.mem_append.mp he' with he' | he'
    · exact h.pos e' he'
    · exact h'.pos e' he'
  apart := by
    refine List.pairwise_append.mpr ⟨h.apart, h'.apart, fun e₁ he₁ e₂ he₂ ↦ ?_⟩
    have hin₁ := h.inside e₁ he₁
    rcases h'.fresh e₂ he₂ with hold | ⟨-, hwp⟩
    · rcases h.fresh e₁ he₁ with he | ⟨-, hwp⟩
      · exact List.mem_singleton.mp he ▸ hap e₂ hold
      · refine (h.safe.laid.sane.apart_of_front (h.zbd.inside (hin e₂ hold)) hin₁ fun hz ↦ ?_).symm
        have := (hin e₂ hold).stop
        rw [hz] at this
        exact this.trans hwp
    · refine h'.safe.laid.sane.apart_of_front (h'.zbd.inside hin₁) (h'.inside e₂ he₂) fun hz ↦ ?_
      have := hin₁.stop
      rw [hz] at this
      exact this.trans hwp
  fresh e' he' := by
    rcases List.mem_append.mp he' with he' | he'
    · exact (h.fresh e' he').imp_left fun he ↦ List.mem_cons.mpr (.inl (List.mem_singleton.mp he))
    · exact (h'.fresh e' he').imp (List.mem_cons_of_mem e) h.zbd.of_behind

theorem trans (h : Moves zs fs es fs₁ es₁) (h' : Moves zs fs₁ es₁ fs₂ es')
    (hf : ∀ r ∈ fs.live, r < fs.nextRef) : Moves zs fs es fs₂ es' where
  safe := h.safe.trans h'.safe hf
  live := h'.live.trans h.live
  nextRef := h'.nextRef.trans h.nextRef
  heap := h'.heap.trans h.heap
  writers := h'.writers.trans h.writers
  displaces := h.displaces.trans h'.displaces
  zbd := h.zbd.trans h'.zbd
  contents := h'.contents.trans h.contents
  inside := h'.inside
  pos := h'.pos
  apart := h'.apart
  fresh e he := by
    rcases h'.fresh e he with he₁ | hnew
    · exact h.fresh e he₁
    · exact .inr (h.zbd.of_behind hnew)

/-- An extent that has gone behind a write pointer is not where it was. -/
theorem start_ne {e' : ZoneExtent} (h : Moves zs fs [e] fs' [e']) (he : fs.zbd.Inside e)
    (hp : 0 < e.length) (hwp : (fs.zbd.zones e'.zone).wp ≤ e'.start) : e'.start ≠ e.start := by
  have hp' := h.pos e' List.mem_cons_self
  have hap : e.Apart e' := by
    refine h.safe.laid.sane.apart_of_front (h.zbd.inside he) (h.inside e' List.mem_cons_self)
      fun hz ↦ ?_
    have := he.stop
    rw [hz] at this
    exact this.trans hwp
  unfold ZoneExtent.Apart at hap
  omega

end Moves

/-- A whole copy of an extent into a free zone. -/
theorem Moves.copy (hl : Laid zs fs) (ho : OpenLive fs) (hf : ∀ r ∈ fs.live, r < fs.nextRef)
    (he : fs.zbd.Inside e) (hp : 0 < e.length) (hel : fs.zbd.eligible target = true)
    (h₁ : fs₁ = { fs with zbd := fs.zbd.setBusy target true }) (hm : Movable fs₁ r e target)
    (h₂ : fs₂ = fs₁.migrateCopy r e target) :
    Moves zs fs [e] ((fs₂.addUsed target e.length).releaseZone target)
      [⟨fs₁.migrateStart r target, e.length, target⟩] := by
  simp only [Zbd.eligible, Bool.and_eq_true, decide_eq_true_eq, Bool.not_eq_true'] at hel
  obtain ⟨⟨hi, hb⟩, -⟩ := hel
  have hz₁ : fs.zbd.SameZones fs₁.zbd := by
    rw [h₁]
    exact Zbd.sameZones_setBusy _ _ _
  have hs₁ := hz₁.sane hl.sane
  have hi₁ : target < fs₁.zbd.nrZones := hz₁.nrZones ▸ hi
  obtain ⟨data, hd, hcap, hlen, hread⟩ := migrateCopy_arrived hs₁ hi₁ (hz₁.inside he) hm
  obtain ⟨env, evs, henv, hcopy, heq⟩ := (migrateCopy_copied fs₁ r e target).eq
  rw [← h₂] at hd heq
  have hbusy : ∀ j, j ≠ target → (fs₁.zbd.zones j).busy = (fs.zbd.zones j).busy := fun j hj ↦ by
    rw [h₁, setBusy_zones, if_neg hj]
  -- the zone is free before and after, and only its owner has written to it
  have hz₂ : (fs₁.zbd.appended target data).SameZones
      ((fs₂.zbd.addUsed target e.length).setBusy target false) := by
    rw [hd]
    exact (Zbd.OnlyUsed.addUsed _ _ _).sameZones.trans (Zbd.sameZones_setBusy _ _ _)
  generalize hd' : (fs₂.zbd.addUsed target e.length).setBusy target false = d' at hz₂
  have hbusy' : ∀ j, j ≠ target →
      (d'.zones j).busy = ((fs₁.zbd.appended target data).zones j).busy := by
    intro j hj
    rw [← hd', setBusy_zones, if_neg hj, (Zbd.OnlyUsed.addUsed fs₂.zbd target e.length).busy, hd]
  have hadv : fs.zbd.Advances none d' := by
    refine Zbd.Advances.free (i := target) (.trans (.of_sameZones hz₁ fun j hj hjb ↦ ?_)
      (.trans (.appended hs₁ hi₁ hcap) (.of_sameZones hz₂ fun j hj hjb ↦ ?_))) hb
    · exact (hbusy j fun h ↦ hj (congrArg some h.symm)).trans hjb
    · exact (hbusy' j fun h ↦ hj (congrArg some h.symm)).trans hjb
  have hs' := hz₂.sane (hs₁.appended hi₁ hcap)
  have hw' := hz₂.writable (hs₁.writable_appended (hz₁.writable hl.writable))
  obtain ⟨ovf, hfs'⟩ : ∃ ovf, (fs₂.addUsed target e.length).releaseZone target =
      { fs with zbd := d', env := env, hist := fs.hist ++ evs, overflowed := ovf } := by
    refine ⟨(fs₂.addUsed target e.length).overflowed, ?_⟩
    unfold releaseZone
    rw [addUsed_zbd, hd']
    simp only [addUsed, heq, h₁]
  have henv' : env.Orderly zs :=
    have h : fs.env.Later env := by simpa [h₁] using henv
    ⟨h.resets ▸ hl.env.resets, h.closes ▸ hl.env.closes⟩
  have hsafe : Safe zs fs { fs with
      zbd := d', env := env, hist := fs.hist ++ evs, overflowed := ovf } := by
    have ha : Safe zs fs { fs with zbd := d' } :=
      ⟨hl.advance ho hadv hs' hw', hl.keeps_advance hadv,
      fun k w hw ↦ ho k w ⟨hw.writer, hw.isOpen⟩⟩
    have hb := ha.trans (.setEnv ha.laid ha.openLive henv') hf
    exact hb.trans (.of_same (.of_eq (.refl _) (fun _ h ↦ h) rfl (fun _ ↦ rfl) rfl (.refl _))
      hb.laid hb.openLive rfl) hf
  have hwp : (fs₁.zbd.zones target).wp = (fs.zbd.zones target).wp := hz₁.wp target
  have hstart : fs₁.migrateStart r target = (fs.zbd.zones target).wp + fs₁.headerOf r := by
    unfold migrateStart headerOf
    rw [hwp]
  have hwp' : (d'.zones target).wp = (fs.zbd.zones target).wp + data.length := by
    rw [hz₂.wp, Zbd.appended_zones, if_pos rfl, hwp]
  rw [hfs']
  exact {
    safe := hsafe
    live := rfl
    nextRef := rfl
    heap := rfl
    writers := rfl
    displaces := by
      refine ⟨evs, rfl, fun hmem ↦ ?_⟩
      obtain ⟨data, h⟩ := hcopy _ hmem
      cases h
    zbd := hadv
    contents := by
      show d'.contents _ = _
      rw [hz₂.contents, Zbd.contents_cons, Zbd.contents_cons, hread, hz₁.mem]
      rfl
    inside := fun e' he' ↦ by
      obtain rfl := List.mem_singleton.mp he'
      have := hl.sane.wp target hi
      refine ⟨hadv.nrZones ▸ hi, ?_, ?_⟩
      · show (d'.zones target).start ≤ fs₁.migrateStart r target
        rw [hadv.start, hstart]
        omega
      · show fs₁.migrateStart r target + e.length ≤ (d'.zones target).wp
        rw [hwp', hstart]
        omega
    pos := fun e' he' ↦ by
      obtain rfl := List.mem_singleton.mp he'
      exact hp
    apart := List.pairwise_singleton _ _
    fresh := fun e' he' ↦ by
      obtain rfl := List.mem_singleton.mp he'
      refine .inr ⟨hb, ?_⟩
      show (fs.zbd.zones target).wp ≤ fs₁.migrateStart r target
      rw [hstart]
      exact Nat.le_add_right _ _ }

/-- Every extent that the allocator finds a zone for is copied whole. -/
def MovesWhole (r : Ref) (exts : List (Nat × Nat)) : List ZoneExtent → Fs → Prop
  | [], _ => True
  | e :: es, fs =>
      ((e.start, e.length) ∈ exts → ∀ target ∈ fs.allocateIOZoneNoLock.2,
        Movable fs.allocateIOZoneNoLock.1 r e target) ∧
        MovesWhole r exts es (fs.migrateExtent r exts e).1

instance MovesWhole.decidable (r : Ref) (exts : List (Nat × Nat)) :
    (es : List ZoneExtent) → (fs : Fs) → Decidable (MovesWhole r exts es fs)
  | [], _ => .isTrue trivial
  | e :: es, fs =>
      have := MovesWhole.decidable r exts es (fs.migrateExtent r exts e).1
      inferInstanceAs (Decidable (_ ∧ _))

theorem migrateExtent_moves (hl : Laid zs fs) (ho : OpenLive fs)
    (hf : ∀ r ∈ fs.live, r < fs.nextRef) (he : fs.zbd.Inside e) (hp : 0 < e.length)
    (hm : (e.start, e.length) ∈ exts → ∀ target ∈ fs.allocateIOZoneNoLock.2,
      Movable fs.allocateIOZoneNoLock.1 r e target) :
    Moves zs fs [e] (fs.migrateExtent r exts e).1 [(fs.migrateExtent r exts e).2] := by
  unfold migrateExtent
  split
  · rename_i hmem
    have hm := hm hmem
    obtain ⟨ps, is, h | ⟨i, fs₁, h₁, hel, h⟩⟩ := fs.allocateIOZoneNoLock_cases
    all_goals
      rw [h] at hm ⊢
      have hpick := Safe.picked hl ho hf ps is
      obtain ⟨hlive, hnext, hheap, hwr⟩ :=
      finishZones_frame { fs with env := { fs.env with picks := ps } } is
      have hdis : Displaces fs _ := .finishZones { fs with env := { fs.env with picks := ps } } is
      obtain ⟨hadv, -⟩ :=
        Zbd.advances_finishZones { fs with env := { fs.env with picks := ps } } hl.sane
        hl.writable is
    · exact .stay hpick hlive hnext hheap hwr hdis hadv he hp
    · rw [← h₁] at hpick hlive hnext hheap hwr hdis hadv
      dsimp only
      have hf₁ : ∀ r ∈ fs₁.live, r < fs₁.nextRef := by
        rw [hlive, hnext]
        exact hf
      have hcopy := Moves.copy hpick.laid hpick.openLive hf₁ (hadv.inside he) hp hel rfl
        (hm i rfl) rfl
      have hwp : (fs₁.zbd.zones i).wp ≤
          migrateStart { fs₁ with zbd := fs₁.zbd.setBusy i true } r i := by
        unfold migrateStart
        rw [(Zbd.sameZones_setBusy fs₁.zbd i true).wp]
        exact Nat.le_add_right _ _
      rw [if_neg (hcopy.start_ne (hadv.inside he) hp hwp)]
      exact (Moves.stay hpick hlive hnext hheap hwr hdis hadv he hp).trans hcopy hf
  · exact .stay (.refl hl ho) rfl rfl rfl rfl (.refl fs) (.refl _ _) he hp

/-! ## All extents of a file -/

theorem migrateAll_moves (hl : Laid zs fs) (ho : OpenLive fs) (hf : ∀ r ∈ fs.live, r < fs.nextRef)
    (hin : ∀ e ∈ es, fs.zbd.Inside e) (hp : ∀ e ∈ es, 0 < e.length)
    (hap : es.Pairwise ZoneExtent.Apart)
    (hm : MovesWhole r exts es fs) :
    Moves zs fs es (migrateAll r exts es fs).1 (migrateAll r exts es fs).2 := by
  induction es generalizing fs with
  | nil =>
      exact {
        safe := .refl hl ho
        live := rfl
        nextRef := rfl
        heap := rfl
        writers := rfl
        displaces := .refl fs
        zbd := .refl _ _
        contents := rfl
        inside := hin
        pos := hp
        apart := .nil
        fresh := fun _ he ↦ .inl he }
  | cons e es ih =>
      obtain ⟨hme, hmes⟩ := hm
      obtain ⟨hape, hapes⟩ := List.pairwise_cons.mp hap
      have hines : ∀ e' ∈ es, fs.zbd.Inside e' := fun e' he' ↦ hin e' (List.mem_cons_of_mem e he')
      have h := migrateExtent_moves hl ho hf (hin e List.mem_cons_self)
        (hp e List.mem_cons_self) hme
      have hf₁ : ∀ r' ∈ (fs.migrateExtent r exts e).1.live,
          r' < (fs.migrateExtent r exts e).1.nextRef := by
        rw [h.live, h.nextRef]
        exact hf
      have h' := ih h.safe.laid h.safe.openLive hf₁ (fun e' he' ↦ h.zbd.inside (hines e' he'))
        (fun e' he' ↦ hp e' (List.mem_cons_of_mem e he')) hapes hmes
      exact h.cons h' hf hines hape

/-- A file that nobody writes to gets other extents, which read the same. -/
theorem Safe.setExtents (hl : Laid zs fs) (ho : OpenLive fs) (hr : r ∈ fs.live)
    (hnone : (fs.heap r).activeZone = none) (hc : fs.zbd.contents es = fs.recorded r)
    (hin : ∀ e ∈ es, fs.zbd.Inside e) (hp : ∀ e ∈ es, 0 < e.length)
    (hap : es.Pairwise ZoneExtent.Apart)
    (hal : ∀ r' ∈ fs.live, r ≠ r' → ∀ e ∈ es, ∀ e' ∈ (fs.heap r').extents, e.Apart e')
    (hfront : ∀ r' ∈ fs.live, ∀ i, (fs.heap r').activeZone = some i → ∀ e ∈ es, e.zone = i →
      e.start + e.length ≤ (fs.heap r').extentStart) :
    Safe zs fs (fs.setFile r { fs.heap r with extents := es }.metadataUnsynced) := by
  generalize hfs' : fs.setFile r { fs.heap r with extents := es }.metadataUnsynced = fs'
  have hself : fs'.heap r = { fs.heap r with extents := es }.metadataUnsynced := by
    simp [← hfs', setFile]
  have hother : ∀ r' ≠ r, fs'.heap r' = fs.heap r' := fun r' hne ↦ by simp [← hfs', setFile, hne]
  have hzbd : fs'.zbd = fs.zbd := by rw [← hfs']; rfl
  have hlive : fs'.live = fs.live := by rw [← hfs']; rfl
  have hopen : ∀ {k w}, OpenAt fs' k w → OpenAt fs k w := fun hw ↦ by
    rw [← hfs'] at hw
    exact ⟨hw.writer, hw.isOpen⟩
  have hsame : ∀ r', (fs'.heap r').activeZone = (fs.heap r').activeZone ∧
      (fs'.heap r').extentStart = (fs.heap r').extentStart ∧
      (fs'.heap r').extentFilepos = (fs.heap r').extentFilepos ∧
      (fs'.heap r').fileSize = (fs.heap r').fileSize ∧
      (fs'.heap r').openForWr = (fs.heap r').openForWr := by
    intro r'
    by_cases hne : r' = r
    · subst hne
      rw [hself]
      exact ⟨rfl, rfl, rfl, rfl, rfl⟩
    · rw [hother r' hne]
      exact ⟨rfl, rfl, rfl, rfl, rfl⟩
  have hext : (fs'.heap r).extents = es := by rw [hself]; rfl
  have hmem : ∀ r' ∈ fs.live, ∀ e ∈ (fs'.heap r').extents, e ∈ (fs.heap r').extents ∨
      r' = r ∧ e ∈ es := by
    intro r' _ e he
    by_cases hne : r' = r
    · subst hne
      exact .inr ⟨rfl, hext ▸ he⟩
    · exact .inl (hother r' hne ▸ he)
  have hstored : Stored fs' := {
    sane := hzbd ▸ hl.sane
    inside := fun r' hr' e he ↦ by
      rw [hlive] at hr'
      rw [hzbd]
      rcases hmem r' hr' e he with he | ⟨-, he⟩
      · exact hl.inside r' hr' e he
      · exact hin e he
    pos := fun r' hr' e he ↦ by
      rw [hlive] at hr'
      rcases hmem r' hr' e he with he | ⟨-, he⟩
      · exact hl.pos r' hr' e he
      · exact hp e he
    apart := fun r' hr' ↦ by
      rw [hlive] at hr'
      by_cases hne : r' = r
      · subst hne
        exact hext ▸ hap
      · rw [hother r' hne]
        exact hl.apart r' hr'
    alone := fun r₁ hr₁ r₂ hr₂ hne e he e' he' ↦ by
      rw [hlive] at hr₁ hr₂
      by_cases h₁ : r₁ = r
      · subst h₁
        rw [hext] at he
        rw [hother r₂ (Ne.symm hne)] at he'
        exact hal r₂ hr₂ hne e he e' he'
      · rw [hother r₁ h₁] at he
        by_cases h₂ : r₂ = r
        · subst h₂
          rw [hext] at he'
          exact (hal r₁ hr₁ (Ne.symm hne) e' he' e he).symm
        · rw [hother r₂ h₂] at he'
          exact hl.alone r₁ hr₁ r₂ hr₂ hne e he e' he' }
  refine ⟨{
    toStored := hstored
    size := hzbd ▸ hl.size
    writable := hzbd ▸ hl.writable
    env := by rw [← hfs']; exact hl.env
    active := fun r₁ hr₁ i hi ↦ by
      rw [hlive] at hr₁
      rw [(hsame r₁).1] at hi
      have ha := hl.active r₁ hr₁ i hi
      refine ⟨hzbd ▸ ha.zone, hzbd ▸ ha.busy, ?_, ?_, fun r' hr' e he hz ↦ ?_⟩
      · rw [hzbd, (hsame r₁).2.1]
        exact ha.start
      · rw [hzbd, (hsame r₁).2.1]
        exact ha.wp
      · rw [hlive] at hr'
        rw [(hsame r₁).2.1]
        rcases hmem r' hr' e he with he | ⟨rfl, he⟩
        · exact ha.front r' hr' e he hz
        · exact hfront r₁ hr₁ i hi e he hz
    exclusive := fun r₁ hr₁ r₂ hr₂ i hi₁ hi₂ ↦
      hl.exclusive r₁ (hlive ▸ hr₁) r₂ (hlive ▸ hr₂) i ((hsame r₁).1 ▸ hi₁) ((hsame r₂).1 ▸ hi₂)
    idle := fun r' hr' hcl ↦
      (hsame r').1.trans (hl.idle r' (hlive ▸ hr') ((hsame r').2.2.2.2 ▸ hcl))
    opened := fun k w hw ↦ (hsame w.file).2.2.2.2.trans (hl.opened k w (hopen hw))
    unique := fun k w k' w' hw hw' ↦ hl.unique k w k' w' (hopen hw) (hopen hw')
    direct := fun k w i hw hb hi ↦ by
      obtain ⟨ha, hs, hp, hz, -⟩ := hsame w.file
      rw [hs, hp, hz, hzbd]
      exact hl.direct k w i (hopen hw) hb (ha ▸ hi)
    buffered := fun k w i hw hb hi ↦ hzbd ▸ hl.buffered k w i (hopen hw) hb
      ((hsame w.file).1 ▸ hi) },
    ⟨?_, fun _ hr' _ ↦ hlive ▸ hr', fun r' hr' _ ↦ ?_⟩, fun k w hw ↦ hlive ▸ ho k w (hopen hw)⟩
  · rw [← hfs']
    exact Nat.le_refl _
  · show fs.recorded r' <+: fs'.zbd.contents (fs'.heap r').extents
    rw [hzbd]
    by_cases hne : r' = r
    · subst hne
      rw [hext, hc]
    · rw [hother r' hne]
      exact List.prefix_rfl

/-- Whatever the migrated list becomes on the device, only the metadata and the counters
follow. -/
theorem syncFileExtents_still (fs : Fs) (r : Ref) (es : List ZoneExtent) :
    let fs₁ := fs.setFile r { fs.heap r with extents := es }.metadataUnsynced
    Still fs₁ (fs.syncFileExtents G r es).1 ∧ (fs.syncFileExtents G r es).1.live = fs.live ∧
      (fs.syncFileExtents G r es).1.writers = fs.writers := by
  dsimp only
  unfold Fs.syncFileExtents
  have h := metaOnly_syncFileMetadataNoLock (G := G)
    (fs.setFile r { fs.heap r with extents := es }.metadataUnsynced) r true
  refine andThen_cases (P := fun x ↦ Still _ x.1 ∧ x.1.live = fs.live ∧ x.1.writers = fs.writers)
    (fun _ ↦ ⟨.of_metaOnly h, h.live, h.writers⟩) fun _ ↦ ?_
  rw [clearChanged_eq]
  exact ⟨(Still.of_metaOnly h).trans (.zbd _ (.clearExtents _ _)), h.live, h.writers⟩

namespace Displaces

theorem withLog (fs : Fs) (log : MetaState) : Displaces fs (fs.withLog log) := by
  refine ⟨_, rfl, fun hmem ↦ ?_⟩
  obtain ⟨c, -, hc⟩ := List.mem_map.mp hmem
  cases hc

theorem persistRecord (fs : Fs) (rec : Record) : Displaces fs (fs.persistRecord G rec).1 := by
  obtain ⟨log, -, -, -, ⟨-, h | h⟩ | ⟨-, h⟩⟩ := fs.persistRecord_cases (G := G) rec
  · exact h ▸ .withLog fs log
  · exact h ▸ .withLog fs log
  · exact h ▸ (Displaces.withLog fs log).trans ⟨[.persistFailed], rfl, by simp⟩

theorem syncFileExtents (fs : Fs) (r : Ref) (es : List ZoneExtent) :
    Displaces fs (fs.syncFileExtents G r es).1 := by
  generalize hset : fs.setFile r { fs.heap r with extents := es }.metadataUnsynced = fs₁
  have hdis : Displaces fs (fs₁.syncFileMetadataNoLock G r true).1 := by
    subst hset
    unfold syncFileMetadataNoLock
    split
    · exact .refl _
    · exact andThen_cases (P := fun x ↦ Displaces fs x.1) (fun _ ↦ persistRecord ..) fun _ ↦
        persistRecord ..
  unfold Fs.syncFileExtents
  subst hset
  exact andThen_cases (P := fun x ↦ Displaces fs x.1) (fun _ ↦ hdis) fun _ ↦ hdis

end Displaces

/-- The migrations that a run may contain. -/
def MigratesWhole (fs : Fs) (fname : Name) (exts : List (Nat × Nat)) : Prop :=
  ∀ r ∈ fs.files.lookup fname, (fs.heap r).openForWr = false →
    MovesWhole r exts (fs.heap r).extents
      ((fs.hold r (.localVar 0)).setFile r { fs.heap r with openForWr := true })

instance (fs : Fs) (fname : Name) (exts : List (Nat × Nat)) :
    Decidable (fs.MigratesWhole fname exts) :=
  inferInstanceAs (Decidable (∀ r ∈ fs.files.lookup fname, (fs.heap r).openForWr = false → _))

theorem Safe.migrateFileExtents (hl : Laid zs fs) (ho : OpenLive fs)
    (hf : ∀ r ∈ fs.live, r < fs.nextRef)
    (hn : ∀ n r, fs.files.lookup n = some r → r ∈ fs.live) {fname : Name}
    (hm : fs.MigratesWhole fname exts) (ho' : OpenLive (fs.migrateFileExtents G fname exts).1) :
    Safe zs fs (fs.migrateFileExtents G fname exts).1 ∧
      Displaces fs (fs.migrateFileExtents G fname exts).1 := by
  obtain heq | ⟨r, fs₁, fs₂, es, fs₃, hlook, hcl, h₁, h₂, h₃, heq⟩ :=
    fs.migrateFileExtents_cases G fname exts
  · rw [heq]
    exact ⟨.refl hl ho, .refl fs⟩
  · have hr := hn fname r hlook
    have hnone := hl.idle r hr hcl
    have hnobody : ∀ k w, OpenAt fs k w → w.file ≠ r := by
      rintro k w hw rfl
      exact Bool.false_ne_true (hcl.symm.trans (hl.opened k w hw))
    have hs₀ : Safe zs fs (fs.hold r (.localVar 0)) := .of_same (.hold fs r _) hl ho rfl
    have hs₁ : Safe zs fs fs₁ := by
      rw [h₁]
      have hg : Goes zs (fs.hold r (.localVar 0)) r [] ((fs.hold r (.localVar 0)).setFile r
          { (fs.hold r (.localVar 0)).heap r with openForWr := true }) :=
        .setOpenForWr hs₀.laid hr hnone fun _ _ _ _ ↦ rfl
      exact hs₀.trans (.of_goes hg hs₀.laid hs₀.openLive hr) hf
    have hext : (fs₁.heap r).extents = (fs.heap r).extents := by
      rw [h₁]
      simp [setFile]
    have hr₁ : r ∈ fs₁.live := by
      rw [h₁]
      exact hr
    have hmv : Moves zs fs₁ (fs₁.heap r).extents fs₂ es := by
      have h := migrateAll_moves hs₁.laid hs₁.openLive (by rw [h₁]; exact hf)
        (hs₁.laid.inside r hr₁) (hs₁.laid.pos r hr₁) (hs₁.laid.apart r hr₁)
        (show MovesWhole r exts _ fs₁ by rw [hext, h₁]; exact hm r hlook hcl)
      rw [hext] at h ⊢
      rw [h₂] at h
      exact h
    have hs₂ := hs₁.trans hmv.safe hf
    have hnone₂ : (fs₂.heap r).activeZone = none := by
      rw [hmv.heap, h₁]
      simpa [setFile] using hnone
    -- what is new lies behind what the others have, in zones that nobody writes to
    have hset : Safe zs fs₂ (fs₂.setFile r { fs₂.heap r with extents := es }.metadataUnsynced) := by
      refine .setExtents hmv.safe.laid hmv.safe.openLive (hmv.live ▸ hr₁) hnone₂ ?_ hmv.inside
        hmv.pos hmv.apart ?_ ?_
      · show _ = fs₂.zbd.contents (fs₂.heap r).extents
        rw [hmv.contents, hmv.heap, hmv.zbd.contents (hs₁.laid.inside r hr₁)]
      · intro r' hr' hne e he e' he'
        rw [hmv.live] at hr'
        rw [hmv.heap] at he'
        rcases hmv.fresh e he with he | ⟨-, hwp⟩
        · exact hs₁.laid.alone r hr₁ r' hr' hne e he e' he'
        · have hin := hs₁.laid.inside r' hr' e' he'
          refine (hs₂.laid.sane.apart_of_front (hmv.zbd.inside hin) (hmv.inside e he)
            fun hz ↦ ?_).symm
          have := hin.stop
          rw [hz] at this
          exact this.trans hwp
      · intro r' hr' i hi e he hz
        rw [hmv.live] at hr'
        rw [hmv.heap] at hi ⊢
        have ha := hs₁.laid.active r' hr' i hi
        rcases hmv.fresh e he with he | ⟨hb, -⟩
        · exact ha.front r hr₁ e he hz
        · rw [hz, ha.busy] at hb
          cases hb
    obtain ⟨hstill, hlive₃, hwr₃⟩ := syncFileExtents_still (G := G) fs₂ r es
    rw [← h₃] at hstill hlive₃ hwr₃
    have hs₃ := (hs₂.trans hset hf).trans (.of_same hstill hset.laid hset.openLive hlive₃) hf
    have hnone₃ : (fs₃.heap r).activeZone = none := by
      rw [hstill.activeZone]
      simpa [setFile, ZoneFile.metadataUnsynced] using hnone₂
    have hr₃ : r ∈ fs₃.live := by
      rw [hlive₃, hmv.live]
      exact hr₁
    have hnobody₃ : ∀ k w, OpenAt fs₃ k w → w.file = r → false = true := by
      intro k w hw hfile
      refine absurd hfile (hnobody k w ⟨?_, hw.isOpen⟩)
      have := hw.writer
      rw [hwr₃, hmv.writers, h₁] at this
      exact this
    have hs₄ := hs₃.trans (.of_goes (.setOpenForWr hs₃.laid hr₃ hnone₃ hnobody₃) hs₃.laid
      hs₃.openLive hr₃) hf
    have hdis : Displaces fs fs₃ := by
      have h := hmv.displaces.trans (.syncFileExtents (G := G) fs₂ r es)
      rw [← h₃] at h
      subst h₁
      exact h
    rw [heq] at ho' ⊢
    exact ⟨hs₄.trans (.of_still (.drop _ _ _) hs₄.laid ho') hf, hdis⟩

end Fs

end ZenFs
